import SchemaForge.Declaration.Extensions

/-!
# Adding fields to several types at once

Fields for several types are added type by type, and nothing is taken back. So if what stands
for the fields of some type is no mapping, then the types before it have their new fields, and
it and the types after it have not. What is added is merged: a field that was there gets its new
declaration, everything else stays, and types and fields are in the order in which they first
came.

The names of a mapping are all different; what was registered before can be anything.
-/
namespace SchemaForge

namespace Table

variable {α β : Type}

/-- Steps that each add at most a name of their own leave the names that were there, and the new
ones follow in the order of the steps. -/
theorem keys_foldl {step : Table α → String × β → Table α}
    (hstep : ∀ t e, keys (step t e) = if has t e.1 then keys t else keys t ++ [e.1])
    (t : Table α) {more : Table β} (hmore : (keys more).Nodup) :
    keys (more.foldl step t) = keys t ++ (keys more).filter fun key => !has t key := by
  induction more generalizing t with
  | nil => simp [keys]
  | cons e more ih =>
    obtain ⟨hnew, hmore⟩ := List.nodup_cons.mp hmore
    have hother : ∀ key ∈ keys more, has (step t e) key = has t key := by
      intro key hkey
      have hne : key ≠ e.1 := fun heq => hnew (heq ▸ hkey)
      rw [Bool.eq_iff_iff, ← mem_keys_iff, ← mem_keys_iff, hstep]
      split <;> simp [hne]
    have hrest : (keys more).filter (fun key => !has (step t e) key)
        = (keys more).filter fun key => !has t key :=
      List.filter_congr fun key hkey => by rw [hother key hkey]
    rw [List.foldl_cons, ih (step t e) hmore, hrest, hstep, show keys (e :: more) = e.1 :: keys more
      from rfl, List.filter_cons]
    cases has t e.1 <;> simp

/-- An entry of a table that is laid over another one counts. -/
theorem get?_putAll (t : Table α) {more : Table α} (hmore : (keys more).Nodup) (key : String) :
    get? (putAll t more) key = (get? more key).or (get? t key) := by
  induction more generalizing t with
  | nil => rfl
  | cons e more ih =>
    obtain ⟨hnew, hmore⟩ := List.nodup_cons.mp hmore
    have hfirst : putAll t (e :: more) = putAll (put t e.1 e.2) more := rfl
    rw [hfirst, ih _ hmore, get?_put, get?_cons]
    by_cases hkey : key = e.1
    · have hnone : get? more key = none := by
        rw [get?_eq_none_iff, ← Bool.not_eq_true, ← mem_keys_iff, hkey]
        exact hnew
      simp [hkey ▸ hnone, hkey]
    · simp [hkey]

theorem keys_putAll (t : Table α) {more : Table α} (hmore : (keys more).Nodup) :
    keys (putAll t more) = keys t ++ (keys more).filter fun key => !has t key :=
  keys_foldl (fun t e => keys_put t e.1 e.2) t hmore

theorem keys_update (t : Table α) (key : String) (start : α) (f : α → α) :
    keys (update t key start f) = if has t key then keys t else keys t ++ [key] := by
  rw [update, keys_modify, keys_ensure]

end Table

/-- Fields by type. -/
abbrev FieldTables := Table (List (String × FieldEntry))

namespace FieldTables

/-- The fields of a type. -/
def of (t : FieldTables) (type : String) : List (String × FieldEntry) := (t.get? type).getD []

/-- The declaration of a field. -/
def field? (t : FieldTables) (type field : String) : Option FieldEntry :=
  Table.get? (t.of type) field

/-- Add fields to one type. -/
def merge (t : FieldTables) (e : String × List (String × FieldEntry)) : FieldTables :=
  t.update e.1 [] fun known => Table.putAll known e.2

/-- The mapping from types to mappings of fields that they make. -/
def mapping (t : FieldTables) : List (String × FieldMap) := t.map fun e => (e.1, .fields e.2)

/-- All names in a mapping are different, and so are those of the fields of each type. -/
structure Distinct (t : FieldTables) : Prop where
  /-- The types. -/
  types : (Table.keys t).Nodup
  /-- The fields of a type. -/
  fields : ∀ e ∈ t, (Table.keys e.2).Nodup

theorem Distinct.of_cons {e : String × List (String × FieldEntry)} {t : FieldTables}
    (h : Distinct (e :: t)) : Distinct t :=
  ⟨(List.nodup_cons.mp h.types).2, fun f hf => h.fields f (List.mem_cons_of_mem e hf)⟩

theorem of_merge (t : FieldTables) (e : String × List (String × FieldEntry)) (type : String) :
    (t.merge e).of type = if type = e.1 then Table.putAll (t.of type) e.2 else t.of type := by
  rw [of, merge, Table.get?_update]
  by_cases htype : type = e.1
  · rw [if_pos (beq_iff_eq.mpr htype), if_pos htype, of, htype]
    rfl
  · rw [if_neg (mt beq_iff_eq.mp htype), if_neg htype, of]

/-- When all types have their new fields, those of each are laid over what it had. -/
theorem of_mergeAll {more : FieldTables} (hmore : more.Distinct) (t : FieldTables) (type : String) :
    FieldTables.of (more.foldl merge t) type = Table.putAll (t.of type) (more.of type) := by
  induction more generalizing t with
  | nil => rfl
  | cons e more ih =>
    have hcons : of (e :: more) type = if type = e.1 then e.2 else of more type := by
      rw [of, Table.get?_cons]
      by_cases htype : type = e.1 <;> simp [htype, of]
    rw [List.foldl_cons, ih hmore.of_cons, of_merge, hcons]
    by_cases htype : type = e.1
    · have hnone : of more type = [] := by
        have hnew : ¬type ∈ Table.keys more := htype ▸ (List.nodup_cons.mp hmore.types).1
        rw [Table.mem_keys_iff, Bool.not_eq_true, ← Table.get?_eq_none_iff] at hnew
        rw [of, hnew]
        rfl
      rw [if_pos htype, if_pos htype, hnone]
      rfl
    · rw [if_neg htype, if_neg htype]

theorem Distinct.nodup_of {t : FieldTables} (h : t.Distinct) (type : String) :
    (Table.keys (t.of type)).Nodup := by
  unfold of
  cases hget : t.get? type with
  | none => exact List.nodup_nil
  | some fields => exact h.fields _ (Table.mem_of_get? hget)

end FieldTables

namespace Extensions

open FieldTables

/-- Fields are merged into what is registered. -/
structure Merges (x : Extensions) (given : FieldTables) (y : Extensions) : Prop where
  /-- Policies stay. -/
  policies : y.policies = x.policies
  /-- So do alternate names. -/
  aliases : y.aliases = x.aliases
  /-- A field has its new declaration if there is one, and else the one that it had. -/
  declarations : ∀ type field,
    field? y.fields type field = (field? given type field).or (field? x.fields type field)
  /-- New types follow those that were there. -/
  types : Table.keys y.fields
    = Table.keys x.fields ++ (Table.keys given).filter fun type => !Table.has x.fields type
  /-- So do new fields of a type. -/
  fields : ∀ type, Table.keys (of y.fields type) = Table.keys (of x.fields type)
    ++ (Table.keys (of given type)).filter fun field => !Table.has (of x.fields type) field

variable (x : Extensions)

/-- Mappings of fields are merged one after the other, before all that follows. -/
theorem extendAll_append (given : FieldTables) (rest : List (String × FieldMap)) :
    x.extendAll (given.mapping ++ rest)
      = extendAll { x with fields := given.foldl merge x.fields } rest := by
  induction given generalizing x with
  | nil => rfl
  | cons e given ih => exact ih { x with fields := FieldTables.merge x.fields e }

theorem merges_foldl {given : FieldTables} (hgiven : given.Distinct) :
    x.Merges given { x with fields := given.foldl merge x.fields } where
  policies := rfl
  aliases := rfl
  declarations type field := by
    rw [field?, of_mergeAll hgiven, Table.get?_putAll _ (hgiven.nodup_of type), field?, field?]
  types := Table.keys_foldl (fun t e => Table.keys_update t e.1 _ _) x.fields hgiven.types
  fields type := by rw [of_mergeAll hgiven, Table.keys_putAll _ (hgiven.nodup_of type)]

/-- A mapping has a first entry that is no mapping of fields, or there is none. -/
theorem mapping_or_refused (types : List (String × FieldMap)) :
    (∃ given : FieldTables, types = given.mapping)
      ∨ ∃ (given : FieldTables) (type : String) (v : Value) (rest : List (String × FieldMap)),
        types = given.mapping ++ (type, .value v) :: rest := by
  induction types with
  | nil => exact .inl ⟨[], rfl⟩
  | cons e types ih =>
    obtain ⟨type, m⟩ := e
    cases m with
    | value v => exact .inr ⟨[], type, v, types, rfl⟩
    | fields entries =>
      rcases ih with ⟨given, rfl⟩ | ⟨given, other, v, rest, rfl⟩
      · exact .inl ⟨(type, entries) :: given, rfl⟩
      · exact .inr ⟨(type, entries) :: given, other, v, rest, rfl⟩

/-- The first entry that is no mapping of fields is where it is. -/
theorem mapping_unique {given given' : FieldTables} {type type' : String} {v v' : Value}
    {rest rest' : List (String × FieldMap)} (h : given.mapping ++ (type, .value v) :: rest
      = given'.mapping ++ (type', .value v') :: rest') : given = given' ∧ type = type' := by
  induction given generalizing given' with
  | nil =>
    cases given' with
    | nil =>
      cases h
      exact ⟨rfl, rfl⟩
    | cons e' given' => cases h
  | cons e given ih =>
    cases given' with
    | nil => cases h
    | cons e' given' =>
      injection h with hhead htail
      injection hhead with hname hentries
      injection hentries with hentries
      obtain ⟨rfl, htype⟩ := ih htail
      exact ⟨congrArg (· :: given) (Prod.ext hname hentries), htype⟩

/-- All names in a mapping from types to what stands for their fields are different. -/
structure Proper (types : List (String × FieldMap)) : Prop where
  /-- Those of the types. -/
  names : (types.map Prod.fst).Nodup
  /-- Those of the fields of a type. -/
  fields : ∀ type entries, (type, FieldMap.fields entries) ∈ types → (Table.keys entries).Nodup

theorem Proper.distinct {given : FieldTables} {rest : List (String × FieldMap)}
    (h : Proper (given.mapping ++ rest)) : given.Distinct where
  types := by
    have hkeys : given.mapping.map Prod.fst = Table.keys given := List.map_map
    have hall := h.names
    rw [List.map_append, hkeys] at hall
    exact (List.nodup_append.mp hall).1
  fields e he :=
    h.fields e.1 e.2 (List.mem_append_left _ (List.mem_map.mpr ⟨e, he, rfl⟩))

/-- **Fields of several types are merged up to the first type that has none.** If all entries are
mappings of fields, all of them are merged into what is registered. Else the first entry that is
none is refused by its name, and exactly the entries before it are merged. -/
theorem extendAll_merges {types : List (String × FieldMap)} (htypes : Proper types) :
    (∃ given : FieldTables, types = given.mapping
        ∧ (x.extendAll types).1 = .ok () ∧ x.Merges given (x.extendAll types).2)
      ∨ ∃ (given : FieldTables) (type : String) (v : Value) (rest : List (String × FieldMap)),
        types = given.mapping ++ (type, .value v) :: rest
        ∧ (x.extendAll types).1 = .error (.notAFieldMap type)
        ∧ x.Merges given (x.extendAll types).2 := by
  rcases mapping_or_refused types with ⟨given, rfl⟩ | ⟨given, type, v, rest, rfl⟩
  · rw [← List.append_nil given.mapping] at htypes
    have hrun := extendAll_append x given []
    rw [List.append_nil] at hrun
    rw [hrun]
    exact .inl ⟨given, rfl, rfl, merges_foldl x htypes.distinct⟩
  · rw [extendAll_append]
    exact .inr ⟨given, type, v, rest, rfl, rfl, merges_foldl x htypes.distinct⟩

/-- A registered query with two fields. -/
def queries : Extensions where
  fields := [("Query", [("order", .field (.value (.text "Order"))),
    ("orders", .field (.value (.text "[Order!]!")))])]

/-- A field for another type, and for the query one field again and a new one. -/
def amendedFields : FieldTables :=
  [("Order", [("label", .field (.value (.text "String!")))]),
    ("Query", [("order", .field (.value (.text "Order!"))),
      ("ping", .field (.value (.text "String")))])]

/-- They come before something that is no mapping, and this before another mapping. -/
def amendments : List (String × FieldMap) :=
  amendedFields.mapping ++ [("Note", .value (.text "String")), ("Memo", .fields [])]

theorem extendAll_merges_amendments : Proper amendments
    ∧ (queries.extendAll amendments).1 = .error (.notAFieldMap "Note")
    ∧ Table.keys (queries.extendAll amendments).2.fields = ["Query", "Order"]
    ∧ Table.keys (of (queries.extendAll amendments).2.fields "Query") = ["order", "orders", "ping"]
    ∧ field? (queries.extendAll amendments).2.fields "Query" "order"
      = some (.field (.value (.text "Order!"))) := by
  have hproper : Proper amendments := by
    refine ⟨by decide, fun type entries he => ?_⟩
    simp only [amendments, amendedFields, mapping, List.map_cons, List.map_nil, List.cons_append,
      List.nil_append, List.mem_cons, Prod.mk.injEq, FieldMap.fields.injEq, List.not_mem_nil,
      or_false, reduceCtorEq, and_false, false_or] at he
    rcases he with ⟨-, rfl⟩ | ⟨-, rfl⟩ | ⟨-, rfl⟩ <;> decide
  refine ⟨hproper, ?_⟩
  rcases extendAll_merges queries hproper with ⟨given, -, hok, -⟩
    | ⟨given, type, v, rest, htypes, hrefused, hmerges⟩
  · cases hok
  · obtain ⟨rfl, rfl⟩ : amendedFields = given ∧ "Note" = type := mapping_unique htypes
    exact ⟨hrefused, hmerges.types, hmerges.fields "Query", hmerges.declarations "Query" "order"⟩

/-- **A refused call has changed what is registered**: the entries before the refused one stay. -/
theorem not_kept_refused : ¬∀ (x : Extensions) (types : List (String × FieldMap)) (e : Failure),
    (x.extendAll types).1 = .error e → (x.extendAll types).2.fields = x.fields := by
  intro h
  have hkeys := congrArg Table.keys (h {}
    [("Query", .fields [("ping", .field (.value (.text "String")))]),
      ("Order", .value (.text "String"))] _ rfl)
  revert hkeys
  decide

end Extensions
end SchemaForge

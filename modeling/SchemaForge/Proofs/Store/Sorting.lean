import SchemaForge.Execution.Fetching
import SchemaForge.Proofs.Language.Spelling
import SchemaForge.Proofs.Registry.Outlines
import SchemaForge.Proofs.Store.Acceptance

/-!
# Orders that the store takes

The store takes an order list if every value in it ends in a direction and begins with the name
of a column. The values of an order enum are names, so none of them has a line feed, and each
is the one of at most one field and direction. What is written into an order enum for a field is
read as this field again, whatever its name ends in. A list with a value that is not taken is not
taken at all, and neither is a fetch that is asked for it.
-/
namespace SchemaForge

open Language

/-- Order values of columns. -/
def Model.Sorts (m : Model) (word : String) : Prop :=
  ∃ field descending c, word = OrderTerm.value field descending ∧ field ≠ ""
    ∧ m.member? field = some (.column c)

/-- The term of an order value of a column. -/
def Model.SortsBy (m : Model) (word : String) (term : OrderTerm) : Prop :=
  ∃ field c, word = OrderTerm.value field term.descending ∧ field ≠ ""
    ∧ m.member? field = some (.column c) ∧ term.column = ⟨m.table, c⟩

theorem Model.sorts_iff {m : Model} {word : String} :
    m.Sorts word ↔ ∃ term, m.SortsBy word term := by
  constructor
  · rintro ⟨field, descending, c, hword, hfield, hc⟩
    exact ⟨⟨⟨m.table, c⟩, descending⟩, field, c, hword, hfield, hc, rfl⟩
  · rintro ⟨term, field, c, hword, hfield, hc, -⟩
    exact ⟨field, term.descending, c, hword, hfield, hc⟩

namespace Schema

/-- The words of an enum. -/
def words (s : Schema) (type : String) : List String :=
  ((s.body? type).map TypeBody.words).getD []

/-- An enum with names for words, which travel as they are. -/
structure NameEnum (s : Schema) (leaves : Implementations) (name : String) : Prop where
  /-- It is no input type. -/
  plain : s.isKind name .input = false
  /-- Its values are its words. -/
  leaf : s.LeafOf leaves name (.enum (s.words name))
  /-- They are nothing else. -/
  only : ∀ l, s.LeafOf leaves name l → l = .enum (s.words name)
  /-- Its words are names. -/
  named : ∀ word ∈ s.words name, isName word = true

end Schema

theorem Leaf.has_enum_iff {words : List String} {v : Value} :
    (Leaf.enum words).Has v ↔ ∃ word ∈ words, v = .text word := by
  have hword : ∀ x v, Leaf.word words x = .ok v → ∃ word ∈ words, v = .text word := by
    intro x v h
    unfold Leaf.word at h
    split at h
    · split at h
      · rename_i word hmem
        cases h
        exact ⟨word, List.contains_iff_mem.mp hmem, rfl⟩
      · cases h
    · cases h
  constructor
  · rintro (⟨x, h⟩ | ⟨x, vars, h⟩)
    · exact hword x v h
    · cases x with
      | enum word => exact hword (.text word) v h
      | _ => cases h
  · rintro ⟨word, hmem, rfl⟩
    refine .inl ⟨.text word, ?_⟩
    change (if words.contains word then _ else _) = _
    rw [if_pos (List.contains_iff_mem.mpr hmem)]

namespace OrderTerm

open Schema

theorem withoutEnding_eq_some_iff {ending cs name : List Char} :
    withoutEnding ending cs = some name ↔ cs = name ++ ending := by
  unfold withoutEnding
  constructor
  · intro h
    split at h
    · rename_i hsuffix
      obtain ⟨front, rfl⟩ := List.isSuffixOf_iff_suffix.mp hsuffix
      cases h
      rw [List.length_append, Nat.add_sub_cancel, List.take_left]
    · cases h
  · rintro rfl
    rw [if_pos (List.isSuffixOf_iff_suffix.mpr (List.suffix_append name ending)),
      List.length_append, Nat.add_sub_cancel, List.take_left]

theorem nameBefore_eq_some_iff {ending : String} {cs : List Char} {name : String}
    (hcs : '\n' ∉ cs) :
    nameBefore ending cs = some name ↔ cs = name.toList ++ ending.toList ∧ name ≠ "" := by
  unfold nameBefore
  constructor
  · intro h
    split at h
    · rename_i front hfront
      split at h
      · cases h
      · rename_i hname
        cases h
        refine ⟨?_, ?_⟩
        · rw [String.toList_ofList]
          exact withoutEnding_eq_some_iff.mp hfront
        · rintro hempty
          refine hname ?_
          have hnil : front = [] := by simpa using congrArg String.toList hempty
          rw [hnil]
          rfl
    · cases h
  · rintro ⟨rfl, hname⟩
    rw [withoutEnding_eq_some_iff.mpr rfl]
    have hnil : name.toList ≠ [] := by simpa using hname
    have hline : '\n' ∉ name.toList := fun h => hcs (List.mem_append_left _ h)
    dsimp only
    rw [if_neg (by simp [hname, hline]), String.ofList_toList]

/-- An order value ends in a direction. -/
theorem toList_value (field : String) (descending : Bool) : (value field descending).toList
    = field.toList ++ (if descending then "_DESC" else "_ASC").toList := by
  cases descending <;> simp [value]

theorem append_asc_ne {cs ds : List Char} : cs ++ "_ASC".toList ≠ ds ++ "_DESC".toList := by
  intro h
  have hreverse := congrArg List.reverse h
  rw [List.reverse_append, List.reverse_append] at hreverse
  cases hreverse

/-- **A name is taken apart as an order value if it is the one of a field and a direction.** -/
theorem split?_eq_some_iff {word field : String} {descending : Bool} (hword : '\n' ∉ word.toList) :
    split? word = some (field, descending) ↔ word = value field descending ∧ field ≠ "" := by
  have hline : withoutLineFeed word.toList = word.toList := by
    unfold withoutLineFeed
    cases h : withoutEnding ['\n'] word.toList with
    | none => rfl
    | some front =>
      refine absurd ?_ hword
      rw [withoutEnding_eq_some_iff.mp h]
      exact List.mem_append_right _ (List.mem_singleton.mpr rfl)
  have hbefore := fun ending name => @nameBefore_eq_some_iff ending word.toList name hword
  rw [split?, hline, ← String.toList_inj, toList_value]
  cases hasc : nameBefore "_ASC" word.toList with
  | some name =>
    obtain ⟨hname, hsome⟩ := (hbefore _ _).mp hasc
    rw [hname]
    cases descending with
    | false =>
      constructor
      · rintro ⟨⟩
        exact ⟨rfl, hsome⟩
      · rintro ⟨hsame, -⟩
        rw [String.toList_inj.mp (List.append_cancel_right hsame)]
    | true =>
      constructor
      · rintro ⟨⟩
      · rintro ⟨hsame, -⟩
        exact absurd hsame append_asc_ne
  | none =>
    dsimp only
    rw [Option.map_eq_some_iff]
    constructor
    · rintro ⟨name, hname, ⟨⟩⟩
      exact (hbefore _ _).mp hname
    · rintro h
      cases descending with
      | false =>
        rw [(hbefore "_ASC" field).mpr h] at hasc
        cases hasc
      | true => exact ⟨field, (hbefore _ _).mpr h, rfl⟩

/-- An order value stands for the term of a column. -/
theorem ofValue_eq_ok_iff {m : Model} {word : String} {term : OrderTerm}
    (hword : '\n' ∉ word.toList) : ofValue m (.text word) = .ok term ↔ m.SortsBy word term := by
  rw [ofValue]
  cases hsplit : split? word with
  | none =>
    refine ⟨fun h => ?_, fun ⟨field, c, hvalue, hfield, _⟩ => ?_⟩
    · cases h
    · rw [(split?_eq_some_iff hword).mpr ⟨hvalue, hfield⟩] at hsplit
      cases hsplit
  | some parts =>
    obtain ⟨hvalue, hfield⟩ := (split?_eq_some_iff hword).mp hsplit
    constructor
    · intro h
      cases hmember : m.member? parts.1 with
      | none =>
        simp only [hmember] at h
        cases h
      | some member =>
        cases member with
        | column c =>
          simp only [hmember] at h
          cases h
          exact ⟨parts.1, c, hvalue, hfield, hmember, rfl⟩
        | association a | plain v =>
          simp only [hmember] at h
          cases h
    · rintro ⟨field, c, hsame, hsome, hc, hcolumn⟩
      rw [(split?_eq_some_iff hword).mpr ⟨hsame, hsome⟩] at hsplit
      cases hsplit
      simp only [hc, ← hcolumn]

/-- An order value is taken if it is the one of a column. -/
theorem isOk_ofValue_iff {m : Model} {word : String} (hword : '\n' ∉ word.toList) :
    (ofValue m (.text word)).isOk = true ↔ m.Sorts word := by
  rw [Model.sorts_iff]
  simp only [← ofValue_eq_ok_iff hword]
  cases ofValue m (.text word) <;> simp

variable {s : Schema} {leaves : Implementations} {name : String} {m : Model}

/-- What fits the items of an order list is a word. -/
theorem exists_word_of_fits (h : s.NameEnum leaves name) {v : Value}
    (hv : s.Fits leaves (.nonNull (.named name)) v) : ∃ word ∈ s.words name, v = .text word := by
  have hleaf : ∀ {l}, s.LeafOf leaves name l → l.Has v → ∃ word ∈ s.words name, v = .text word :=
    fun hl hhas => Leaf.has_enum_iff.mp (h.only _ hl ▸ hhas)
  cases hv with
  | null hnull => cases hnull
  | some hv =>
    cases hv with
    | nonNull hv =>
      cases hv with
      | record hinput hfs =>
        rw [h.plain] at hinput
        cases hinput
      | leaf hlist hl hhas => exact hleaf hl hhas
    | leaf hlist hl hhas => exact hleaf hl hhas

theorem fits_word (h : s.NameEnum leaves name) {word : String} (hword : word ∈ s.words name) :
    s.Fits leaves (.nonNull (.named name)) (.text word) :=
  .some (.nonNull (.leaf (fun item h => by cases h) h.leaf
    (Leaf.has_enum_iff.mpr ⟨word, hword, rfl⟩)))

theorem isOk_mapM (vs : List Value) :
    (vs.mapM (ofValue m)).isOk = vs.all fun v => (ofValue m v).isOk := by
  induction vs with
  | nil => rfl
  | cons v vs ih =>
    rw [List.mapM_cons, List.all_cons, ← ih]
    cases ofValue m v with
    | error e => rfl
    | ok term => cases vs.mapM (ofValue m) <;> rfl

/-- A list is taken if all of its values are. -/
theorem isOk_ofValues_list (vs : List Value) :
    (ofValues m (.list vs)).isOk = vs.all fun v => (ofValue m v).isOk := by
  cases vs with
  | nil => rfl
  | cons v vs => exact isOk_mapM (v :: vs)

/-- **The store takes all order lists that fit an enum exactly if every word of it sorts by a
column.** -/
theorem isOk_ofValues_iff (h : s.NameEnum leaves name) :
    (∀ v, s.Fits leaves (.list (.nonNull (.named name))) v → (ofValues m v).isOk = true)
      ↔ ∀ word ∈ s.words name, m.Sorts word := by
  have hone : ∀ word ∈ s.words name, (ofValue m (.text word)).isOk = true ↔ m.Sorts word :=
    fun word hword => isOk_ofValue_iff (not_mem_of_isName (h.named word hword) rfl)
  constructor
  · intro hall word hword
    refine (hone word hword).mp ?_
    have hsingle := hall (.list [.text word]) (.some (.list fun x hx => by
      rw [List.mem_singleton.mp hx]
      exact fits_word h hword))
    rw [isOk_ofValues_list] at hsingle
    simpa using hsingle
  · intro hsorts v hv
    obtain rfl | ⟨vs, rfl, hvs⟩ := hv.of_list
    · rfl
    · rw [isOk_ofValues_list, List.all_eq_true]
      intro v hv
      obtain ⟨word, hword, rfl⟩ := exists_word_of_fits h (hvs v hv)
      exact (hone word hword).mpr (hsorts word hword)

/-! ### What is written and what is read -/

/-- What is written into an order enum for a field are its order values. -/
theorem mem_addOrderValues_iff {r : Registry} {orderEnum field word : String} :
    word ∈ Table.keys ((r.addOrderValues orderEnum field).entry orderEnum).lines
      ↔ word ∈ Table.keys (r.entry orderEnum).lines
        ∨ ∃ descending, word = value field descending := by
  have hone : ∀ (r : Registry) (key : String),
      word ∈ Table.keys ((r.ensureField orderEnum key).entry orderEnum).lines
        ↔ word ∈ Table.keys (r.entry orderEnum).lines ∨ word = key := by
    intro r key
    rw [Registry.ensureField, Registry.updateField, Registry.entry_updateType, if_pos rfl,
      TypeEntry.updateLine, Table.mem_keys_iff, Table.mem_keys_iff, Table.has_update,
      Bool.or_eq_true, beq_iff_eq]
  rw [Registry.addOrderValues, Registry.directions, List.foldl_cons, List.foldl_cons,
    List.foldl_nil, hone, hone, or_assoc, Bool.exists_bool]
  rfl

/-- The names of fields are read as they were written. -/
theorem split?_value {field : String} (hfield : isName field = true) (descending : Bool) :
    split? (value field descending) = some (field, descending) := by
  have hline : '\n' ∉ (value field descending).toList := by
    rw [toList_value]
    refine List.mem_append.not.mpr (not_or.mpr ⟨not_mem_of_isName hfield rfl, ?_⟩)
    cases descending <;> decide
  refine (split?_eq_some_iff hline).mpr ⟨rfl, ?_⟩
  rintro rfl
  cases hfield

/-- A list of order values stands for the terms of all of them, in their order. -/
theorem ofValues_eq_ok_iff {words : List String} {terms : List OrderTerm}
    (hwords : ∀ word ∈ words, '\n' ∉ word.toList) :
    ofValues m (.list (words.map .text)) = .ok terms ↔ List.Forall₂ m.SortsBy words terms := by
  have hlist : ofValues m (.list (words.map .text)) = (words.map Value.text).mapM (ofValue m) := by
    cases words <;> rfl
  rw [hlist]
  clear hlist
  induction words generalizing terms with
  | nil =>
    rw [List.map_nil, List.mapM_nil, List.forall₂_nil_left_iff]
    exact ⟨fun h => by cases h; rfl, fun h => by rw [h]; rfl⟩
  | cons word words ih =>
    have hrest := fun terms => @ih terms fun w hw => hwords w (List.mem_cons_of_mem _ hw)
    rw [List.map_cons, List.mapM_cons, Outcome.bind_eq_ok]
    simp only [Outcome.bind_eq_ok, hrest, ofValue_eq_ok_iff (hwords word List.mem_cons_self)]
    constructor
    · rintro ⟨term, hterm, rest, hrest, ⟨⟩⟩
      exact .cons hterm hrest
    · rintro (_ | ⟨hterm, hrest⟩)
      exact ⟨_, hterm, _, hrest, rfl⟩

/-- A statement is made only if the order that is asked for is taken. -/
theorem ofValues_of_statement {scene : Scene} {f : Fetch} {source : Value} {arguments : Fields}
    {q : Select × Bool} (h : f.statement scene source arguments = .ok q) :
    ∃ terms, ofValues ((scene.models.get? f.model).getD default) (Fields.get arguments "order")
      = .ok terms := by
  obtain ⟨isList, -, h⟩ := Outcome.bind_eq_ok.mp h
  obtain ⟨clauses, -, h⟩ := Outcome.bind_eq_ok.mp h
  obtain ⟨q1, -, h⟩ := Outcome.bind_eq_ok.mp h
  obtain ⟨condition, -, h⟩ := Outcome.bind_eq_ok.mp h
  obtain ⟨terms, hterms, -⟩ := Outcome.bind_eq_ok.mp h
  exact ⟨terms, hterms⟩

/-- **An order is read as it was written.** What is written into an order enum for a field are its
order values in both directions, and these are read as this field and direction, so no two of them
are the same. A list of names is taken exactly if each of them is the order value of a column, and
then stands for their terms in order; otherwise it is refused, and a fetch that is asked for it
fails. -/
theorem orders_as_written (m : Model) :
    (∀ (r : Registry) (orderEnum field word : String),
      word ∈ Table.keys ((r.addOrderValues orderEnum field).entry orderEnum).lines
        ↔ word ∈ Table.keys (r.entry orderEnum).lines ∨ ∃ descending, word = value field descending)
    ∧ (∀ field descending, isName field = true →
      split? (value field descending) = some (field, descending)
      ∧ ∀ c, m.member? field = some (.column c) →
        ofValue m (.text (value field descending)) = .ok ⟨⟨m.table, c⟩, descending⟩)
    ∧ (∀ field descending other descending', isName field = true → isName other = true →
      value field descending = value other descending' → field = other ∧ descending = descending')
    ∧ ∀ words : List String, (∀ word ∈ words, isName word = true) →
      (∀ terms, ofValues m (.list (words.map .text)) = .ok terms
        ↔ List.Forall₂ m.SortsBy words terms)
      ∧ ((ofValues m (.list (words.map .text))).isOk = true ↔ ∀ word ∈ words, m.Sorts word)
      ∧ ((∃ word ∈ words, ¬m.Sorts word) →
        ∀ (scene : Scene) (f : Fetch) (source : Value) (arguments : Fields),
          (scene.models.get? f.model).getD default = m →
          Fields.get arguments "order" = .list (words.map .text) →
          ∃ e, f.run scene source arguments = .error e) := by
  refine ⟨fun r orderEnum field word => mem_addOrderValues_iff, fun field descending hfield => ?_,
    fun field descending other descending' hfield hother h => ?_, fun words hwords => ?_⟩
  · have hsplit := split?_value hfield descending
    refine ⟨hsplit, fun c hc => ?_⟩
    rw [ofValue, hsplit]
    simp only [hc]
  · have hsplit := split?_value hfield descending
    rw [h, split?_value hother descending'] at hsplit
    cases hsplit
    exact ⟨rfl, rfl⟩
  · have hlines : ∀ word ∈ words, '\n' ∉ word.toList :=
      fun word hword => not_mem_of_isName (hwords word hword) rfl
    have htaken : (ofValues m (.list (words.map .text))).isOk = true
        ↔ ∀ word ∈ words, m.Sorts word := by
      rw [isOk_ofValues_list, List.all_map, List.all_eq_true]
      exact forall₂_congr fun word hword => isOk_ofValue_iff (hlines word hword)
    refine ⟨fun terms => ofValues_eq_ok_iff hlines, htaken, ?_⟩
    rintro ⟨word, hword, hnot⟩ scene f source arguments hmodel horder
    cases hrun : f.run scene source arguments with
    | error e => exact ⟨e, rfl⟩
    | ok v =>
      obtain ⟨q, hstatement, -⟩ := Outcome.bind_eq_ok.mp hrun
      obtain ⟨terms, hterms⟩ := ofValues_of_statement hstatement
      rw [hmodel, horder] at hterms
      exact absurd (htaken.mp (by rw [hterms]; rfl) word hword) hnot

/-- Items with a size and another column whose name ends in a direction. -/
private def sizedModel : Model where
  name := "Item"
  table := "items"
  columns := ["size", "size_ASC"].map fun key =>
    { key, name := key, type := .base "Integer", primary := false, nullable := true,
      foreign := none }
  virtuals := []
  associations := []

/-- A value that ends in two directions is that of the longer name, and one that is a direction
alone is that of none. -/
theorem orders_as_written_sized :
    value "size_ASC" true = "size_ASC_DESC" ∧ value "size" false = "size_ASC"
    ∧ ofValues sizedModel (.list (["size_ASC_DESC", "size_ASC"].map .text))
      = .ok [⟨⟨"items", sizedModel.columns[1]⟩, true⟩, ⟨⟨"items", sizedModel.columns[0]⟩, false⟩]
    ∧ (ofValues sizedModel (.list (["size_ASC_DESC", "_ASC"].map .text))).isOk = false := by
  obtain ⟨-, -, -, hlists⟩ := orders_as_written sizedModel
  obtain ⟨hterms, -, -⟩ := hlists ["size_ASC_DESC", "size_ASC"] (by decide)
  obtain ⟨-, htaken, -⟩ := hlists ["size_ASC_DESC", "_ASC"] (by decide)
  refine ⟨rfl, rfl, (hterms _).mpr (.cons ?_ (.cons ?_ .nil)), ?_⟩
  · exact ⟨"size_ASC", _, rfl, by decide, rfl, rfl⟩
  · exact ⟨"size", _, rfl, by decide, rfl, rfl⟩
  · refine Bool.eq_false_iff.mpr fun hok => ?_
    obtain ⟨field, descending, c, hword, hfield, -⟩ :=
      htaken.mp hok "_ASC" (List.mem_cons_of_mem _ List.mem_cons_self)
    have hsplit := (split?_eq_some_iff (by decide)).mpr ⟨hword, hfield⟩
    cases (show split? "_ASC" = none from rfl).symm.trans hsplit

end OrderTerm
end SchemaForge

import SchemaForge.Proofs.Registry.Judging

/-!
# What new filters offer

Where the derived types of a field are not there yet, writing its filters makes a condition input
of the connectives and of the lines of the returned type that can be filtered, each with the
operators of its kind of value, and for a list an order enum of the lines that rows can be sorted by.

The connectives stand in the same input as the lines. **`Decides.type_of_input`** says what becomes
of each name: a line of the returned type that is called like a connective takes its place, or takes
it away, so that both connectives are there exactly if no line is called so.
-/
namespace SchemaForge
namespace Registry

open Language

/-- By which kind of value a line is filtered: by its own if conditions compare it, or else by that
of the identifier of the single object that it returns. -/
inductive FiltersBy (r : Registry) (signature kind : String) : Prop where
  /-- Values of the line are compared. -/
  | own (hkind : kind ∈ filterableTypes) (hname : Signature.baseName signature = .ok kind)
  /-- The identifiers of objects are compared. -/
  | related {line : FieldLine} (hkind : kind ∈ filterableTypes)
      (hother : ∀ k ∈ filterableTypes, Signature.baseName signature ≠ .ok k)
      (hline : r.line? (Signature.withoutEndMarks signature) "id" = some line)
      (hname : Signature.baseName line.type = .ok kind)

variable {r r' : Registry} {type field returned signature kind : String} {isList : Bool}
  {vs : List Verdict}

theorem filterable?_eq_some_iff :
    filterable? signature = .ok (some kind)
      ↔ kind ∈ filterableTypes ∧ Signature.baseName signature = .ok kind := by
  unfold filterable?
  split
  · rename_i hempty
    rw [beq_iff_eq.mp hempty, show Signature.baseName "" = .error .badSyntax from rfl]
    simp
  · cases Signature.baseName signature with
    | error e => simp [Except.map]
    | ok name =>
      simp only [Except.map, Except.ok.injEq]
      constructor
      · intro h
        split at h
        · rename_i hmem
          cases h
          exact ⟨List.contains_iff_mem.mp hmem, rfl⟩
        · cases h
      · rintro ⟨hkind, rfl⟩
        rw [if_pos (List.contains_iff_mem.mpr hkind)]

/-- **What a line is filtered by.** -/
theorem filterKind?_eq_some_iff (hok : (filterKind? r signature).isOk = true) :
    filterKind? r signature = .ok (some kind) ↔ r.FiltersBy signature kind := by
  unfold filterKind? at hok ⊢
  cases hown : filterable? signature with
  | error e =>
    rw [hown] at hok
    cases hok
  | ok found =>
    cases found with
    | some k =>
      obtain ⟨hk, hname⟩ := filterable?_eq_some_iff.mp hown
      constructor
      · intro h
        cases h
        exact .own hk hname
      · rintro (⟨-, hname'⟩ | ⟨-, hother, -⟩)
        · rw [hname] at hname'
          cases hname'
          rfl
        · exact absurd hname (hother k hk)
    | none =>
      have hother : ∀ k ∈ filterableTypes, Signature.baseName signature ≠ .ok k := by
        intro k hk hname
        rw [filterable?_eq_some_iff.mpr ⟨hk, hname⟩] at hown
        cases hown
      have hleft : ∀ h : r.FiltersBy signature kind, ∃ line,
          r.line? (Signature.withoutEndMarks signature) "id" = some line
            ∧ filterable? line.type = .ok (some kind) := by
        rintro (⟨hkind, hname⟩ | ⟨hkind, -, hline, hname⟩)
        · exact absurd hname (hother kind hkind)
        · exact ⟨_, hline, filterable?_eq_some_iff.mpr ⟨hkind, hname⟩⟩
      cases hline : r.line? (Signature.withoutEndMarks signature) "id" with
      | none =>
        refine ⟨fun h => ?_, fun h => ?_⟩
        · cases h
        · obtain ⟨line, hsome, -⟩ := hleft h
          rw [hline] at hsome
          cases hsome
      | some line =>
        refine ⟨fun h => ?_, fun h => ?_⟩
        · obtain ⟨hkind, hname⟩ := filterable?_eq_some_iff.mp h
          exact .related hkind hother hline hname
        · obtain ⟨line', hsome, hby⟩ := hleft h
          rw [hline] at hsome
          cases hsome
          exact hby

/-! ### The condition input -/

/-- A condition input that is new has the conditions of all lines, on top of the connectives. -/
theorem Decides.get?_input_of_unused (h : r.Decides type field returned isList vs)
    (hunused : Table.has r (whereInputName type field) = false) :
    Table.get? (r.filled type field isList vs) (whereInputName type field)
      = some { kind := .input
               lines := Verdict.conditions vs
                 (TypeEntry.connectiveLines (whereInputName type field)) } := by
  rw [h.get?_input, entry, (Table.get?_eq_none_iff _ _).mpr hunused]
  rfl

theorem line?_eq_none_iff {key : String} :
    r.line? returned key = none ↔ key ∉ Table.keys (r.entry returned).lines := by
  rw [line?_eq, Table.get?_eq_none_iff, Table.mem_keys_iff, Bool.not_eq_true]

theorem get?_connectiveLines (name key s : String) :
    (Table.get? (TypeEntry.connectiveLines name) key).map (·.type) = some s
      ↔ key ∈ connectives ∧ s = "[" ++ name ++ "!]" := by
  unfold TypeEntry.connectiveLines connectives
  rw [List.map_cons, List.map_cons, List.map_nil, Table.get?_cons, Table.get?_cons, Table.get?_nil]
  by_cases hand : key = "and"
  · simp [hand, eq_comm]
  · by_cases hor : key = "or"
    · simp [hor, eq_comm]
    · simp [hand, hor]

/-- Each line has a verdict, which filters it as it should be. -/
theorem Decides.exists_verdict (h : r.Decides type field returned isList vs) {key : String}
    {line : FieldLine} (hbasic : returned ∉ basicTypes) (hline : r.line? returned key = some line) :
    ∃ v ∈ vs, v.key = key ∧ ∀ kind, v.kind? = some kind ↔ r.FiltersBy line.type kind := by
  have hmem : (key, line) ∈ r.filterLines returned :=
    filterLines_eq (r := r) hbasic ▸ Table.mem_of_get? (line?_eq r returned key ▸ hline)
  obtain ⟨v, hv, hjudges⟩ := exists_right_of_mem h hmem
  refine ⟨v, hv, hjudges.key, fun kind => ?_⟩
  rw [← filterKind?_eq_some_iff (hjudges.kind ▸ rfl), hjudges.kind, Except.ok.injEq]

/-- **What becomes of each name in a new condition input.** -/
theorem Decides.type_of_input (h : r.Decides type field returned isList vs)
    (hunused : Table.has r (whereInputName type field) = false)
    (honce : (Table.keys (r.entry returned).lines).Nodup) (hbasic : returned ∉ basicTypes)
    (key s : String) :
    ((r.filled type field isList vs).line? (whereInputName type field) key).map (·.type) = some s
      ↔ (∃ line kind, r.line? returned key = some line ∧ r.FiltersBy line.type kind
          ∧ s = operatorInputName kind)
        ∨ (r.line? returned key = none ∧ key ∈ connectives
          ∧ s = "[" ++ whereInputName type field ++ "!]") := by
  have hkeys := filterLines_eq (r := r) hbasic ▸ h.keys
  rw [line?, h.get?_input_of_unused hunused, Option.bind_some]
  cases hline : r.line? returned key with
  | none =>
    rw [Verdict.get?_conditions (hkeys ▸ line?_eq_none_iff.mp hline), get?_connectiveLines]
    simp
  | some line =>
    obtain ⟨v, hv, hkey, hby⟩ := h.exists_verdict hbasic hline
    have hmet := (Verdict.met_conditions (hkeys ▸ honce)
      (TypeEntry.connectiveLines (whereInputName type field)) v hv).get?
    rw [hkey] at hmet
    rw [hmet, Option.map_eq_some_iff]
    constructor
    · rintro ⟨kind, hkind, rfl⟩
      exact .inl ⟨line, kind, rfl, (hby kind).mp hkind, rfl⟩
    · rintro (⟨_, kind, hsome, hfilters, rfl⟩ | ⟨hnone, -⟩)
      · cases hsome
        exact ⟨kind, (hby kind).mpr hfilters, rfl⟩
      · cases hnone

/-- No input for operators is called like a list. -/
theorem operatorInputName_ne_list (kind name : String) :
    operatorInputName kind ≠ "[" ++ name ++ "!]" := by
  intro h
  have hfirst := congrArg (fun s => s.toList.head?) h
  simp [operatorInputName] at hfirst

theorem not_mem_derivedNames_of_has {name : String} (hhas : Table.has r name = true)
    (hwhere : Table.has r (whereInputName type field) = false)
    (horder : Table.has r (orderEnumName type field) = false) :
    name ∉ derivedNames type field := by
  intro hmem
  rcases List.mem_cons.mp hmem with rfl | hmem
  · rw [hwhere] at hhas
    cases hhas
  · rw [List.mem_singleton.mp hmem, horder] at hhas
    cases hhas

theorem not_populated_of_not_has (hwhere : Table.has r (whereInputName type field) = false) :
    ¬(r.isPopulated (whereInputName type field) = true
      ∧ r.isPopulated (orderEnumName type field) = true) := by
  rintro ⟨hpopulated, -⟩
  rw [has_of_isPopulated hpopulated] at hwhere
  cases hwhere

/-- **What a condition input offers.** A condition input that is new has, under each name, the
operators by which the line of that name is filtered, and both connectives under theirs if no line
of the returned type is called like a connective, and only then. -/
theorem input_of_addFilters {u : PUnit} (hwhere : Table.has r (whereInputName type field) = false)
    (horder : Table.has r (orderEnumName type field) = false)
    (hreturned : Table.has r returned = true) (hbasic : returned ∉ basicTypes)
    (honce : (Table.keys (r.entry returned).lines).Nodup)
    (havoids : r.Avoids returned (· ∈ derivedNames type field))
    (hrun : addFilters type field returned isList r = (.ok u, r')) :
    (Table.get? r' (whereInputName type field)).map (·.kind) = some .input
    ∧ ((∀ c ∈ connectives, (r'.line? (whereInputName type field) c).map (·.type)
          = some ("[" ++ whereInputName type field ++ "!]"))
        ↔ ∀ c ∈ connectives, r.line? returned c = none)
    ∧ (∀ key s, (r'.line? (whereInputName type field) key).map (·.type) = some s
        ↔ (∃ line kind, r.line? returned key = some line ∧ r.FiltersBy line.type kind
            ∧ s = operatorInputName kind)
          ∨ (r.line? returned key = none ∧ key ∈ connectives
            ∧ s = "[" ++ whereInputName type field ++ "!]"))
    ∧ ∀ key kind, (r'.line? (whereInputName type field) key).map (·.type)
        = some (operatorInputName kind) → Table.has r' (operatorInputName kind) = true := by
  obtain ⟨-, vs, hvs, rfl⟩ := Apart.decides
    ⟨not_mem_derivedNames_of_has hreturned hwhere horder, havoids, honce⟩
    (not_populated_of_not_has hwhere) hrun
  have htype := hvs.type_of_input hwhere honce hbasic
  refine ⟨?_, ⟨fun h c hc => ?_, fun h c hc => ?_⟩, htype, fun key kind hkind => ?_⟩
  · rw [hvs.get?_input_of_unused hwhere]
    rfl
  · rcases (htype c _).mp (h c hc) with ⟨_, kind, -, -, hname⟩ | ⟨hnone, -⟩
    · exact absurd hname.symm (operatorInputName_ne_list kind _)
    · exact hnone
  · exact (htype c _).mpr (.inr ⟨h c hc, hc, rfl⟩)
  · rcases (htype key _).mp hkind with ⟨line, kind', hline, hby, hname⟩ | ⟨-, -, hname⟩
    · obtain ⟨v, hv, -, hkinds⟩ := hvs.exists_verdict hbasic hline
      exact hname ▸ hvs.has_operator hv ((hkinds kind').mpr hby)
    · exact absurd hname (operatorInputName_ne_list kind _)

/-- A query for items with a price, an owner, tags and a size, and users. -/
def stock : Registry :=
  [("Query", { lines := [("items", { type := "[Item!]" })] }),
    ("Item", { lines := [("price", { type := "Float!" }), ("owner", { type := "User" }),
      ("tags", { type := "[Tag!]" }), ("size", { type := "Size" })] }),
    ("User", { lines := [("id", { type := "Int!" })] }),
    ("Size", { kind := .enum, lines := [("small", {}), ("large", {})] })]

/-- The items with filters on the query for them. -/
def stocked : Registry := (addFilters "Query" "items" "Item" true stock).2

/-- Items are filtered by the identifier of their owner, and conditions on them can be connected. -/
theorem input_of_addFilters_stock :
    addFilters "Query" "items" "Item" true stock = (.ok ⟨⟩, stocked)
    ∧ (stocked.line? "QueryWhereOptionsItems" "owner").map (·.type)
        = some (operatorInputName "Int")
    ∧ Table.has stocked (operatorInputName "Int") = true
    ∧ ∀ c ∈ connectives, (stocked.line? "QueryWhereOptionsItems" c).map (·.type)
        = some "[QueryWhereOptionsItems!]" := by
  have hstock : Table.has stock (whereInputName "Query" "items") = false
      ∧ Table.has stock (orderEnumName "Query" "items") = false
      ∧ Table.has stock "Item" = true ∧ "Item" ∉ basicTypes
      ∧ (Table.keys (stock.entry "Item").lines).Nodup
      ∧ stock.Avoids "Item" (· ∈ derivedNames "Query" "items")
      ∧ (addFilters "Query" "items" "Item" true stock).1.isOk = true := by
    decide +kernel
  obtain ⟨hw, ho, hhas, hbasic, honce, havoids, hok⟩ := hstock
  have hrun := Run.eq_of_isOk hok
  obtain ⟨-, hconnectives, htype, hoperators⟩ :=
    input_of_addFilters hw ho hhas hbasic honce havoids hrun
  have hid : stock.line? (Signature.withoutEndMarks "User") "id" = some { type := "Int!" } := rfl
  have howner : (stocked.line? "QueryWhereOptionsItems" "owner").map (·.type)
      = some (operatorInputName "Int") :=
    (htype "owner" _).mpr (.inl ⟨{ type := "User" }, "Int", rfl,
      .related (by decide) (by decide +kernel) hid rfl, rfl⟩)
  exact ⟨hrun, howner, hoperators "owner" "Int" howner, hconnectives.mpr (by decide)⟩

/-- Items with lines that are called like the connectives. -/
def shadowed : Registry :=
  [("Item", { lines := [("and", { type := "String" }), ("or", { type := "[Item!]" })] })]

/-- The items with filters on the query for them. -/
def shadowedFiltered : Registry := (addFilters "Query" "items" "Item" true shadowed).2

/-- **Lines that are called like connectives take their places.** Under the one stand the operators
on texts, and the other is gone. -/
theorem not_connected_shadowed :
    Table.has shadowed (whereInputName "Query" "items") = false
    ∧ Table.has shadowed (orderEnumName "Query" "items") = false
    ∧ Table.has shadowed "Item" = true ∧ "Item" ∉ basicTypes
    ∧ shadowed.Avoids "Item" (· ∈ derivedNames "Query" "items")
    ∧ addFilters "Query" "items" "Item" true shadowed = (.ok ⟨⟩, shadowedFiltered)
    ∧ (shadowedFiltered.line? (whereInputName "Query" "items") "and").map (·.type)
        = some (operatorInputName "String")
    ∧ (shadowedFiltered.line? (whereInputName "Query" "items") "or").map (·.type) = none := by
  have hrun : (addFilters "Query" "items" "Item" true shadowed).1.isOk = true := by decide +kernel
  have hlines : (shadowedFiltered.line? (whereInputName "Query" "items") "and").map (·.type)
        = some (operatorInputName "String")
      ∧ (shadowedFiltered.line? (whereInputName "Query" "items") "or").map (·.type) = none := by
    decide +kernel
  exact ⟨by decide +kernel, by decide +kernel, by decide, by decide, by decide +kernel,
    Run.eq_of_isOk hrun, hlines⟩

/-! ### The order enum -/

/-- The lines of a type that rows are sorted by. -/
def sortKeys (r : Registry) (type : String) : List String :=
  ((r.entry type).lines.filter fun l => r.Sortable l.2.type).map (·.1)

/-- The order values of some lines, in both directions. -/
def orderValues (keys : List String) : List String :=
  keys.flatMap fun key => directions.map (key ++ "_" ++ ·)

theorem nodup_orderValues {keys : List String} (h : keys.Nodup) : (orderValues keys).Nodup := by
  refine List.pairwise_flatMap.mpr ⟨fun key _ => ?_, h.imp fun {a b} hne x hx y hy heq => hne ?_⟩
  · simp [directions]
  · obtain ⟨d, hd, rfl⟩ := List.mem_map.mp hx
    obtain ⟨d', hd', rfl⟩ := List.mem_map.mp hy
    obtain ⟨descending, hvalue⟩ := OrderTerm.exists_value_eq a hd
    obtain ⟨descending', hvalue'⟩ := OrderTerm.exists_value_eq b hd'
    exact OrderTerm.value_inj (hvalue.symm.trans (heq.trans hvalue'))

/-- The verdict on a line of some name and signature. -/
def verdictOn (r : Registry) (isList : Bool) (key signature : String) : Verdict where
  key := key
  kind? := (filterKind? r signature).toOption.join
  sorts := isList && decide (r.Sortable signature)

/-- **The verdicts of a run are those of the registry**, if no line names inputs for operators. -/
theorem Decides.eq_verdicts (h : r.Decides type field returned isList vs)
    (havoids : r.Avoids returned (· ∈ derivedNames type field ++ operatorNames)) :
    vs = (r.filterLines returned).map fun l => r.verdictOn isList l.1 l.2.type := by
  have hsorts : ∀ l ∈ (r.entry returned).lines, ∀ v,
      Judges r (r.filled type field isList vs) isList l v →
      v = r.verdictOn isList l.1 l.2.type := by
    intro l hl v hlv
    have hstays := h.widens.isSortable_eq (fun n hn => havoids l hl n (List.mem_append_left _ hn))
      fun kind hkind => havoids l hl _ (List.mem_append_right _ (List.mem_map_of_mem hkind))
    have hsorts : v.sorts = (isList && decide (r.Sortable l.2.type)) := by
      rw [Bool.eq_iff_iff, Bool.and_eq_true, decide_eq_true_iff, ← isSortable_eq_ok_true_iff]
      exact ⟨hlv.sorts, fun hand => hlv.sorted hand.1 (hstays.mpr hand.2)⟩
    rw [verdictOn, ← hlv.key, ← hsorts, hlv.kind]
    rfl
  have hmap : ∀ {ls : Table FieldLine} {vs' : List Verdict},
      List.Forall₂ (Judges r (r.filled type field isList vs) isList) ls vs' →
      (∀ l ∈ ls, l ∈ (r.entry returned).lines) →
      vs' = ls.map fun l => r.verdictOn isList l.1 l.2.type := by
    intro ls vs' hlvs hls
    induction hlvs with
    | nil => rfl
    | @cons l v ls vs' hlv _ ih =>
      rw [List.map_cons, ← ih fun l' hl' => hls l' (List.mem_cons_of_mem l hl'),
        ← hsorts l (hls l List.mem_cons_self) v hlv]
  exact hmap h fun l hl => mem_filterLines hl

/-- **Verdicts sort by what can be sorted by.** -/
theorem Decides.values (h : r.Decides type field returned true vs) (hbasic : returned ∉ basicTypes)
    (havoids : r.Avoids returned (· ∈ derivedNames type field ++ operatorNames)) :
    vs.flatMap Verdict.values = orderValues (r.sortKeys returned) := by
  rw [h.eq_verdicts havoids, filterLines_eq hbasic, List.flatMap_map, orderValues, sortKeys,
    List.flatMap_map]
  induction (r.entry returned).lines with
  | nil => rfl
  | cons l ls ih =>
    rw [List.flatMap_cons, ih, List.filter_cons]
    unfold Verdict.values verdictOn
    by_cases hs : r.Sortable l.2.type <;> simp [hs]

/-- Nothing is sorted by where basic values are returned. -/
theorem Decides.values_eq (h : r.Decides type field returned true vs)
    (havoids : r.Avoids returned (· ∈ derivedNames type field ++ operatorNames)) :
    vs.flatMap Verdict.values = []
      ∨ vs.flatMap Verdict.values = orderValues (r.sortKeys returned) := by
  by_cases hbasic : returned ∈ basicTypes
  · unfold Decides filterLines at h
    rw [if_pos (List.contains_iff_mem.mpr hbasic)] at h
    cases h
    exact .inl rfl
  · exact .inr (h.values hbasic havoids)

theorem sortKeys_of_outline? (hsame : ∀ n, r'.outline? n = r.outline? n) (returned : String) :
    r'.sortKeys returned = r.sortKeys returned := by
  have hsortable : ∀ s, r'.Sortable s ↔ r.Sortable s := by
    intro s
    rw [← isSortable_eq_ok_true_iff, ← isSortable_eq_ok_true_iff]
    exact ⟨(widens_of_outline? hsame).isSortable nofun,
      (widens_of_outline? fun n => (hsame n).symm).isSortable nofun⟩
  have hkeys : ∀ lines : Table FieldLine, (lines.filter fun l => r.Sortable l.2.type).map (·.1)
      = ((lines.map fun l => (l.1, l.2.type, l.2.directives)).filter
        fun l => r.Sortable l.2.1).map (·.1) := by
    intro lines
    rw [List.filter_map, List.map_map]
    rfl
  unfold sortKeys
  simp only [hsortable]
  rw [hkeys, lines_of_outline? (hsame returned), ← hkeys]

/-- Declaring the arguments of a field that is fetched changes its arguments alone. -/
theorem addFetchArguments_eq (type field : String) (isList : Bool) (line : FieldLine) :
    addFetchArguments line type field isList = { line with arguments :=
      (addFetchArguments { arguments := line.arguments } type field isList).arguments } := by
  cases isList <;> rfl

theorem has_order_addFetchArguments (type field : String) (line : FieldLine) :
    (addFetchArguments line type field true).arguments.has "order" = true := by
  unfold addFetchArguments fetchArguments
  rw [if_pos rfl]
  simp only [List.foldl_cons, List.foldl_nil, FieldLine.addArgument, Table.has_update,
    beq_self_eq_true, Bool.or_true]

theorem get?_addFetchArguments {line : FieldLine} (hline : r.line? type field = some line)
    (isList : Bool) (n : String) :
    Table.get? (r.updateField type field (addFetchArguments · type field isList)) n
      = if n = type then some ((r.entry type).onLines (·.modify field
          (addFetchArguments · type field isList)))
        else Table.get? r n := by
  have hhas : (r.entry type).lines.has field = true := by
    rw [Table.has_eq_isSome, ← line?_eq, hline]
    rfl
  rw [updateField, get?_updateType, TypeEntry.updateLine, Table.update, Table.ensure_of_has hhas]
  rfl

theorem outline?_addFetchArguments {line : FieldLine} (hline : r.line? type field = some line)
    (isList : Bool) (n : String) :
    outline? (r.updateField type field (addFetchArguments · type field isList)) n
      = r.outline? n := by
  rw [outline?, get?_addFetchArguments hline, outline?]
  split
  · rename_i hn
    rw [hn, get?_eq_some_entry (has_of_line? hline), Option.map_some, Option.map_some,
      show (addFetchArguments · type field isList) = _ from
        funext (addFetchArguments_eq type field isList)]
    exact congrArg some (outline_modifyArguments field (fun arguments =>
      (addFetchArguments { arguments } type field isList).arguments) (r.entry type))
  · rfl

theorem line?_addFetchArguments {line : FieldLine} (hline : r.line? type field = some line)
    (isList : Bool) :
    line? (r.updateField type field (addFetchArguments · type field isList)) type field
      = some (addFetchArguments line type field isList) := by
  rw [line?, get?_addFetchArguments hline, if_pos rfl, Option.bind_some, TypeEntry.onLines,
    Table.get?_modify, if_pos (beq_self_eq_true field), ← line?_eq, hline]
  rfl

/-- The values of an order enum that is new. -/
theorem orders_of_unused (hunused : Table.has r (orderEnumName type field) = false)
    (hnodup : (vs.flatMap Verdict.values).Nodup) :
    Verdict.orders vs (r.entry (orderEnumName type field)).lines
      = (vs.flatMap Verdict.values).map fun value => (value, {}) := by
  rw [entry, (Table.get?_eq_none_iff _ _).mpr hunused, Verdict.orders,
    Table.ensureAll_of_nodup hnodup fun _ _ => rfl]
  rfl

section order

variable (h : r.Decides type field returned true vs)
  (hunused : Table.has r (orderEnumName type field) = false)
  (hnodup : (vs.flatMap Verdict.values).Nodup)
include h hunused hnodup

/-- An order enum that is new has the order values of all lines, unless there are none. -/
theorem Decides.get?_enum_of_unused :
    Table.get? (r.filled type field true vs) (orderEnumName type field)
      = if vs.flatMap Verdict.values = [] then none
        else some { kind := .enum, lines := (vs.flatMap Verdict.values).map fun v => (v, {}) } := by
  have horders := orders_of_unused hunused hnodup
  rw [h.get?_enum, if_pos rfl, planOf, horders, Bool.true_and, List.isEmpty_map]
  by_cases hempty : vs.flatMap Verdict.values = []
  · rw [if_pos (List.isEmpty_iff.mpr hempty), if_pos hempty]
  · rw [if_neg (mt List.isEmpty_iff.mp hempty), if_neg hempty]
    rw [entry, (Table.get?_eq_none_iff _ _).mpr hunused] at horders ⊢
    exact congrArg some (congrArg (TypeEntry.mk .enum []) horders)

theorem Decides.has_enum_iff :
    Table.has (r.filled type field true vs) (orderEnumName type field) = true
      ↔ vs.flatMap Verdict.values ≠ [] := by
  rw [Table.has_eq_isSome, h.get?_enum_of_unused hunused hnodup]
  split <;> simp [*]

/-- The entry of the field loses its order argument if nothing can be sorted by. -/
theorem Decides.get?_owner (hhas : Table.has r type = true) :
    Table.get? (r.filled type field true vs) type
      = some (if vs.flatMap Verdict.values = [] then (r.entry type).withoutOrder field
        else r.entry type) := by
  have horders := orders_of_unused hunused hnodup
  rw [h.get?_other (owner_not_mem_derivedNames type field), get?_eq_some_entry hhas, planOf,
    horders, Option.some_or, Bool.true_and, List.isEmpty_map]
  by_cases hempty : vs.flatMap Verdict.values = []
  · rw [if_pos ⟨List.isEmpty_iff.mpr hempty, rfl⟩, if_pos hempty]
    rfl
  · rw [if_neg fun hand => hempty (List.isEmpty_iff.mp hand.1), if_neg hempty]

/-- So a field that has an order argument keeps it exactly if something can be sorted by. -/
theorem Decides.keeps_order_iff {line : FieldLine} (hline : r.line? type field = some line)
    (hargument : line.arguments.has "order" = true) :
    (∃ line', (r.filled type field true vs).line? type field = some line'
      ∧ line'.arguments.has "order" = true) ↔ vs.flatMap Verdict.values ≠ [] := by
  have hget := line?_eq r type field ▸ hline
  rw [line?, h.get?_owner hunused hnodup (has_of_line? hline), Option.bind_some]
  by_cases hempty : vs.flatMap Verdict.values = []
  · simp [hempty, TypeEntry.withoutOrder, TypeEntry.onLines, FieldLine.withoutOrder,
      Table.get?_modify, hget, Table.has_erase]
  · simp [hempty, hget, hargument]

end order

theorem nodup_sortKeys (honce : (Table.keys (r.entry returned).lines).Nodup) :
    (r.sortKeys returned).Nodup := honce.sublist (List.filter_sublist.map _)

theorem orderValues_ne_nil {keys : List String} (h : orderValues keys ≠ []) : keys ≠ [] := by
  rintro rfl
  exact h rfl

/-- **A list keeps its order argument exactly if it can be sorted.** The filters of a list that is
fetched can be written exactly if what it returns can be read. Then the field keeps the argument if
and only if the order enum is there, and the enum has the values of all lines that can be sorted by,
at least one. -/
theorem order_of_addFilters {line : FieldLine} (hline : r.line? type field = some line)
    (hwhere : Table.has r (whereInputName type field) = false)
    (horder : Table.has r (orderEnumName type field) = false)
    (hreturned : returned ∈ basicTypes ∨ Table.has r returned = true)
    (honce : (Table.keys (r.entry returned).lines).Nodup)
    (havoids : r.Avoids returned (· ∈ derivedNames type field ++ operatorNames)) :
    ((∃ r', addFilters type field returned true
          (r.updateField type field (addFetchArguments · type field true)) = (.ok ⟨⟩, r'))
        ↔ ∀ l ∈ r.filterLines returned, Legible r true l)
    ∧ ∀ u r', addFilters type field returned true
          (r.updateField type field (addFetchArguments · type field true)) = (.ok u, r') →
      ((∃ line', r'.line? type field = some line' ∧ line'.arguments.has "order" = true)
          ↔ Table.has r' (orderEnumName type field) = true)
      ∧ (Table.has r' (orderEnumName type field) = true →
        (r'.entry (orderEnumName type field)).kind = .enum
        ∧ (r'.entry (orderEnumName type field)).lines
            = ((orderValues (r.sortKeys returned)).map fun value => (value, {}))
        ∧ r.sortKeys returned ≠ []
        ∧ (orderValues (r.sortKeys returned)).Nodup) := by
  have hsame := outline?_addFetchArguments hline true
  have hfield := line?_addFetchArguments hline true
  have hargument := has_order_addFetchArguments type field line
  -- Otherwise only outlines count, so that the registry before the arguments decides.
  generalize r.updateField type field (addFetchArguments · type field true) = r1 at hsame hfield ⊢
  have hother : returned ∉ derivedNames type field :=
    hreturned.elim not_mem_derivedNames_of_basic
      fun hhas => not_mem_derivedNames_of_has hhas hwhere horder
  have hapart : Apart r1 type field returned :=
    Apart.of_outline? ⟨hother, fun l hl n hn => havoids l hl n (List.mem_append_left _ hn), honce⟩
      (hsame returned)
  have hunused : Table.has r1 (orderEnumName type field) = false := has_of_outline? (hsame _) ▸ horder
  have hnot := not_populated_of_not_has (has_of_outline? (hsame _) ▸ hwhere : Table.has r1 _ = false)
  have hfills : Fillable r1 returned true ↔ ∀ l ∈ r.filterLines returned, Legible r true l :=
    ((widens_of_outline? hsame).fillable_iff (fun _ _ _ hnone => hnone.elim) (hsame returned)).trans
      ⟨fun h => h.readable, fun h => ⟨hreturned.imp List.contains_iff_mem.mpr id, h⟩⟩
  refine ⟨(hapart.exists_run_iff hnot).trans hfills, fun u r' hrun => ?_⟩
  obtain ⟨-, vs, hvs, rfl⟩ := hapart.decides hnot hrun
  have hvalues := hvs.values_eq (havoids.of_outline? (hsame returned))
  rw [sortKeys_of_outline? hsame] at hvalues
  have hnodup : (vs.flatMap Verdict.values).Nodup := by
    rcases hvalues with hnone | hall
    · rw [hnone]
      exact List.nodup_nil
    · rw [hall]
      exact nodup_orderValues (nodup_sortKeys honce)
  have hhas := hvs.has_enum_iff hunused hnodup
  refine ⟨(hvs.keeps_order_iff hunused hnodup hfield hargument).trans hhas.symm, fun hthere => ?_⟩
  have hsome := hhas.mp hthere
  have hall := hvalues.resolve_left hsome
  rw [entry, hvs.get?_enum_of_unused hunused hnodup, if_neg hsome, hall]
  exact ⟨rfl, rfl, orderValues_ne_nil (hall ▸ hsome), hall ▸ hnodup⟩

/-- The query for items with its arguments and its filters. -/
def listed : Registry :=
  (addFilters "Query" "items" "Item" true
    (stock.updateField "Query" "items" (addFetchArguments · "Query" "items" true))).2

/-- Items are sorted by their price and their size. -/
theorem order_of_addFilters_stock :
    addFilters "Query" "items" "Item" true
        (stock.updateField "Query" "items" (addFetchArguments · "Query" "items" true))
      = (.ok ⟨⟩, listed)
    ∧ (∃ line, listed.line? "Query" "items" = some line ∧ line.arguments.has "order" = true)
    ∧ (listed.entry (orderEnumName "Query" "items")).lines
      = [("price_ASC", {}), ("price_DESC", {}), ("size_ASC", {}), ("size_DESC", {})] := by
  have hstock : Table.has stock (whereInputName "Query" "items") = false
      ∧ Table.has stock (orderEnumName "Query" "items") = false
      ∧ (Table.keys (stock.entry "Item").lines).Nodup
      ∧ stock.Avoids "Item" (· ∈ derivedNames "Query" "items" ++ operatorNames)
      ∧ (addFilters "Query" "items" "Item" true
        (stock.updateField "Query" "items" (addFetchArguments · "Query" "items" true))).1.isOk
        = true := by
    decide +kernel
  have hhas : Table.has listed (orderEnumName "Query" "items") = true := by decide +kernel
  have hlines : orderValues (stock.sortKeys "Item")
      = ["price_ASC", "price_DESC", "size_ASC", "size_DESC"] := by
    decide +kernel
  obtain ⟨hw, ho, honce, havoids, hok⟩ := hstock
  have hrun := Run.eq_of_isOk hok
  have hline : stock.line? "Query" "items" = some { type := "[Item!]" } := rfl
  obtain ⟨hiff, henum⟩ :=
    (order_of_addFilters hline hw ho (.inr (by decide)) honce havoids).2 _ _ hrun
  refine ⟨hrun, hiff.mpr hhas, ?_⟩
  have hvalues := (henum hhas).2.1
  rw [hlines] at hvalues
  exact hvalues

end Registry
end SchemaForge

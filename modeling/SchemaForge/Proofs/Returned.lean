import SchemaForge.Execution.Completion
import SchemaForge.Proofs.Evaluation
import SchemaForge.Proofs.Outcome
import SchemaForge.Proofs.Registry.Operands
import SchemaForge.Proofs.Sources

/-!
# Values passed back to a generated schema

A field of a column has the type of its kind of values, or is a text if the kind has a scalar that
nothing declares. The filters of a field that returns such types are written for this type, so that
what an answer shows of the column is an operand for the column, and selects its row.
-/
namespace SchemaForge

open Language

/-! ### The types of columns -/

/-- The type of the field of a column of a kind: that of the kind, or text. -/
theorem Synthesis.available_name (b : Declarations) (k : ColumnKind) :
    available b k.name = k.name
      ∨ available b k.name = "String" ∧ (k = .date ∨ k = .dateTime) := by
  unfold available
  cases k with
  | date | dateTime =>
    split
    · exact .inr ⟨rfl, by simp⟩
    · exact .inl rfl
  | _ => exact .inl rfl

/-- The signature of a column that is no identifier. -/
theorem Synthesis.columnSignature_eq {c : Column} {kind : String}
    (hid : kind = "String" → c.primary = false) :
    columnSignature c kind = kind ++ if c.nullable then "" else "!" := by
  have hplain : (kind == "String" && c.primary) = false := by
    by_cases h : kind = "String"
    · rw [hid h, Bool.and_false]
    · rw [beq_eq_false_iff_ne.mpr h, Bool.false_and]
  rw [columnSignature, hplain, if_neg Bool.false_ne_true]

/-- The field of a column has its type, perhaps without null. -/
theorem Synthesis.ofText?_columnSignature {c : Column} {kind : String} {t : TypeRef}
    (hkind : kind ∈ Registry.filterableTypes) (hid : kind = "String" → c.primary = false)
    (ht : TypeRef.ofText? (columnSignature c kind) = .ok t) :
    t = .named kind ∨ t = .nonNull (.named kind) := by
  have hsignatures : ∀ kind ∈ Registry.filterableTypes, ∀ nullable : Bool,
      TypeRef.ofText? (kind ++ if nullable then "" else "!")
        = .ok (if nullable then .named kind else .nonNull (.named kind)) := by
    decide +kernel
  rw [columnSignature_eq hid, hsignatures kind hkind] at ht
  cases hnullable : c.nullable with
  | true =>
    rw [hnullable] at ht
    exact .inl (Except.ok.inj ht).symm
  | false =>
    rw [hnullable] at ht
    exact .inr (Except.ok.inj ht).symm

/-- A column is filtered by the type of its field. -/
theorem Registry.filterKind?_column {c : Column} {kind : String} (hkind : kind ∈ filterableTypes)
    (hid : kind = "String" → c.primary = false) (r : Registry) :
    filterKind? r (Synthesis.columnSignature c kind) = .ok (some kind) := by
  have hsignatures : ∀ kind ∈ filterableTypes, ∀ nullable : Bool,
      filterable? (kind ++ if nullable then "" else "!") = .ok (some kind) := by
    decide +kernel
  unfold filterKind?
  rw [Synthesis.columnSignature_eq hid, hsignatures kind hkind]
  rfl

/-- Of the kinds of values, only days and moments have implementations, and these are their
scalars. -/
def Implementations.AreUsual (leaves : Implementations) : Prop :=
  ∀ (k : ColumnKind) (l : Leaf), Table.get? leaves k.name = some l →
    k = .date ∧ l = .scalar .date ∨ k = .dateTime ∧ l = .scalar .dateTime

/-- A kind of values with a standard scalar has no implementation. -/
theorem Implementations.AreUsual.leaf?_standard {leaves : Implementations} (h : leaves.AreUsual)
    (s : Schema) {k : ColumnKind} (hdate : k ≠ .date) (hdateTime : k ≠ .dateTime) :
    s.leaf? leaves k.name = Leaf.ofName? k.name := by
  have hnone : Table.get? leaves k.name = none := by
    cases hget : Table.get? leaves k.name with
    | none => rfl
    | some l =>
      rcases h k l hget with ⟨rfl, -⟩ | ⟨rfl, -⟩
      · exact absurd rfl hdate
      · exact absurd rfl hdateTime
  have hstandard : Schema.standardScalars.contains k.name = true := by
    cases k with
    | date => exact absurd rfl hdate
    | dateTime => exact absurd rfl hdateTime
    | _ => rfl
  unfold Schema.leaf?
  rw [hnone]
  exact if_pos hstandard

/-- A scalar of its own without an implementation lets everything through. -/
theorem Schema.leaf?_free {s : Schema} {leaves : Implementations} {name : String}
    (hown : Schema.isStandardType name = false) (hscalar : s.isKind name .scalar = true)
    (h : Table.get? leaves name = none) : s.leaf? leaves name = some .free := by
  obtain ⟨body, hbody, hkind⟩ := (Schema.isKind_iff hown).mp hscalar
  unfold Schema.leaf?
  rw [h, hbody, (Bool.or_eq_false_iff.mp hown).1]
  cases body with
  | scalar => rfl
  | _ => cases hkind

/-- **A column is carried by the leaf of its field**: the one of its kind, or that of texts for
days and moments. -/
theorem Leaf.exists_carries {s : Schema} {leaves : Implementations} (husual : leaves.AreUsual)
    {t : ColumnType} {k : ColumnKind} {kind : String} (hscalar : s.isKind kind .scalar = true)
    (hkind : kind = k.name
      ∨ kind = "String" ∧ (k = .date ∨ k = .dateTime) ∧ t.isA k.family = true) :
    ∃ l, s.leaf? leaves kind = some l ∧ l.Carries t k := by
  rcases hkind with rfl | ⟨rfl, hk, ht⟩
  · cases k with
    | int => exact ⟨_, husual.leaf?_standard s nofun nofun, .int⟩
    | float => exact ⟨_, husual.leaf?_standard s nofun nofun, .float⟩
    | string => exact ⟨_, husual.leaf?_standard s nofun nofun, .string⟩
    | boolean => exact ⟨_, husual.leaf?_standard s nofun nofun, .boolean⟩
    | date =>
      cases hget : Table.get? leaves ColumnKind.date.name with
      | none => exact ⟨_, Schema.leaf?_free rfl hscalar hget, .free (.inl rfl)⟩
      | some l =>
        obtain ⟨-, rfl⟩ := (husual .date l hget).resolve_right nofun
        exact ⟨_, by rw [Schema.leaf?, hget], .date⟩
    | dateTime =>
      cases hget : Table.get? leaves ColumnKind.dateTime.name with
      | none => exact ⟨_, Schema.leaf?_free rfl hscalar hget, .free (.inr rfl)⟩
      | some l =>
        obtain ⟨-, rfl⟩ := (husual .dateTime l hget).resolve_left nofun
        exact ⟨_, by rw [Schema.leaf?, hget], .dateTime⟩
  · exact ⟨_, husual.leaf?_standard (k := .string) s nofun nofun, .fallback hk ht⟩

/-! ### What an answer shows -/

theorem ColumnKind.Holds.isFlat {k : ColumnKind} {v : Value} (h : k.Holds v) :
    v.isFlat = true := by
  cases h <;> rfl

theorem Value.isAbsent_of_isFlat {v : Value} (h : v.isFlat = true) : v.isAbsent = false := by
  cases v with
  | object kind fs => cases h
  | _ => rfl

namespace Completion

variable {scene : Scene} {l : Leaf} {v shown : Value}

/-- A value without parts is shown as the leaf serializes it. -/
theorem leafValue_eq (hflat : v.isFlat = true) (hserialize : l.serialize v = .ok shown)
    (hshown : shown.isFlat = true) (hnull : shown.isNull = false) (j : Journal) :
    leafValue l v j = (.ok shown, j) := by
  have hlift : Act.lift (l.serialize v) j = (.ok shown, j) := by
    rw [hserialize]
    rfl
  have hview : Act.view v j = (.ok v, j) :=
    congrArg (fun x => (Except.ok x, j)) (Memory.view_of_isFlat hflat)
  have hrest : (do
      let shown ← Act.lift (l.serialize v)
      if shown.isNull || shown.isAbsent then throw .unexpectedNull else return shown : Act Value) j
        = (.ok shown, j) := by
    rw [Run.bind_of_ok hlift, hnull, Value.isAbsent_of_isFlat hshown]
    rfl
  unfold leafValue
  split
  · exact hrest
  · exact (Run.bind_of_ok hview _).trans hrest

/-- The answer has what is shown, where null is allowed and where it is not. -/
theorem complete_leaf {kind : String} (hleaf : scene.schema.leaf? scene.leaves kind = some l)
    (hflat : v.isFlat = true) (hvalue : v.isNull = false) (hserialize : l.serialize v = .ok shown)
    (hshown : shown.isFlat = true) (hnull : shown.isNull = false) {t : TypeRef}
    (ht : t = .named kind ∨ t = .nonNull (.named kind)) (objects : Objects) (path : Path)
    (j : Journal) : complete scene objects t path v j = (.ok (.value shown), j) := by
  have hnamed : complete scene objects (.named kind) path v j = (.ok (.value shown), j) := by
    have hplaced : Grow.placed path (leafValue l v) j = (.ok shown, j) := by
      rw [Grow.placed, leafValue_eq hflat hserialize hshown hnull]
    rw [complete, hvalue, Value.isAbsent_of_isFlat hflat, if_neg (by decide), completeNamed, hleaf]
    exact Run.bind_of_ok hplaced _
  rcases ht with rfl | rfl
  · exact hnamed
  · rw [complete]
    refine (Run.bind_of_ok hnamed _).trans ?_
    cases shown with
    | null => cases hnull
    | _ => rfl

/-- A row gives the value that it has in a column. -/
theorem fieldValue_column {m : Model} {row : Row} {model : String} {place : Nat} {call : Call}
    (hsource : call.source = .entity model place) (hmodel : scene.models.get? model = some m)
    (hrow : scene.rows.row? model place = some row)
    (hcolumn : (m.column? call.field).isSome = true)
    (hflat : (Fields.get row call.field).isFlat = true) (j : Journal) :
    fieldValue scene call {} j = (.ok (Fields.get row call.field), j) := by
  have hvalue : scene.rows.attributeOf scene.models call.source call.field
      = Fields.get row call.field := by
    rw [hsource, Store.attributeOf, hmodel, hrow]
    exact if_pos hcolumn
  have hstore : ∀ {x : Value}, x.isFlat = true → j.memory.store x = (x, j.memory) := by
    intro x hx
    cases x <;> first | rfl | cases hx
  rw [fieldValue, Chain.run_nil, plainValue, hvalue, Act.keep, Act.remember, hstore hflat]

end Completion

/-- A call is for a field of a row. -/
def Call.Asks (call : Call) (scene : Scene) (m : Model) (row : Row) : Prop :=
  ∃ model place, call.source = .entity model place ∧ scene.models.get? model = some m
    ∧ scene.rows.row? model place = some row

/-- An answer shows a value for a call of a field without directives. -/
def Scene.Answers (scene : Scene) (call : Call) (t : TypeRef) (shown : Value) : Prop :=
  ∀ objects path j, (do
    let v ← Grow.placed path (Completion.fieldValue scene call {})
    Completion.complete scene objects t path v : Grow Part) j = (.ok (.value shown), j)

/-- **An answer shows a value of a column as the leaf of its field serializes it.** -/
theorem Scene.answers_column {scene : Scene} {call : Call} {m : Model} {row : Row} {kind : String}
    {l : Leaf} {k : ColumnKind} {shown operand : Value} {type : ColumnType}
    (hasks : call.Asks scene m row) (hcolumn : (m.column? call.field).isSome = true)
    (hvalue : k.Holds (Fields.get row call.field))
    (hleaf : scene.schema.leaf? scene.leaves kind = some l)
    (h : l.Returns type (Fields.get row call.field) shown operand) {t : TypeRef}
    (ht : t = .named kind ∨ t = .nonNull (.named kind)) : scene.Answers call t shown := by
  intro objects path j
  obtain ⟨model, place, hsource, hmodel, hrow⟩ := hasks
  have hplaced : Grow.placed path (Completion.fieldValue scene call {}) j
      = (.ok (Fields.get row call.field), j) := by
    rw [Grow.placed, Completion.fieldValue_column hsource hmodel hrow hcolumn hvalue.isFlat]
  refine (Run.bind_of_ok hplaced _).trans ?_
  exact Completion.complete_leaf hleaf hvalue.isFlat hvalue.isNull h.serialize h.flat.1 h.value ht
    objects path j

namespace Generate

variable {b : Blueprint} {d d' : Draft} {g : Generated}

/-! ### What filters are written for -/

/-- The kinds of values of the lines that the filters of a field are written for. -/
def LineKinds (d' : Draft) (type field key kind : String) : Prop :=
  ∃ a ∈ d'.filterTasks, a.type = type ∧ a.field = field
    ∧ (¬IsDerived a.returned → ∃ l ∈ (d'.registry.entry a.returned).lines, l.1 = key
      ∧ ∃ r, Registry.filterKind? r l.2.type = .ok (some kind))

/-- **Filters take the operators on the kinds of the lines** of returned types. -/
theorem kinded_generated (ht : d.Tidy) (hapart : b.Apart d) (h : generate b d = (.ok g, d')) :
    d'.registry.Kinded (LineKinds d') := by
  refine kept_generated ht hapart h (fun r hfree => ?_) fun a ha =>
    (Registry.keptByFilters_kinded ..).mono fun key signature hreads r kind hfilter =>
      ⟨a, ha, rfl, rfl, fun hplain => ?_⟩
  · have hnone : ∀ name, IsFilterName name → (r.entry name).lines = [] := by
      intro name hname
      rw [Registry.entry, (Table.get?_eq_none_iff _ _).mpr
        (hfree name (Registry.isDerived_of_isFilterName hname))]
      rfl
    refine ⟨fun name hname => ?_, fun name hname l hl => ?_⟩
    · rw [hnone name hname]
      exact List.nodup_nil
    · rw [hnone name hname] at hl
      cases hl
  · obtain ⟨-, l, hl, hkey, rfl⟩ := hreads hplain
    exact ⟨l, hl, hkey, r, hfilter⟩

/-- The types that a field returns show a column by its own field, for values of a kind: whatever
else is filtered by the conditions of the field returns such types too. -/
def Shows (d' : Draft) (type field : String) (c : Column) (kind : String) : Prop :=
  ∀ a ∈ d'.filterTasks, whereInputName a.type a.field = whereInputName type field →
    ¬IsDerived a.returned ∧ ∀ l ∈ (d'.registry.entry a.returned).lines, l.1 = c.key →
      l.2.type = Synthesis.columnSignature c kind

/-- **What an answer shows of a column, passed back as the operand of `eq`, selects the row**:
the condition input of a field that returns a type with the column takes it, as a variable or as
a literal, and the store takes what is read. -/
theorem selects_returned (ht : d.Tidy) (hapart : b.Apart d) (h : generate b d = (.ok g, d'))
    (hr : d'.registry.Readable) (hrecords : d'.directives.Readable) (husual : b.leaves.AreUsual)
    {models : Models} {m : Model} {c : Column} {row : Row} {k : ColumnKind} {kind : String}
    (hcolumn : m.HasColumn c) (hdescribes : k.Describes c.type)
    (hkind : kind = Synthesis.available (b.declarations b.startSchema?) k.name)
    (hscalar : g.schema.isKind kind .scalar = true)
    (hid : kind = "String" → c.primary = false)
    (hplain : kind ≠ k.name → c.type.isA k.family = true)
    {type field : String} (hshows : Shows d' type field c kind) {i : InputNode}
    (hi : i ∈ g.schema.inputs (whereInputName type field)) (hname : i.name = c.key)
    (hkey : Condition.isConnective c.key = false)
    (hvalue : k.Holds (Fields.get row c.key)) (hfits : (Fields.get row c.key).IsRepresentable) :
    ∃ shown operand clause,
      (∀ (scene : Scene) (call : Call) (t : TypeRef), scene.schema = g.schema →
        scene.leaves = g.leaves → call.Asks scene m row → call.field = c.key →
        TypeRef.ofText? (Synthesis.columnSignature c kind) = .ok t → scene.Answers call t shown)
      ∧ Coercion.ofValue g.schema g.leaves (Coercion.defaultOf g.schema)
          (.named (whereInputName type field)) (Condition.single c.key .eq shown)
            = some (Condition.single c.key .eq operand)
      ∧ (∀ vars, shown.isLiteral = true →
          Coercion.ofLiteral g.schema g.leaves (Coercion.defaultOf g.schema) vars
            (.named (whereInputName type field))
            (.object [(c.key, .object [("eq", shown.literal)])])
              = some (Condition.single c.key .eq operand))
      ∧ Clause.ofCondition models m (Condition.single c.key .eq operand) = .ok (some clause)
      ∧ clause.selects row = true := by
  obtain ⟨base, hbase, hbuilds⟩ := builds_generated ht h hr hrecords
  have hnew : ∀ name, IsDerived name → Registry.IsNew base name := fun name hname =>
    isNew_of_isDerived hapart hbase hname
  have hcarried := Synthesis.available_name (b.declarations b.startSchema?) k
  rw [← hkind] at hcarried
  have hmem : kind ∈ Registry.filterableTypes := by
    rcases hcarried with rfl | ⟨rfl, -⟩
    · cases k <;> decide
    · decide
  -- The condition input has the operators on the kind of the field for the column.
  obtain ⟨_, _, kind', hown, ⟨a, ha, rfl, rfl, hline⟩, -, hwhere, heq⟩ :=
    hbuilds.takesField_condition (filled_generated ht hapart h) (kinded_generated ht hapart h) hnew
      (Registry.isFilterName_whereInputName type field) hi (hname ▸ hkey)
  obtain ⟨hreturned, hsignature⟩ := hshows a ha hown.symm
  obtain ⟨l, hl, hlkey, r, hfilter⟩ := hline hreturned
  rw [hsignature l hl (hlkey.trans hname),
    Registry.filterKind?_column hmem hid] at hfilter
  obtain rfl := Option.some.inj (Except.ok.inj hfilter)
  rw [hname] at hwhere
  obtain ⟨leaf, hleaf, hcarries⟩ := Leaf.exists_carries (leaves_generated h ▸ husual) hscalar
    (hcarried.imp_right fun ⟨hstring, hk⟩ => ⟨hstring, hk, hplain (by
      rw [hstring]
      rcases hk with rfl | rfl <;> decide)⟩)
  obtain ⟨shown, operand, hreturns⟩ := hcarries.returns hdescribes hvalue hfits
  obtain ⟨hread, hliteral⟩ := Coercion.reads_eq hreturns hleaf hwhere heq
  obtain ⟨clause, hclause, hselects⟩ :=
    Clause.selects_eq_value hcolumn hkey hdescribes hvalue hreturns.coerce
  refine ⟨shown, operand, clause, fun scene call t hschema hleaves hasks hfield ht => ?_, hread,
    hliteral, hclause, hselects⟩
  rw [← hschema, ← hleaves] at hleaf
  have hthere : (m.column? call.field).isSome = true := by
    rw [hfield, hcolumn.column]
    rfl
  rw [← hfield] at hvalue hreturns
  exact Scene.answers_column hasks hthere hvalue hleaf hreturns
    (Synthesis.ofText?_columnSignature hmem hid ht)

/-! ### Letters -/

/-- Letters with the time when they were sent, and a size. -/
def letterModel : Model where
  name := "Letter"
  table := "letters"
  columns := [⟨"id", "id", .base "Integer", true, false, none⟩,
    ⟨"sent", "sent", .base "DateTime", false, true, none⟩,
    ⟨"size", "size", .base "BigInteger", false, true, none⟩]
  virtuals := []
  associations := []

/-- Letters and a query for them, without a scalar for moments. -/
def correspondence : Blueprint where
  base := .absent
  types := [("Letter", .mapped "Letter"), ("Query", .inline (.fields [("letters",
    .field (.config { returnType := .text "[Letter!]", resolver := fromStore }))]))]
  models := [("Letter", letterModel)]
  policies := []
  plugins := [.store [] none]
  columnTypes := []
  implementations := []

/-- The type of conditions on letters. -/
def lettersWhere : String := whereInputName "Query" "letters"

/-- Conditions on letters are written for letters, which are sent at a text. They take no size of
more than 32 bits. -/
def asksForLetters (g : Generated) (d' : Draft) : Bool :=
  (g.schema.inputs lettersWhere).any (·.name == "sent")
    && d'.filterTasks == [⟨"Query", "letters", "Letter"⟩]
    && (d'.registry.entry "Letter").lines.all (fun l => l.1 != "sent" || l.2.type == "String")
    && g.schema.isKind "String" .scalar
    && (Coercion.ofValue g.schema g.leaves (Coercion.defaultOf g.schema) (.named lettersWhere)
      (Condition.single "size" .eq (.int 3000000000))).isNone

theorem generate_correspondence : ∃ g d', generate correspondence {} = (.ok g, d')
    ∧ d'.registry.Readable ∧ d'.directives.Readable ∧ asksForLetters g d' = true := by
  have hgives : gives asksForLetters correspondence {} = true := by
    unfold gives viaDocument Generate.wire Schema.walk Schema.entered
    simp only [Schema.enter_eq_enterN]
    decide +kernel
  exact eq_of_gives hgives

theorem apart_correspondence : correspondence.Apart {} := by
  refine Blueprint.apart_of_short rfl fun t hmem => ?_
  have hnames : t ∈ ["Letter", "Query"] := hmem
  simp only [List.mem_cons, List.not_mem_nil, or_false] at hnames
  rcases hnames with rfl | rfl <;> decide

/-- Half past noon on the third of May. -/
private def halfPastNoon : Moment :=
  ⟨⟨2024, 5, 3, by decide⟩, 12, 30, 0, 0, none, by decide, nofun⟩

/-- A moment that is shown as a text selects its letter by this text. -/
theorem selects_returned_letters : ∃ g d' shown operand clause,
    generate correspondence {} = (.ok g, d')
      ∧ Coercion.ofValue g.schema g.leaves (Coercion.defaultOf g.schema) (.named lettersWhere)
          (Condition.single "sent" .eq shown) = some (Condition.single "sent" .eq operand)
      ∧ Clause.ofCondition correspondence.models letterModel (Condition.single "sent" .eq operand)
          = .ok (some clause)
      ∧ clause.selects [("sent", .moment halfPastNoon)] = true := by
  obtain ⟨g, d', h, hr, hrecords, hasks⟩ := generate_correspondence
  simp only [asksForLetters, Bool.and_eq_true, beq_iff_eq, List.any_eq_true] at hasks
  obtain ⟨⟨⟨⟨⟨i, hi, hname⟩, htasks⟩, hlines⟩, hscalar⟩, -⟩ := hasks
  have hshows : Shows d' "Query" "letters" ⟨"sent", "sent", .base "DateTime", false, true, none⟩
      "String" := by
    intro a ha _
    rw [htasks, List.mem_singleton] at ha
    subst ha
    refine ⟨fun hderived => absurd (length_of_isDerived hderived) (by decide), fun l hl hkey => ?_⟩
    have hline := List.all_eq_true.mp hlines l hl
    rw [hkey] at hline
    have htype : l.2.type = "String" := by simpa using hline
    rw [htype]
    decide
  obtain ⟨shown, operand, clause, -, hread, -, hclause, hselects⟩ :=
    @selects_returned correspondence {} d' g (Draft.tidy_of_extensions {}) apart_correspondence h hr
      hrecords (fun k l hl => by cases hl) correspondence.models letterModel
      ⟨"sent", "sent", .base "DateTime", false, true, none⟩ [("sent", .moment halfPastNoon)]
      .dateTime "String" ⟨rfl, rfl⟩ (by decide) (by decide) hscalar (fun _ => rfl) (fun _ => rfl)
      "Query" "letters" hshows i hi hname rfl (.dateTime rfl) trivial
  exact ⟨g, d', shown, operand, clause, h, hread, hclause, hselects⟩

/-- **Numbers that no answer shows**: an integer of more than 32 bits is neither shown nor read as
an operand, and null, which the answer has in its place, does not select the row. An infinite
number is not shown either. -/
theorem not_returned_size : ∃ g d', generate correspondence {} = (.ok g, d')
    ∧ g.schema.leaf? g.leaves "Int" = some .int
    ∧ Leaf.int.serialize (.int 3000000000) = .error .unrepresentable
    ∧ Coercion.ofValue g.schema g.leaves (Coercion.defaultOf g.schema) (.named lettersWhere)
        (Condition.single "size" .eq (.int 3000000000)) = none
    ∧ (∃ clause, Clause.ofCondition correspondence.models letterModel
          (Condition.single "size" .eq .null) = .ok (some clause)
        ∧ clause.selects [("size", .int 3000000000)] = false)
    ∧ Leaf.float.serialize (.real (Real64.infinity false)) = .error .unrepresentable := by
  obtain ⟨g, d', h, -, -, hasks⟩ := generate_correspondence
  have hnone := (Bool.and_eq_true_iff.mp hasks).2
  have husual : g.leaves.AreUsual := by
    rw [leaves_generated h]
    exact fun k l hl => by cases hl
  exact ⟨g, d', h, husual.leaf?_standard (k := .int) g.schema nofun nofun, rfl,
    Option.isNone_iff_eq_none.mp hnone, ⟨_, rfl, rfl⟩, by with_unfolding_all rfl⟩

end Generate
end SchemaForge

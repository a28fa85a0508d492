import SchemaForge.Proofs.Evaluation
import SchemaForge.Proofs.Sources

/-!
# What a schema offers and the store takes

The condition input and the order enum of a field are written from the lines of the type that
it returns, and the store reads conditions and orders by the members of a model. The two meet
exactly where every name that is offered stands for a column. If the model describes the type,
this fails for no names but those of virtual fields and of associations. Besides, some
operators on a column take no null, although the schema lets it through.
-/
namespace SchemaForge

open Language

/-! ### Members -/

/-- Members of a model that a condition may fail to compare: associations that no column of the
model holds, virtual fields, and members with the name of a connective. -/
inductive Models.Indirect (models : Models) (m : Model) (key : String) : Prop
  | association (a : Association) (ha : m.association? key = some a)
      (hown : models.ownReference? m a = none)
  | virtual (v : Virtual) (hv : v ∈ m.virtuals) (hkey : v.key = key)
  | connective (hmem : key ∈ m.memberNames) (hkey : Condition.isConnective key = true)

/-- A column has the name that it is found by. -/
theorem Model.exists_column?_of_mem {m : Model} {c : Column} (hc : c ∈ m.columns) :
    ∃ c', m.column? c.key = some c' :=
  Option.isSome_iff_exists.mp (List.find?_isSome.mpr ⟨c, hc, beq_self_eq_true c.key⟩)

/-- **Conditions compare by every member of a model that is not indirect.** -/
theorem Models.filters_or_indirect {models : Models} {m : Model} {key : String}
    (h : key ∈ m.memberNames) : models.Filters m key ∨ models.Indirect m key := by
  cases hconnective : Condition.isConnective key with
  | true => exact .inr (.connective h hconnective)
  | false =>
    cases ha : m.association? key with
    | some a =>
      cases hown : models.ownReference? m a with
      | some reference =>
        refine .inl ⟨hconnective, ⟨m.table, reference.1⟩, ?_⟩
        simp only [Clause.subject, ha, hown]
      | none => exact .inr (.association a ha hown)
    | none =>
      rcases List.mem_append.mp h with h | h
      · rcases List.mem_append.mp h with h | h
        · obtain ⟨c, hc, rfl⟩ := List.mem_map.mp h
          obtain ⟨c', hc'⟩ := Model.exists_column?_of_mem hc
          refine .inl ⟨hconnective, ⟨m.table, c'⟩, ?_⟩
          simp only [Clause.subject, ha, Model.member?, hc']
        · obtain ⟨v, hv, hkey⟩ := List.mem_map.mp h
          exact .inr (.virtual v hv hkey)
      · obtain ⟨a, hmem, hkey⟩ := List.mem_map.mp h
        exact absurd (beq_iff_eq.mpr hkey) (by simpa using List.find?_eq_none.mp ha a hmem)

/-- **Rows are sorted by every member of a model but associations and virtual fields.** -/
theorem Model.sorts_or_indirect {m : Model} {key : String} (h : key ∈ m.memberNames)
    (hkey : key ≠ "") (descending : Bool) : m.Sorts (OrderTerm.value key descending)
      ∨ key ∈ m.virtuals.map (·.key) ∨ key ∈ m.associations.map (·.key) := by
  rcases List.mem_append.mp h with h | h
  · rcases List.mem_append.mp h with h | h
    · obtain ⟨c, hc, rfl⟩ := List.mem_map.mp h
      obtain ⟨c', hc'⟩ := Model.exists_column?_of_mem hc
      refine .inl ⟨c.key, descending, c', rfl, hkey, ?_⟩
      simp only [Model.member?, hc']
    · exact .inr (.inl h)
  · exact .inr (.inr h)

namespace Generate

variable {b : Blueprint} {d d' : Draft} {g : Generated}

/-- **The store takes every condition that fits the condition input of a field, but for
operands that a column cannot be compared with, exactly if every name that the input offers
stands for a column; and every order list that fits the order enum of the field exactly if
every value that the enum offers is one of a column.** If a model describes the types that the
field returns where its filters are asked for, all names stand for columns but those of indirect
members. What is read from a request for an argument, from a variable or a literal, fits its
type. -/
theorem takes_offered_iff (ht : d.Tidy) (hapart : b.Apart d) (h : generate b d = (.ok g, d'))
    (hr : d'.registry.Readable) (hrecords : d'.directives.Readable) (type field : String)
    (models : Models) (m : Model) :
    (g.schema.isKind (whereInputName type field) .input = true →
      ((∀ w, g.schema.Fits g.leaves (.named (whereInputName type field)) w →
          (Clause.ofCondition models m w).isOk = Condition.every Clause.comparable w)
        ↔ ∀ i ∈ g.schema.inputs (whereInputName type field), i.type.isList = false →
            models.Filters m i.name)
      ∧ ((∀ a ∈ d'.filterTasks, whereInputName a.type a.field = whereInputName type field →
            b.Describes d a.returned m) →
          ∀ i ∈ g.schema.inputs (whereInputName type field), i.type.isList = false →
            models.Filters m i.name ∨ models.Indirect m i.name))
    ∧ (g.schema.isKind (orderEnumName type field) .enum = true →
      ((∀ v, g.schema.Fits g.leaves (.list (.nonNull (.named (orderEnumName type field)))) v →
          (OrderTerm.ofValues m v).isOk = true)
        ↔ ∀ word ∈ g.schema.words (orderEnumName type field), m.Sorts word)
      ∧ ((∀ a ∈ d'.filterTasks, orderEnumName a.type a.field = orderEnumName type field →
            b.Describes d a.returned m) →
          ∀ word ∈ g.schema.words (orderEnumName type field), ∃ key descending,
            word = OrderTerm.value key descending
              ∧ (m.Sorts word ∨ key ∈ m.virtuals.map (·.key) ∨ key ∈ m.associations.map (·.key))))
    ∧ (∀ t x v, Coercion.ofValue g.schema g.leaves (Coercion.defaultOf g.schema) t x = some v →
        g.schema.Fits g.leaves t v)
    ∧ ∀ t x v, Coercion.ofLiteral g.schema g.leaves (Coercion.defaultOf g.schema) [] t x = some v →
        g.schema.Fits g.leaves t v := by
  obtain ⟨base, hbase, hbuilds⟩ := builds_generated ht h hr hrecords
  have hnew : ∀ name, IsDerived name → Registry.IsNew base name := fun name hname =>
    isNew_of_isDerived hapart hbase hname
  have hfilled := filled_generated ht hapart h
  have hleaves := implementsScalars_generated h
  refine ⟨fun hkind => ⟨⟨fun hall i hi hlist => ?_, fun hfilters w => ?_⟩,
      fun hdescribes i hi hlist => ?_⟩,
    fun hkind => ⟨?_, fun hdescribes word hword => ?_⟩, fun t x v => ?_, fun t x v => ?_⟩
  · have hinput := hbuilds.conditionInput hleaves hfilled hnew
      (Registry.isFilterName_whereInputName type field) hkind
    by_contra hnot
    obtain ⟨hfits, hcomparable, hrefused⟩ := Clause.refuses_nowhere hinput hi hlist hnot
    rw [hall _ hfits, hcomparable] at hrefused
    cases hrefused
  · exact Clause.isOk_ofCondition (hbuilds.conditionInput hleaves hfilled hnew
      (Registry.isFilterName_whereInputName type field) hkind) hfilters w
  · obtain ⟨t, f, hname, a, ha, rfl, rfl, hkey⟩ := hbuilds.exists_of_input hfilled
      (hnew _ (isDerived_whereInputName type field))
      (Registry.isFilterName_whereInputName type field) hkind hi hlist
    have hdescribed := hdescribes a ha hname.symm
    exact Models.filters_or_indirect (hdescribed.members _ (hkey hdescribed.plain))
  · exact OrderTerm.isOk_ofValues_iff
      (hbuilds.nameEnum hleaves (hnew _ (isDerived_orderEnumName type field)) hkind)
  · obtain ⟨t, f, key, descending, hname, ⟨a, ha, rfl, rfl, hkey⟩, rfl⟩ :=
      hbuilds.exists_of_word hfilled (hnew _ (isDerived_orderEnumName type field))
        (Registry.isFilterName_orderEnumName type field) hkind hword
    have hdescribed := hdescribes a ha hname.symm
    have hmember := hdescribed.members _ (hkey hdescribed.plain)
    exact ⟨key, descending, rfl, Model.sorts_or_indirect hmember
      (fun hempty => hdescribed.named (hempty ▸ hmember)) descending⟩
  · exact Coercion.fits_of_ofValue (fun i v => Coercion.fits_of_defaultOf i v) t x v
  · exact Coercion.fits_of_ofLiteral (.inl rfl) (fun i v => Coercion.fits_of_defaultOf i v) t x v

/-! ### Items in a catalogue -/

theorem apart_catalogue (c : FieldConfig) (x : Extensions)
    (hx : ∀ t ∈ Table.keys x.fields, t.length < 11) :
    (catalogue c).Apart { extensions := x } := by
  refine Blueprint.apart_of_short rfl fun t hmem => ?_
  rcases List.mem_append.mp hmem with hmem | hmem
  · have hnames : t ∈ ["Item", "Query"] := hmem
    simp only [List.mem_cons, List.not_mem_nil, or_false] at hnames
    rcases hnames with rfl | rfl <;> decide
  · exact hx t hmem

/-- Items have the fields of their model. -/
theorem describes_items : (catalogue listed).Describes {} "Item" itemModel where
  plain h := absurd (length_of_isDerived h) (by decide)
  members := by decide +kernel
  named := by decide

/-- Conditions and orders of items are written for items. -/
def asksForItems (g : Generated) (d' : Draft) : Bool :=
  g.schema.isKind (whereInputName "Query" "items") .input
    && g.schema.isKind (orderEnumName "Query" "items") .enum
    && d'.filterTasks == [⟨"Query", "items", "Item"⟩]

/-- The store takes all order lists and all conditions on items, which have nothing but columns,
but for conditions that compare a column in order with null or a truth value. -/
theorem takes_offered_iff_items : ∃ g d', generate (catalogue listed) {} = (.ok g, d')
    ∧ Draft.Tidy {} ∧ (catalogue listed).Apart {} ∧ d'.registry.Readable ∧ d'.directives.Readable
    ∧ g.schema.isKind (whereInputName "Query" "items") .input = true
    ∧ g.schema.isKind (orderEnumName "Query" "items") .enum = true
    ∧ d'.filterTasks = [⟨"Query", "items", "Item"⟩]
    ∧ (catalogue listed).Describes {} "Item" itemModel
    ∧ (∀ w, g.schema.Fits g.leaves (.named (whereInputName "Query" "items")) w →
        (Clause.ofCondition [("Item", itemModel)] itemModel w).isOk
          = Condition.every Clause.comparable w)
    ∧ ∀ v, g.schema.Fits g.leaves (.list (.nonNull (.named (orderEnumName "Query" "items")))) v →
        (OrderTerm.ofValues itemModel v).isOk = true := by
  have hgives : gives asksForItems (catalogue listed) {} = true := by
    unfold gives viaDocument Generate.wire Schema.walk Schema.entered
    simp only [Schema.enter_eq_enterN]
    decide +kernel
  obtain ⟨g, d', h, hr, hrecords, hasks⟩ := eq_of_gives hgives
  simp only [asksForItems, Bool.and_eq_true, beq_iff_eq] at hasks
  obtain ⟨⟨hinput, henum⟩, htasks⟩ := hasks
  have ht : Draft.Tidy {} := Draft.tidy_of_extensions {}
  have hapart : (catalogue listed).Apart {} := apart_catalogue listed {} fun t ht => by cases ht
  have hdescribes : ∀ a ∈ d'.filterTasks, (catalogue listed).Describes {} a.returned itemModel := by
    intro a ha
    rw [htasks] at ha
    rw [List.mem_singleton.mp ha]
    exact describes_items
  obtain ⟨hwhere, horder, -⟩ :=
    takes_offered_iff ht hapart h hr hrecords "Query" "items" [("Item", itemModel)] itemModel
  obtain ⟨hfilters, hfields⟩ := hwhere hinput
  obtain ⟨hsorts, hwords⟩ := horder henum
  refine ⟨g, d', h, ht, hapart, hr, hrecords, hinput, henum, htasks, describes_items,
    hfilters.mpr fun i hi hlist => ?_, hsorts.mpr fun word hword => ?_⟩
  · refine (hfields (fun a ha _ => hdescribes a ha) i hi hlist).resolve_right fun hindirect => ?_
    cases hindirect with
    | association a ha hown => cases ha
    | virtual v hv hkey => cases hv
    | connective hmem hkey =>
      rw [List.mem_singleton.mp hmem] at hkey
      cases hkey
  · obtain ⟨key, descending, -, hword⟩ := hwords (fun a ha _ => hdescribes a ha) word hword
    rcases hword with hword | hvirtual | hassociation
    · exact hword
    · cases hvirtual
    · cases hassociation

/-- Whether a literal is read for an argument of a type, as a value with a property. -/
def readsWith (g : Generated) (t : TypeRef) (l : Literal) (p : Value → Bool) : Bool :=
  (Coercion.ofLiteral g.schema g.leaves (Coercion.defaultOf g.schema) [] t l).any p

theorem fits_of_readsWith {t : TypeRef} {l : Literal} {p : Value → Bool}
    (h : readsWith g t l p = true) : ∃ v, g.schema.Fits g.leaves t v ∧ p v = true := by
  obtain ⟨v, hv, hp⟩ := (Option.any_eq_true _ _).mp h
  exact ⟨v, Coercion.fits_of_ofLiteral (.inl rfl) (fun i v => Coercion.fits_of_defaultOf i v)
    t l v hv, hp⟩

/-- The type of conditions on items. -/
def itemsWhere : TypeRef := .named (whereInputName "Query" "items")

/-- The type of order lists of items. -/
def itemsOrder : TypeRef := .list (.nonNull (.named (orderEnumName "Query" "items")))

/-- Whether the store refuses a condition on items. -/
def refusesWhere (w : Value) : Bool :=
  !(Clause.ofCondition [("Item", itemModel)] itemModel w).isOk

/-- An extension of items by a field that no column holds. -/
def ranked : Draft where
  extensions := { fields := [("Item", [("rank", .field (.config
    { returnType := .text "Int", resolver := .callable ⟨.const (.int 1), false⟩ }))])] }

/-- **The schema offers what the store refuses.** Null fits where a number is compared in
order, and is refused there, although values in memory take it; and the field of an extension
is offered to conditions and orders, although it is no column. -/
theorem not_takes_offered :
    (∃ g d' w, generate (catalogue listed) {} = (.ok g, d') ∧ g.schema.Fits g.leaves itemsWhere w
      ∧ refusesWhere w = true
      ∧ (Condition.holds (Fields.get [("id", .int 1)]) w).toOption = some false)
    ∧ ∃ g d' w v, generate (catalogue listed) ranked = (.ok g, d')
      ∧ g.schema.Fits g.leaves itemsWhere w ∧ refusesWhere w = true
      ∧ g.schema.Fits g.leaves itemsOrder v ∧ (OrderTerm.ofValues itemModel v).isOk = false := by
  constructor
  · have hgives : gives (fun g _ => readsWith g itemsWhere
        (.object [("id", .object [("lt", .null)])]) fun w => refusesWhere w
          && (Condition.holds (Fields.get [("id", .int 1)]) w).toOption == some false)
        (catalogue listed) {} = true := by
      unfold gives viaDocument Generate.wire Schema.walk Schema.entered
      simp only [Schema.enter_eq_enterN]
      decide +kernel
    obtain ⟨g, d', h, -, -, hreads⟩ := eq_of_gives hgives
    obtain ⟨w, hfits, hw⟩ := fits_of_readsWith hreads
    obtain ⟨hrefused, hmemory⟩ := Bool.and_eq_true_iff.mp hw
    exact ⟨g, d', w, h, hfits, hrefused, beq_iff_eq.mp hmemory⟩
  · have hgives : gives (fun g _ => readsWith g itemsWhere
        (.object [("rank", .object [("eq", .int "1")])]) refusesWhere
        && readsWith g itemsOrder (.list [.enum "rank_ASC"])
          fun v => !(OrderTerm.ofValues itemModel v).isOk) (catalogue listed) ranked = true := by
      unfold gives viaDocument Generate.wire Schema.walk Schema.entered
      simp only [Schema.enter_eq_enterN]
      decide +kernel
    obtain ⟨g, d', h, -, -, hreads⟩ := eq_of_gives hgives
    obtain ⟨hwhere, horder⟩ := Bool.and_eq_true_iff.mp hreads
    obtain ⟨w, hw, hrefused⟩ := fits_of_readsWith hwhere
    obtain ⟨v, hv, hvrefused⟩ := fits_of_readsWith horder
    exact ⟨g, d', w, v, h, hw, hrefused, hv, by simpa using hvrefused⟩

end Generate
end SchemaForge

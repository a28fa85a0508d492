import SchemaForge.Proofs.Evaluation
import SchemaForge.Proofs.Fetched
import SchemaForge.Proofs.Registry.Fields
import SchemaForge.Proofs.Synthesis.Losses

/-!
# Lists and single rows

The schema takes the type of a field from its line, where the return type that was declared
last stands. A fetch takes the return type of the configuration that declarations left. The
two need not be of one declaration: a return type alone changes only the line, and a resolver
alone only the configuration. **`serves_iff_agrees`** says that a field serves what the schema
says exactly where they agree on whether it is a list.
-/
namespace SchemaForge

open Language

namespace Blueprint

variable (b : Blueprint)

/-- The schema to start from, if there is one that can be read. -/
def startSchema? : Option Schema :=
  match b.base.schema? with
  | .ok base => base
  | .error _ => none

/-- The type that declarations give a field: the one that was declared last, or the one that
it has in the schema to start from. -/
def typeOf? (d : Draft) (s : ThunkState) (type field : String) : Option TypeRef :=
  let w := b.standing d s type field
  if (w.kind == .object || w.kind == .interface) && w.signature != "" then
    (TypeRef.ofText? w.signature).toOption
  else (b.startSchema?.bind (·.field? type field)).map (·.type)

end Blueprint

namespace Generate

variable {b : Blueprint} {d d' : Draft} {g : Generated} {v : Visit}

/-- A generation keeps drafts tidy. -/
theorem tidy_generated (ht : d.Tidy) (h : generate b d = (.ok g, d')) : d'.Tidy := by
  obtain ⟨base, d2, -, hsynth, -, -, -, hd⟩ := generate_eq_ok h
  have htidy := Synthesis.tidy_of_synthesize ht hsynth
  rw [hd]
  exact ⟨htidy.types, htidy.configs⟩

/-- **What is built is the schema to start from with the document of the registry**, which is
not built over it where it is empty. -/
theorem exists_document (h : generate b d = (.ok g, d')) (hr : d'.registry.Readable)
    (hrecords : d'.directives.Readable) : ∃ base doc s, b.base.schema? = .ok base
      ∧ d'.registry.documentOf d'.directives ((base.map (·.typeNames)).getD [])
        ((base.map fun s => s.allDirectives.map (·.name)).getD []) = some doc
      ∧ ((doc = [] ∧ s = base.getD Schema.empty) ∨ Schema.ofAddition ⟨base, doc⟩ = .ok s)
      ∧ g.schema.types = s.types := by
  obtain ⟨base, d2, hbase, -, htext, hschema, -, hd⟩ := generate_eq_ok h
  obtain ⟨s, hs, hrooted⟩ := Outcome.bind_eq_ok.mp hschema
  rw [hd] at hr hrecords ⊢
  rcases build_eq_ok hs with ⟨hempty, rfl⟩ | ⟨hsome, doc, hdoc, hadded⟩
  · rw [hempty] at htext
    exact ⟨base, [], _, hbase, Registry.documentOf_of_text_empty hr hrecords htext,
      .inl ⟨rfl, rfl⟩, types_rooted hrooted⟩
  · have hread := Registry.ofText?_text hr hrecords htext hsome
    rw [hdoc] at hread
    exact ⟨base, doc, s, hbase, hread.symm, .inr hadded, types_rooted hrooted⟩

/-- **A visited field has the type of its line, or the one of the schema to start from.** -/
theorem typeOf?_visited (hb : b.base.Proper) (ht : d.Tidy) (h : generate b d = (.ok g, d'))
    (hr : d'.registry.Readable) (hrecords : d'.directives.Readable) (hv : v ∈ g.schema.walk) :
    d'.registry.typeOf? b.startSchema? v.parent v.field = some v.type := by
  obtain ⟨base, doc, s, hbase, hdocument, hbuilt, htypes⟩ := exists_document h hr hrecords
  have hstart : b.startSchema? = base := by
    unfold Blueprint.startSchema?
    rw [hbase]
  have hdistinct := distinct_base hb hbase
  obtain ⟨-, f, hf, hname, htype⟩ := (g.schema.mem_walk).mp hv
  have hf : f ∈ s.fields v.parent := by
    unfold Schema.fields Schema.body? at hf ⊢
    rw [← htypes]
    exact hf
  rw [hstart, ← hname, ← htype]
  rcases hbuilt with ⟨rfl, rfl⟩ | hadded
  · cases base with
    | none => cases hf
    | some base =>
      refine Registry.typeOf?_of_old (hdistinct base rfl) hdocument hf fun n hn => ?_
      cases hn
  · exact Registry.typeOf?_of_mem (tidy_generated ht h).types hdistinct hdocument hadded hf

/-- Which type this is follows from the declarations alone, unless the parent is derived. -/
theorem typeOf?_declared (hb : b.base.Proper) (ht : d.Tidy) (h : generate b d = (.ok g, d'))
    (hr : d'.registry.Readable) (hrecords : d'.directives.Readable) (hv : v ∈ g.schema.walk)
    (hparent : ¬IsDerived v.parent) :
    b.typeOf? d d'.thunks v.parent v.field = some v.type := by
  have hvisited := typeOf?_visited hb ht h hr hrecords hv
  have hexact := (standsAs_generated ht h (.refl _) v.parent v.field).exact hparent
  have hdeclared : b.typeOf? d d'.thunks v.parent v.field
      = if (d'.registry.entry v.parent).hasFields && (d'.registry.line v.parent v.field).type != ""
        then (TypeRef.ofText? (d'.registry.line v.parent v.field).type).toOption
        else (b.startSchema?.bind (·.field? v.parent v.field)).map (·.type) := by
    rw [Blueprint.typeOf?, ← hexact]
    rfl
  rw [hdeclared, ← hvisited]
  unfold Registry.typeOf? at hvisited ⊢
  cases hfields : (d'.registry.entry v.parent).hasFields with
  | false => rfl
  | true =>
    cases hhas : (d'.registry.entry v.parent).lines.has v.field with
    | false =>
      have hline : (d'.registry.line v.parent v.field).type = "" := by
        rw [Registry.line, (Table.get?_eq_none_iff _ _).mpr hhas]
        rfl
      rw [hline]
      rfl
    | true =>
      have hsome : ((d'.registry.line v.parent v.field).type != "") = true := by
        rw [bne_iff_ne]
        intro hnone
        rw [hfields, hhas, hnone] at hvisited
        cases hvisited
      rw [hsome]

/-- **A fetched field serves what the schema says of it if the last deed that gives it a
signature is also the last that takes it over.** -/
theorem serves_of_last (hb : b.base.Proper) (ht : d.Tidy) (h : generate b d = (.ok g, d'))
    (hr : d'.registry.Readable) (hrecords : d'.directives.Readable) (hv : v ∈ g.schema.walk)
    (hparent : ¬IsDerived v.parent) (hfields : (d'.registry.entry v.parent).hasFields)
    {pre post : List Deed} {owner : Option ModelRef} {c : FieldConfig} {signature : String}
    (hdeeds : b.deeds d.extensions = pre ++ .declared v.parent v.field owner c :: post)
    (hfetched : c.isFetched) (htype : c.returnType = .text signature) (hsome : signature ≠ "")
    (hkind : (Standing.after d'.thunks v.parent v.field pre
      (d.standing d'.thunks v.parent v.field)).kind ≠ .union)
    (hpost : ∀ deed ∈ post, deed.takesOver v.parent v.field = none
      ∧ deed.retypes v.parent v.field = false) :
    ∃ x f, g.handlers.find? v.parent v.field = some x ∧ x.yield = .fetch f ∧ f.Serves v.isList := by
  have htruthy : c.returnType.truthy = true := by
    rw [htype]
    simpa [Value.truthy] using hsome
  obtain ⟨⟨c', hc', hfetched', hreturn⟩, hsignature⟩ :=
    Standing.config_of_last hfetched htruthy hkind hpost
  rw [← hdeeds] at hc' hsignature
  obtain ⟨x, f, hfind, hyield, hconfig, -⟩ := find?_fetched hb ht h hv hc' hfetched'
  have hline : (d'.registry.line v.parent v.field).type = signature := by
    have hexact := (standsAs_generated ht h (.refl _) v.parent v.field).exact hparent
    refine (congrArg Standing.signature hexact).trans (hsignature.trans ?_)
    rw [FieldConfig.signature, if_pos htruthy, htype]
    rfl
  have hhas : (d'.registry.entry v.parent).lines.has v.field = true := by
    cases hhas : (d'.registry.entry v.parent).lines.has v.field with
    | true => rfl
    | false =>
      rw [Registry.line, (Table.get?_eq_none_iff _ _).mpr hhas] at hline
      exact absurd hline.symm hsome
  have hvisited := typeOf?_visited hb ht h hr hrecords hv
  rw [Registry.typeOf?, hfields, hhas, Bool.and_self, if_pos rfl, hline] at hvisited
  have hread : f.config.readType? = some v.type := by
    have hreturn' : f.config.returnType = .text signature := by
      rw [← htype, ← hreturn, ← hconfig]
      rfl
    rw [FieldConfig.readType?, hreturn']
    exact hvisited
  exact ⟨x, f, hfind, hyield, Fetch.serves_iff_readType?.mpr ⟨v.type, hread, rfl⟩⟩

/-- **A fetched field serves what the schema says of it, lists or single rows, exactly where
the configuration that declarations leave agrees with the type that they give the field. Where
it does not, the field serves the other, or every call of it fails.** -/
theorem serves_iff_agrees (hb : b.base.Proper) (ht : d.Tidy) (h : generate b d = (.ok g, d'))
    (hr : d'.registry.Readable) (hrecords : d'.directives.Readable) (hv : v ∈ g.schema.walk)
    {c : FieldConfig} (hc : (b.standing d d'.thunks v.parent v.field).config = some c)
    (hfetched : c.isFetched) :
    ∃ x f, g.handlers.find? v.parent v.field = some x ∧ x.yield = .fetch f
      ∧ (f.Serves v.isList ↔ c.Agrees (d'.registry.typeOf? b.startSchema? v.parent v.field))
      ∧ (¬c.Agrees (d'.registry.typeOf? b.startSchema? v.parent v.field) →
        (∃ e, ∀ scene source arguments, f.run scene source arguments = .error e)
          ∨ f.Serves (!v.isList))
      ∧ (¬IsDerived v.parent → d'.registry.typeOf? b.startSchema? v.parent v.field
        = b.typeOf? d d'.thunks v.parent v.field) := by
  have hvisited := typeOf?_visited hb ht h hr hrecords hv
  obtain ⟨x, f, hfind, hyield, hconfig, -⟩ := find?_fetched hb ht h hv hc hfetched
  have hread : f.config.readType? = c.readType? := by
    rw [← hconfig]
    rfl
  have hiff : f.Serves v.isList
      ↔ c.Agrees (d'.registry.typeOf? b.startSchema? v.parent v.field) := by
    rw [Fetch.serves_iff_readType?, hread, hvisited]
    constructor
    · rintro ⟨t, ht, hlist⟩
      exact ⟨t, v.type, ht, rfl, hlist⟩
    · rintro ⟨t, u, ht, hu, hlist⟩
      cases hu
      exact ⟨t, ht, hlist⟩
  refine ⟨x, f, hfind, hyield, hiff, fun hnot => Fetch.fails_or_serves (mt hiff.mp hnot),
    fun hparent => ?_⟩
  rw [hvisited, typeOf?_declared hb ht h hr hrecords hv hparent]

/-! ### Fields that are declared in parts -/

/-- A model of items, which are identified by numbers. -/
def itemModel : Model where
  name := "Item"
  table := "items"
  columns := [{ key := "id", name := "id", type := .base "Integer", primary := true
                nullable := false, foreign := none }]
  virtuals := []
  associations := []

/-- Items, with a query for them that is declared in this way. -/
def catalogue (c : FieldConfig) : Blueprint where
  base := .absent
  types := [("Item", .mapped "Item"), ("Query", .inline (.fields [("items", .field (.config c))]))]
  models := [("Item", itemModel)]
  policies := []
  plugins := [.store [] none]
  columnTypes := []
  implementations := []

/-- An extension that declares the query again. -/
def redeclared (c : FieldConfig) : Draft where
  extensions := { fields := [("Query", [("items", .field (.config c))])] }

/-- The resolver of fields that are fetched. -/
def fromStore : ResolverOption := .value (.text defaultWord)

/-- A list of items that is fetched. -/
def listed : FieldConfig := { returnType := .text "[Item!]", resolver := fromStore }

/-- The visit of the query. -/
def items : Visit := ⟨"Query", "items", .list (.nonNull (.named "Item"))⟩

/-- Whether a generation makes the query a list that is fetched by a configuration with this
return type. -/
def listsBy (b : Blueprint) (d : Draft) (returnType : String) : Bool :=
  match viaDocument b d with
  | some (g, d') => g.schema.walk.contains items && match d'.configOf? "Query" "items" with
    | some c => c.isFetched && match c.returnType with
      | .text s => s == returnType
      | _ => false
    | none => false
  | none => false

theorem eq_of_listsBy {returnType : String} (h : listsBy b d returnType) :
    ∃ g d' c, generate b d = (.ok g, d') ∧ d'.registry.Readable ∧ d'.directives.Readable
      ∧ items ∈ g.schema.walk ∧ d'.configOf? "Query" "items" = some c ∧ c.isFetched
      ∧ c.returnType = .text returnType := by
  unfold listsBy at h
  split at h
  · rename_i g d' hvia
    obtain ⟨hrun, hr, hrecords⟩ := generate_of_viaDocument hvia
    obtain ⟨hv, h⟩ := Bool.and_eq_true_iff.mp h
    split at h
    · rename_i c hc
      obtain ⟨hfetched, h⟩ := Bool.and_eq_true_iff.mp h
      split at h
      · rename_i s hs
        rw [beq_iff_eq.mp h] at hs
        exact ⟨g, d', c, hrun, hr, hrecords, List.contains_iff_mem.mp hv, hc, hfetched, hs⟩
      · cases h
    · cases h
  · cases h

/-- What fetches the query of a catalogue. -/
theorem fetch_of_listsBy {c : FieldConfig} {x : Extensions} {returnType : String}
    (h : listsBy (catalogue c) { extensions := x } returnType) :
    ∃ g d' y f, generate (catalogue c) { extensions := x } = (.ok g, d') ∧ items ∈ g.schema.walk
      ∧ g.handlers.find? "Query" "items" = some y ∧ y.yield = .fetch f
      ∧ f.config.returnType = .text returnType := by
  obtain ⟨g, d', c', h, -, -, hv, hc, hfetched, hreturn⟩ := eq_of_listsBy h
  have hb : (catalogue c).base.Proper := trivial
  have ht := Draft.tidy_of_extensions x
  obtain ⟨y, f, hfind, hyield, hconfig, -⟩ :=
    find?_fetched hb ht h hv (config_standing ht h hc) hfetched
  refine ⟨g, d', y, f, h, hv, hfind, hyield, ?_⟩
  have hsame : f.config.returnType = c'.returnType := congrArg (·.returnType) hconfig
  exact hsame.trans hreturn

/-- A query that is declared as a list and by the store at once serves lists. -/
theorem serves_iff_agrees_listed : ∃ g d' c, generate (catalogue listed) {} = (.ok g, d')
    ∧ (catalogue listed).base.Proper ∧ Draft.Tidy {} ∧ d'.registry.Readable
    ∧ d'.directives.Readable ∧ items ∈ g.schema.walk
    ∧ ((catalogue listed).standing {} d'.thunks "Query" "items").config = some c ∧ c.isFetched
    ∧ ∃ x f, g.handlers.find? "Query" "items" = some x ∧ x.yield = .fetch f ∧ f.Serves true := by
  have hlists : listsBy (catalogue listed) {} "[Item!]" = true := by
    unfold listsBy viaDocument Generate.wire Schema.walk Schema.entered
    simp only [Schema.enter_eq_enterN]
    decide +kernel
  obtain ⟨g, d', c, h, hr, hrecords, hv, hc, hfetched, hreturn⟩ := eq_of_listsBy hlists
  have hb : (catalogue listed).base.Proper := trivial
  have ht : Draft.Tidy {} := Draft.tidy_of_extensions {}
  have hconfig := config_standing ht h hc
  obtain ⟨x, f, hfind, hyield, hiff, -⟩ := serves_iff_agrees hb ht h hr hrecords hv hconfig hfetched
  refine ⟨g, d', _, h, hb, ht, hr, hrecords, hv, hconfig, hfetched, x, f, hfind, hyield,
    hiff.mpr ⟨items.type, items.type, ?_, typeOf?_visited hb ht h hr hrecords hv, rfl⟩⟩
  change (match c.returnType with
    | .text s => (TypeRef.ofText? s).toOption
    | _ => none) = _
  rw [hreturn]
  decide +kernel

/-- If the return type of a single item is declared over to a list, the field still serves
single rows. If the return type is declared first and the store afterwards, every call fails
for want of a return type. -/
theorem not_serves_redeclared :
    (∃ g d' x f, generate (catalogue { returnType := .text "Item", resolver := fromStore })
        (redeclared { returnType := .text "[Item!]" }) = (.ok g, d')
      ∧ items ∈ g.schema.walk ∧ g.handlers.find? "Query" "items" = some x ∧ x.yield = .fetch f
      ∧ f.Serves false)
    ∧ ∃ g d' x f, generate (catalogue { returnType := .text "[Item!]" })
        (redeclared { resolver := fromStore }) = (.ok g, d')
      ∧ items ∈ g.schema.walk ∧ g.handlers.find? "Query" "items" = some x ∧ x.yield = .fetch f
      ∧ ∃ e, ∀ scene source arguments, f.run scene source arguments = .error e := by
  constructor
  · have hlists : listsBy (catalogue { returnType := .text "Item", resolver := fromStore })
        (redeclared { returnType := .text "[Item!]" }) "Item" = true := by
      unfold listsBy viaDocument Generate.wire Schema.walk Schema.entered
      simp only [Schema.enter_eq_enterN]
      decide +kernel
    obtain ⟨g, d', x, f, h, hv, hfind, hyield, hreturn⟩ := fetch_of_listsBy hlists
    refine ⟨g, d', x, f, h, hv, hfind, hyield, Fetch.serves_of_isList ?_⟩
    unfold Fetch.isList
    rw [hreturn]
    decide +kernel
  · have hlists : listsBy (catalogue { returnType := .text "[Item!]" })
        (redeclared { resolver := fromStore }) "" = true := by
      unfold listsBy viaDocument Generate.wire Schema.walk Schema.entered
      simp only [Schema.enter_eq_enterN]
      decide +kernel
    obtain ⟨g, d', x, f, h, hv, hfind, hyield, hreturn⟩ := fetch_of_listsBy hlists
    have herror : f.isList = Signature.isList "" := by
      unfold Fetch.isList
      rw [hreturn]
    refine ⟨g, d', x, f, h, hv, hfind, hyield, ?_⟩
    cases hempty : Signature.isList "" with
    | ok list => cases hempty
    | error e => exact ⟨e, Fetch.run_of_isList_error (herror.trans hempty)⟩

end Generate
end SchemaForge

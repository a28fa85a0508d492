import SchemaForge.Proofs.Registry.Conditions
import SchemaForge.Proofs.Registry.Fields
import SchemaForge.Proofs.Registry.Frame
import SchemaForge.Proofs.Store.Sorting

/-!
# Derived types of built schemas

A type that is in the registry and was not there before says in the built schema what its lines
say. So where filters alone write under their names, a condition input offers connectives of
itself and operators on kinds of values, and an order enum offers names.
-/
namespace SchemaForge

open Language Parser

/-! ### Texts of types -/

/-- A name reads as the type of this name. -/
theorem Language.TypeRef.ofText?_name {w : String} (hw : isName w) :
    TypeRef.ofText? w = .ok (.named w) :=
  (reads_print (t := .named w) hw).run_eq

/-- A name with a mark in brackets reads as a list of it without null. -/
theorem Language.TypeRef.ofText?_list {w : String} (hw : isName w) :
    TypeRef.ofText? ("[" ++ w ++ "!]") = .ok (.list (.nonNull (.named w))) := by
  have hprint : (TypeRef.list (.nonNull (.named w))).print = "[" ++ w ++ "!]" := by
    simp only [TypeRef.print, String.append_assoc]
    rfl
  have hread := reads_print (t := .list (.nonNull (.named w))) hw
  rw [hprint] at hread
  exact hread.run_eq

/-! ### New types -/

namespace Schema

/-- A type of a kind says something of this kind. -/
theorem isKind_iff {s : Schema} {name : String} {k : TypeKind} (h : isStandardType name = false) :
    s.isKind name k = true ↔ ∃ body, s.body? name = some body ∧ body.kind = k := by
  obtain ⟨hscalar, hintrospection⟩ := Bool.or_eq_false_iff.mp h
  have hnames : (name == "__TypeKind" || name == "__DirectiveLocation") = false := by
    rw [Bool.eq_false_iff]
    intro hname
    simp only [Bool.or_eq_true, beq_iff_eq] at hname
    rcases hname with rfl | rfl <;> cases hintrospection
  unfold isKind kind? body?
  rw [hscalar, hintrospection, hnames]
  cases s.types.get? name with
  | none => simp
  | some t => simp [t.kind_body]

end Schema

namespace Registry

/-- A schema has the types that a registry adds to those of another one. -/
structure Builds (r : Registry) (base : Option Schema) (s : Schema) : Prop where
  /-- Types stand once in the registry. -/
  nodup : (Table.keys r).Nodup
  /-- Its texts are readable. -/
  readable : r.Readable
  /-- The types come from its document. -/
  built : ∃ records directives doc,
    r.documentOf records ((base.map (·.typeNames)).getD []) directives = some doc
      ∧ s.types = Schema.typesAfter ⟨base, doc⟩

/-- A name that no schema has but by definition. -/
structure IsNew (base : Option Schema) (name : String) : Prop where
  /-- It is not one of every schema. -/
  own : Schema.isStandardType name = false
  /-- It is not there before. -/
  fresh : ∀ b ∈ base, Table.has b.types name = false

variable {r : Registry} {base : Option Schema} {s : Schema} {name : String}

theorem IsNew.not_mem_typeNames (h : IsNew base name) :
    ((base.map (·.typeNames)).getD []).contains name = false := by
  obtain ⟨hscalar, hintrospection⟩ := Bool.or_eq_false_iff.mp h.own
  cases base with
  | none => rfl
  | some b =>
    have hkeys : name ∉ Table.keys b.types := fun hmem => by
      rw [Table.mem_keys_iff, h.fresh b rfl] at hmem
      cases hmem
    simp only [Option.map_some, Option.getD_some, Schema.typeNames, List.contains_append,
      Bool.or_eq_false_iff]
    refine ⟨⟨?_, ?_⟩, hintrospection⟩
    · simpa using hkeys
    · rw [Bool.eq_false_iff] at hscalar ⊢
      intro hmem
      exact hscalar (List.contains_iff_mem.mpr
        (List.mem_filter.mp (List.contains_iff_mem.mp hmem)).1)

/-- A new type says in the schema what it says in the registry. -/
theorem Builds.bodyOf_eq (h : Builds r base s) (hnew : IsNew base name) {body : TypeBody}
    (hbody : s.body? name = some body) : bodyOf name (r.entry name) = some body := by
  obtain ⟨records, directives, doc, hdoc, htypes⟩ := h.built
  obtain ⟨t, ht, rfl⟩ := Option.map_eq_some_iff.mp hbody
  rw [htypes] at ht
  obtain ⟨u, hu, rfl⟩ := Schema.get?_typesAfter ht
  have hnode : ∀ n ∈ (⟨base, doc⟩ : Addition).typeNodes, n.name = name →
      n.extends? = false ∧ bodyOf name (r.entry name) = some n.body := by
    intro n hn hname
    obtain ⟨e, he, -, hcontent⟩ := (mem_typeNodes_documentOf hdoc).mp hn
    obtain ⟨x, hx, rfl⟩ := Option.map_eq_some_iff.mp hcontent
    obtain rfl : e.1 = name := hname
    refine ⟨hnew.not_mem_typeNames, ?_⟩
    rw [entry, Table.get?_of_mem h.nodup he]
    exact (contentOf_eq_some hx).2
  have hnone : (⟨base, doc⟩ : Addition).extensions.filter (·.name == name) = [] := by
    refine List.filter_eq_nil_iff.mpr fun n hn hname => ?_
    obtain ⟨hn, hextends⟩ := List.mem_filter.mp hn
    rw [(hnode n hn (beq_iff_eq.mp hname)).1] at hextends
    cases hextends
  rw [hnone, List.foldl_nil]
  rcases hu with ⟨b, hb, hold⟩ | ⟨d, hd, hname, rfl⟩
  · have hhas := hnew.fresh b hb
    rw [Table.has_eq_isSome, hold] at hhas
    cases hhas
  · exact (hnode d (List.mem_filter.mp hd).1 hname).2

/-- A new type of which something is written is there. -/
theorem Builds.exists_body (h : Builds r base s) (hnew : IsNew base name)
    (he : (name, r.entry name) ∈ r)
    (hwritten : isWritten ((base.map (·.typeNames)).getD []) (name, r.entry name) = true) :
    ∃ body, s.body? name = some body := by
  obtain ⟨records, directives, doc, hdoc, htypes⟩ := h.built
  obtain ⟨n, hn, hname, -⟩ : ∃ n ∈ (⟨base, doc⟩ : Addition).typeNodes, n.name = name
      ∧ bodyOf name (r.entry name) = some n.body := exists_node_of_isWritten hdoc he hwritten
  obtain ⟨e, -, -, hcontent⟩ := (mem_typeNodes_documentOf hdoc).mp hn
  obtain ⟨x, -, rfl⟩ := Option.map_eq_some_iff.mp hcontent
  obtain rfl : e.1 = name := hname
  have hkey : e.1 ∈ Table.keys s.types := by
    rw [htypes, Schema.keys_typesAfter]
    refine List.mem_append_right _ (List.mem_map.mpr
      ⟨_, List.mem_filter.mpr ⟨List.mem_filter.mpr ⟨hn, ?_⟩, ?_⟩, rfl⟩)
    · change (!((base.map (·.typeNames)).getD []).contains e.1) = true
      rw [hnew.not_mem_typeNames]
      rfl
    · change (!Schema.isStandardType e.1) = true
      rw [hnew.own]
      rfl
  rw [Table.mem_keys_iff, Table.has_eq_isSome] at hkey
  obtain ⟨t, ht⟩ := Option.isSome_iff_exists.mp hkey
  exact ⟨t.body, Option.map_eq_some_iff.mpr ⟨t, ht, rfl⟩⟩

/-! ### Lines -/

/-- A field of an input type keeps the name and the signature of its line. -/
theorem memberOf_eq_some {named : String × FieldLine} {i : InputNode}
    (h : memberOf named = some i) :
    i.name = named.1 ∧ (TypeRef.ofText? named.2.type).toOption = some i.type := by
  obtain ⟨t, ht, h⟩ := Option.bind_eq_some_iff.mp h
  obtain ⟨directives, -, h⟩ := Option.bind_eq_some_iff.mp h
  cases h
  exact ⟨rfl, ht⟩

/-- What a type says is of its kind. -/
theorem kind_of_bodyOf {entry : TypeEntry} {body : TypeBody}
    (h : bodyOf name entry = some body) : body.kind = entry.kind := by
  unfold bodyOf at h
  cases hkind : entry.kind with
  | object | interface | input =>
    rw [hkind] at h
    obtain ⟨fs, -, rfl⟩ := Option.map_eq_some_iff.mp h
    rfl
  | scalar | union | enum =>
    rw [hkind] at h
    cases h
    rfl

/-- What an input type says are the fields that its lines are. -/
theorem map_memberOf_of_bodyOf {entry : TypeEntry} {body : TypeBody}
    (hbody : bodyOf name entry = some body) (h : entry.kind = .input) :
    entry.lines.map memberOf = body.inputs.map some := by
  unfold bodyOf at hbody
  rw [h] at hbody
  obtain ⟨is, his, rfl⟩ := Option.map_eq_some_iff.mp hbody
  exact mapM_eq_some_iff.mp his

/-- What an enum says are the names of its lines. -/
theorem words_of_bodyOf {entry : TypeEntry} {body : TypeBody}
    (hbody : bodyOf name entry = some body) (h : entry.kind = .enum) :
    body.words = entry.lines.map Prod.fst := by
  unfold bodyOf at hbody
  rw [h] at hbody
  cases hbody
  exact List.map_map

/-- A new type of the schema has its kind in the registry. -/
theorem Builds.kind_eq (h : Builds r base s) (hnew : IsNew base name) {k : TypeKind}
    (hkind : s.isKind name k = true) : (r.entry name).kind = k := by
  obtain ⟨body, hbody, hk⟩ := (Schema.isKind_iff hnew.own).mp hkind
  rw [← kind_of_bodyOf (h.bodyOf_eq hnew hbody), hk]

/-- The fields of a new input type, as its lines. -/
theorem Builds.map_memberOf (h : Builds r base s) (hnew : IsNew base name)
    (hkind : s.isKind name .input = true) :
    (r.entry name).lines.map memberOf = (s.inputs name).map some := by
  obtain ⟨body, hbody, -⟩ := (Schema.isKind_iff hnew.own).mp hkind
  have hinputs : s.inputs name = body.inputs := by
    rw [Schema.inputs, hbody]
    rfl
  rw [hinputs]
  exact map_memberOf_of_bodyOf (h.bodyOf_eq hnew hbody) (h.kind_eq hnew hkind)

/-- The fields of a new input type are those of its lines. -/
theorem Builds.mem_inputs (h : Builds r base s) (hnew : IsNew base name)
    (hkind : s.isKind name .input = true) :
    (∀ i ∈ s.inputs name, ∃ l ∈ (r.entry name).lines, l.1 = i.name
        ∧ (TypeRef.ofText? l.2.type).toOption = some i.type)
      ∧ ∀ l ∈ (r.entry name).lines, ∃ i ∈ s.inputs name, i.name = l.1 := by
  have hmap := h.map_memberOf hnew hkind
  constructor
  · intro i hi
    obtain ⟨l, hl, hline⟩ := List.mem_map.mp (hmap ▸ List.mem_map_of_mem hi)
    obtain ⟨hname, htype⟩ := memberOf_eq_some hline
    exact ⟨l, hl, hname.symm, htype⟩
  · intro l hl
    obtain ⟨i, hi, hline⟩ := List.mem_map.mp (hmap ▸ List.mem_map_of_mem hl)
    exact ⟨i, hi, (memberOf_eq_some hline.symm).1⟩

/-- The words of a new enum are the names of its lines. -/
theorem Builds.words_eq (h : Builds r base s) (hnew : IsNew base name)
    (hkind : s.isKind name .enum = true) : s.words name = (r.entry name).lines.map Prod.fst := by
  obtain ⟨body, hbody, -⟩ := (Schema.isKind_iff hnew.own).mp hkind
  rw [Schema.words, hbody]
  exact words_of_bodyOf (h.bodyOf_eq hnew hbody) (h.kind_eq hnew hkind)

/-! ### What derived types offer -/

/-- Derived names are not those of every schema. -/
theorem isStandardType_of_isDerived (h : IsDerived name) : Schema.isStandardType name = false := by
  have hwords : ∀ n ∈ Schema.standardScalars ++ Schema.introspectionTypes,
      ¬(capitalized whereWord).toList <:+: n.toList ∧ ¬(capitalized orderWord).toList <:+: n.toList
        ∧ ¬"GeneOperator".toList <:+: n.toList := by
    decide +kernel
  rw [Bool.eq_false_iff]
  intro hstandard
  have hmem : name ∈ Schema.standardScalars ++ Schema.introspectionTypes := by
    simpa [Schema.isStandardType] using hstandard
  obtain ⟨hwhere, horder, hoperator⟩ := hwords name hmem
  rcases h with ⟨type, field, rfl⟩ | ⟨type, field, rfl⟩ | ⟨kind, rfl⟩
  · refine hwhere ⟨(capitalized type).toList, (capitalized field).toList, ?_⟩
    rw [whereInputName, derivedName, String.toList_append, String.toList_append]
  · refine horder ⟨(capitalized type).toList, (capitalized field).toList, ?_⟩
    rw [orderEnumName, derivedName, String.toList_append, String.toList_append]
  · refine hoperator ⟨[], (kind ++ "Input").toList, ?_⟩
    rw [operatorInputName, String.append_assoc, List.nil_append, ← String.toList_append]

/-- The signatures in inputs for operators, as types. -/
theorem ofText?_operator {kind : String} (h : kind ∈ filterableTypes) :
    TypeRef.ofText? (operatorInputName kind) = .ok (.named (operatorInputName kind)) := by
  have hname : ∀ kind ∈ filterableTypes, isName (operatorInputName kind) = true := by decide +kernel
  exact TypeRef.ofText?_name (hname kind h)

variable {names : String → String → String → Prop}

/-- The input for the operators on a kind of value is in the schema if it is in the registry. -/
theorem Builds.isKind_operatorInput (h : Builds r base s) (hfilled : Filled names r)
    {kind : String} (hkind : kind ∈ filterableTypes)
    (hhas : Table.has r (operatorInputName kind) = true)
    (hnew : IsNew base (operatorInputName kind)) :
    s.isKind (operatorInputName kind) .input = true := by
  obtain ⟨hinput, htypes⟩ := hfilled.operators kind hkind hhas
  have hsome : (r.entry (operatorInputName kind)).lines ≠ [] := by
    intro hnone
    rw [hnone] at htypes
    cases htypes
  have hwritten : isWritten ((base.map (·.typeNames)).getD [])
      (operatorInputName kind, r.entry (operatorInputName kind)) = true := by
    unfold isWritten
    rw [if_neg (by simp [hinput])]
    simpa using hsome
  obtain ⟨body, hbody⟩ := h.exists_body hnew (mem_of_lines hsome) hwritten
  exact (Schema.isKind_iff hnew.own).mpr
    ⟨body, hbody, (kind_of_bodyOf (h.bodyOf_eq hnew hbody)).trans hinput⟩

/-- **What a condition input offers besides connectives are names that the filters of a field
are written for.** -/
theorem Builds.exists_of_input (h : Builds r base s) (hfilled : Filled names r)
    (hnew : IsNew base name) (hname : IsFilterName name) (hkind : s.isKind name .input = true)
    {i : InputNode} (hi : i ∈ s.inputs name) (hlist : i.type.isList = false) :
    ∃ type field, name = whereInputName type field ∧ names type field i.name := by
  obtain ⟨l, hl, hsame, htype⟩ := (h.mem_inputs hnew hkind).1 i hi
  rw [← hsame]
  cases hfilled.lines name hname l hl with
  | connective hconnective hsignature =>
    have hisName := (h.readable _ (mem_of_lines (List.ne_nil_of_mem hl))).named
    rw [hsignature, TypeRef.ofText?_list hisName] at htype
    rw [← Option.some.inj htype] at hlist
    cases hlist
  | operators type field kind hfield hkey hmem hsignature hhas => exact ⟨type, field, hfield, hkey⟩
  | value type field source descending hfield hkey hvalue hsignature =>
    rw [hsignature, toOption_ofText?_empty] at htype
    cases htype

/-- **What an order enum offers are values of names that the filters of a field are written
for.** -/
theorem Builds.exists_of_word (h : Builds r base s) (hfilled : Filled names r)
    (hnew : IsNew base name) (hname : IsFilterName name) (hkind : s.isKind name .enum = true)
    {word : String} (hword : word ∈ s.words name) :
    ∃ type field source descending, name = orderEnumName type field ∧ names type field source
      ∧ word = OrderTerm.value source descending := by
  have henum := h.kind_eq hnew hkind
  rw [h.words_eq hnew hkind] at hword
  obtain ⟨l, hl, rfl⟩ := List.mem_map.mp hword
  have hreadable := h.readable _ (mem_of_lines (List.ne_nil_of_mem hl))
  have hbare : l.2.type = "" :=
    ((hreadable.lines (by simp [henum]) l hl).bare (.inl henum)).1
  cases hfilled.lines name hname l hl with
  | connective hconnective hsignature =>
    rw [hsignature] at hbare
    simpa using congrArg String.length hbare
  | operators type field kind hfield hkey hmem hsignature hhas =>
    have hnames : ∀ kind ∈ filterableTypes, operatorInputName kind ≠ "" := by decide +kernel
    exact absurd (hsignature.symm.trans hbare) (hnames kind hmem)
  | value type field source descending hfield hkey hvalue hsignature =>
    exact ⟨type, field, source, descending, hfield, hkey, hvalue⟩

/-- Only scalars have implementations. -/
def ImplementsScalars (s : Schema) (leaves : Implementations) : Prop :=
  ∀ name l, Table.get? leaves name = some l → s.isKind name .scalar = true

variable {leaves : Implementations} (hleaves : ImplementsScalars s leaves)

include hleaves

/-- Types of other kinds have the leaves that they have without implementations. -/
theorem leaf?_of_isKind {k : TypeKind} (hk : k ≠ .scalar) (hkind : s.isKind name k = true) :
    s.leaf? leaves name = s.leaf? [] name := by
  have hnone : Table.get? leaves name = none := by
    cases hl : Table.get? leaves name with
    | none => rfl
    | some l =>
      have hscalar := hleaves name l hl
      unfold Schema.isKind at hkind hscalar
      rw [beq_iff_eq.mp hkind] at hscalar
      exact absurd (Option.some.inj (beq_iff_eq.mp hscalar)) hk
  unfold Schema.leaf?
  rw [hnone]
  rfl

/-- An input type with a name of its own is no leaf. -/
theorem isInput_of_isKind (hown : Schema.isStandardType name = false)
    (hkind : s.isKind name .input = true) : s.IsInput leaves name := by
  refine ⟨hkind, fun l hl => ?_⟩
  rw [Schema.LeafOf, leaf?_of_isKind hleaves (by simp) hkind, or_self] at hl
  obtain ⟨body, hbody, hinput⟩ := (Schema.isKind_iff hown).mp hkind
  unfold Schema.leaf? at hl
  rw [(Bool.or_eq_false_iff.mp hown).1, hbody] at hl
  cases body with
  | input fs => cases hl
  | _ => cases hinput

/-- **A new enum offers the names of its lines.** -/
theorem Builds.nameEnum (h : Builds r base s) (hnew : IsNew base name)
    (hkind : s.isKind name .enum = true) : s.NameEnum leaves name := by
  obtain ⟨body, hbody, henum⟩ := (Schema.isKind_iff hnew.own).mp hkind
  have hleaf : s.leaf? [] name = some (.enum (s.words name)) := by
    unfold Schema.leaf?
    rw [(Bool.or_eq_false_iff.mp hnew.own).1, Schema.words, hbody]
    cases body with
    | enum vs => rfl
    | _ => cases henum
  have hsame := leaf?_of_isKind hleaves (by simp) hkind
  refine ⟨?_, .inr hleaf, fun l hl => ?_, fun word hword => ?_⟩
  · unfold Schema.isKind at hkind ⊢
    rw [beq_iff_eq.mp hkind]
    rfl
  · rw [Schema.LeafOf, hsame, or_self, hleaf] at hl
    exact (Option.some.inj hl).symm
  · rw [h.words_eq hnew hkind] at hword
    obtain ⟨l, hl, rfl⟩ := List.mem_map.mp hword
    have he := mem_of_lines (List.ne_nil_of_mem hl)
    exact ((h.readable _ he).lines (by simp [h.kind_eq hnew hkind]) l hl).named

/-- **The input for the operators on a kind of value has lists for membership.** -/
theorem Builds.operatorInput (h : Builds r base s) (hfilled : Filled names r) {kind : String}
    (hkind : kind ∈ filterableTypes) (hhas : Table.has r (operatorInputName kind) = true)
    (hnew : IsNew base (operatorInputName kind)) :
    s.OperatorInput leaves (operatorInputName kind) := by
  obtain ⟨-, htypes⟩ := hfilled.operators kind hkind hhas
  have hlists : ∀ kind ∈ filterableTypes, ∀ e ∈ operatorTypes kind, e.1 = "in" ∨ e.1 = "notIn" →
      (TypeRef.ofText? e.2).toOption = some (.list (.named kind)) := by
    decide +kernel
  have hamong : ("in", "[" ++ kind ++ "]") ∈ operatorTypes kind :=
    List.mem_append_left _ (List.mem_cons_of_mem _ (List.mem_cons_of_mem _ List.mem_cons_self))
  obtain ⟨l, hl, hline⟩ := List.mem_map.mp (htypes ▸ hamong)
  have hkind' := h.isKind_operatorInput hfilled hkind hhas hnew
  obtain ⟨hfields, hlines⟩ := h.mem_inputs hnew hkind'
  refine ⟨isInput_of_isKind hleaves hnew.own hkind', fun i hi hname => ?_, ?_⟩
  · obtain ⟨l, hl, hsame, htype⟩ := hfields i hi
    have hmem : (l.1, l.2.type) ∈ operatorTypes kind :=
      htypes ▸ List.mem_map_of_mem (f := fun l : String × FieldLine => (l.1, l.2.type)) hl
    have hlist := hlists kind hkind _ hmem (hsame ▸ hname)
    rw [htype] at hlist
    exact ⟨_, Option.some.inj hlist⟩
  · obtain ⟨i, hi, hname⟩ := hlines l hl
    exact ⟨i, hi, hname.trans (congrArg Prod.fst hline)⟩

/-- **A condition input offers connectives of itself, and the operators on kinds of values.** -/
theorem Builds.conditionInput (h : Builds r base s) (hfilled : Filled names r)
    (hnew : ∀ name, IsDerived name → IsNew base name) (hname : IsFilterName name)
    (hkind : s.isKind name .input = true) : s.ConditionInput leaves name := by
  have hown := hnew name (isDerived_of_isFilterName hname)
  obtain ⟨hfields, -⟩ := h.mem_inputs hown hkind
  refine ⟨isInput_of_isKind hleaves hown.own hkind, fun i hi => ?_⟩
  obtain ⟨l, hl, hsame, htype⟩ := hfields i hi
  rw [← hsame]
  cases hfilled.lines name hname l hl with
  | connective hconnective hsignature =>
    have hisName := (h.readable _ (mem_of_lines (List.ne_nil_of_mem hl))).named
    rw [hsignature, TypeRef.ofText?_list hisName] at htype
    exact .inl ⟨hconnective, (Option.some.inj htype).symm⟩
  | operators type field kind hfield hkey hmem hsignature hhas =>
    rw [hsignature, ofText?_operator hmem] at htype
    exact .inr ⟨_, (Option.some.inj htype).symm,
      h.operatorInput hleaves hfilled hmem hhas (hnew _ (isDerived_operatorInputName kind))⟩
  | value type field source descending hfield hkey hvalue hsignature =>
    rw [hsignature, toOption_ofText?_empty] at htype
    cases htype

end Registry
end SchemaForge

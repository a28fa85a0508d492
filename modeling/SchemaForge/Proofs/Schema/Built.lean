import SchemaForge.Proofs.Schema.Rules

/-!
# What built schemas are like

Whatever is built from documents, one after the other, keeps the rules as if it had been built
from one document: every node keeps them with the directives of the whole schema, and names are
apart among all nodes of a type. Only uses of directives may be repeated on a type, once in its
definition and once more in an extension, because an extension is not held against what it
extends.
-/
namespace SchemaForge

open Language Addition

namespace Schema

/-- What a schema is like that was built from documents. -/
structure Built (s : Schema) : Prop where
  /-- Types have names of their own. -/
  names : (Table.keys s.types).Nodup
  /-- None of them is of every schema. -/
  own : ∀ t ∈ s.types, isStandardType t.1 = false
  /-- A type is defined under its name. -/
  defined : ∀ t ∈ s.types, t.2.written = true ∧ t.2.node.name = t.1 ∧ t.2.node.extends? = false
  /-- It is extended under its name, with more of its kind. -/
  extended : ∀ t ∈ s.types, ∀ e ∈ t.2.extensions,
    e.name = t.1 ∧ e.extends? = true ∧ e.body.kind = t.2.kind
  /-- Its fields are apart. -/
  members : ∀ t ∈ s.types, (t.2.nodes.flatMap fun n => memberNames n.body).Nodup
  /-- Its words are apart. -/
  words : ∀ t ∈ s.types, (t.2.nodes.flatMap fun n => n.body.words).Nodup
  /-- Directives have names of their own. -/
  directives : (s.directives.map (·.name)).Nodup
  /-- Every type that is mentioned is known. -/
  known : ∀ n ∈ s.whole.mentioned, s.types.has n = true ∨ isStandardType n = true
  /-- Types stand where types of their kind can stand. -/
  kinds : s.kindsFit = true
  /-- Standard directives have texts for arguments. -/
  texts : ∀ n ∈ s.nodes, textsFit n = true
  /-- Every node keeps the rules. -/
  nodes : ∀ n ∈ s.nodes, s.whole.NodeFits n
  /-- So does every directive. -/
  directiveNodes : ∀ d ∈ s.directives, s.whole.DirectiveFits d

theorem mem_nodes {s : Schema} {n : TypeNode} : n ∈ s.nodes ↔ ∃ t ∈ s.types, n ∈ t.2.nodes := by
  unfold nodes
  exact List.mem_flatMap

section

variable {a : Addition}

/-- A type after an addition is an old one, or a definition, with all its extensions. -/
theorem mem_typesAfter {t : String × SchemaType} (h : t ∈ typesAfter a) :
    ∃ u, ((∃ b ∈ a.base, (t.1, u) ∈ b.types)
        ∨ ∃ d ∈ a.definitions, isStandardType d.name = false ∧ d.name = t.1 ∧ u = .ofNode d)
      ∧ t.2 = { u with extensions := u.extensions ++ a.extensions.filter (·.name == t.1) } := by
  obtain ⟨e, he, rfl⟩ := List.mem_map.mp h
  refine ⟨e.2, ?_, SchemaType.foldl_extend _ _⟩
  rcases List.mem_append.mp he with he | he
  · cases hb : a.base with
    | none =>
      rw [hb] at he
      cases he
    | some b =>
      rw [hb] at he
      exact .inl ⟨b, rfl, he⟩
  · obtain ⟨d, hd, rfl⟩ := List.mem_map.mp he
    obtain ⟨hd, hstandard⟩ := List.mem_filter.mp hd
    exact .inr ⟨d, hd, by simpa using hstandard, rfl, rfl⟩

/-- An extension is of the kind of the type that it extends. -/
theorem kind_of_extension (honce : a.typesOnce = true) (hfit : a.extensionsFit = true)
    (hbase : ∀ b ∈ a.base, (Table.keys b.types).Nodup) {name : String} {u : SchemaType}
    (hu : (∃ b ∈ a.base, (name, u) ∈ b.types)
      ∨ ∃ d ∈ a.definitions, d.name = name ∧ u = .ofNode d) :
    ∀ e ∈ a.extensions.filter (·.name == name), e.body.kind = u.kind := by
  intro e hfiltered
  obtain ⟨he, hname⟩ := List.mem_filter.mp hfiltered
  obtain rfl : e.name = name := beq_iff_eq.mp hname
  obtain ⟨hnames, hnew⟩ := typesOnce_iff.mp honce
  have hkind : a.extendedKind? e.name = some e.body.kind := by
    have hrule := List.all_eq_true.mp hfit e he
    simpa using hrule
  suffices h : a.extendedKind? e.name = some u.kind from
    Option.some.inj (hkind.symm.trans h)
  unfold extendedKind?
  rw [find?_reverse (f := TypeNode.name) hnames]
  rcases hu with ⟨b, hb, ht⟩ | ⟨d, hd, hdname, rfl⟩
  · have hnone : a.definitions.find? (·.name == e.name) = none := by
      rw [List.find?_eq_none]
      intro d hd heq
      exact hnew d hd (beq_iff_eq.mp heq ▸ mem_oldTypes hb ht)
    have hhas : b.hasType e.name = true := by
      refine List.contains_iff_mem.mpr (List.mem_append_left _ (List.mem_append_left _ ?_))
      exact List.mem_map_of_mem (f := Prod.fst) ht
    rw [hnone, show a.base = some b from hb]
    dsimp only
    rw [if_pos hhas, kind?, Table.get?_of_mem (hbase b hb) ht]
  · rw [← hdname, find?_of_mem (f := TypeNode.name) hnames hd]
    rfl

/-! ### Names in all nodes of a type -/

variable {f : TypeBody → List String}

/-- **The names in all nodes of a type are apart after an addition.** -/
theorem nodup_names_after (hf : TypeBody.Joins f) (h : NamesOnce a f)
    (hbase : ∀ b ∈ a.base, b.Built ∧ ∀ t ∈ b.types, (t.2.nodes.flatMap fun n => f n.body).Nodup) :
    ∀ t ∈ typesAfter a, (t.2.nodes.flatMap fun n => f n.body).Nodup := by
  intro t ht
  obtain ⟨u, hu, heq⟩ := mem_typesAfter ht
  obtain ⟨hnodup, hold⟩ := h.all t.1
  have hperm := (nodesOf_perm (a := a) t.1).flatMap_right fun n => f n.body
  rw [← hperm.nodup_iff, List.flatMap_append, List.nodup_append'] at hnodup
  obtain ⟨hdefinitions, hextensions, hdisjoint⟩ := hnodup
  have hnodes : t.2.nodes = u.nodes ++ a.extensions.filter (·.name == t.1) := by
    rw [heq]
    rfl
  rw [hnodes, List.flatMap_append, List.nodup_append']
  rcases hu with ⟨b, hb, hu⟩ | ⟨d, hd, -, hname, rfl⟩
  · obtain ⟨hbuilt, hnames⟩ := hbase b hb
    refine ⟨hnames _ hu, hextensions, fun x hx hx' => ?_⟩
    refine hold x (hperm.subset (List.flatMap_append ▸ List.mem_append_right _ hx')) ?_
    rw [SchemaType.flatMap_nodes hf fun e he => (hbuilt.extended _ hu e he).2.2] at hx
    rw [oldBody?, show a.base = some b from hb, Option.bind_some, body?,
      Table.get?_of_mem hbuilt.names hu]
    exact hx
  · have hmem : d ∈ a.definitions.filter (·.name == t.1) :=
      List.mem_filter.mpr ⟨hd, beq_iff_eq.mpr hname⟩
    have hone : (SchemaType.ofNode d).nodes.flatMap (fun n => f n.body) = f d.body :=
      List.flatMap_singleton ..
    rw [hone]
    exact ⟨(List.nodup_flatMap.mp hdefinitions).1 d hmem, hextensions, fun x hx =>
      hdisjoint (List.mem_flatMap.mpr ⟨d, hmem, hx⟩)⟩

/-! ### Nodes and names after an addition -/

theorem mem_mentioned {a : Addition} {m : String} : m ∈ a.mentioned
    ↔ (∃ n ∈ a.typeNodes, m ∈ mentionedBy n.body)
      ∨ (∃ d ∈ a.directives, m ∈ d.arguments.map mentionedByInput)
      ∨ ∃ r ∈ a.rootNodes, m ∈ r.roots.map Prod.snd := by
  unfold mentioned
  simp only [List.mem_append, List.mem_flatMap, or_assoc]

/-- A type after an addition is not of every schema. -/
theorem own_typesAfter (hbase : ∀ b ∈ a.base, b.Built) :
    ∀ t ∈ typesAfter a, isStandardType t.1 = false := by
  intro t ht
  obtain ⟨u, ⟨b, hb, hu⟩ | ⟨d, -, hstandard, hname, -⟩, -⟩ := mem_typesAfter ht
  · exact (hbase b hb).own (t.1, u) hu
  · exact hname ▸ hstandard

/-- A node after an addition was there before, or is one of the document. -/
theorem mem_nodes_after (hbase : ∀ b ∈ a.base, b.Built) {n : TypeNode} (h : n ∈ (after a).nodes) :
    (∃ b ∈ a.base, n ∈ b.nodes) ∨ n ∈ a.typeNodes ∧ isStandardType n.name = false := by
  obtain ⟨t, ht, hn⟩ := mem_nodes.mp h
  obtain ⟨u, hu, heq⟩ := mem_typesAfter ht
  rw [heq] at hn
  rcases List.mem_append.mp (show n ∈ u.nodes ++ a.extensions.filter (·.name == t.1) from hn)
    with hn | hn
  · rcases hu with ⟨b, hb, hu⟩ | ⟨d, hd, hstandard, -, rfl⟩
    · exact .inl ⟨b, hb, mem_nodes.mpr ⟨_, hu, hn⟩⟩
    · obtain rfl : n = d := List.mem_singleton.mp hn
      exact .inr ⟨(List.mem_filter.mp hd).1, hstandard⟩
  · obtain ⟨hn, hname⟩ := List.mem_filter.mp hn
    refine .inr ⟨(List.mem_filter.mp hn).1, ?_⟩
    rw [beq_iff_eq.mp hname]
    exact own_typesAfter hbase t ht

/-- Directives have names of their own after an addition. -/
theorem nodup_directives_after (honce : a.directivesOnce = true)
    (hbase : ∀ b ∈ a.base, (b.directives.map (·.name)).Nodup) :
    ((after a).directives.map (·.name)).Nodup := by
  obtain ⟨hnodup, hold⟩ := directivesOnce_iff.mp honce
  show ((((a.base.map (·.directives)).getD []) ++ a.directives).map (·.name)).Nodup
  rw [List.map_append, List.nodup_append]
  cases hb : a.base with
  | none => exact ⟨List.nodup_nil, hnodup, fun x hx => by cases hx⟩
  | some b =>
    refine ⟨hbase b hb, hnodup, ?_⟩
    rintro x hx y hy rfl
    obtain ⟨old, hmem, rfl⟩ := List.mem_map.mp hx
    obtain ⟨d, hd, hname⟩ := List.mem_map.mp hy
    refine hold d hd old ?_ hname.symm
    unfold oldDirectives allDirectives
    rw [hb]
    exact List.mem_append_left _ hmem

/-- A directive after an addition was there before, or is one of the document. -/
theorem mem_directives_after {d : DirectiveNode} (h : d ∈ (after a).directives) :
    (∃ b ∈ a.base, d ∈ b.directives) ∨ d ∈ a.directives := by
  rcases List.mem_append.mp h with h | h
  · cases hb : a.base with
    | none =>
      rw [hb] at h
      cases h
    | some b =>
      rw [hb] at h
      exact .inl ⟨b, rfl, h⟩
  · exact .inr h

/-- The types that were there are there, and so are those that are defined. -/
theorem has_typesAfter {m : String} : (typesAfter a).has m = true
    ↔ (∃ b ∈ a.base, b.types.has m = true)
      ∨ ∃ d ∈ a.definitions, isStandardType d.name = false ∧ d.name = m := by
  rw [← Table.mem_keys_iff, keys_typesAfter, List.mem_append]
  refine or_congr ?_ ?_
  · cases hb : a.base with
    | none => simp [Table.keys]
    | some b => simp [← Table.mem_keys_iff]
  · simp only [List.mem_map, List.mem_filter, Bool.not_eq_true', and_assoc]

theorem known_of_mem_oldTypes {m : String} (h : m ∈ a.oldTypes) :
    ∃ b ∈ a.base, b.types.has m = true ∨ isStandardType m = true := by
  unfold oldTypes at h
  cases hb : a.base with
  | none =>
    rw [hb] at h
    cases h
  | some b =>
    rw [hb] at h
    refine ⟨b, rfl, ?_⟩
    rcases List.mem_append.mp h with h | h
    · rcases List.mem_append.mp h with h | h
      · exact .inl ((Table.mem_keys_iff _ _).mp h)
      · right
        simp [isStandardType, (List.mem_filter.mp h).1]
    · right
      simp [isStandardType, h]

/-- What is mentioned after an addition is known. -/
theorem known_after (hknown : a.typesKnown = true) (hbase : ∀ b ∈ a.base, b.Built) :
    ∀ m ∈ (after a).whole.mentioned, (typesAfter a).has m = true ∨ isStandardType m = true := by
  have hold : ∀ b ∈ a.base, ∀ m ∈ b.whole.mentioned,
      (typesAfter a).has m = true ∨ isStandardType m = true := by
    intro b hb m hm
    exact ((hbase b hb).known m hm).imp_left fun hhas => has_typesAfter.mpr (.inl ⟨b, hb, hhas⟩)
  have hnew : ∀ m ∈ a.mentioned, (typesAfter a).has m = true ∨ isStandardType m = true := by
    intro m hm
    have hrule := List.all_eq_true.mp hknown m hm
    simp only [Bool.or_eq_true, List.contains_iff_mem, List.mem_append] at hrule
    rcases hrule with (hm | hm) | hstandard
    · obtain ⟨d, hd, rfl⟩ := List.mem_map.mp hm
      cases hstandard : isStandardType d.name with
      | true => exact .inr rfl
      | false => exact .inl (has_typesAfter.mpr (.inr ⟨d, hd, hstandard, rfl⟩))
    · obtain ⟨b, hb, hm⟩ := known_of_mem_oldTypes hm
      exact hm.imp_left fun hhas => has_typesAfter.mpr (.inl ⟨b, hb, hhas⟩)
    · exact .inr hstandard
  intro m hm
  rw [mem_mentioned, typeNodes_whole, directives_whole, rootNodes_whole] at hm
  rcases hm with ⟨n, hn, hm⟩ | ⟨d, hd, hm⟩ | ⟨r, hr, -⟩
  · rcases mem_nodes_after hbase hn with ⟨b, hb, hn⟩ | ⟨hn, -⟩
    · exact hold b hb m (mem_mentioned.mpr (.inl ⟨n, typeNodes_whole b ▸ hn, hm⟩))
    · exact hnew m (mem_mentioned.mpr (.inl ⟨n, hn, hm⟩))
  · rcases mem_directives_after hd with ⟨b, hb, hd⟩ | hd
    · exact hold b hb m (mem_mentioned.mpr (.inr (.inl ⟨d, directives_whole b ▸ hd, hm⟩)))
    · exact hnew m (mem_mentioned.mpr (.inr (.inl ⟨d, hd, hm⟩)))
  · cases hr

/-- **What is built from what was built is like it.** -/
theorem built_ofAddition {s : Schema} (hbase : ∀ b ∈ a.base, b.Built) (h : ofAddition a = .ok s) :
    s.Built := by
  obtain ⟨hfits, hkinds, htexts, rfl⟩ := ofAddition_eq_ok_iff.mp h
  obtain ⟨⟨htypes, hdirectives, -, -, hfields, hwords, hknown, hextensions⟩, hnodes,
    hdirectiveNodes, -⟩ := fits_iff_nodes.mp hfits
  have hnames : ∀ b ∈ a.base, (Table.keys b.types).Nodup := fun b hb => (hbase b hb).names
  have holdDirectives : ∀ b ∈ a.base, (b.directives.map (·.name)).Nodup :=
    fun b hb => (hbase b hb).directives
  have hkeeps : a.Keeps (after a).whole := fun n d hd =>
    (directive?_after holdDirectives n).trans hd
  refine
    { names := nodup_keys_typesAfter htypes hnames
      own := own_typesAfter hbase
      defined := fun t ht => ?_
      extended := fun t ht => ?_
      members := nodup_names_after TypeBody.joins_memberNames (fieldsOnce_iff.mp hfields)
        fun b hb => ⟨hbase b hb, (hbase b hb).members⟩
      words := nodup_names_after TypeBody.joins_words (wordsOnce_iff.mp hwords)
        fun b hb => ⟨hbase b hb, (hbase b hb).words⟩
      directives := ?_
      known := known_after hknown hbase
      kinds := hkinds
      texts := fun n hn => ?_
      nodes := fun n hn => ?_
      directiveNodes := fun d hd => ?_ }
  · obtain ⟨u, ⟨b, hb, hu⟩ | ⟨d, hd, -, hname, rfl⟩, heq⟩ := mem_typesAfter ht
    · rw [heq]
      exact (hbase b hb).defined (t.1, u) hu
    · rw [heq]
      refine ⟨rfl, hname, ?_⟩
      show d.extends? = false
      simpa using (List.mem_filter.mp hd).2
  · obtain ⟨u, hu, heq⟩ := mem_typesAfter ht
    have hkind : ∀ e ∈ a.extensions.filter (·.name == t.1), e.body.kind = u.kind := by
      refine kind_of_extension htypes hextensions hnames (hu.imp_right ?_)
      rintro ⟨d, hd, -, hname, rfl⟩
      exact ⟨d, hd, hname, rfl⟩
    rw [heq]
    intro e he
    rcases List.mem_append.mp he with he | he
    · rcases hu with ⟨b, hb, hu⟩ | ⟨d, -, -, -, rfl⟩
      · exact (hbase b hb).extended (t.1, u) hu e he
      · cases he
    · obtain ⟨hextension, hname⟩ := List.mem_filter.mp he
      exact ⟨beq_iff_eq.mp hname, (List.mem_filter.mp hextension).2, hkind e he⟩
  · exact nodup_directives_after hdirectives holdDirectives
  · rcases mem_nodes_after hbase hn with ⟨b, hb, hn⟩ | ⟨hn, hstandard⟩
    · exact (hbase b hb).texts n hn
    · exact htexts n hn hstandard
  · rcases mem_nodes_after hbase hn with ⟨b, hb, hn⟩ | ⟨hn, -⟩
    · exact ((hbase b hb).nodes n hn).mono (keeps_after hdirectives hb)
    · exact (hnodes n hn).mono hkeeps
  · rcases mem_directives_after hd with ⟨b, hb, hd⟩ | hd
    · exact ((hbase b hb).directiveNodes d hd).mono (keeps_after hdirectives hb)
    · exact (hdirectiveNodes d hd).mono hkeeps

end

end Schema
end SchemaForge

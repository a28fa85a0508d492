import SchemaForge.Proofs.Schema.Uses
import SchemaForge.Proofs.Schema.Building

/-!
# The rules, node by node

Most rules for documents are about one node and the directives that are known. So they go on
holding of a node as long as the known directives stay, and after an addition they do: what the
document of the addition knows is what the whole schema knows from then on.
-/
namespace SchemaForge

open Language

/-- Among things with names that are apart the order does not matter. -/
theorem find?_reverse {α : Type} {f : α → String} {xs : List α} (h : (xs.map f).Nodup)
    (n : String) : xs.reverse.find? (f · == n) = xs.find? (f · == n) := by
  have hreverse : (xs.reverse.map f).Nodup := by
    rw [List.map_reverse]
    exact List.nodup_reverse.mpr h
  cases hfound : xs.find? (f · == n) with
  | none =>
    rw [List.find?_eq_none] at hfound ⊢
    exact fun x hx => hfound x (List.mem_reverse.mp hx)
  | some x =>
    have hname : f x = n := by simpa using List.find?_some hfound
    rw [← hname]
    exact find?_of_mem hreverse (List.mem_reverse.mpr (List.mem_of_find?_eq_some hfound))

namespace Addition

variable {a a' : Addition}

/-- The uses in a place are allowed there, and have the arguments that they need. -/
def PlaceFits (a : Addition) (p : DirectivePlace) : Prop :=
  ∀ u ∈ p.uses, a.allows p.location u = true ∧ a.argumentsFit u = true

/-- The rules for inputs: each once, with defaults that have every field once. -/
structure InputsFit (is : List InputNode) : Prop where
  /-- Names are apart. -/
  once : (is.map (·.name)).Nodup
  /-- So are the names in defaults. -/
  defaults : ∀ i ∈ is, ∀ l ∈ i.default?, literalOnce l = true

/-- The rules for one node of a type, with the directives of an addition. -/
structure NodeFits (a : Addition) (t : TypeNode) : Prop where
  /-- Those for the arguments of its fields. -/
  arguments : ∀ f ∈ t.body.fields, InputsFit f.arguments
  /-- Those for the defaults of its own inputs. -/
  defaults : ∀ i ∈ t.body.inputs, ∀ l ∈ i.default?, literalOnce l = true
  /-- Those for uses of directives on it. -/
  own : a.PlaceFits (typePlace t)
  /-- Those for uses of directives in it. -/
  places : ∀ p ∈ memberPlaces t, a.PlaceFits p ∧ (a.singleUses p.uses).Nodup

/-- The rules for a directive, with the directives of an addition. -/
structure DirectiveFits (a : Addition) (d : DirectiveNode) : Prop where
  /-- Those for its arguments. -/
  arguments : InputsFit d.arguments
  /-- Those for uses of directives on them. -/
  places : ∀ i ∈ d.arguments, a.PlaceFits (inputPlace "ARGUMENT_DEFINITION" i)
    ∧ (a.singleUses i.directives).Nodup

/-! ### What depends on the known directives -/

theorem argumentsFit_congr {u : DirectiveUse} (h : a.directive? u.name = a'.directive? u.name) :
    a.argumentsFit u = a'.argumentsFit u := by
  unfold argumentsFit
  rw [h]

theorem singleUses_congr {uses : List DirectiveUse}
    (h : ∀ u ∈ uses, a.directive? u.name = a'.directive? u.name) :
    a.singleUses uses = a'.singleUses uses := by
  unfold singleUses
  refine List.filter_congr fun n hn => ?_
  obtain ⟨u, hu, rfl⟩ := List.mem_map.mp hn
  rw [h u hu]

/-- Directives that are known stay so. -/
def Keeps (a a' : Addition) : Prop :=
  ∀ n d, a.directive? n = some d → a'.directive? n = some d

section

variable (h : a.Keeps a')

include h

/-- The directives that fit in a place are known. -/
theorem Keeps.directive?_eq {p : DirectivePlace} (hp : a.PlaceFits p) :
    ∀ u ∈ p.uses, a.directive? u.name = a'.directive? u.name := by
  intro u hu
  obtain ⟨d, hd, -⟩ := (Option.any_eq_true _ _).mp (hp u hu).1
  rw [hd, h _ _ hd]

theorem PlaceFits.mono {p : DirectivePlace} (hp : a.PlaceFits p) : a'.PlaceFits p := by
  intro u hu
  have heq := h.directive?_eq hp u hu
  obtain ⟨hallows, hfit⟩ := hp u hu
  unfold allows at hallows ⊢
  exact ⟨heq ▸ hallows, argumentsFit_congr heq ▸ hfit⟩

theorem PlaceFits.mono_single {p : DirectivePlace}
    (hp : a.PlaceFits p ∧ (a.singleUses p.uses).Nodup) :
    a'.PlaceFits p ∧ (a'.singleUses p.uses).Nodup :=
  ⟨hp.1.mono h, singleUses_congr (h.directive?_eq hp.1) ▸ hp.2⟩

theorem NodeFits.mono {t : TypeNode} (ht : a.NodeFits t) : a'.NodeFits t :=
  { ht with own := ht.own.mono h, places := fun p hp => PlaceFits.mono_single h (ht.places p hp) }

theorem DirectiveFits.mono {d : DirectiveNode} (hd : a.DirectiveFits d) : a'.DirectiveFits d :=
  { hd with places := fun i hi => PlaceFits.mono_single h (hd.places i hi) }

end

/-! ### The rules node by node -/

theorem usesFit_iff_places : a.usesFit = true ↔ (∀ p ∈ a.places, a.PlaceFits p)
    ∧ (∀ p ∈ a.innerPlaces, (a.singleUses p.uses).Nodup)
    ∧ (∀ t ∈ a.typeNodes, (a.singleUses ((a.nodesOf t.name).flatMap (·.directives))).Nodup)
    ∧ (a.singleUses (a.rootNodes.flatMap (·.directives))).Nodup := by
  unfold usesFit usesAllowed usesOnce uses PlaceFits allows
  simp only [Bool.and_eq_true, List.all_eq_true, List.forall_mem_flatMap, distinct_iff_nodup]
  constructor
  · rintro ⟨⟨hallowed, ⟨hinner, htypes⟩, hroots⟩, harguments⟩
    exact ⟨fun p hp u hu => ⟨hallowed p hp u hu, harguments p hp u hu⟩, hinner, htypes, hroots⟩
  · rintro ⟨hplaces, hinner, htypes, hroots⟩
    exact ⟨⟨fun p hp u hu => (hplaces p hp u hu).1, ⟨hinner, htypes⟩, hroots⟩,
      fun p hp u hu => (hplaces p hp u hu).2⟩

/-- The rules for inputs, list by list. -/
theorem inputsFit_iff : (a.inputsOnce = true ∧ a.defaults.all literalOnce = true)
    ↔ (∀ t ∈ a.typeNodes, (∀ f ∈ t.body.fields, InputsFit f.arguments)
        ∧ ∀ i ∈ t.body.inputs, ∀ l ∈ i.default?, literalOnce l = true)
      ∧ ∀ d ∈ a.directives, InputsFit d.arguments := by
  have hdefaults : ∀ is : List InputNode, (∀ l ∈ is.filterMap (·.default?), literalOnce l = true)
      ↔ ∀ i ∈ is, ∀ l ∈ i.default?, literalOnce l = true := by
    intro is
    simp only [List.mem_filterMap]
    exact ⟨fun h i hi l hl => h l ⟨i, hi, hl⟩, fun h l ⟨i, hi, hl⟩ => h i hi l hl⟩
  unfold inputsOnce defaults inputLists
  simp only [List.all_eq_true, distinct_iff_nodup, List.forall_mem_flatMap, List.forall_mem_append,
    List.forall_mem_map, hdefaults]
  constructor
  · rintro ⟨⟨hfields, hdirectives⟩, ⟨hfields', hdirectives'⟩, hinputs⟩
    exact ⟨fun t ht => ⟨fun f hf => ⟨hfields t ht f hf, hfields' t ht f hf⟩, hinputs t ht⟩,
      fun d hd => ⟨hdirectives d hd, hdirectives' d hd⟩⟩
  · rintro ⟨htypes, hdirectives⟩
    exact ⟨⟨fun t ht f hf => ((htypes t ht).1 f hf).once, fun d hd => (hdirectives d hd).once⟩,
      ⟨fun t ht f hf => ((htypes t ht).1 f hf).defaults, fun d hd => (hdirectives d hd).defaults⟩,
      fun t ht => (htypes t ht).2⟩

/-- **The rules hold if and only if they hold in every node**, besides those that are about all
nodes together. -/
theorem fits_iff_nodes : a.fits = true ↔
    (a.typesOnce = true ∧ a.directivesOnce = true ∧ a.schemaOnce = true ∧ a.rootsOnce = true
      ∧ a.fieldsOnce = true ∧ a.wordsOnce = true ∧ a.typesKnown = true ∧ a.extensionsFit = true)
    ∧ (∀ t ∈ a.typeNodes, a.NodeFits t) ∧ (∀ d ∈ a.directives, a.DirectiveFits d)
    ∧ (∀ r ∈ a.rootNodes, a.PlaceFits (rootPlace r))
    ∧ (∀ t ∈ a.typeNodes, (a.singleUses ((a.nodesOf t.name).flatMap (·.directives))).Nodup)
    ∧ (a.singleUses (a.rootNodes.flatMap (·.directives))).Nodup := by
  have hnodes : (a.inputsOnce = true ∧ a.defaults.all literalOnce = true)
        ∧ (∀ p ∈ a.innerPlaces, a.PlaceFits p) ∧ (∀ t ∈ a.typeNodes, a.PlaceFits (typePlace t))
        ∧ (∀ p ∈ a.innerPlaces, (a.singleUses p.uses).Nodup)
      ↔ (∀ t ∈ a.typeNodes, a.NodeFits t) ∧ ∀ d ∈ a.directives, a.DirectiveFits d := by
    rw [inputsFit_iff]
    unfold innerPlaces
    simp only [List.forall_mem_append, List.forall_mem_flatMap, List.forall_mem_map]
    constructor
    · rintro ⟨⟨htypes, hdirectives⟩, ⟨hmembers, hinputs⟩, hown, hsingle, hsingle'⟩
      exact ⟨fun t ht => ⟨(htypes t ht).1, (htypes t ht).2, hown t ht,
          fun p hp => ⟨hmembers t ht p hp, hsingle t ht p hp⟩⟩,
        fun d hd => ⟨hdirectives d hd, fun i hi => ⟨hinputs d hd i hi, hsingle' d hd i hi⟩⟩⟩
    · rintro ⟨htypes, hdirectives⟩
      exact ⟨⟨fun t ht => ⟨(htypes t ht).arguments, (htypes t ht).defaults⟩,
          fun d hd => (hdirectives d hd).arguments⟩,
        ⟨fun t ht p hp => ((htypes t ht).places p hp).1,
          fun d hd i hi => ((hdirectives d hd).places i hi).1⟩,
        fun t ht => (htypes t ht).own, fun t ht p hp => ((htypes t ht).places p hp).2,
        fun d hd i hi => ((hdirectives d hd).places i hi).2⟩
  have hplaces : (∀ p ∈ a.places, a.PlaceFits p) ↔ (∀ p ∈ a.innerPlaces, a.PlaceFits p)
      ∧ (∀ t ∈ a.typeNodes, a.PlaceFits (typePlace t))
      ∧ ∀ r ∈ a.rootNodes, a.PlaceFits (rootPlace r) := by
    unfold places
    simp only [List.forall_mem_append, List.forall_mem_map, and_assoc]
  rw [fits_iff, usesFit_iff_places, hplaces]
  constructor
  · rintro ⟨honce, hdirectives, hschema, hset, hfields, hwords, hinputs, hknown, hextensions,
      ⟨⟨hinner, hown, hroots⟩, hsingle, htypes, hroot⟩, hdefaults⟩
    obtain ⟨ht, hd⟩ := hnodes.mp ⟨⟨hinputs, hdefaults⟩, hinner, hown, hsingle⟩
    exact ⟨⟨honce, hdirectives, hschema, hset, hfields, hwords, hknown, hextensions⟩, ht, hd,
      hroots, htypes, hroot⟩
  · rintro ⟨⟨honce, hdirectives, hschema, hset, hfields, hwords, hknown, hextensions⟩, ht, hd,
      hroots, htypes, hroot⟩
    obtain ⟨⟨hinputs, hdefaults⟩, hinner, hown, hsingle⟩ := hnodes.mpr ⟨ht, hd⟩
    exact ⟨honce, hdirectives, hschema, hset, hfields, hwords, hinputs, hknown, hextensions,
      ⟨⟨hinner, hown, hroots⟩, hsingle, htypes, hroot⟩, hdefaults⟩

end Addition

namespace Schema

open Addition

theorem typeNodes_whole (s : Schema) : s.whole.typeNodes = s.nodes := by
  unfold whole typeNodes
  simp [List.filterMap_append, List.filterMap_map]

theorem directives_whole (s : Schema) : s.whole.directives = s.directives := by
  unfold whole Addition.directives
  simp [List.filterMap_append, List.filterMap_map]

theorem rootNodes_whole (s : Schema) : s.whole.rootNodes = [] := by
  unfold whole rootNodes
  simp [List.filterMap_append, List.filterMap_map]

/-! ### Known directives -/

/-- The directives that a whole schema knows are its own and those of every schema. -/
theorem directive?_whole (s : Schema) (n : String) : s.whole.directive? n
    = (s.directives.reverse.find? (·.name == n)).or (standardDirectives.find? (·.name == n)) := by
  unfold Addition.directive?
  rw [directives_whole, List.find?_append, List.find?_append]
  cases s.directives.reverse.find? (·.name == n) <;> rfl

theorem find?_allDirectives (s : Schema) (n : String) :
    (s.allDirectives.find? (·.name == n)).or (standardDirectives.find? (·.name == n))
      = (s.directives.find? (·.name == n)).or (standardDirectives.find? (·.name == n)) := by
  unfold allDirectives
  rw [List.find?_append]
  cases s.directives.find? (·.name == n) with
  | some d => rfl
  | none =>
    rw [Option.none_or, Option.none_or]
    cases hfound : (standardDirectives.filter fun d => s.directives.all (·.name != d.name)).find?
      (·.name == n) with
    | none => rfl
    | some d =>
      have hname : d.name = n := by simpa using List.find?_some hfound
      have hmem := (List.mem_filter.mp (List.mem_of_find?_eq_some hfound)).1
      rw [← hname, find?_of_mem (f := DirectiveNode.name) (by decide) hmem]
      rfl

variable {a : Addition}

/-- What the rules say of the directives of a document. -/
theorem directivesOnce_iff : a.directivesOnce = true ↔ (a.directives.map (·.name)).Nodup
    ∧ ∀ d ∈ a.directives, ∀ old ∈ a.oldDirectives, old.name ≠ d.name := by
  unfold directivesOnce
  simp [distinct_iff_nodup]

/-- The whole schema after an addition knows the directives that the addition knows. -/
theorem directive?_after (hbase : ∀ b ∈ a.base, (b.directives.map (·.name)).Nodup) (n : String) :
    (after a).whole.directive? n = a.directive? n := by
  rw [directive?_whole]
  unfold Addition.directive? oldDirectives after
  cases hb : a.base with
  | none => simp
  | some b =>
    dsimp only [Option.map_some, Option.getD_some]
    rw [List.reverse_append, List.find?_append, List.find?_append, List.find?_append,
      Option.or_assoc, Option.or_assoc, find?_allDirectives, find?_reverse (f := DirectiveNode.name) (hbase b hb)]

/-- Directives that were known before stay so. -/
theorem keeps_after (honce : a.directivesOnce = true) {b : Schema} (hb : a.base = some b) :
    b.whole.Keeps (after a).whole := by
  intro n d hd
  have hold : ∃ old ∈ a.oldDirectives, old.name = n := by
    unfold oldDirectives allDirectives
    rw [hb, Option.map_some, Option.getD_some]
    rw [directive?_whole, Option.or_eq_some_iff] at hd
    rcases hd with hd | ⟨hnone, hd⟩
    · have hname : d.name = n := by simpa using List.find?_some hd
      exact ⟨d, List.mem_append_left _ (List.mem_reverse.mp (List.mem_of_find?_eq_some hd)), hname⟩
    · have hname : d.name = n := by simpa using List.find?_some hd
      refine ⟨d, List.mem_append_right _ (List.mem_filter.mpr ?_), hname⟩
      refine ⟨List.mem_of_find?_eq_some hd, ?_⟩
      rw [List.find?_eq_none] at hnone
      simpa [hname] using hnone
  have hnew : a.directives.reverse.find? (·.name == n) = none := by
    obtain ⟨old, hmem, hname⟩ := hold
    rw [List.find?_eq_none]
    intro e he heq
    refine (directivesOnce_iff.mp honce).2 e (List.mem_reverse.mp he) old hmem ?_
    rw [hname, beq_iff_eq.mp heq]
  rw [directive?_whole] at hd ⊢
  unfold after
  rw [hb, Option.map_some, Option.getD_some, List.reverse_append, List.find?_append, hnew,
    Option.none_or]
  exact hd

end Schema
end SchemaForge

import Mathlib.Data.List.Nodup
import SchemaForge.Schema.Addition
import SchemaForge.Schema.Validity

/-!
# Where a document may use its own directives

A document that defines directives for object types and fields, and that describes every type
once, keeps the rules for uses of directives exactly if its own directives stand where they may
stand, none twice in one place, and the other directives keep the rules.
-/
namespace SchemaForge

open Language

namespace Addition

variable (a : Addition)

/-- The rules for uses of directives. -/
def usesFit : Bool := a.usesAllowed && a.usesOnce && a.uses.all a.argumentsFit

/-- Whether the document defines the directive that is used. -/
def defines (u : DirectiveUse) : Bool := a.directives.any (·.name == u.name)

/-- The names of uses of the document's own directives. -/
def ownNames (uses : List DirectiveUse) : List String := (uses.filter a.defines).map (·.name)

/-- Whether a directive may stand in a place. -/
def allows (location : String) (u : DirectiveUse) : Bool :=
  (a.directive? u.name).any (·.locations.contains location)

/-- The document's own directives stand on object types and on fields, each once. -/
structure PlacesOwn : Prop where
  /-- A type that has them is an object type. -/
  types : ∀ t ∈ a.typeNodes, a.ownNames t.directives ≠ [] → t.body.kind = .object
  /-- A field of an input type has none. -/
  inputs : ∀ t ∈ a.typeNodes, ∀ i ∈ t.body.inputs, a.ownNames i.directives = []
  /-- A type has none twice. -/
  typesOnce : ∀ t ∈ a.typeNodes, (a.ownNames t.directives).Nodup
  /-- A field has none twice. -/
  fieldsOnce : ∀ t ∈ a.typeNodes, ∀ f ∈ t.body.fields, (a.ownNames f.directives).Nodup

/-- The other directives keep the rules. -/
structure FitsOthers : Prop where
  /-- They stand where they may. -/
  allowed : ∀ p ∈ a.places, ∀ u ∈ p.uses, a.defines u = false → a.allows p.location u
  /-- They have the arguments that they need. -/
  arguments : ∀ u ∈ a.uses, a.defines u = false → a.argumentsFit u
  /-- They are repeated only where they may be. -/
  once : ∀ p ∈ a.places, (a.singleUses (p.uses.filter (!a.defines ·))).Nodup

/-- A document that describes types once each, and that uses directives on types, fields and
fields of inputs alone. Its own directives are for object types and fields. -/
structure Plain : Prop where
  /-- Nothing is said of the schema itself. -/
  roots : a.rootNodes = []
  /-- Types are described once. -/
  apart : (a.typeNodes.map (·.name)).Nodup
  /-- Arguments have no directives. -/
  arguments : ∀ is ∈ a.inputLists, ∀ i ∈ is, i.directives = []
  /-- Words have no directives. -/
  words : ∀ t ∈ a.typeNodes, ∀ vs, t.body = .enum vs → ∀ v ∈ vs, v.directives = []
  /-- Its own directives are for object types and fields, once in a place. -/
  own : ∀ d ∈ a.directives, d.locations = ["OBJECT", "FIELD_DEFINITION"] ∧ d.repeatable = false

/-- What a field of an input type counts as. -/
def memberLocation (t : TypeNode) : String :=
  if t.extends? then "ARGUMENT_DEFINITION" else "INPUT_FIELD_DEFINITION"

variable {a}

/-- All rules, one by one. -/
theorem fits_iff : a.fits = true ↔ a.typesOnce = true ∧ a.directivesOnce = true
    ∧ a.schemaOnce = true ∧ a.rootsOnce = true ∧ a.fieldsOnce = true ∧ a.wordsOnce = true
    ∧ a.inputsOnce = true ∧ a.typesKnown = true ∧ a.extensionsFit = true ∧ a.usesFit = true
    ∧ a.defaults.all literalOnce = true := by
  simp only [fits, usesFit, Bool.and_eq_true, and_assoc]

theorem usesFit_of_fits (h : a.fits) : a.usesFit = true := by
  obtain ⟨-, -, -, -, -, -, -, -, -, huses, -⟩ := fits_iff.mp h
  exact huses

/-- The locations of directives on types are their kinds. -/
theorem typeLocation_iff {k : TypeKind} :
    (typeLocation k = "OBJECT" ∨ typeLocation k = "FIELD_DEFINITION") ↔ k = .object := by
  cases k <;> decide

theorem memberLocation_ne (t : TypeNode) :
    ¬(memberLocation t = "OBJECT" ∨ memberLocation t = "FIELD_DEFINITION") := by
  unfold memberLocation
  split <;> decide

theorem mem_ownNames {uses : List DirectiveUse} {n : String} :
    n ∈ a.ownNames uses ↔ ∃ u ∈ uses, a.defines u = true ∧ u.name = n := by
  unfold ownNames
  simp only [List.mem_map, List.mem_filter, and_assoc]

theorem ownNames_eq_nil {uses : List DirectiveUse} :
    a.ownNames uses = [] ↔ ∀ u ∈ uses, a.defines u = false := by
  unfold ownNames
  rw [List.map_eq_nil_iff, List.filter_eq_nil_iff]
  simp only [Bool.not_eq_true]

/-- The document's own directive is the one that is used. -/
theorem exists_directive {u : DirectiveUse} (hu : a.defines u = true) :
    ∃ d ∈ a.directives, d.name = u.name ∧ a.directive? u.name = some d := by
  obtain ⟨d, hd, hname⟩ := List.any_eq_true.mp hu
  have hsome : (a.directives.reverse.find? (·.name == u.name)).isSome :=
    List.find?_isSome.mpr ⟨d, List.mem_reverse.mpr hd, hname⟩
  obtain ⟨own, hown⟩ := Option.isSome_iff_exists.mp hsome
  refine ⟨own, List.mem_reverse.mp (List.mem_of_find?_eq_some hown), ?_, ?_⟩
  · have hfound := List.find?_some hown
    exact beq_iff_eq.mp hfound
  · unfold directive?
    rw [List.append_assoc, List.find?_append, hown, Option.some_or]

namespace Plain

variable (h : a.Plain)

include h

/-- Uses stand on types, on fields and on fields of input types. -/
theorem forall_places {Q : DirectivePlace → Prop} (hQ : ∀ l, Q ⟨l, []⟩) :
    (∀ p ∈ a.places, Q p) ↔ ∀ t ∈ a.typeNodes, Q (typePlace t)
      ∧ (∀ f ∈ t.body.fields, Q ⟨"FIELD_DEFINITION", f.directives⟩)
      ∧ ∀ i ∈ t.body.inputs, Q (inputPlace (memberLocation t) i) := by
  have harguments : ∀ is ∈ a.inputLists, ∀ l, ∀ p ∈ is.map (inputPlace l), Q p := by
    intro is his l p hp
    obtain ⟨i, hi, rfl⟩ := List.mem_map.mp hp
    rw [inputPlace, h.arguments is his i hi]
    exact hQ l
  have hmembers : ∀ t ∈ a.typeNodes, (∀ p ∈ memberPlaces t, Q p) ↔
      (∀ f ∈ t.body.fields, Q ⟨"FIELD_DEFINITION", f.directives⟩)
        ∧ ∀ i ∈ t.body.inputs, Q (inputPlace (memberLocation t) i) := by
    intro t ht
    have hfields : (∀ p ∈ t.body.fields.flatMap fieldPlaces, Q p) ↔
        ∀ f ∈ t.body.fields, Q ⟨"FIELD_DEFINITION", f.directives⟩ := by
      simp only [List.forall_mem_flatMap, fieldPlaces, List.forall_mem_cons]
      refine ⟨fun hp f hf => (hp f hf).1, fun hp f hf => ⟨hp f hf, harguments _ ?_ _⟩⟩
      exact List.mem_append_left _ (List.mem_flatMap.mpr ⟨t, ht, List.mem_map_of_mem hf⟩)
    cases hbody : t.body with
    | object _ fs | interface _ fs =>
      rw [hbody] at hfields
      simpa [memberPlaces, hbody, TypeBody.fields, TypeBody.inputs] using hfields
    | input fs => simp [memberPlaces, hbody, TypeBody.fields, TypeBody.inputs, memberLocation]
    | enum vs =>
      have hwords := h.words t ht vs hbody
      simp only [memberPlaces, hbody, TypeBody.fields, TypeBody.inputs, List.forall_mem_map]
      refine ⟨fun _ => ⟨by simp, by simp⟩, fun _ v hv => ?_⟩
      rw [hwords v hv]
      exact hQ _
    | scalar | union => simp [memberPlaces, hbody, TypeBody.fields, TypeBody.inputs]
  have hdirectives : ∀ d ∈ a.directives, ∀ p ∈ d.arguments.map (inputPlace "ARGUMENT_DEFINITION"),
      Q p := fun d hd => harguments _ (List.mem_append_right _ (List.mem_map_of_mem hd)) _
  unfold places innerPlaces
  rw [h.roots, List.map_nil, List.append_nil]
  simp only [List.forall_mem_append, List.forall_mem_flatMap, List.forall_mem_map]
  constructor
  · rintro ⟨⟨hp, -⟩, ht⟩ t hmem
    exact ⟨ht t hmem, (hmembers t hmem).mp (hp t hmem)⟩
  · intro hp
    refine ⟨⟨fun t ht => (hmembers t ht).mpr (hp t ht).2, fun d hd i hi => ?_⟩,
      fun t ht => (hp t ht).1⟩
    exact hdirectives d hd _ (List.mem_map_of_mem hi)

theorem allows_iff {u : DirectiveUse} (hu : a.defines u = true) {l : String} :
    a.allows l u = true ↔ l = "OBJECT" ∨ l = "FIELD_DEFINITION" := by
  obtain ⟨d, hown, -, hd⟩ := exists_directive hu
  simp [allows, hd, (h.own d hown).1]

theorem allowed_iff {uses : List DirectiveUse} {l : String} :
    (∀ u ∈ uses, a.defines u = true → a.allows l u = true)
      ↔ (a.ownNames uses ≠ [] → l = "OBJECT" ∨ l = "FIELD_DEFINITION") := by
  rw [Ne, ownNames_eq_nil]
  constructor
  · intro hall hown
    by_contra hl
    refine hown fun u hu => ?_
    by_contra hdefines
    exact hl ((h.allows_iff (by simpa using hdefines)).mp (hall u hu (by simpa using hdefines)))
  · intro hl u hu hdefines
    refine (h.allows_iff hdefines).mpr (hl fun hnone => ?_)
    rw [hnone u hu] at hdefines
    cases hdefines

/-! ### Each once -/

/-- The document's own directives are not to be repeated. -/
theorem singleUses_own (uses : List DirectiveUse) :
    a.singleUses (uses.filter a.defines) = a.ownNames uses := by
  unfold singleUses ownNames
  rw [List.filter_eq_self]
  intro n hn
  obtain ⟨u, hu, rfl⟩ := List.mem_map.mp hn
  obtain ⟨d, hown, -, hd⟩ := exists_directive (List.mem_filter.mp hu).2
  rw [hd, Option.any_some, (h.own d hown).2]
  rfl

/-- Uses are not repeated if neither its own directives nor others are. -/
theorem nodup_singleUses {uses : List DirectiveUse} : (a.singleUses uses).Nodup ↔
    (a.ownNames uses).Nodup ∧ (a.singleUses (uses.filter (!a.defines ·))).Nodup := by
  have hperm := List.filter_append_perm a.defines uses
  have hsplit : (a.singleUses uses).Perm
      (a.ownNames uses ++ a.singleUses (uses.filter (!a.defines ·))) := by
    rw [← h.singleUses_own]
    unfold singleUses
    rw [← List.filter_append, ← List.map_append]
    exact (hperm.map _).symm.filter _
  rw [hsplit.nodup_iff, List.nodup_append']
  refine and_congr_right fun _ => and_iff_left ?_
  -- A name that the document defines is none of the others.
  intro n hown hother
  obtain ⟨u, -, hu, rfl⟩ := mem_ownNames.mp hown
  obtain ⟨w, hw, hname⟩ := List.mem_map.mp (List.mem_filter.mp hother).1
  obtain ⟨-, hw⟩ := List.mem_filter.mp hw
  unfold defines at hu hw
  rw [hname, hu] at hw
  cases hw

/-- A type has one node. -/
theorem nodesOf_eq {t : TypeNode} (ht : t ∈ a.typeNodes) : a.nodesOf t.name = [t] := by
  have hall : ∀ ts : List TypeNode, (ts.map (·.name)).Nodup → t ∈ ts →
      ts.filter (·.name == t.name) = [t] := by
    intro ts
    induction ts with
    | nil => simp
    | cons s ts ih =>
      intro hnodup hmem
      rw [List.map_cons, List.nodup_cons, List.mem_map] at hnodup
      obtain ⟨hs, hts⟩ := hnodup
      rcases List.mem_cons.mp hmem with rfl | hmem
      · rw [List.filter_cons, if_pos (beq_self_eq_true _), List.filter_eq_nil_iff.mpr]
        exact fun other hother hname => hs ⟨other, hother, beq_iff_eq.mp hname⟩
      · rw [List.filter_cons, if_neg fun hname => hs ⟨t, hmem, (beq_iff_eq.mp hname).symm⟩,
          ih hts hmem]
  exact hall a.typeNodes h.apart ht

/-- Directives are used once if they are in every place. -/
theorem usesOnce_iff : a.usesOnce = true ↔ ∀ p ∈ a.places, (a.singleUses p.uses).Nodup := by
  have htypes : (∀ t ∈ a.typeNodes, (a.singleUses ((a.nodesOf t.name).flatMap (·.directives))).Nodup)
      ↔ ∀ t ∈ a.typeNodes, (a.singleUses (typePlace t).uses).Nodup := by
    refine forall₂_congr fun t ht => ?_
    rw [h.nodesOf_eq ht, List.flatMap_singleton]
    rfl
  unfold usesOnce places
  rw [h.roots, List.map_nil, List.append_nil, List.flatMap_nil]
  simp only [Bool.and_eq_true, List.all_eq_true, distinct_iff_nodup, List.forall_mem_append,
    List.forall_mem_map, htypes]
  exact and_iff_left List.nodup_nil

/-! ### All rules -/

/-- **The rules for uses are kept if and only if the document's own directives stand where they
may stand, each once, and the other directives keep the rules.** -/
theorem usesFit_iff (hfit : ∀ u ∈ a.uses, a.defines u = true → a.argumentsFit u = true) :
    a.usesFit = true ↔ a.PlacesOwn ∧ a.FitsOthers := by
  have hallowed : a.usesAllowed = true ↔ ∀ p ∈ a.places, ∀ u ∈ p.uses, a.allows p.location u = true := by
    simp [usesAllowed, allows, List.all_eq_true]
  have hown : (∀ p ∈ a.places, (∀ u ∈ p.uses, a.defines u = true → a.allows p.location u = true)
      ∧ (a.ownNames p.uses).Nodup) ↔ a.PlacesOwn := by
    simp only [h.allowed_iff]
    rw [h.forall_places fun l => ⟨fun hnone => absurd rfl hnone, List.nodup_nil⟩]
    constructor
    · intro hp
      refine ⟨fun t ht hown => typeLocation_iff.mp ((hp t ht).1.1 hown), fun t ht i hi => ?_,
        fun t ht => (hp t ht).1.2, fun t ht f hf => ((hp t ht).2.1 f hf).2⟩
      by_contra hown
      exact memberLocation_ne t (((hp t ht).2.2 i hi).1 hown)
    · intro hp t ht
      refine ⟨⟨fun hown => typeLocation_iff.mpr (hp.types t ht hown), hp.typesOnce t ht⟩,
        fun f hf => ⟨fun _ => .inr rfl, hp.fieldsOnce t ht f hf⟩, fun i hi => ?_⟩
      have hnone := hp.inputs t ht i hi
      exact ⟨fun hown => absurd hnone hown, hnone ▸ List.nodup_nil⟩
  unfold usesFit
  rw [Bool.and_eq_true, Bool.and_eq_true, hallowed, h.usesOnce_iff, List.all_eq_true, ← hown]
  constructor
  · rintro ⟨⟨hall, honce⟩, harguments⟩
    refine ⟨fun p hp => ⟨fun u hu _ => hall p hp u hu, (h.nodup_singleUses.mp (honce p hp)).1⟩,
      fun p hp u hu _ => hall p hp u hu, fun u hu _ => harguments u hu,
      fun p hp => (h.nodup_singleUses.mp (honce p hp)).2⟩
  · rintro ⟨hp, hothers⟩
    refine ⟨⟨fun p hmem u hu => ?_, fun p hmem =>
      h.nodup_singleUses.mpr ⟨(hp p hmem).2, hothers.once p hmem⟩⟩, fun u hu => ?_⟩
    · cases hdefines : a.defines u with
      | true => exact (hp p hmem).1 u hu hdefines
      | false => exact hothers.allowed p hmem u hu hdefines
    · cases hdefines : a.defines u with
      | true => exact hfit u hu hdefines
      | false => exact hothers.arguments u hu hdefines

end Plain

end Addition
end SchemaForge

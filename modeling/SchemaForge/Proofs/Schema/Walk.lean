import Mathlib.Data.List.Nodup
import SchemaForge.Schema.Walk

/-!
# What the walk visits

The walk enters each type at most once and visits the fields that the schema gives it.
Where names are not used twice, no field is visited twice. `enterN` is the walk counted by
the types that remain, by which it is computed on a given schema.
-/
namespace SchemaForge

open Language

/-- Among things with names that are apart each is found by its name. -/
theorem find?_of_mem {α : Type} {f : α → String} {xs : List α} (h : (xs.map f).Nodup) {x : α}
    (hx : x ∈ xs) : xs.find? (f · == f x) = some x := by
  induction xs with
  | nil => cases hx
  | cons y xs ih =>
    obtain ⟨hy, hxs⟩ := List.nodup_cons.mp h
    rcases List.mem_cons.mp hx with rfl | hx
    · exact List.find?_cons_of_pos (beq_self_eq_true _)
    · have hne : f y ≠ f x := fun heq => hy (List.mem_map.mpr ⟨x, hx, heq.symm⟩)
      rw [List.find?_cons_of_neg (by simpa using hne)]
      exact ih hxs hx

namespace Schema

variable (s : Schema)

/-- Types and the fields of each type have names of their own. -/
def Distinct : Prop :=
  (Table.keys s.types).Nodup ∧ ∀ t ∈ s.types, (t.2.body.fields.map (·.name)).Nodup

/-! ### Types that are entered -/

theorem mem_of_mem_enter {t : String} (remaining queue : List String)
    (h : t ∈ s.enter remaining queue) : t ∈ remaining := by
  induction remaining, queue using enter.induct s with
  | case1 remaining =>
    rw [enter] at h
    cases h
  | case2 remaining u queue hu ih =>
    rw [enter, if_pos hu, List.mem_cons] at h
    rcases h with rfl | h
    · exact hu
    · exact List.mem_of_mem_erase (ih h)
  | case3 remaining u queue hu ih =>
    rw [enter, if_neg hu] at h
    exact ih h

/-- No type is entered twice. -/
theorem nodup_enter (remaining queue : List String) (hr : remaining.Nodup) :
    (s.enter remaining queue).Nodup := by
  induction remaining, queue using enter.induct s with
  | case1 remaining =>
    rw [enter]
    exact List.nodup_nil
  | case2 remaining u queue hu ih =>
    rw [enter, if_pos hu, List.nodup_cons]
    refine ⟨fun h => ?_, ih (hr.erase u)⟩
    exact hr.not_mem_erase (s.mem_of_mem_enter _ _ h)
  | case3 remaining u queue hu ih =>
    rw [enter, if_neg hu]
    exact ih hr

theorem nodup_entered (h : s.Distinct) : s.entered.Nodup := by
  refine s.nodup_enter _ _ ?_
  exact (h.1.sublist (List.filter_sublist.map Prod.fst))

/-! ### Fields that are visited -/

theorem mem_walk {v : Visit} : v ∈ s.walk ↔
    v.parent ∈ s.entered ∧ ∃ f ∈ s.fields v.parent, f.name = v.field ∧ f.type = v.type := by
  simp only [walk, List.mem_flatMap, visitsOf, List.mem_map]
  constructor
  · rintro ⟨t, ht, f, hf, rfl⟩
    exact ⟨ht, f, hf, rfl, rfl⟩
  · rintro ⟨ht, f, hf, hname, htype⟩
    refine ⟨v.parent, ht, f, hf, ?_⟩
    rw [hname, htype]

theorem nodup_fields (h : s.Distinct) (type : String) : ((s.fields type).map (·.name)).Nodup := by
  unfold fields body?
  cases ht : s.types.get? type with
  | none => exact List.nodup_nil
  | some t => exact h.2 _ (Table.mem_of_get? ht)

/-- A field is found under its name. -/
theorem Distinct.field?_of_mem {s : Schema} (h : s.Distinct) {type : String} {f : FieldNode}
    (hf : f ∈ s.fields type) : s.field? type f.name = some f :=
  find?_of_mem (f := FieldNode.name) (s.nodup_fields h type) hf

/-- No field is visited twice. -/
theorem nodup_walk (h : s.Distinct) : (s.walk.map fun v => (v.parent, v.field)).Nodup := by
  have hvisits : ∀ t, (s.visitsOf t).map (fun v => (v.parent, v.field))
      = ((s.fields t).map (·.name)).map fun f => (t, f) := by
    intro t
    simp [visitsOf, Function.comp_def]
  rw [walk, List.map_flatMap, List.nodup_flatMap]
  constructor
  · intro t _
    rw [hvisits]
    exact (s.nodup_fields h t).map fun f g hfg => (Prod.mk.inj hfg).2
  · refine (s.nodup_entered h).imp fun {t u} htu => ?_
    change List.Disjoint ((s.visitsOf t).map _) ((s.visitsOf u).map _)
    rw [hvisits, hvisits]
    rintro x hx hy
    obtain ⟨f, -, rfl⟩ := List.mem_map.mp hx
    obtain ⟨g, -, hg⟩ := List.mem_map.mp hy
    exact htu (Prod.mk.inj hg).1.symm

/-! ### The walk, counted -/

/-- The types that are entered, as many as remain at most. -/
def enterN : Nat → List String → List String → List String
  | 0, _, _ => []
  | n + 1, remaining, queue =>
    match queue.dropWhile (fun t => !remaining.contains t) with
    | [] => []
    | t :: queue => t :: enterN n (remaining.erase t) (queue ++ s.next t)

theorem enter_eq_enterN (remaining queue : List String) :
    s.enter remaining queue = s.enterN remaining.length remaining queue := by
  induction remaining, queue using enter.induct s with
  | case1 remaining =>
    rw [enter]
    cases remaining.length <;> rfl
  | case2 remaining t queue ht ih =>
    have hlength : remaining.length = (remaining.erase t).length + 1 := by
      rw [List.length_erase_of_mem ht]
      have := List.length_pos_of_mem ht
      omega
    rw [enter, if_pos ht, ih, hlength, enterN, List.dropWhile_cons_of_neg (by simpa using ht)]
  | case3 remaining t queue ht ih =>
    rw [enter, if_neg ht, ih]
    cases remaining.length with
    | zero => rfl
    | succ n => rw [enterN, enterN, List.dropWhile_cons_of_pos (by simpa using ht)]

end Schema
end SchemaForge

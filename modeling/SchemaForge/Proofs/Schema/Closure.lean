import Mathlib.Logic.Function.Iterate
import SchemaForge.Proofs.Schema.Walk

/-!
# What the walk reaches

The walk enters the least set of types that holds the roots and, with a type, the types of
objects that its fields return and its members. `Tour` is the walk as a loop: a queue in
which a type can stand many times, the names that were checked, and the visits so far. The
loop ends after as many turns as types were ever put into the queue, with the visits of the
walk, whatever cycles the types form.
-/
namespace SchemaForge

open Language

namespace Schema

variable (s : Schema)

/-- The least set of types that holds the roots and is closed under what fields return, if
that has fields or members, and under members of unions. -/
inductive Reaches : String → Prop where
  | root {t : String} (h : t ∈ s.walkRoots) : Reaches t
  | returned {t : String} {f : FieldNode} (ht : Reaches t) (hf : f ∈ s.fields t)
      (hkind : s.kindIs f.type.baseName TypeKind.isComposite) : Reaches f.type.baseName
  | member {t u : String} {ms : List String} (ht : Reaches t)
      (hbody : s.body? t = some (.union ms)) (hu : u ∈ ms) : Reaches u

variable {s}

theorem mem_next {t u : String} : u ∈ s.next t ↔
    (∃ f ∈ s.fields t, f.type.baseName = u ∧ s.kindIs u TypeKind.isComposite)
      ∨ ∃ ms, s.body? t = some (.union ms) ∧ u ∈ ms := by
  have hfields : ∀ fs : List FieldNode,
      u ∈ (fs.map fun f => f.type.baseName).filter (s.kindIs · TypeKind.isComposite)
        ↔ ∃ f ∈ fs, f.type.baseName = u ∧ s.kindIs u TypeKind.isComposite := by
    intro fs
    simp only [List.mem_filter, List.mem_map]
    constructor
    · rintro ⟨⟨f, hf, hu⟩, hkind⟩
      exact ⟨f, hf, hu, hkind⟩
    · rintro ⟨f, hf, hu, hkind⟩
      exact ⟨⟨f, hf, hu⟩, hkind⟩
  unfold next fields
  cases hb : s.body? t with
  | none => simp
  | some b => cases b <;> simp [hfields, TypeBody.fields]

/-- The set is closed under that to which the walk goes on. -/
theorem Reaches.next {t u : String} (ht : s.Reaches t) (hu : u ∈ s.next t) : s.Reaches u := by
  rcases mem_next.mp hu with ⟨f, hf, rfl, hkind⟩ | ⟨ms, hbody, hu⟩
  · exact ht.returned hf hkind
  · exact ht.member hbody hu

/-! ### Every type that is entered is reached -/

theorem reaches_of_mem_enter {t : String} (remaining queue : List String)
    (hqueue : ∀ u ∈ queue, s.Reaches u) (h : t ∈ s.enter remaining queue) : s.Reaches t := by
  induction remaining, queue using enter.induct s with
  | case1 remaining =>
    rw [enter] at h
    cases h
  | case2 remaining u queue hu ih =>
    have hreached := hqueue u List.mem_cons_self
    rw [enter, if_pos hu, List.mem_cons] at h
    rcases h with rfl | h
    · exact hreached
    · refine ih (fun w hw => ?_) h
      rcases List.mem_append.mp hw with hw | hw
      · exact hqueue w (List.mem_cons_of_mem _ hw)
      · exact hreached.next hw
  | case3 remaining u queue hu ih =>
    rw [enter, if_neg hu] at h
    exact ih (fun w hw => hqueue w (List.mem_cons_of_mem _ hw)) h

/-! ### Every type that is reached is entered -/

/-- What stands in the queue is entered if it remains. -/
theorem mem_enter_of_mem_queue {t : String} (remaining queue : List String)
    (hqueue : t ∈ queue) (h : t ∈ remaining) : t ∈ s.enter remaining queue := by
  induction remaining, queue using enter.induct s with
  | case1 remaining => cases hqueue
  | case2 remaining u queue hu ih =>
    rw [enter, if_pos hu, List.mem_cons]
    by_cases htu : t = u
    · exact .inl htu
    · refine .inr (ih ?_ ((List.mem_erase_of_ne htu).mpr h))
      exact List.mem_append_left _ (List.mem_of_ne_of_mem htu hqueue)
  | case3 remaining u queue hu ih =>
    rw [enter, if_neg hu]
    have htu : t ≠ u := fun he => hu (he ▸ h)
    exact ih (List.mem_of_ne_of_mem htu hqueue) h

/-- With a type that is entered, that to which it leads is entered if it remains. -/
theorem mem_enter_of_mem_next {t u : String} (remaining queue : List String)
    (ht : t ∈ s.enter remaining queue) (hu : u ∈ s.next t) (h : u ∈ remaining) :
    u ∈ s.enter remaining queue := by
  induction remaining, queue using enter.induct s with
  | case1 remaining =>
    rw [enter] at ht
    cases ht
  | case2 remaining w queue hw ih =>
    rw [enter, if_pos hw, List.mem_cons] at ht ⊢
    by_cases huw : u = w
    · exact .inl huw
    have hremains := (List.mem_erase_of_ne huw).mpr h
    rcases ht with rfl | ht
    · exact .inr (mem_enter_of_mem_queue _ _ (List.mem_append_right _ hu) hremains)
    · exact .inr (ih ht hremains)
  | case3 remaining w queue hw ih =>
    rw [enter, if_neg hw] at ht ⊢
    exact ih ht h

/-- A type with fields or members can be entered. -/
theorem mem_composites {t : String} (h : s.visitsOf t ≠ [] ∨ s.next t ≠ []) :
    t ∈ s.composites := by
  have hbody : ∃ b, s.body? t = some b ∧ b.kind.isComposite := by
    unfold visitsOf fields next at h
    cases hb : s.body? t with
    | none => simp [hb] at h
    | some b => cases b <;> simp_all [TypeBody.fields, TypeBody.kind, TypeKind.isComposite]
  obtain ⟨b, hb, hkind⟩ := hbody
  obtain ⟨type, htype, rfl⟩ := Option.map_eq_some_iff.mp hb
  rw [SchemaType.kind_body] at hkind
  exact List.mem_map.mpr ⟨(t, type), List.mem_filter.mpr ⟨Table.mem_of_get? htype, hkind⟩, rfl⟩

/-- A type that is reached and from which there is anything to do is entered. -/
theorem mem_entered_of_reaches {t : String} (h : s.Reaches t) (ht : t ∈ s.composites) :
    t ∈ s.entered := by
  induction h with
  | root h => exact mem_enter_of_mem_queue _ _ h ht
  | @returned u f hu hf hkind ih =>
    have hnext : f.type.baseName ∈ s.next u := mem_next.mpr (.inl ⟨f, hf, rfl, hkind⟩)
    have hu' := ih (mem_composites (.inr (List.ne_nil_of_mem hnext)))
    exact mem_enter_of_mem_next _ _ hu' hnext ht
  | @member u w ms hu hbody hw ih =>
    have hnext : w ∈ s.next u := mem_next.mpr (.inr ⟨ms, hbody, hw⟩)
    have hu' := ih (mem_composites (.inr (List.ne_nil_of_mem hnext)))
    exact mem_enter_of_mem_next _ _ hu' hnext ht

/-- **The walk visits the fields of the types that are reached, and no others.** -/
theorem mem_walk_iff_reaches {v : Visit} :
    v ∈ s.walk ↔ s.Reaches v.parent ∧ v ∈ s.visitsOf v.parent := by
  have hparent : ∀ {t : String}, v ∈ s.visitsOf t → t = v.parent := by
    intro t hv
    obtain ⟨f, -, rfl⟩ := List.mem_map.mp hv
    rfl
  rw [walk, List.mem_flatMap]
  constructor
  · rintro ⟨t, ht, hv⟩
    obtain rfl := hparent hv
    exact ⟨reaches_of_mem_enter _ _ (fun u hu => .root hu) ht, hv⟩
  · rintro ⟨hreached, hv⟩
    have hcomposite := mem_composites (.inl (List.ne_nil_of_mem hv))
    exact ⟨v.parent, mem_entered_of_reaches hreached hcomposite, hv⟩

/-! ### The walk as a loop -/

/-- Where a walk over a schema stands. -/
structure Tour where
  /-- The types that are next, some of them many times. -/
  queue : List String
  /-- The types that were checked. -/
  checked : List String
  /-- The visits so far. -/
  visits : List Visit

/-- One turn of the loop: a type that was checked is passed over, and any other is checked,
its fields are visited, and that to which it leads is put at the end of the queue. -/
def Tour.step (s : Schema) (p : Tour) : Tour :=
  match p.queue with
  | [] => p
  | t :: queue =>
    if t ∈ p.checked then { p with queue }
    else ⟨queue ++ s.next t, t :: p.checked, p.visits ++ s.visitsOf t⟩

variable (s) in
/-- Where the loop starts. -/
def tour : Tour := ⟨s.walkRoots, [], []⟩

variable (s) in
/-- How many types are ever put into the queue. -/
def turns : Nat := s.walkRoots.length + (s.entered.flatMap s.next).length

/-- With the remaining types those that can be entered and were not checked, the loop does
what the walk does, in as many turns as types come through the queue. -/
theorem iterate_step (hs : s.composites.Nodup) (remaining queue checked : List String)
    (visits : List Visit) (hremain : remaining = s.composites.filter (· ∉ checked)) :
    ∃ checked', (Tour.step s)^[queue.length + ((s.enter remaining queue).flatMap s.next).length]
        ⟨queue, checked, visits⟩
      = ⟨[], checked', visits ++ (s.enter remaining queue).flatMap s.visitsOf⟩ := by
  induction remaining, queue using enter.induct s generalizing checked visits with
  | case1 remaining =>
    rw [enter]
    exact ⟨checked, by simp⟩
  | case2 remaining t queue ht ih =>
    subst hremain
    have hchecked : t ∉ checked := by simpa using (List.mem_filter.mp ht).2
    have herase : (s.composites.filter (· ∉ checked)).erase t
        = s.composites.filter (· ∉ t :: checked) := by
      rw [(hs.filter _).erase_eq_filter, List.filter_filter]
      refine List.filter_congr fun u _ => ?_
      by_cases hu : u = t <;> simp [hu]
    obtain ⟨checked', hrun⟩ := ih (t :: checked) (visits ++ s.visitsOf t) herase
    refine ⟨checked', ?_⟩
    have hcount : ∀ n, (t :: queue).length + ((s.next t).length + n)
        = (queue ++ s.next t).length + n + 1 := by
      intro n
      rw [List.length_cons, List.length_append]
      omega
    rw [enter, if_pos ht, List.flatMap_cons, List.flatMap_cons, List.length_append, hcount,
      Function.iterate_succ_apply, Tour.step]
    simp only [if_neg hchecked]
    rw [hrun, List.append_assoc]
  | case3 remaining t queue ht ih =>
    subst hremain
    rw [enter, if_neg ht, List.length_cons, Nat.add_right_comm, Function.iterate_succ_apply]
    by_cases hchecked : t ∈ checked
    · obtain ⟨checked', hrun⟩ := ih checked visits rfl
      refine ⟨checked', ?_⟩
      rw [Tour.step]
      simp only [if_pos hchecked]
      exact hrun
    · -- a type without fields and members: it is checked, and nothing comes of it
      have hcomposite : t ∉ s.composites := fun h =>
        ht (List.mem_filter.mpr ⟨h, by simpa using hchecked⟩)
      have hnone : s.visitsOf t = [] ∧ s.next t = [] := by
        by_contra h
        rw [not_and_or] at h
        exact hcomposite (mem_composites h)
      have hsame : s.composites.filter (· ∉ checked) = s.composites.filter (· ∉ t :: checked) := by
        refine List.filter_congr fun u hu => ?_
        have hne : u ≠ t := fun h => hcomposite (h ▸ hu)
        simp [hne]
      obtain ⟨checked', hrun⟩ := ih (t :: checked) visits hsame
      refine ⟨checked', ?_⟩
      rw [Tour.step]
      simp only [if_neg hchecked, hnone, List.append_nil]
      exact hrun

/-- **The loop ends, and its visits are those of the walk.** -/
theorem iterate_tour (hs : s.Distinct) :
    ∃ checked, (Tour.step s)^[s.turns] s.tour = ⟨[], checked, s.walk⟩ := by
  have hnodup : s.composites.Nodup := hs.1.sublist (List.filter_sublist.map Prod.fst)
  have hall : s.composites = s.composites.filter (· ∉ ([] : List String)) := by simp
  exact iterate_step hnodup s.composites s.walkRoots [] [] hall

end Schema

/-! ### Types whose fields can be resolved

A query starts at a root and goes from a field to the objects that a value of its type can
be: the type itself, a member of a union, or an implementation of an interface. The walk
follows fields and unions, but it does not go on from an interface to its implementations.
So it visits all types whose fields can be resolved exactly if it comes to the
implementations of every interface that such a type returns in some other way.
-/

namespace Schema

variable (s : Schema)

/-- The object types whose fields a query on a root can resolve. -/
inductive Resolvable : String → Prop where
  | root {t : String} (h : t ∈ s.walkRoots) : Resolvable t
  | possible {t u : String} {f : FieldNode} (ht : Resolvable t) (hf : f ∈ s.fields t)
      (hu : u ∈ s.possibleTypes f.type.baseName) : Resolvable u

/-- The walk visits every field of a type. -/
def Visited (t : String) : Prop := ∀ v ∈ s.visitsOf t, v ∈ s.walk

/-- Of every interface that a field of a resolvable type returns, the walk visits every
implementation. -/
def CoversImplementations : Prop :=
  ∀ t f u, s.Resolvable t → f ∈ s.fields t → s.isKind f.type.baseName .interface →
    u ∈ s.possibleTypes f.type.baseName → s.Visited u

variable {s}

theorem parent_of_mem_visitsOf {t : String} {v : Visit} (hv : v ∈ s.visitsOf t) :
    v.parent = t := by
  obtain ⟨f, -, rfl⟩ := List.mem_map.mp hv
  rfl

/-- The walk visits the fields of a type that is reached. -/
theorem Reaches.visited {t : String} (h : s.Reaches t) : s.Visited t := by
  intro v hv
  obtain rfl := parent_of_mem_visitsOf hv
  exact mem_walk_iff_reaches.mpr ⟨h, hv⟩

/-- A type with a field that is visited is reached. -/
theorem Visited.reaches {t : String} {f : FieldNode} (h : s.Visited t) (hf : f ∈ s.fields t) :
    s.Reaches t :=
  (mem_walk_iff_reaches.mp (h ⟨t, f.name, f.type⟩ (List.mem_map.mpr ⟨f, hf, rfl⟩))).1

/-- A type that values of another can have is that type itself, a member of it, or an
implementation. -/
theorem mem_possibleTypes {t u : String} (h : u ∈ s.possibleTypes t) :
    s.isKind t .interface = true ∨ (s.kindIs t TypeKind.isComposite = true
      ∧ (u = t ∨ ∃ ms, s.body? t = some (.union ms) ∧ u ∈ ms)) := by
  unfold possibleTypes at h
  cases ht : s.types.get? t with
  | none =>
    simp only [ht] at h
    cases h
  | some type =>
    have hkind : s.kind? t = some type.body.kind := by
      rw [kind?, ht, SchemaType.kind_body]
    have hbody : s.body? t = some type.body := by
      rw [body?, ht]
      rfl
    simp only [ht] at h
    unfold isKind kindIs
    rw [hkind, hbody]
    cases hb : type.body with
    | object is fs =>
      simp only [hb] at h
      exact .inr ⟨rfl, .inl (List.mem_singleton.mp h)⟩
    | interface is fs => exact .inl rfl
    | union ms =>
      simp only [hb] at h
      exact .inr ⟨rfl, .inr ⟨ms, rfl, h⟩⟩
    | scalar => simp [hb] at h
    | enum vs => simp [hb] at h
    | input fs => simp [hb] at h

/-- Roots, returned types and members of unions are never missed; what is left is to come
from interfaces to their implementations. -/
theorem Resolvable.visited {t : String} (ht : s.Resolvable t)
    (hcovers : ∀ t f u, s.Resolvable t → s.Reaches t → f ∈ s.fields t →
      s.isKind f.type.baseName .interface → u ∈ s.possibleTypes f.type.baseName → s.Visited u) :
    s.Visited t := by
  induction ht with
  | root h => exact Reaches.visited (.root h)
  | @possible t u f ht hf hu ih =>
    have hreached := ih.reaches hf
    rcases mem_possibleTypes hu with hinterface | ⟨hkind, rfl | ⟨ms, hbody, hmem⟩⟩
    · exact hcovers t f u ht hreached hf hinterface hu
    · exact (hreached.returned hf hkind).visited
    · exact ((hreached.returned hf hkind).member hbody hmem).visited

/-- **The walk visits all types whose fields can be resolved exactly if it comes to the
implementations of the interfaces that their fields return.** -/
theorem visits_resolvable_iff :
    (∀ t, s.Resolvable t → s.Visited t) ↔ s.CoversImplementations := by
  constructor
  · intro h t f u ht hf _ hu
    exact h u (ht.possible hf hu)
  · intro hcovers t ht
    exact ht.visited fun t f u ht _ hf => hcovers t f u ht hf

/-- It suffices that of each interface that is entered the implementations are entered. -/
theorem coversImplementations_of_entered
    (h : ∀ i ∈ s.entered, s.isKind i .interface → ∀ u ∈ s.possibleTypes i, u ∈ s.entered) :
    s.CoversImplementations := by
  refine visits_resolvable_iff.mp fun t ht => ht.visited fun t f u _ hreached hf hinterface hu => ?_
  have hkind : s.kindIs f.type.baseName TypeKind.isComposite := by
    rw [kindIs, beq_iff_eq.mp hinterface]
    rfl
  have hcomposite : f.type.baseName ∈ s.composites := by
    unfold possibleTypes at hu
    cases htype : s.types.get? f.type.baseName with
    | none =>
      simp only [htype] at hu
      cases hu
    | some type =>
      refine List.mem_map.mpr ⟨(_, type), List.mem_filter.mpr ⟨Table.mem_of_get? htype, ?_⟩, rfl⟩
      rwa [kindIs, kind?, htype] at hkind
  have hentered := mem_entered_of_reaches (hreached.returned hf hkind) hcomposite
  refine (reaches_of_mem_enter _ _ (fun w hw => .root hw) (h _ hentered hinterface u hu)).visited

end Schema
end SchemaForge

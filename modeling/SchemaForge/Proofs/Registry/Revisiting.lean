import Mathlib.Data.List.Nodup
import SchemaForge.Proofs.Registry.Commuting
import SchemaForge.Proofs.Registry.Sides

/-!
# Filters that are asked for again

The filters of a field may be asked for more than once, with those of other fields in between. If
its derived types were not there at first, then what such a request does is done once and for all
(`FilterCall.effect_again`, `Visited.run_again`). Since requests for different fields commute, what
the registry says in the end depends on which filters are asked for, and not on how often or in
which order (**`FilterCall.foldl_effect_of_members`**).
-/
namespace SchemaForge

namespace Verdict

variable {vs : List Verdict} {lines : Table FieldLine}

/-- Order values that are there already are not written again. -/
theorem orders_orders : orders vs (orders vs lines) = orders vs lines := by
  refine Table.ensureAll_of_has (fun value hvalue => ?_) _
  rw [orders, Table.has_ensureAll, List.contains_iff_mem.mpr hvalue, Bool.or_true]

/-- Conditions that are met already are not written again. -/
theorem conditions_conditions (hnodup : (vs.map key).Nodup) :
    conditions vs (conditions vs lines) = conditions vs lines :=
  conditions_of_met (met_conditions hnodup lines)

/-- There are order values exactly if some line is sorted by. -/
theorem isEmpty_orders :
    (orders vs lines).isEmpty = (lines.isEmpty && (vs.flatMap values).isEmpty) :=
  Table.isEmpty_ensureAll _ lines {}

end Verdict

namespace FilterPlan

variable {p : FilterPlan} {name : String} {x : Option TypeEntry}

theorem drop_drop : p.drop name (p.drop name x) = p.drop name x := by
  unfold drop
  split
  · rw [Option.map_map]
    exact congrArg (Option.map · x) (funext (Registry.withoutOrder_withoutOrder p.field))
  · rfl

/-- A plan for a field whose derived types are not there. -/
structure IsNew (p : FilterPlan) : Prop where
  /-- Lines are judged once. -/
  once : (p.verdicts.map Verdict.key).Nodup
  /-- Only kinds of values that are compared count. -/
  plain : Verdict.Plain p.verdicts
  /-- An order enum is dropped if there is nothing to sort by. -/
  drops : p.drops = (p.isList && (p.verdicts.flatMap Verdict.values).isEmpty)

/-- What is written under derived names that are new is not written again. -/
theorem written?_again (hp : p.IsNew) (hnew : name ∈ p.derived → x = none) :
    p.written? name (p.written? name x) = p.written? name x := by
  by_cases hname : name ∈ p.derived
  · rw [hnew hname]
    unfold written?
    split
    · -- An input that is left without lines is begun again, and comes out the same.
      rw [Option.getD_some, Option.getD_none]
      refine congrArg some ?_
      have hbegun : TypeEntry.asInput name {}
          = { kind := .input, lines := TypeEntry.connectiveLines name } := rfl
      rw [hbegun]
      unfold TypeEntry.asInput
      split
      · rfl
      · exact congrArg (TypeEntry.mk .input []) (Verdict.conditions_conditions hp.once)
    · split
      · cases hlist : p.isList with
        | false => rfl
        | true =>
          cases hdrops : p.drops with
          | true => rfl
          | false =>
            have hsome : (Verdict.orders p.verdicts []).isEmpty = false := by
              rw [Verdict.isEmpty_orders, List.isEmpty_nil, Bool.true_and]
              rw [hp.drops, hlist, Bool.true_and] at hdrops
              exact hdrops
            have hthere : TypeEntry.asEnum (TypeEntry.onLines (Verdict.orders p.verdicts)
                (TypeEntry.asEnum {})) = TypeEntry.onLines (Verdict.orders p.verdicts)
                (TypeEntry.asEnum {}) := if_neg (by
              rw [show (TypeEntry.onLines (Verdict.orders p.verdicts) (TypeEntry.asEnum {})).lines
                = Verdict.orders p.verdicts [] from rfl, hsome]
              exact Bool.false_ne_true)
            simp only [Bool.false_eq_true, if_false, if_true, Option.getD_some, Option.getD_none,
              hthere]
            exact congrArg some (congrArg (TypeEntry.mk _ _) Verdict.orders_orders)
      · rename_i hne hne'
        exact absurd hname (by simp [derived, derivedNames, hne, hne'])
  · rw [written?_of_not_mem hname, written?_of_not_mem hname, Option.or_assoc, Option.or_self]

/-- **A plan for new derived types is carried out once and for all.** -/
theorem act_again (hp : p.IsNew) (hnew : name ∈ p.derived → x = none) :
    p.act name (p.act name x) = p.act name x := by
  rw [act_eq_drop, act_eq_drop, written?_drop hp.plain, drop_drop, written?_again hp hnew]

end FilterPlan

deriving instance DecidableEq for FilterCall

namespace FilterCall

open Registry Run

variable {c d : FilterCall} {calls asked asked' : List FilterCall} {r s : Registry}
  {own : String → Prop} {met : FilterCall → Prop} {n : String} {x : Option TypeEntry}

/-- What a request does, going by what a registry says. -/
def plan (c : FilterCall) (r : Registry) : FilterPlan :=
  r.planOf c.type c.field c.isList (c.verdicts r)

/-- The derived types are not there. -/
def IsNew (c : FilterCall) (r : Registry) : Prop := ∀ n ∈ c.derived, Table.has r n = false

instance (c : FilterCall) (r : Registry) : Decidable (c.IsNew r) :=
  inferInstanceAs (Decidable (∀ n ∈ c.derived, Table.has r n = false))

theorem IsNew.not_skips (h : c.IsNew r) : ¬c.Skips r :=
  not_populated_of_not_has (h _ List.mem_cons_self)

theorem IsNew.effect_eq (h : c.IsNew r) (n : String) (x : Option TypeEntry) :
    effect r n x c = (c.plan r).act n x := if_neg h.not_skips

theorem verdicts_keys (c : FilterCall) (r : Registry) :
    (c.verdicts r).map Verdict.key = Table.keys (r.filterLines c.returned) := by
  rw [verdicts, List.map_map]
  rfl

theorem nodup_verdicts (honce : r.Once) : ((c.verdicts r).map Verdict.key).Nodup := by
  rw [verdicts_keys]
  unfold filterLines
  split
  · exact List.nodup_nil
  · exact honce.entry c.returned

theorem IsNew.lines_order (h : c.IsNew r) :
    (r.entry (orderEnumName c.type c.field)).lines = [] := by
  rw [entry, (Table.get?_eq_none_iff _ _).mpr (h _ (List.mem_cons_of_mem _ List.mem_cons_self))]
  rfl

theorem IsNew.plan (h : c.IsNew r) (honce : r.Once) : (c.plan r).IsNew where
  once := nodup_verdicts honce
  plain := c.plain_verdicts r
  drops := by
    have hdrops : (c.plan r).drops = (c.isList && (Verdict.orders (c.verdicts r)
        (r.entry (orderEnumName c.type c.field)).lines).isEmpty) := rfl
    rw [hdrops, h.lines_order, Verdict.isEmpty_orders, List.isEmpty_nil, Bool.true_and]
    rfl

/-- **What a request with new derived types does is done once and for all.** -/
theorem effect_again (h : c.IsNew r) (honce : r.Once) (hx : n ∈ c.derived → x = none) :
    effect r n (effect r n x c) c = effect r n x c := by
  rw [h.effect_eq, h.effect_eq]
  exact FilterPlan.act_again (h.plan honce) hx

/-- Requests with new derived types, different ones for different requests. What they are for is
neither derived nor an input for operators. -/
structure Separate (own : String → Prop) (calls : List FilterCall) (r : Registry) : Prop where
  /-- The registry has each name once. -/
  once : r.Once
  /-- What requests are for is not derived. -/
  clear : ∀ c ∈ calls, Clear own r c
  /-- The derived types are not there. -/
  new : ∀ c ∈ calls, c.IsNew r
  /-- Different requests have different derived types. -/
  distinct : ∀ c ∈ calls, ∀ d ∈ calls, c ≠ d → Distinct c d

/-- A registry that is reached by requests, perhaps more than once by some: those that were met
would do nothing more, and the derived types of the others are not there yet. -/
structure Visited (own : String → Prop) (calls : List FilterCall) (met : FilterCall → Prop)
    (r s : Registry) : Prop where
  /-- Derived types and inputs for operators may have come in. -/
  widens : Widens own r s
  /-- Derived types of other requests are as they were. -/
  kept : ∀ c ∈ calls, ¬met c → ∀ n ∈ c.derived, s.outline? n = r.outline? n
  /-- What was met is done. -/
  done : ∀ c ∈ calls, met c → c.Succeeds r ∧ ∀ n, effect r n (Table.get? s n) c = Table.get? s n

theorem visited_refl (own : String → Prop) (calls : List FilterCall) (r : Registry) :
    Visited own calls (fun _ => False) r r :=
  ⟨.refl _ r, fun _ _ _ _ _ => rfl, fun _ _ => False.elim⟩

/-- What is done keeps the order enum, or keeps it dropped. -/
theorem drops_of_done (h : c.IsNew r)
    (hdone : effect r (orderEnumName c.type c.field)
        (Table.get? s (orderEnumName c.type c.field)) c
      = Table.get? s (orderEnumName c.type c.field)) :
    s.planOf c.type c.field c.isList (c.verdicts r) = c.plan r := by
  have howner := (not_mem_derivedNames (owner_not_mem_derivedNames c.type c.field)).2
  have hlines := h.lines_order
  rw [h.effect_eq, plan] at hdone
  unfold FilterPlan.act FilterPlan.written? at hdone
  rw [if_neg fun hand => howner hand.2.symm, planOf_type, planOf_field,
    if_neg (whereInputName_ne_orderEnumName c.type c.field).symm, if_pos rfl] at hdone
  rw [plan, planOf, planOf, FilterPlan.mk.injEq]
  refine ⟨rfl, rfl, rfl, rfl, ?_⟩
  rw [hlines, Verdict.isEmpty_orders, Verdict.isEmpty_orders, List.isEmpty_nil, Bool.true_and]
  cases hlist : c.isList with
  | false => rfl
  | true =>
    rw [Bool.true_and, Bool.true_and]
    cases hvalues : ((c.verdicts r).flatMap Verdict.values).isEmpty with
    | false => rw [Bool.and_false]
    | true =>
      have hdrops : (r.planOf c.type c.field true (c.verdicts r)).drops = true := by
        rw [planOf, hlines, Verdict.isEmpty_orders, List.isEmpty_nil, Bool.true_and, hvalues]
        rfl
      rw [planOf_isList, hlist, if_pos rfl, hdrops, if_pos rfl] at hdone
      rw [entry, ← hdone]
      rfl

/-- **A request that was met changes nothing.** -/
theorem Visited.run_again (h : Visited own calls met r s) (hs : Separate own calls r)
    (hc : c ∈ calls) (hmet : met c) :
    ∃ s', c.run s = (.ok ⟨⟩, s') ∧ ∀ n, Table.get? s' n = Table.get? s n := by
  obtain ⟨hsucceeds, hdone⟩ := h.done c hc hmet
  have hclear := hs.clear c hc
  have hnew := hs.new c hc
  have hsame := hclear.outline?_eq h.widens
  by_cases hskip : c.Skips s
  · exact ⟨s, addFilters_of_populated hskip.1 hskip.2 c.returned c.isList, fun _ => rfl⟩
  · have hfillable : Fillable s c.returned c.isList :=
      (h.widens.fillable_iff (fun l hl n hn => hclear.avoids l hl n (.inl hn)) hsame).mpr
        (hsucceeds.resolve_left hnew.not_skips)
    rcases addFilters_of_not_populated ((hclear.apart hs.once).of_outline? hsame) hskip
      c.isList with ⟨-, vs, hvs, hok⟩ | ⟨hbad, -⟩
    · have hverdicts : vs = c.verdicts r := by
        rw [← verdicts_of_widens h.widens hclear.avoids hsame]
        refine hvs.eq_verdicts (Avoids.of_outline? (fun l hl n hn => ?_) hsame)
        exact hclear.avoids l hl n ((List.mem_append.mp hn).imp (hclear.derived n) id)
      refine ⟨_, hok, fun n => ?_⟩
      rw [hvs.get?, hverdicts, drops_of_done hnew (hdone _), ← hnew.effect_eq, hdone]
    · exact absurd hfillable hbad

/-- **Each request does what it would do at first**, whether it was met before or not. -/
theorem Visited.run (h : Visited own calls met r s) (hs : Separate own calls r) (hc : c ∈ calls) :
    (c.Succeeds r ∧ ∃ s', c.run s = (.ok ⟨⟩, s')
      ∧ (∀ n, Table.get? s' n = effect r n (Table.get? s n) c)
      ∧ Visited own calls (fun d => d = c ∨ met d) r s')
    ∨ (¬c.Succeeds r ∧ ∃ e s', c.run s = (.error e, s')) := by
  classical
  by_cases hmet : met c
  · obtain ⟨s', hrun, hget⟩ := h.run_again hs hc hmet
    obtain ⟨hsucceeds, hdone⟩ := h.done c hc hmet
    have houtline : ∀ n, s'.outline? n = s.outline? n := fun n => by rw [outline?, hget, outline?]
    refine .inl ⟨hsucceeds, s', hrun, fun n => (hget n).trans (hdone n).symm, ?_, ?_, ?_⟩
    · exact h.widens.trans fun n _ => .inl (houtline n)
    · exact fun d hd hleft n hn => (houtline n).trans (h.kept d hd (fun hm => hleft (.inr hm)) n hn)
    · intro d hd hor
      have hmet' : met d := hor.elim (fun heq => heq ▸ hmet) id
      exact ⟨(h.done d hd hmet').1, fun n => by rw [hget, (h.done d hd hmet').2]⟩
  · have hreached : Reached own (c :: calls.filter fun d => d ≠ c ∧ ¬met d) r s := by
      refine ⟨h.widens, fun d hd => ?_⟩
      rcases List.mem_cons.mp hd with rfl | hd
      · exact h.kept d hc hmet
      · obtain ⟨hd, hand⟩ := List.mem_filter.mp hd
        exact h.kept d hd (of_decide_eq_true hand).2
    have hapart : ∀ d ∈ calls.filter fun d => d ≠ c ∧ ¬met d, Distinct c d := by
      intro d hd
      obtain ⟨hd, hand⟩ := List.mem_filter.mp hd
      exact hs.distinct c hc d hd (of_decide_eq_true hand).1.symm
    rcases hreached.run hs.once (hs.clear c hc) hapart with
      ⟨hsucceeds, s', hrun, hget, hreached'⟩ | hfails
    · refine .inl ⟨hsucceeds, s', hrun, hget, hreached'.widens, fun d hd hleft => ?_,
        fun d hd hor => ?_⟩
      · refine hreached'.kept d (List.mem_filter.mpr ⟨hd, decide_eq_true ?_⟩)
        exact ⟨fun heq => hleft (.inl heq), fun hm => hleft (.inr hm)⟩
      · by_cases hsame : d = c
        · subst hsame
          refine ⟨hsucceeds, fun n => ?_⟩
          rw [hget]
          refine effect_again (hs.new d hd) hs.once fun hn => ?_
          have hnone := h.kept d hd hmet n hn
          rw [outline?, outline?, (Table.get?_eq_none_iff _ _).mpr (hs.new d hd n hn)] at hnone
          exact Option.map_eq_none_iff.mp hnone
        · obtain ⟨hsucceeds', hdone⟩ := h.done d hd (hor.resolve_left hsame)
          refine ⟨hsucceeds', fun n => ?_⟩
          rw [hget, effect_comm (hs.distinct c hc d hd (Ne.symm hsame)), hdone]
    · exact .inr hfails

/-- **Requests do what they would do at first, one after the other and again.** -/
theorem Visited.runs (h : Visited own calls met r s) (hs : Separate own calls r)
    (hasked : asked ⊆ calls) :
    ((∀ c ∈ asked, c.Succeeds r) ∧ ∃ s', asked.forM FilterCall.run s = (.ok ⟨⟩, s')
      ∧ (∀ n, Table.get? s' n = asked.foldl (effect r n) (Table.get? s n))
      ∧ Visited own calls (fun d => d ∈ asked ∨ met d) r s')
    ∨ ((∃ c ∈ asked, ¬c.Succeeds r) ∧ ∃ e s', asked.forM FilterCall.run s = (.error e, s')) := by
  induction asked generalizing s met with
  | nil =>
    refine .inl ⟨by simp, s, rfl, fun _ => rfl, h.widens, fun c hc hleft => ?_, fun c hc hor => ?_⟩
    · exact h.kept c hc fun hm => hleft (.inr hm)
    · exact h.done c hc (hor.resolve_left List.not_mem_nil)
  | cons c asked ih =>
    obtain ⟨hc, hasked⟩ := List.cons_subset.mp hasked
    rcases h.run hs hc with ⟨hok, s1, hrun, hget, hvisited⟩ | ⟨hbad, e, s1, hfails⟩
    · have hloop : (c :: asked).forM FilterCall.run s = asked.forM FilterCall.run s1 :=
        bind_of_ok hrun _
      rw [hloop]
      rcases ih hvisited hasked with ⟨hall, s', hruns, hgets, hv⟩ | ⟨⟨d, hd, hbad⟩, hfails⟩
      · refine .inl ⟨List.forall_mem_cons.mpr ⟨hok, hall⟩, s', hruns, fun n => ?_, hv.widens,
          fun d hd hleft => hv.kept d hd fun hor => hleft ?_, fun d hd hor => hv.done d hd ?_⟩
        · rw [hgets, hget, List.foldl_cons]
        · exact hor.elim (fun hd => .inl (List.mem_cons_of_mem c hd))
            fun hor => hor.elim (fun heq => .inl (heq ▸ List.mem_cons_self)) .inr
        · exact hor.elim (fun hd => (List.mem_cons.mp hd).elim (fun heq => .inr (.inl heq)) .inl)
            fun hm => .inr (.inr hm)
      · exact .inr ⟨⟨d, List.mem_cons_of_mem c hd, hbad⟩, hfails⟩
    · exact .inr ⟨⟨c, List.mem_cons_self, hbad⟩, e, s1, bind_of_error hfails _⟩

/-- Requests from a registry without their derived types. -/
theorem Separate.runs (hs : Separate own calls r) (hasked : asked ⊆ calls) :
    ((∀ c ∈ asked, c.Succeeds r) ∧ ∃ s, asked.forM FilterCall.run r = (.ok ⟨⟩, s)
      ∧ (∀ n, Table.get? s n = asked.foldl (effect r n) (Table.get? r n))
      ∧ ∀ c ∈ asked, ∀ n, effect r n (Table.get? s n) c = Table.get? s n)
    ∨ ((∃ c ∈ asked, ¬c.Succeeds r) ∧ ∃ e s, asked.forM FilterCall.run r = (.error e, s)) := by
  refine ((visited_refl own calls r).runs hs hasked).imp_left ?_
  rintro ⟨hall, s, hrun, hget, hvisited⟩
  exact ⟨hall, s, hrun, hget, fun c hc => (hvisited.done c (hasked hc) (.inl hc)).2⟩

theorem foldl_of_done (h : ∀ c ∈ asked, effect r n x c = x) : asked.foldl (effect r n) x = x := by
  induction asked with
  | nil => rfl
  | cons c asked ih =>
    obtain ⟨hc, h⟩ := List.forall_mem_cons.mp h
    rw [List.foldl_cons, hc, ih h]

/-- **It only matters which filters are asked for**, if all of them can be written. -/
theorem foldl_effect_of_members (hs : Separate own calls r) (hasked : asked ⊆ calls)
    (hsame : ∀ c, c ∈ asked ↔ c ∈ asked') (hall : ∀ c ∈ asked, c.Succeeds r) (n : String) :
    asked.foldl (effect r n) (Table.get? r n) = asked'.foldl (effect r n) (Table.get? r n) := by
  have hdone : ∀ {these : List FilterCall}, these ⊆ calls → (∀ c ∈ these, c.Succeeds r) →
      ∀ c ∈ these, effect r n (these.foldl (effect r n) (Table.get? r n)) c
        = these.foldl (effect r n) (Table.get? r n) := by
    intro these hthese hall c hc
    rcases hs.runs hthese with ⟨-, s, -, hget, hdone⟩ | ⟨⟨d, hd, hbad⟩, -⟩
    · rw [← hget]
      exact hdone c hc n
    · exact absurd (hall d hd) hbad
  have hasked' : asked' ⊆ calls := fun c hc => hasked ((hsame c).mpr hc)
  have hall' : ∀ c ∈ asked', c.Succeeds r := fun c hc => hall c ((hsame c).mpr hc)
  calc asked.foldl (effect r n) (Table.get? r n)
      = asked'.foldl (effect r n) (asked.foldl (effect r n) (Table.get? r n)) :=
        (foldl_of_done fun c hc => hdone hasked hall c ((hsame c).mpr hc)).symm
    _ = asked.foldl (effect r n) (asked'.foldl (effect r n) (Table.get? r n)) := by
        rw [← List.foldl_append, ← List.foldl_append]
        refine List.perm_append_comm.foldl_eq' (fun c hc d hd x => ?_) _
        have hmem : ∀ {e}, e ∈ asked ++ asked' → e ∈ calls := fun he =>
          (List.mem_append.mp he).elim (hasked ·) (hasked' ·)
        by_cases hcd : c = d
        · rw [hcd]
        · exact effect_comm (hs.distinct c (hmem hc) d (hmem hd) hcd) n x
    _ = asked'.foldl (effect r n) (Table.get? r n) :=
        foldl_of_done fun c hc => hdone hasked' hall' c ((hsame c).mp hc)

end FilterCall

/-! ### Filters in registries that say the same

Registries that say the same, in whatever order, have the same lines of each type, though not in the
same order. So the verdicts on them are the same in another order, and each request does the same
to what stands under a name (`FilterCall.same_effect`). With what was shown of repeated requests,
the same filters can be asked for in any order and as often as one likes, in either of two such
registries, and come out the same (**`FilterCall.runs_same`**).
-/

namespace Table

variable {α : Type} {t u : Table α}

theorem isEmpty_of_get? (h : ∀ key, get? t key = get? u key) : t.isEmpty = u.isEmpty := by
  have hnone : ∀ {t u : Table α}, (∀ key, get? t key = get? u key) → t = [] → u = [] := by
    intro t u h ht
    refine List.eq_nil_iff_forall_not_mem.mpr fun e he => ?_
    have hhas : has u e.1 = true := (mem_keys_iff _ _).mp (List.mem_map_of_mem he)
    rw [has_eq_isSome, ← h, ht] at hhas
    cases hhas
  rw [Bool.eq_iff_iff, List.isEmpty_iff, List.isEmpty_iff]
  exact ⟨hnone h, hnone fun key => (h key).symm⟩

theorem mem_iff_get? (hnodup : (keys t).Nodup) {e : String × α} :
    e ∈ t ↔ get? t e.1 = some e.2 := ⟨get?_of_mem hnodup, mem_of_get?⟩

/-- Tables with the same values have the same entries, in whatever order. -/
theorem perm_of_get? (ht : (keys t).Nodup) (hu : (keys u).Nodup)
    (h : ∀ key, get? t key = get? u key) : t.Perm u := by
  refine (List.perm_ext_iff_of_nodup (List.Nodup.of_map _ ht) (List.Nodup.of_map _ hu)).mpr ?_
  intro e
  rw [mem_iff_get? ht, mem_iff_get? hu, h]

theorem get?_ensureAll (names : List String) (t : Table α) (x : α) (key : String) :
    get? (ensureAll t names x) key
      = (get? t key).or (if names.contains key then some x else none) := by
  induction names generalizing t with
  | nil => simp [ensureAll]
  | cons name names ih =>
    rw [ensureAll, List.foldl_cons, ← ensureAll, ih, get?_ensure, Option.or_assoc,
      List.contains_cons]
    by_cases hkey : key = name
    · simp [hkey]
    · simp [hkey]

end Table

namespace Verdict

open Table

variable {v : Verdict} {vs vs' : List Verdict} {lines lines' : Table FieldLine} {name : String}

/-- What becomes of the condition of a line. -/
theorem get?_conditions_of_mem (hnodup : (vs.map key).Nodup) (hv : v ∈ vs)
    (lines : Table FieldLine) : (conditions vs lines).get? v.key
      = v.kind?.map fun kind =>
          { (lines.get? v.key).getD {} with type := operatorInputName kind } := by
  induction vs generalizing lines with
  | nil => cases hv
  | cons w vs ih =>
    obtain ⟨hnew, hnodup⟩ := List.nodup_cons.mp hnodup
    rw [conditions_cons]
    rcases List.mem_cons.mp hv with rfl | hv
    · rw [get?_conditions hnew]
      unfold condition
      split
      · rename_i kind hkind
        simp [Table.get?_update, hkind]
      · rename_i hkind
        simp [Table.get?_erase, hkind]
    · have hne : v.key ≠ w.key := fun heq => hnew (heq ▸ List.mem_map_of_mem hv)
      have hother : (w.condition lines).get? v.key = lines.get? v.key := by
        unfold condition
        split <;> simp [Table.get?_update, Table.get?_erase, hne]
      rw [ih hnodup hv, hother]

section same

variable (hvs : vs.Perm vs') (hlines : ∀ key, lines.get? key = lines'.get? key)
include hvs hlines

/-- The order in which conditions are written does not matter. -/
theorem get?_conditions_perm (hnodup : (vs.map Verdict.key).Nodup) (key : String) :
    (conditions vs lines).get? key = (conditions vs' lines').get? key := by
  have hnodup' : (vs'.map Verdict.key).Nodup := (hvs.map _).nodup_iff.mp hnodup
  by_cases hkey : key ∈ vs.map Verdict.key
  · obtain ⟨v, hv, rfl⟩ := List.mem_map.mp hkey
    rw [get?_conditions_of_mem hnodup hv, get?_conditions_of_mem hnodup' (hvs.mem_iff.mp hv), hlines]
  · rw [get?_conditions hkey, get?_conditions (mt (hvs.map _).mem_iff.mpr hkey), hlines]

/-- Nor does the order in which order values are. -/
theorem get?_orders_perm (key : String) :
    (orders vs lines).get? key = (orders vs' lines').get? key := by
  rw [orders, orders, get?_ensureAll, get?_ensureAll, hlines,
    (hvs.flatMap_right values).contains_eq]

end same

theorem operators?_perm (hvs : vs.Perm vs') : operators? vs name = operators? vs' name := by
  have hsome : ∀ {vs vs' : List Verdict}, vs.Perm vs' → ∀ e, operators? vs name = some e →
      operators? vs' name = some e := by
    intro vs vs' hvs e he
    obtain ⟨v, hv, kind, hkind, rfl, rfl⟩ := exists_of_operators? he
    obtain ⟨e', he'⟩ :=
      Option.isSome_iff_exists.mp (isSome_operators? (hvs.mem_iff.mp hv) hkind)
    obtain ⟨v', hv', kind', -, hname, rfl⟩ := exists_of_operators? he'
    rw [he', operatorInputName_inj hname]
  refine Option.ext fun e => ⟨hsome hvs e, hsome hvs.symm e⟩

end Verdict

namespace TypeEntry

variable {e e' : TypeEntry} {vs vs' : List Verdict} {field name : String}

theorem Same.isEmpty (h : e.Same e') : e.lines.isEmpty = e'.lines.isEmpty :=
  Table.isEmpty_of_get? h.lines

theorem Same.withoutOrder (h : e.Same e') : (e.withoutOrder field).Same (e'.withoutOrder field) where
  kind := h.kind
  directives := h.directives
  lines key := by
    change (e.lines.modify field _).get? key = (e'.lines.modify field _).get? key
    rw [Table.get?_modify, Table.get?_modify, h.lines]

theorem Same.asInput (h : e.Same e') : (e.asInput name).Same (e'.asInput name) := by
  unfold TypeEntry.asInput
  rw [h.isEmpty]
  split
  · exact ⟨rfl, h.directives, fun _ => rfl⟩
  · exact h

theorem Same.asEnum (h : e.Same e') : e.asEnum.Same e'.asEnum := by
  unfold TypeEntry.asEnum
  rw [h.isEmpty]
  split
  · exact ⟨rfl, h.directives, h.lines⟩
  · exact h

theorem Same.conditions (h : e.Same e') (hvs : vs.Perm vs') (hnodup : (vs.map Verdict.key).Nodup) :
    (e.onLines (Verdict.conditions vs)).Same (e'.onLines (Verdict.conditions vs')) :=
  ⟨h.kind, h.directives, Verdict.get?_conditions_perm hvs h.lines hnodup⟩

theorem Same.orders (h : e.Same e') (hvs : vs.Perm vs') :
    (e.onLines (Verdict.orders vs)).Same (e'.onLines (Verdict.orders vs')) :=
  ⟨h.kind, h.directives, Verdict.get?_orders_perm hvs h.lines⟩

/-- Two entries say the same, or both are not there. -/
def Alike : Option TypeEntry → Option TypeEntry → Prop := Option.Rel Same

theorem Alike.getD {x y : Option TypeEntry} (h : Alike x y) : (x.getD {}).Same (y.getD {}) := by
  cases h with
  | none => exact .refl _
  | some h => exact h

theorem Alike.isSome {x y : Option TypeEntry} (h : Alike x y) : x.isSome = y.isSome := by
  cases h <;> rfl

theorem Alike.map {x y : Option TypeEntry} {f : TypeEntry → TypeEntry} (h : Alike x y)
    (hf : ∀ {e e'}, Same e e' → (f e).Same (f e')) : Alike (x.map f) (y.map f) := by
  cases h with
  | none => exact .none
  | some h => exact .some (hf h)

theorem Alike.or {x y : Option TypeEntry} (h : Alike x y) (z : Option TypeEntry) :
    Alike (x.or z) (y.or z) := by
  cases h with
  | none =>
    cases z with
    | none => exact .none
    | some e => exact .some (.refl e)
  | some h => exact .some h

end TypeEntry

open TypeEntry

namespace Registry

variable {r r' : Registry} {signature returned name : String} {isList : Bool}

/-- Registries say the same if they do under each name. -/
theorem same_iff_alike : r.Same r' ↔ ∀ n, Alike (Table.get? r n) (Table.get? r' n) := by
  constructor
  · intro h n
    have hhas := h.has n
    have hentry := h.entries n
    rw [Table.has_eq_isSome, Table.has_eq_isSome] at hhas
    rw [entry, entry] at hentry
    cases hget : Table.get? r n with
    | none =>
      rw [hget] at hhas
      rw [Option.isSome_eq_false_iff.mp hhas.symm |> Option.isNone_iff_eq_none.mp]
      exact .none
    | some e =>
      rw [hget] at hhas hentry
      obtain ⟨e', he'⟩ := Option.isSome_iff_exists.mp hhas.symm
      rw [he'] at hentry ⊢
      exact .some hentry
  · intro h
    refine ⟨fun n => ?_, fun n => (h n).getD⟩
    rw [Table.has_eq_isSome, Table.has_eq_isSome, (h n).isSome]

section same

variable (h : r.Same r')
include h

theorem Same.filterKind?_eq (signature : String) : filterKind? r' signature = filterKind? r signature :=
  filterKind?_congr (by rw [h.line?])

theorem Same.sortable_iff (signature : String) : r'.Sortable signature ↔ r.Sortable signature := by
  have hkinds : ∀ {r r' : Registry}, r.Same r' → r.Sortable signature → r'.Sortable signature := by
    rintro r r' h ⟨t, ht, hlist, hkinds⟩
    refine ⟨t, ht, hlist, fun e' he' => ?_⟩
    have halike := same_iff_alike.mp h t.baseName
    rw [he'] at halike
    cases hget : Table.get? r t.baseName with
    | none =>
      rw [hget] at halike
      cases halike
    | some e =>
      rw [hget] at halike
      cases halike with
      | some hsame => exact hsame.kind ▸ hkinds e hget
  exact ⟨hkinds h.symm, hkinds h⟩

theorem Same.verdictOn_eq (isList : Bool) (key signature : String) :
    r'.verdictOn isList key signature = r.verdictOn isList key signature := by
  simp only [verdictOn, h.filterKind?_eq, h.sortable_iff]

theorem Same.legible_iff (l : String × FieldLine) : Legible r' isList l ↔ Legible r isList l := by
  unfold Legible
  rw [h.filterKind?_eq, isOk_isSortable r' r]

/-- They have the same lines of each type, in whatever order. -/
theorem Same.perm_filterLines (honce : r.Once) (honce' : r'.Once) (returned : String) :
    (r.filterLines returned).Perm (r'.filterLines returned) := by
  unfold filterLines
  split
  · exact .refl _
  · exact Table.perm_of_get? (honce.entry returned) (honce'.entry returned) (h.entries returned).lines

theorem Same.fillable_iff (honce : r.Once) (honce' : r'.Once) :
    Fillable r' returned isList ↔ Fillable r returned isList := by
  have hperm := h.perm_filterLines honce honce' returned
  refine ⟨fun hf => ⟨hf.known.imp id (h.has returned).trans, fun l hl => ?_⟩,
    fun hf => ⟨hf.known.imp id (h.has returned).symm.trans, fun l hl => ?_⟩⟩
  · exact (h.legible_iff l).mp (hf.readable l (hperm.mem_iff.mp hl))
  · exact (h.legible_iff l).mpr (hf.readable l (hperm.mem_iff.mpr hl))

theorem Same.avoids {own : String → Prop} (honce' : r'.Once) (havoids : r.Avoids returned own) :
    r'.Avoids returned own := by
  intro l hl
  have hline := Table.get?_of_mem (honce'.entry returned) hl
  rw [← (h.entries returned).lines] at hline
  exact havoids l (Table.mem_of_get? hline)

end same

end Registry

/-- Plans for the same field say the same if their verdicts are the same in another order. -/
structure FilterPlan.Same (p q : FilterPlan) : Prop where
  /-- They are for the same type. -/
  type : p.type = q.type
  /-- They are for the same field. -/
  field : p.field = q.field
  /-- It is a list or not. -/
  isList : p.isList = q.isList
  /-- Verdicts are the same. -/
  verdicts : p.verdicts.Perm q.verdicts
  /-- The order enum is dropped or not. -/
  drops : p.drops = q.drops

/-- **Plans that say the same do the same** to what says the same. -/
theorem FilterPlan.Same.act {p q : FilterPlan} (h : p.Same q)
    (hnodup : (p.verdicts.map Verdict.key).Nodup) {name : String} {x y : Option TypeEntry}
    (hxy : Alike x y) : Alike (p.act name x) (q.act name y) := by
  have hwritten : Alike (p.written? name x) (q.written? name y) := by
    unfold written?
    rw [h.type, h.field, h.isList, h.drops]
    split
    · exact .some (hxy.getD.asInput.conditions h.verdicts hnodup)
    · split
      · split
        · split
          · exact .none
          · exact .some (hxy.getD.asEnum.orders h.verdicts)
        · exact hxy
      · rw [Verdict.operators?_perm h.verdicts]
        exact hxy.or _
  unfold FilterPlan.act
  rw [h.drops, h.type, h.field]
  split
  · exact hwritten.map fun he => he.withoutOrder
  · exact hwritten

namespace FilterCall

open Registry

variable {c : FilterCall} {calls asked asked' : List FilterCall} {r r' : Registry}
  {own : String → Prop}

section same

variable (h : r.Same r') (honce : r.Once) (honce' : r'.Once)
include h honce honce'

theorem perm_verdicts (c : FilterCall) : (c.verdicts r).Perm (c.verdicts r') := by
  have hsame : c.verdicts r' = (r'.filterLines c.returned).map fun l =>
      r.verdictOn c.isList l.1 l.2.type :=
    List.map_congr_left fun l _ => h.verdictOn_eq c.isList l.1 l.2.type
  rw [hsame]
  exact (h.perm_filterLines honce honce' c.returned).map _

theorem same_plan (c : FilterCall) : (c.plan r).Same (c.plan r') := by
  have hverdicts := perm_verdicts h honce honce' c
  refine ⟨rfl, rfl, rfl, hverdicts, ?_⟩
  have hempty : (Verdict.orders (c.verdicts r) (r.entry (orderEnumName c.type c.field)).lines).isEmpty
      = (Verdict.orders (c.verdicts r') (r'.entry (orderEnumName c.type c.field)).lines).isEmpty :=
    Table.isEmpty_of_get? (Verdict.get?_orders_perm hverdicts (h.entries _).lines)
  exact congrArg (c.isList && ·) hempty

/-- **Each request does the same.** -/
theorem same_effect (hnew : c.IsNew r) (hnew' : c.IsNew r') {n : String} {x y : Option TypeEntry}
    (hxy : Alike x y) : Alike (effect r n x c) (effect r' n y c) := by
  rw [hnew.effect_eq, hnew'.effect_eq]
  exact (same_plan h honce honce' c).act (nodup_verdicts honce) hxy

theorem succeeds_iff (hnew : c.IsNew r) (hnew' : c.IsNew r') : c.Succeeds r' ↔ c.Succeeds r := by
  unfold Succeeds
  rw [h.fillable_iff honce honce', iff_false_intro hnew.not_skips, iff_false_intro hnew'.not_skips]

omit honce in
theorem Separate.same (hs : Separate own calls r) : Separate own calls r' where
  once := honce'
  clear c hc :=
    have hclear := hs.clear c hc
    ⟨hclear.derived, hclear.other, hclear.plain, h.avoids honce' hclear.avoids⟩
  new c hc n hn := (h.has n).symm.trans (hs.new c hc n hn)
  distinct := hs.distinct

end same

/-- **The same filters can be asked for in any order and as often as one likes**, in either of two
registries that say the same. -/
theorem runs_same (h : r.Same r') (honce' : r'.Once) (hs : Separate own calls r)
    (hasked : asked ⊆ calls) (hmembers : ∀ c, c ∈ asked ↔ c ∈ asked') :
    (∃ e s e' s', asked.forM FilterCall.run r = (.error e, s)
      ∧ asked'.forM FilterCall.run r' = (.error e', s'))
    ∨ ∃ s s', asked.forM FilterCall.run r = (.ok ⟨⟩, s)
      ∧ asked'.forM FilterCall.run r' = (.ok ⟨⟩, s') ∧ s.Same s' := by
  have hasked' : asked' ⊆ calls := fun c hc => hasked ((hmembers c).mpr hc)
  have hs' := Separate.same h honce' hs
  have hsucceeds : ∀ c ∈ asked, (c.Succeeds r' ↔ c.Succeeds r) := fun c hc =>
    succeeds_iff h hs.once honce' (hs.new c (hasked hc)) (hs'.new c (hasked hc))
  rcases hs.runs hasked with ⟨hall, s, hrun, hget, -⟩ | ⟨⟨c, hc, hbad⟩, e, s, hfails⟩
  · rcases hs'.runs hasked' with ⟨-, s', hrun', hget', -⟩ | ⟨⟨c, hc, hbad⟩, -⟩
    · refine .inr ⟨s, s', hrun, hrun', same_iff_alike.mpr fun n => ?_⟩
      rw [hget, hget', foldl_effect_of_members hs hasked hmembers hall]
      have hfold : ∀ {asked : List FilterCall} {x y : Option TypeEntry}, asked ⊆ calls →
          Alike x y → Alike (asked.foldl (effect r n) x) (asked.foldl (effect r' n) y) := by
        intro asked x y hasked hxy
        induction asked generalizing x y with
        | nil => exact hxy
        | cons c asked ih =>
          obtain ⟨hc, hasked⟩ := List.cons_subset.mp hasked
          exact ih hasked (same_effect h hs.once honce' (hs.new c hc) (hs'.new c hc) hxy)
      exact hfold hasked' (same_iff_alike.mp h n)
    · have hmem := (hmembers c).mpr hc
      exact absurd ((hsucceeds c hmem).mpr (hall c hmem)) hbad
  · rcases hs'.runs hasked' with ⟨hall, -⟩ | ⟨-, e', s', hfails'⟩
    · exact absurd ((hsucceeds c hc).mp (hall c ((hmembers c).mp hc))) hbad
    · exact .inl ⟨e, s, e', s', hfails, hfails'⟩

end FilterCall
end SchemaForge

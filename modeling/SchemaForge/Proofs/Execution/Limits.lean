import SchemaForge.Proofs.Execution.Paging

/-!
# How long pages are

How many rows a page may hold is up to the client. The number that it asks for is a bound only if
it is not negative: a negative one takes every row that is found. A hook that sets a limit sets
the bound.
-/
namespace SchemaForge
namespace Fetch

variable {scene : Scene} {f : Fetch} {source : Value} {arguments : Fields}

/-- The limit that a hook sets, if it sets one. That of an argument counts last. -/
def limitSaid (arguments : Fields) : Option HookOption → Option Value
  | some (.callable h) => (h.limitArgument.map (Fields.get arguments)).or h.limit
  | _ => none

/-- How many rows a client asks for at most: as many as it says if it says a positive number,
else the usual number. -/
def pageBound (perPage : Option Int) : Nat :=
  if 0 < perPage.getD 0 then (perPage.getD 0).toNat else usualLength.toNat

/-- A step that is taken only where something is said keeps the window if it does so where it is
taken. -/
theorem window_of_getD {α : Type} {said : Option α} {step : α → Except Failure Select}
    {q q' : Select}
    (hstep : ∀ x q', step x = .ok q' → q'.offset = q.offset ∧ q'.limit = q.limit)
    (h : (said.map step).getD (pure q) = .ok q') : q'.offset = q.offset ∧ q'.limit = q.limit := by
  cases said with
  | none =>
    cases h
    exact ⟨rfl, rfl⟩
  | some x => exact hstep x q' h

/-- A limit is set where one is said. -/
theorem limit_of_getD (said : Option Value) {q q' : Select}
    (h : (said.map fun v => (do pure { q with limit := ← limitOf v } : Except Failure Select)).getD
      (pure q) = .ok q') : q'.offset = q.offset
      ∧ (said = none → q'.limit = q.limit) ∧ ∀ v, said = some v → limitOf v = .ok q'.limit := by
  cases said with
  | none =>
    cases h
    exact ⟨rfl, fun _ => rfl, fun v hv => by cases hv⟩
  | some v =>
    obtain ⟨n, hn, hq⟩ := Outcome.bind_eq_ok.mp h
    cases hq
    refine ⟨rfl, fun hv => (by cases hv), fun v' hv => ?_⟩
    cases hv
    exact hn

/-- A hook keeps the offset, and the limit too unless it sets one. -/
theorem limit_of_hooked {hook : Option HookOption} {q q' : Select}
    (h : hooked scene arguments q hook = .ok q') : q'.offset = q.offset
      ∧ (limitSaid arguments hook = none → q'.limit = q.limit)
      ∧ ∀ v, limitSaid arguments hook = some v → limitOf v = .ok q'.limit := by
  match hook with
  | none =>
    cases h
    exact ⟨rfl, fun _ => rfl, fun v hv => by cases hv⟩
  | some (.value v) =>
    unfold hooked at h
    split at h
    · rename_i hv
      cases hv
    · cases h
      exact ⟨rfl, fun _ => rfl, fun v hv => by cases hv⟩
    · cases h
    · rename_i hv
      cases hv
  | some (.callable x) =>
    rw [hooked_callable] at h
    obtain ⟨q1, h1, h⟩ := Outcome.bind_eq_ok.mp h
    obtain ⟨q2, h2, h⟩ := Outcome.bind_eq_ok.mp h
    obtain ⟨q3, h3, h4⟩ := Outcome.bind_eq_ok.mp h
    -- The condition and the order come first and leave the window alone.
    have k1 : q1.offset = q.offset ∧ q1.limit = q.limit := by
      refine window_of_getD (fun w q' hw => ?_) h1
      obtain ⟨c, -, hc⟩ := Outcome.bind_eq_ok.mp hw
      cases hc
      exact ⟨rfl, rfl⟩
    have k2 : q2.offset = q1.offset ∧ q2.limit = q1.limit := by
      refine window_of_getD (fun v q' hv => ?_) h2
      obtain ⟨ts, -, hts⟩ := Outcome.bind_eq_ok.mp hv
      cases hts
      exact ⟨rfl, rfl⟩
    obtain ⟨k3, hkept3, hset3⟩ := limit_of_getD x.limit h3
    obtain ⟨k4, hkept4, hset4⟩ := limit_of_getD
      (x.limitArgument.map (Fields.get arguments)) (by rw [Option.map_map]; exact h4)
    refine ⟨k4.trans (k3.trans (k2.1.trans k1.1)), fun hnone => ?_, fun v hv => ?_⟩
    · obtain ⟨hargument, hlimit⟩ := Option.or_eq_none_iff.mp hnone
      exact (hkept4 hargument).trans ((hkept3 hlimit).trans (k2.2.trans k1.2))
    · rcases Option.or_eq_some_iff.mp hv with hargument | ⟨hargument, hlimit⟩
      · exact hset4 v hargument
      · rw [hkept4 hargument]
        exact hset3 v hlimit

/-- The statement of a list has the window that is asked for, except that hooks may set another
limit. -/
theorem window_of_statement (hlist : f.isList = .ok true) {page perPage : Option Int}
    (h : Asks arguments page perPage) {q : Select} {isList : Bool}
    (hq : f.statement scene source arguments = .ok (q, isList)) : isList = true
      ∧ q.offset = pageIndex page * pageLength perPage
      ∧ (limitSaid arguments f.hook = none → limitSaid arguments f.config.hook = none →
        q.limit = some (pageLength perPage))
      ∧ ∀ v, (limitSaid arguments f.config.hook).or (limitSaid arguments f.hook) = some v →
        limitOf v = .ok q.limit := by
  rw [statement_of_asks hlist h] at hq
  obtain ⟨clauses, -, hq⟩ := Outcome.bind_eq_ok.mp hq
  obtain ⟨condition, -, hq⟩ := Outcome.bind_eq_ok.mp hq
  obtain ⟨order, -, hq⟩ := Outcome.bind_eq_ok.mp hq
  obtain ⟨q1, hmodel, hq⟩ := Outcome.bind_eq_ok.mp hq
  obtain ⟨q2, hfield, hq⟩ := Outcome.bind_eq_ok.mp hq
  cases hq
  obtain ⟨k1, hkept1, hset1⟩ := limit_of_hooked hmodel
  obtain ⟨k2, hkept2, hset2⟩ := limit_of_hooked hfield
  refine ⟨rfl, k2.trans k1, fun hm hf => (hkept2 hf).trans (hkept1 hm), fun v hv => ?_⟩
  rcases Option.or_eq_some_iff.mp hv with hf | ⟨hf, hm⟩
  · exact hset2 v hf
  · rw [hkept2 hf]
    exact hset1 v hm

/-- How many rows a window holds. -/
theorem length_window {α : Type} (offset n : Int) (xs : List α) :
    (Store.window offset (some n) xs).length
      = if n < 0 then xs.length - offset.toNat else min n.toNat (xs.length - offset.toNat) := by
  rw [Store.window]
  split
  · exact List.length_drop
  · rw [List.length_take, List.length_drop]

theorem pageLength_of_nonneg {perPage : Option Int} (h : 0 ≤ perPage.getD 0) :
    (pageLength perPage).toNat = pageBound perPage := by
  cases perPage with
  | none => rfl
  | some n =>
    have h : 0 ≤ n := h
    rw [pageLength, meant, pageBound, Option.getD_some]
    split
    · rename_i hn
      rw [hn]
      rfl
    · rw [if_pos (by omega)]

/-- Where no hook sets a limit, a page holds as many rows as are asked for, if there are so many
after its start; and if a negative number is asked for, it holds all rows that are found. -/
theorem length_of_run (hlist : f.isList = .ok true) {page perPage : Option Int}
    (h : Asks arguments page perPage) {v : Value} (hrun : f.run scene source arguments = .ok v) :
    ∃ vs q, v = .list vs ∧ f.statement scene source arguments = .ok (q, true)
      ∧ vs.length = (scene.rows.select q).length
      ∧ (limitSaid arguments f.hook = none → limitSaid arguments f.config.hook = none →
        vs.length = if perPage.getD 0 < 0 then (scene.rows.matching q).length
          else min (pageBound perPage)
            ((scene.rows.matching q).length - pageIndex page * pageBound perPage)) := by
  obtain ⟨⟨q, isList⟩, hstatement, hrun⟩ := Outcome.bind_eq_ok.mp hrun
  obtain ⟨_, -, hrun⟩ := Outcome.bind_eq_ok.mp hrun
  obtain ⟨rfl, hoffset, hkept, -⟩ := window_of_statement hlist h hstatement
  cases hrun
  refine ⟨_, q, rfl, hstatement, List.length_map .., fun hmodel hfield => ?_⟩
  rw [List.length_map, Store.select, hkept hmodel hfield, length_window, hoffset]
  by_cases hneg : perPage.getD 0 < 0
  · -- The offset is negative as well, so nothing is left out.
    have hlength : pageLength perPage < 0 := by
      cases perPage with
      | none => cases hneg
      | some n =>
        have hneg : n < 0 := hneg
        rw [pageLength, meant, if_neg (by omega)]
        exact hneg
    have hall : ((pageIndex page : Int) * pageLength perPage).toNat = 0 :=
      Int.toNat_of_nonpos (Int.mul_nonpos_of_nonneg_of_nonpos (Int.natCast_nonneg _)
        (Int.le_of_lt hlength))
    rw [if_pos hlength, if_pos hneg, hall, Nat.sub_zero]
  · have hlength : 0 ≤ perPage.getD 0 := by omega
    have hpos := pageLength_pos hlength
    have hstart : ((pageIndex page : Int) * pageLength perPage).toNat
        = pageIndex page * pageBound perPage := by
      rw [← pageLength_of_nonneg hlength, Int.toNat_mul (Int.natCast_nonneg _) (by omega),
        Int.toNat_natCast]
    rw [if_neg (by omega), if_neg hneg, pageLength_of_nonneg hlength, hstart]

/-- **A page is as short as it is asked to be exactly if no negative length is asked for, or if
there are few rows anyway**: a negative length takes all rows that are found. Where a hook sets a
limit, this is the bound. -/
theorem length_le_iff (hlist : f.isList = .ok true) {page perPage : Option Int}
    (h : Asks arguments page perPage) {v : Value} (hrun : f.run scene source arguments = .ok v) :
    ∃ vs q, v = .list vs ∧ f.statement scene source arguments = .ok (q, true)
      ∧ (limitSaid arguments f.hook = none → limitSaid arguments f.config.hook = none →
        (vs.length ≤ pageBound perPage
          ↔ 0 ≤ perPage.getD 0 ∨ (scene.rows.matching q).length ≤ pageBound perPage))
      ∧ ∀ said (n : Int), (limitSaid arguments f.config.hook).or (limitSaid arguments f.hook)
          = some said → limitOf said = .ok (some n) → 0 ≤ n → vs.length ≤ n.toNat := by
  obtain ⟨vs, q, hv, hstatement, hselect, hlength⟩ := length_of_run hlist h hrun
  refine ⟨vs, q, hv, hstatement, fun hmodel hfield => ?_, fun said n hsaid hn hpos => ?_⟩
  · rw [hlength hmodel hfield]
    split
    · exact (or_iff_right (by omega)).symm
    · exact iff_of_true (Nat.min_le_left ..) (.inl (by omega))
  · obtain ⟨-, -, -, hset⟩ := window_of_statement hlist h hstatement
    have hlimit := (hset said hsaid).symm.trans hn
    rw [hselect, Store.select, Except.ok.inj hlimit]
    exact Store.window_length_le _ _ hpos _

/-- What is found of eleven items if nothing is asked of them. -/
theorem matching_items (offset : Int) (limit : Option Int) :
    ((itemScene 11).rows.matching ⟨itemModel, [], keyOrder itemModel, offset, limit⟩).length
      = 11 := by
  rw [((itemScene 11).rows.matching_perm_rows _).length_eq]
  rfl

/-- A call for eleven items in pages of this length. -/
theorem statement_items (n : Int) :
    itemFetch.statement (itemScene 11) .null [("perPage", .int n)]
      = .ok (⟨itemModel, [], keyOrder itemModel, 0 * pageLength (some n),
          some (pageLength (some n))⟩, true) :=
  have hasks : Asks [("perPage", .int n)] none (some n) := ⟨rfl, rfl⟩
  statement_of_asks isList_itemFetch hasks .null

theorem exists_run_items (n : Int) : ∃ vs,
    itemFetch.run (itemScene 11) .null [("perPage", .int n)] = .ok (.list vs) := by
  rw [run, statement_items]
  exact ⟨_, rfl⟩

/-- A page of three items is no longer than that. -/
theorem length_le_iff_three : itemFetch.isList = .ok true
    ∧ Asks [("perPage", .int 3)] none (some 3)
    ∧ ∃ vs, itemFetch.run (itemScene 11) .null [("perPage", .int 3)] = .ok (.list vs)
      ∧ vs.length ≤ 3 := by
  have hasks : Asks [("perPage", .int 3)] none (some 3) := ⟨rfl, rfl⟩
  obtain ⟨vs, hrun⟩ := exists_run_items 3
  obtain ⟨_, q, ⟨⟩, -, hiff, -⟩ := length_le_iff isList_itemFetch hasks hrun
  exact ⟨isList_itemFetch, hasks, vs, hrun, (hiff rfl rfl).mpr (.inl (by decide))⟩

/-- **A negative length takes eleven rows where ten are the bound.** -/
theorem not_length_le_negative : Asks [("perPage", .int (-1))] none (some (-1))
    ∧ pageBound (some (-1)) = 10
    ∧ ∃ vs, itemFetch.run (itemScene 11) .null [("perPage", .int (-1))] = .ok (.list vs)
      ∧ vs.length = 11 := by
  have hasks : Asks [("perPage", .int (-1))] none (some (-1)) := ⟨rfl, rfl⟩
  obtain ⟨vs, hrun⟩ := exists_run_items (-1)
  obtain ⟨_, q, ⟨⟩, hstatement, -, hlength⟩ := length_of_run isList_itemFetch hasks hrun
  rw [statement_items] at hstatement
  cases hstatement
  refine ⟨hasks, rfl, vs, hrun, ?_⟩
  rw [hlength rfl rfl, if_pos (by decide), matching_items]

end Fetch
end SchemaForge

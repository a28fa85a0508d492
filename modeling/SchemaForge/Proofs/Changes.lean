import SchemaForge.Table

/-!
# Changes of a table

Changes at different names, and those of one value that go together, can be made in either
order; a table is known by its names in order and by the value of each. Adding a list of names
adds each of them once.
-/
namespace SchemaForge
namespace Table

variable {α : Type} {t u : Table α} {key key' : String} {start : α} {f g : α → α}

/-- A table is known by its names in order and by the value of each. -/
theorem ext_of_keys (hkeys : keys t = keys u) (hnodup : (keys t).Nodup)
    (hget : ∀ key, get? t key = get? u key) : t = u := by
  induction t generalizing u with
  | nil => exact (List.map_eq_nil_iff.mp hkeys.symm).symm
  | cons e t ih =>
    cases u with
    | nil => cases hkeys
    | cons e' u =>
      obtain ⟨hname, hrest⟩ := List.cons.inj hkeys
      obtain ⟨hfresh, hnodup⟩ := List.nodup_cons.mp hnodup
      have hvalue : e.2 = e'.2 := by
        have hsame := hget e.1
        rw [get?_cons, get?_cons, hname, beq_self_eq_true, if_pos rfl, if_pos rfl] at hsame
        exact Option.some.inj hsame
      have hnone : ∀ w : Table α, keys w = keys t → get? w e.1 = none := by
        intro w hw
        rw [get?_eq_none_iff, Bool.eq_false_iff, Ne, ← mem_keys_iff, hw]
        exact hfresh
      have htail : t = u := by
        refine ih hrest hnodup fun key => ?_
        by_cases hkey : key = e.1
        · rw [hkey, hnone t rfl, hnone u hrest.symm]
        · have hsame := hget key
          rwa [get?_cons, get?_cons, ← hname, if_neg (by simpa using hkey),
            if_neg (by simpa using hkey)] at hsame
      rw [Prod.ext (show e.1 = e'.1 from hname) hvalue, htail]

theorem has_modify (t : Table α) (key other : String) (f : α → α) :
    has (modify t key f) other = has t other := by
  rw [Bool.eq_iff_iff, ← mem_keys_iff, ← mem_keys_iff, keys_modify]

theorem has_ensure (t : Table α) (key other : String) (x : α) :
    has (ensure t key x) other = (has t other || other == key) := by
  rw [has_eq_isSome, get?_ensure, Option.isSome_or, ← has_eq_isSome]
  cases other == key <;> rfl

theorem has_update (t : Table α) (key other : String) (start : α) (f : α → α) :
    has (update t key start f) other = (has t other || other == key) := by
  rw [update, has_modify, has_ensure]

theorem has_erase (t : Table α) (key other : String) :
    has (erase t key) other = (has t other && other != key) := by
  rw [has_eq_isSome, get?_erase, has_eq_isSome]
  cases h : other == key <;> simp [bne, h]

theorem keys_erase (t : Table α) (key : String) :
    keys (erase t key) = (keys t).filter (· != key) := by
  rw [keys, keys, List.filter_map]
  rfl

/-- A change to the same value is none. -/
theorem modify_of_forall (h : ∀ e ∈ t, e.1 = key → f e.2 = e.2) : modify t key f = t := by
  refine (List.map_congr_left fun e he => ?_).trans (List.map_id t)
  split
  · rename_i hkey
    rw [h e he (beq_iff_eq.mp hkey)]
    rfl
  · rfl

theorem ensure_of_has (h : has t key = true) (x : α) : ensure t key x = t := if_pos h

theorem erase_of_not_has (h : has t key = false) : erase t key = t := by
  refine List.filter_eq_self.mpr fun e he => bne_iff_ne.mpr fun hkey => ?_
  have hmem : key ∈ keys t := hkey ▸ List.mem_map_of_mem he
  rw [mem_keys_iff, h] at hmem
  cases hmem

/-- Changing nothing but adding a name if it is missing. -/
theorem update_id (t : Table α) (key : String) (start : α) :
    update t key start id = ensure t key start := modify_of_forall fun _ _ _ => rfl

/-! ### Either order -/

theorem modify_comm (h : key = key' → ∀ x, f (g x) = g (f x)) :
    modify (modify t key' g) key f = modify (modify t key f) key' g := by
  unfold modify
  rw [List.map_map, List.map_map]
  refine List.map_congr_left fun ⟨name, x⟩ _ => ?_
  by_cases hkey : name = key
  · subst hkey
    by_cases hkey' : name = key'
    · simp [hkey', h hkey' x]
    · simp [hkey']
  · simp only [Function.comp, beq_iff_eq, hkey, if_false]
    split <;> simp

theorem ensure_modify (hstart : g start = start) :
    ensure (modify t key' g) key start = modify (ensure t key start) key' g := by
  unfold ensure
  rw [has_modify]
  split
  · rfl
  · simp only [modify, List.map_append, List.map_cons, List.map_nil]
    split <;> simp [hstart]

/-- A change of a value, started from one that the other change leaves, can come after it. -/
theorem update_modify (hstart : g start = start) (h : ∀ x, f (g x) = g (f x)) :
    update (modify t key' g) key start f = modify (update t key start f) key' g := by
  unfold update
  rw [ensure_modify hstart, modify_comm fun _ => h]

theorem erase_modify : erase (modify t key' g) key = modify (erase t key) key' g := by
  unfold erase modify
  rw [List.filter_map]
  congr 1
  refine List.filter_congr fun e _ => ?_
  simp only [Function.comp]
  split <;> rfl

/-! ### Lists of names -/

/-- Add each of some names unless it is there. -/
def ensureAll (t : Table α) (names : List String) (x : α) : Table α :=
  names.foldl (fun t name => ensure t name x) t

theorem has_ensureAll (names : List String) (t : Table α) (x : α) (key : String) :
    has (ensureAll t names x) key = (has t key || names.contains key) := by
  induction names generalizing t with
  | nil => simp [ensureAll]
  | cons name names ih =>
    rw [ensureAll, List.foldl_cons, ← ensureAll, ih, has_ensure, List.contains_cons, Bool.or_assoc]

theorem isEmpty_ensure (t : Table α) (key : String) (x : α) : (ensure t key x).isEmpty = false := by
  unfold ensure
  split
  · rename_i hhas
    cases t with
    | nil => cases hhas
    | cons e t => rfl
  · simp

/-- A table is empty after names are added if it was and there are none. -/
theorem isEmpty_ensureAll (names : List String) (t : Table α) (x : α) :
    (ensureAll t names x).isEmpty = (t.isEmpty && names.isEmpty) := by
  induction names generalizing t with
  | nil => simp [ensureAll]
  | cons name names ih =>
    rw [ensureAll, List.foldl_cons, ← ensureAll, ih, isEmpty_ensure, List.isEmpty_cons,
      Bool.false_and, Bool.and_false]

theorem ensureAll_of_has {names : List String} (h : ∀ name ∈ names, has t name = true) (x : α) :
    ensureAll t names x = t := by
  induction names with
  | nil => rfl
  | cons name names ih =>
    rw [ensureAll, List.foldl_cons, ensure_of_has (h name List.mem_cons_self), ← ensureAll]
    exact ih fun n hn => h n (List.mem_cons_of_mem name hn)

/-- New names, each once, come at the end in their order. -/
theorem ensureAll_of_nodup {names : List String} (hnodup : names.Nodup)
    (hnew : ∀ name ∈ names, has t name = false) (x : α) :
    ensureAll t names x = t ++ names.map fun name => (name, x) := by
  induction names generalizing t with
  | nil => exact (List.append_nil t).symm
  | cons name names ih =>
    obtain ⟨hfresh, hnodup⟩ := List.nodup_cons.mp hnodup
    have hensure : ensure t name x = t ++ [(name, x)] := by
      rw [ensure, hnew name List.mem_cons_self, if_neg Bool.false_ne_true]
    rw [ensureAll, List.foldl_cons, ← ensureAll, ih hnodup, hensure, List.append_assoc]
    · rfl
    · intro n hn
      have hne : n ≠ name := fun heq => hfresh (heq ▸ hn)
      rw [has_ensure, hnew n (List.mem_cons_of_mem name hn), Bool.false_or]
      exact beq_false_of_ne hne

theorem ensureAll_modify (hstart : g start = start) (names : List String) :
    ensureAll (modify t key' g) names start = modify (ensureAll t names start) key' g := by
  induction names generalizing t with
  | nil => rfl
  | cons name names ih =>
    rw [ensureAll, List.foldl_cons, ensure_modify hstart, ← ensureAll, ih]
    rfl

end Table
end SchemaForge

/-!
# Tables

A table is a list of entries with a name each, in the order of their first appearance.
Every operation keeps the order of the entries that stay.
-/
namespace SchemaForge

/-- Entries by name, in order. -/
abbrev Table (α : Type) := List (String × α)

namespace Table

variable {α : Type}

/-- The first entry with a name. -/
def get? (t : Table α) (key : String) : Option α := t.lookup key

/-- Whether a name is taken. -/
def has (t : Table α) (key : String) : Bool := t.any (·.1 == key)

/-- The names in order. -/
def keys (t : Table α) : List String := t.map Prod.fst

/-- Set an entry: in its place when the name is taken, else at the end. -/
def put (t : Table α) (key : String) (x : α) : Table α :=
  if has t key then t.map fun e => if e.1 == key then (key, x) else e
  else t ++ [(key, x)]

/-- Set every entry of another table. -/
def putAll (t : Table α) (more : Table α) : Table α :=
  more.foldl (fun t e => put t e.1 e.2) t

/-- Add an entry unless the name is taken. -/
def ensure (t : Table α) (key : String) (x : α) : Table α :=
  if has t key then t else t ++ [(key, x)]

/-- Change the entry with a name, if there is one. -/
def modify (t : Table α) (key : String) (f : α → α) : Table α :=
  t.map fun e => if e.1 == key then (e.1, f e.2) else e

/-- Change the entry with a name, adding it first if there is none. -/
def update (t : Table α) (key : String) (start : α) (f : α → α) : Table α :=
  modify (ensure t key start) key f

/-- Remove the entries with a name. -/
def erase (t : Table α) (key : String) : Table α := t.filter (·.1 != key)

/-- The table with the entries of a list, the last of two with one name counting. -/
def ofList (entries : List (String × α)) : Table α := putAll [] entries

@[simp] theorem get?_nil (key : String) : get? ([] : Table α) key = none := rfl

@[simp] theorem has_nil (key : String) : has ([] : Table α) key = false := rfl

theorem get?_cons (e : String × α) (t : Table α) (key : String) :
    get? (e :: t) key = if key == e.1 then some e.2 else get? t key := by
  obtain ⟨k, x⟩ := e
  rw [get?, List.lookup_cons]
  cases key == k <;> rfl

theorem has_cons (e : String × α) (t : Table α) (key : String) :
    has (e :: t) key = (e.1 == key || has t key) := by simp [has]

theorem has_eq_isSome (t : Table α) (key : String) : has t key = (get? t key).isSome := by
  induction t with
  | nil => rfl
  | cons e t ih =>
    rw [has_cons, get?_cons, ih]
    by_cases h : key = e.1
    · simp [h]
    · simp [h, Ne.symm h]

theorem mem_of_get? {t : Table α} {key : String} {x : α} (h : get? t key = some x) :
    (key, x) ∈ t := by
  induction t with
  | nil => cases h
  | cons e t ih =>
    rw [get?_cons] at h
    split at h
    · rename_i hk
      cases h
      rw [beq_iff_eq.mp hk]
      exact List.mem_cons_self ..
    · exact List.mem_cons_of_mem e (ih h)

theorem keys_modify (t : Table α) (key : String) (f : α → α) :
    keys (modify t key f) = keys t := by
  simp only [keys, modify, List.map_map]
  apply List.map_congr_left
  intro e _
  simp only [Function.comp]
  split <;> rfl

theorem keys_ensure (t : Table α) (key : String) (x : α) :
    keys (ensure t key x) = if has t key then keys t else keys t ++ [key] := by
  unfold ensure
  split <;> simp [keys]

theorem get?_modify (t : Table α) (key other : String) (f : α → α) :
    get? (modify t key f) other = if other == key then (get? t other).map f else get? t other := by
  induction t with
  | nil => simp [modify]
  | cons e t ih =>
    have hm : modify (e :: t) key f = (if e.1 == key then (e.1, f e.2) else e) :: modify t key f := rfl
    rw [hm, get?_cons, get?_cons, ih]
    by_cases h1 : e.1 = key <;> by_cases h2 : other = e.1 <;> by_cases h3 : other = key <;>
      simp_all

theorem get?_erase (t : Table α) (key other : String) :
    get? (erase t key) other = if other == key then none else get? t other := by
  induction t with
  | nil => simp [erase]
  | cons e t ih =>
    simp only [erase] at ih
    simp only [erase, List.filter_cons]
    by_cases h1 : e.1 = key <;> by_cases h2 : other = e.1 <;> simp_all [get?_cons]

theorem get?_append (t u : Table α) (key : String) :
    get? (t ++ u) key = (get? t key).or (get? u key) := by
  induction t with
  | nil => rfl
  | cons e t ih =>
    rw [List.cons_append, get?_cons, get?_cons, ih]
    split <;> rfl

theorem get?_mapEntries {β : Type} (t : Table α) (g : String × α → β) (key : String) :
    get? (t.map fun e => (e.1, g e)) key = (get? t key).map fun x => g (key, x) := by
  induction t with
  | nil => rfl
  | cons e t ih =>
    rw [List.map_cons, get?_cons, get?_cons, ih]
    split
    · rename_i hk
      rw [beq_iff_eq.mp hk]
      rfl
    · rfl

theorem get?_eq_none_iff (t : Table α) (key : String) : get? t key = none ↔ has t key = false := by
  rw [has_eq_isSome, Option.isSome_eq_false_iff, Option.isNone_iff_eq_none]

theorem get?_put (t : Table α) (key other : String) (x : α) :
    get? (put t key x) other = if other == key then some x else get? t other := by
  have hmap : ∀ t : Table α, get? (t.map fun e => if e.1 == key then (key, x) else e) other
      = if other == key then (get? t other).map fun _ => x else get? t other := by
    intro t
    induction t with
    | nil => simp
    | cons e t ih =>
      rw [List.map_cons, get?_cons, get?_cons, ih]
      by_cases he : e.1 = key
      · by_cases ho : other = key <;> simp [he, ho]
      · have hk : key ≠ e.1 := Ne.symm he
        by_cases ho : other = key <;> simp [he, hk, ho]
  unfold put
  cases hk : has t key with
  | false =>
    rw [if_neg Bool.false_ne_true, get?_append, get?_cons]
    by_cases ho : other = key
    · subst ho
      simp [(get?_eq_none_iff t other).mpr hk]
    · simp [ho]
  | true =>
    rw [if_pos rfl, hmap]
    by_cases ho : other = key
    · subst ho
      rw [has_eq_isSome, Option.isSome_iff_exists] at hk
      obtain ⟨y, hy⟩ := hk
      simp [hy]
    · simp [ho]

theorem mem_put {t : Table α} {key : String} {x : α} {e : String × α} (h : e ∈ put t key x) :
    e ∈ t ∨ e = (key, x) := by
  unfold put at h
  split at h
  · obtain ⟨e', he', rfl⟩ := List.mem_map.mp h
    split
    · exact .inr rfl
    · exact .inl he'
  · rcases List.mem_append.mp h with h | h
    · exact .inl h
    · exact .inr (List.mem_singleton.mp h)

theorem mem_putAll {t more : Table α} {e : String × α} (h : e ∈ putAll t more) :
    e ∈ t ∨ e ∈ more := by
  induction more generalizing t with
  | nil => exact .inl h
  | cons m more ih =>
    rcases ih h with h | h
    · rcases mem_put h with h | rfl
      · exact .inl h
      · exact .inr List.mem_cons_self
    · exact .inr (List.mem_cons_of_mem m h)

theorem get?_ensure (t : Table α) (key other : String) (x : α) :
    get? (ensure t key x) other
      = (get? t other).or (if other == key then some x else none) := by
  unfold ensure
  cases hk : has t key with
  | false =>
    rw [if_neg Bool.false_ne_true, get?_append, get?_cons, get?_nil]
  | true =>
    rw [if_pos rfl]
    by_cases ho : other = key
    · subst ho
      rw [has_eq_isSome, Option.isSome_iff_exists] at hk
      obtain ⟨y, hy⟩ := hk
      simp [hy]
    · simp [ho]

theorem get?_update (t : Table α) (key other : String) (start : α) (f : α → α) :
    get? (update t key start f) other
      = if other == key then some (f ((get? t key).getD start)) else get? t other := by
  rw [update, get?_modify, get?_ensure]
  by_cases ho : other = key
  · subst ho
    cases get? t other <;> simp
  · simp [ho]

/-- What all values have, they have after one is added that has it. -/
theorem forall_ensure {t : Table α} {key : String} {x : α} {P : String → α → Prop}
    (h : ∀ o y, get? t o = some y → P o y) (hx : P key x) (o : String) (y : α)
    (hy : get? (ensure t key x) o = some y) : P o y := by
  rw [get?_ensure] at hy
  rcases Option.or_eq_some_iff.mp hy with hy | ⟨-, hy⟩
  · exact h o y hy
  · split at hy
    · rename_i ho
      cases hy
      exact beq_iff_eq.mp ho ▸ hx
    · cases hy

/-- What all values have, they have after one is changed that has it then. -/
theorem forall_update {t : Table α} {key : String} {start : α} {f : α → α}
    {P : String → α → Prop} (h : ∀ o y, get? t o = some y → P o y)
    (hkey : P key (f ((get? t key).getD start))) (o : String) (y : α)
    (hy : get? (update t key start f) o = some y) : P o y := by
  rw [get?_update] at hy
  split at hy
  · rename_i ho
    cases hy
    exact beq_iff_eq.mp ho ▸ hkey
  · exact h o y hy

/-- What all entries of tables in a table have, they have after one is set that has it. -/
theorem forall_update_put {t : Table (Table α)} {key field : String} {x : α}
    {P : String → String × α → Prop} (h : ∀ o fs, get? t o = some fs → ∀ e ∈ fs, P o e)
    (hx : P key (field, x)) (o : String) (fs : Table α)
    (hfs : get? (update t key [] fun fs => put fs field x) o = some fs) : ∀ e ∈ fs, P o e := by
  refine forall_update (P := fun o fs => ∀ e ∈ fs, P o e) h (fun e he => ?_) o fs hfs
  rcases mem_put he with he | rfl
  · cases hget : get? t key with
    | none =>
      rw [hget] at he
      cases he
    | some known =>
      rw [hget] at he
      exact h key known hget e he
  · exact hx

theorem keys_put (t : Table α) (key : String) (x : α) :
    keys (put t key x) = if has t key then keys t else keys t ++ [key] := by
  unfold put
  split
  · simp only [keys, List.map_map]
    apply List.map_congr_left
    intro e _
    simp only [Function.comp]
    split
    · rename_i he
      exact (beq_iff_eq.mp he).symm
    · rfl
  · simp [keys]

theorem mem_keys_iff (t : Table α) (key : String) : key ∈ keys t ↔ has t key = true := by
  simp [keys, has]

theorem get?_of_mem {t : Table α} (h : (keys t).Nodup) {e : String × α} (he : e ∈ t) :
    get? t e.1 = some e.2 := by
  induction t with
  | nil => cases he
  | cons f t ih =>
    obtain ⟨hf, ht⟩ := List.nodup_cons.mp h
    rw [get?_cons]
    rcases List.mem_cons.mp he with rfl | he
    · rw [if_pos (beq_self_eq_true _)]
    · have hne : ¬(e.1 == f.1) = true := fun h' =>
        hf (List.mem_map.mpr ⟨e, he, beq_iff_eq.mp h'⟩)
      rw [if_neg hne]
      exact ih ht he

theorem nodup_keys_put {t : Table α} (h : (keys t).Nodup) (key : String) (x : α) :
    (keys (put t key x)).Nodup := by
  rw [keys_put]
  cases hk : has t key with
  | true => exact h
  | false =>
    have hn : key ∉ keys t := by
      rw [mem_keys_iff, hk]
      exact Bool.false_ne_true
    rw [if_neg Bool.false_ne_true, List.nodup_append]
    refine ⟨h, by simp, ?_⟩
    rintro a ha b hb rfl
    rw [List.mem_singleton] at hb
    exact hn (hb ▸ ha)

theorem nodup_keys_modify {t : Table α} (h : (keys t).Nodup) (key : String) (f : α → α) :
    (keys (modify t key f)).Nodup := by
  rw [keys_modify]
  exact h

theorem nodup_keys_ensure {t : Table α} (h : (keys t).Nodup) (key : String) (x : α) :
    (keys (ensure t key x)).Nodup := by
  have hput := nodup_keys_put h key x
  rw [keys_put] at hput
  rw [keys_ensure]
  exact hput

theorem nodup_keys_update {t : Table α} (h : (keys t).Nodup) (key : String) (start : α)
    (f : α → α) : (keys (update t key start f)).Nodup :=
  nodup_keys_modify (nodup_keys_ensure h key start) key f

theorem nodup_keys_erase {t : Table α} (h : (keys t).Nodup) (key : String) :
    (keys (erase t key)).Nodup := h.sublist (List.filter_sublist.map Prod.fst)

end Table
end SchemaForge

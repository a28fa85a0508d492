import SchemaForge.Execution.Memory

/-!
# Values that are kept in cells

A value in memory holds its lists in cells, and a cell holds older ones only. So what a value
stands for depends on the cells that it leads to and on no others: it stays the same while cells
are added, and while a list is changed that holds the value. A value that is put into memory
stands for itself.
-/
namespace SchemaForge

/-- Whether a value holds no others and is no cell. -/
def Value.isFlat : Value → Bool
  | .list _ | .tuple _ | .record _ | .object .. | .cell _ => false
  | _ => true

namespace Memory

/-- Nothing is replaced in a flat value. -/
theorem replace_of_isFlat {v : Value} (h : v.isFlat = true) (f : Nat → Value) :
    replace f v = v := by
  cases v <;> first | rfl | cases h

theorem replaceAll_eq_map (f : Nat → Value) (xs : List Value) :
    replaceAll f xs = xs.map (replace f) := by
  induction xs with
  | nil => rfl
  | cons x xs ih => rw [replaceAll, ih, List.map_cons]

theorem replaceFields_eq_map (f : Nat → Value) (fs : List (String × Value)) :
    replaceFields f fs = fs.map fun g => (g.1, replace f g.2) := by
  induction fs with
  | nil => rfl
  | cons g fs ih =>
    obtain ⟨k, x⟩ := g
    rw [replaceFields, ih, List.map_cons]

/-- A value leads to cells before a bound only, and each of them to earlier ones. -/
inductive Rooted (m : Memory) : Nat → Value → Prop where
  | cell {b p : Nat} : p < b → (∀ x ∈ m.items p, Rooted m p x) → Rooted m b (.cell p)
  | list {b : Nat} {xs : List Value} : (∀ x ∈ xs, Rooted m b x) → Rooted m b (.list xs)
  | tuple {b : Nat} {xs : List Value} : (∀ x ∈ xs, Rooted m b x) → Rooted m b (.tuple xs)
  | record {b : Nat} {fs : Fields} : (∀ f ∈ fs, Rooted m b f.2) → Rooted m b (.record fs)
  | object {b : Nat} {kind : String} {fs : Fields} : (∀ f ∈ fs, Rooted m b f.2) →
      Rooted m b (.object kind fs)
  | flat {b : Nat} {v : Value} : v.isFlat = true → Rooted m b v

variable {m m' : Memory} {b : Nat} {v : Value}

theorem Rooted.mono (h : m.Rooted b v) {b' : Nat} (hb : b ≤ b') : m.Rooted b' v := by
  induction h with
  | cell hp hitems => exact .cell (Nat.lt_of_lt_of_le hp hb) hitems
  | list _ ih => exact .list fun x hx => ih x hx hb
  | tuple _ ih => exact .tuple fun x hx => ih x hx hb
  | record _ ih => exact .record fun f hf => ih f hf hb
  | object _ ih => exact .object fun f hf => ih f hf hb
  | flat hflat => exact .flat hflat

/-- Cells from the bound on do not matter to where a value leads. -/
theorem Rooted.congr (h : m.Rooted b v) (hsame : ∀ p < b, m'.items p = m.items p) :
    m'.Rooted b v := by
  induction h with
  | cell hp _ ih =>
    refine .cell hp fun x hx => ?_
    rw [hsame _ hp] at hx
    exact ih x hx fun q hq => hsame q (Nat.lt_trans hq hp)
  | list _ ih => exact .list fun x hx => ih x hx hsame
  | tuple _ ih => exact .tuple fun x hx => ih x hx hsame
  | record _ ih => exact .record fun f hf => ih f hf hsame
  | object _ ih => exact .object fun f hf => ih f hf hsame
  | flat hflat => exact .flat hflat

/-- Neither do they matter to what it stands for, nor does it matter how far it is followed beyond
the bound. -/
theorem Rooted.replace_eq (h : m.Rooted b v) (hsame : ∀ p < b, m'.items p = m.items p)
    {n n' : Nat} (hn : b ≤ n) (hn' : b ≤ n') :
    replace (m'.viewCell n') v = replace (m.viewCell n) v := by
  induction h generalizing n n' with
  | @cell b p hp _ ih =>
    obtain ⟨k, rfl⟩ : ∃ k, n = k + 1 := ⟨n - 1, by omega⟩
    obtain ⟨k', rfl⟩ : ∃ k, n' = k + 1 := ⟨n' - 1, by omega⟩
    rw [replace, replace, viewCell, viewCell, hsame p hp, replaceAll_eq_map, replaceAll_eq_map]
    refine congrArg Value.list (List.map_congr_left fun x hx => ?_)
    exact ih x hx (fun q hq => hsame q (Nat.lt_trans hq hp)) (by omega) (by omega)
  | list _ ih =>
    rw [replace, replace, replaceAll_eq_map, replaceAll_eq_map]
    exact congrArg Value.list (List.map_congr_left fun x hx => ih x hx hsame hn hn')
  | tuple _ ih =>
    rw [replace, replace, replaceAll_eq_map, replaceAll_eq_map]
    exact congrArg Value.tuple (List.map_congr_left fun x hx => ih x hx hsame hn hn')
  | record _ ih =>
    rw [replace, replace, replaceFields_eq_map, replaceFields_eq_map]
    exact congrArg Value.record
      (List.map_congr_left fun f hf => congrArg (f.1, ·) (ih f hf hsame hn hn'))
  | object _ ih =>
    rw [replace, replace, replaceFields_eq_map, replaceFields_eq_map]
    exact congrArg (Value.object _)
      (List.map_congr_left fun f hf => congrArg (f.1, ·) (ih f hf hsame hn hn'))
  | flat hflat => rw [replace_of_isFlat hflat, replace_of_isFlat hflat]

/-- A value in memory stands for a value without cells. -/
structure Shows (m : Memory) (v shown : Value) : Prop where
  /-- It leads to cells that there are, and they to older ones. -/
  rooted : m.Rooted m.cells.size v
  /-- Followed through them it is that value. -/
  view_eq : m.view v = shown

/-! ### Cells that are added -/

/-- A memory has further cells, and the others as they were. -/
structure Extends (m m' : Memory) : Prop where
  /-- No cell is lost. -/
  size_le : m.cells.size ≤ m'.cells.size
  /-- Each holds what it held. -/
  items_eq : ∀ p < m.cells.size, m'.items p = m.items p
  /-- What calls share is the same. -/
  shared_eq : m'.shared = m.shared

theorem Extends.refl (m : Memory) : m.Extends m := ⟨Nat.le_refl _, fun _ _ => rfl, rfl⟩

theorem Extends.trans {m'' : Memory} (h : m.Extends m') (h' : m'.Extends m'') : m.Extends m'' :=
  ⟨Nat.le_trans h.size_le h'.size_le,
    fun p hp => (h'.items_eq p (Nat.lt_of_lt_of_le hp h.size_le)).trans (h.items_eq p hp),
    h'.shared_eq.trans h.shared_eq⟩

/-- What a value stands for does not change where cells are added. -/
theorem Shows.of_extends {shown : Value} (h : m.Shows v shown) (hm : m.Extends m') :
    m'.Shows v shown := by
  refine ⟨(h.rooted.congr hm.items_eq).mono hm.size_le, ?_⟩
  rw [← h.view_eq, view, view]
  exact h.rooted.replace_eq hm.items_eq (Nat.le_succ _)
    (Nat.le_trans hm.size_le (Nat.le_succ _))

/-- What is shared does not matter to what values stand for. -/
theorem Shows.of_cells {shown : Value} (h : m.Shows v shown) (hcells : m'.cells = m.cells) :
    m'.Shows v shown := by
  have hitems : ∀ p, m'.items p = m.items p := fun p => by rw [items, items, hcells]
  refine ⟨hcells ▸ h.rooted.congr fun p _ => hitems p, ?_⟩
  rw [← h.view_eq, view, view, hcells]
  exact h.rooted.replace_eq (fun p _ => hitems p) (Nat.le_succ _) (Nat.le_succ _)

theorem items_newCell (m : Memory) (xs : List Value) :
    (m.newCell xs).2.items m.cells.size = xs := by
  simp [newCell, items]

theorem extends_newCell (m : Memory) (xs : List Value) : m.Extends (m.newCell xs).2 := by
  refine ⟨by simp [newCell], fun p hp => ?_, rfl⟩
  simp [newCell, items, Array.getElem?_push, Nat.ne_of_lt hp]

/-! ### What values stand for -/

theorem view_of_isFlat (h : v.isFlat = true) : m.view v = v := replace_of_isFlat h _

theorem view_list (m : Memory) (xs : List Value) : m.view (.list xs) = .list (xs.map m.view) :=
  congrArg Value.list (replaceAll_eq_map _ xs)

theorem view_tuple (m : Memory) (xs : List Value) : m.view (.tuple xs) = .tuple (xs.map m.view) :=
  congrArg Value.tuple (replaceAll_eq_map _ xs)

theorem view_record (m : Memory) (fs : Fields) :
    m.view (.record fs) = .record (fs.map fun f => (f.1, m.view f.2)) :=
  congrArg Value.record (replaceFields_eq_map _ fs)

theorem view_object (m : Memory) (kind : String) (fs : Fields) :
    m.view (.object kind fs) = .object kind (fs.map fun f => (f.1, m.view f.2)) :=
  congrArg (Value.object kind) (replaceFields_eq_map _ fs)

/-- A list in a cell stands for what its items stand for. -/
theorem view_cell {p : Nat} (hp : p < m.cells.size) (h : ∀ x ∈ m.items p, m.Rooted p x) :
    m.view (.cell p) = .list ((m.items p).map m.view) := by
  rw [view, replace, viewCell, replaceAll_eq_map]
  refine congrArg Value.list (List.map_congr_left fun x hx => ?_)
  exact (h x hx).replace_eq (fun _ _ => rfl) (by omega) (by omega)

theorem shows_cell {p : Nat} (hp : p < m.cells.size) (h : ∀ x ∈ m.items p, m.Rooted p x) :
    m.Shows (.cell p) (.list ((m.items p).map m.view)) := ⟨.cell hp h, view_cell hp h⟩

/-- A new list stands for what its items stand for. -/
theorem shows_newCell {xs : List Value} (h : ∀ x ∈ xs, m.Rooted m.cells.size x) :
    (m.newCell xs).2.Shows (m.newCell xs).1 (.list (xs.map m.view)) := by
  have hextends := m.extends_newCell xs
  have hitems := m.items_newCell xs
  have hsize : m.cells.size < (m.newCell xs).2.cells.size := by simp [newCell]
  have hcell := (m.newCell xs).2.shows_cell hsize fun x hx =>
    (h x (hitems ▸ hx)).congr hextends.items_eq
  rw [hitems] at hcell
  have hview : xs.map (m.newCell xs).2.view = xs.map m.view :=
    List.map_congr_left fun x hx => (Shows.of_extends ⟨h x hx, rfl⟩ hextends).view_eq
  rw [hview] at hcell
  exact hcell

/-- A value is kept if it is put into memory so that it stands for itself, and what was there
stays. -/
def Keeps (v : Value) : Prop :=
  ∀ m : Memory, m.Extends (m.store v).2 ∧ (m.store v).2.Shows (m.store v).1 v

/-- Values that are kept are kept one after the other. -/
theorem storeAll_of_keeps {xs : List Value} (h : ∀ x ∈ xs, Keeps x) (m : Memory) :
    m.Extends (m.storeAll xs).2
      ∧ (∀ y ∈ (m.storeAll xs).1, (m.storeAll xs).2.Rooted (m.storeAll xs).2.cells.size y)
      ∧ (m.storeAll xs).1.map (m.storeAll xs).2.view = xs := by
  induction xs generalizing m with
  | nil => exact ⟨.refl m, fun _ hy => (by cases hy), rfl⟩
  | cons x xs ih =>
    obtain ⟨hextends, hshows⟩ := h x List.mem_cons_self m
    obtain ⟨hextends', hrooted, hview⟩ :=
      ih (fun y hy => h y (List.mem_cons_of_mem x hy)) (m.store x).2
    have hfirst := hshows.of_extends hextends'
    rw [storeAll]
    refine ⟨hextends.trans hextends', fun y hy => ?_, ?_⟩
    · rcases List.mem_cons.mp hy with rfl | hy
      · exact hfirst.rooted
      · exact hrooted y hy
    · rw [List.map_cons, hfirst.view_eq, hview]

theorem storeFields_of_keeps {fs : Fields} (h : ∀ f ∈ fs, Keeps f.2) (m : Memory) :
    m.Extends (m.storeFields fs).2
      ∧ (∀ g ∈ (m.storeFields fs).1, (m.storeFields fs).2.Rooted (m.storeFields fs).2.cells.size g.2)
      ∧ (m.storeFields fs).1.map (fun g => (g.1, (m.storeFields fs).2.view g.2)) = fs := by
  induction fs generalizing m with
  | nil => exact ⟨.refl m, fun _ hg => (by cases hg), rfl⟩
  | cons f fs ih =>
    obtain ⟨k, x⟩ := f
    obtain ⟨hextends, hshows⟩ := h (k, x) List.mem_cons_self m
    obtain ⟨hextends', hrooted, hview⟩ :=
      ih (fun g hg => h g (List.mem_cons_of_mem _ hg)) (m.store x).2
    have hfirst := hshows.of_extends hextends'
    rw [storeFields]
    refine ⟨hextends.trans hextends', fun g hg => ?_, ?_⟩
    · rcases List.mem_cons.mp hg with rfl | hg
      · exact hfirst.rooted
      · exact hrooted g hg
    · rw [List.map_cons, hfirst.view_eq, hview]

/-- **A value without cells is kept.** -/
theorem keeps_of_rooted (h : m.Rooted 0 v) : Keeps v := by
  generalize hb : 0 = b at h
  induction h with
  | cell hp => omega
  | @list b xs _ ih =>
    intro m'
    obtain ⟨hextends, hrooted, hview⟩ := storeAll_of_keeps (fun x hx => ih x hx hb) m'
    rw [store]
    refine ⟨hextends.trans (extends_newCell _ _), ?_⟩
    have hshows := shows_newCell hrooted
    rw [hview] at hshows
    exact hshows
  | @tuple b xs _ ih =>
    intro m'
    obtain ⟨hextends, hrooted, hview⟩ := storeAll_of_keeps (fun x hx => ih x hx hb) m'
    rw [store]
    exact ⟨hextends, .tuple hrooted, by rw [view_tuple, hview]⟩
  | @record b fs _ ih =>
    intro m'
    obtain ⟨hextends, hrooted, hview⟩ := storeFields_of_keeps (fun f hf => ih f hf hb) m'
    rw [store]
    exact ⟨hextends, .record hrooted, by rw [view_record, hview]⟩
  | @object b kind fs _ ih =>
    intro m'
    obtain ⟨hextends, hrooted, hview⟩ := storeFields_of_keeps (fun f hf => ih f hf hb) m'
    rw [store]
    exact ⟨hextends, .object hrooted, by rw [view_object, hview]⟩
  | @flat b v hflat =>
    intro m'
    have hstore : m'.store v = (v, m') := by cases v <;> first | rfl | cases hflat
    rw [hstore]
    exact ⟨.refl m', .flat hflat, view_of_isFlat hflat⟩

/-! ### Lists that are changed -/

theorem items_setItems {p : Nat} (hp : p < m.cells.size) (xs : List Value) :
    (m.setItems p xs).items p = xs := by
  simp [setItems, items, hp]

theorem items_setItems_of_ne {p q : Nat} (h : p ≠ q) (m : Memory) (xs : List Value) :
    (m.setItems p xs).items q = m.items q := by
  simp [setItems, items, Array.getElem?_setIfInBounds_ne h]

@[simp] theorem size_setItems (m : Memory) (p : Nat) (xs : List Value) :
    (m.setItems p xs).cells.size = m.cells.size := by
  simp [setItems]

/-- A list that is changed stands for what its items stood for before. -/
theorem shows_setItems {p : Nat} (hp : p < m.cells.size) {xs : List Value}
    (h : ∀ x ∈ xs, m.Rooted p x) :
    (m.setItems p xs).Shows (.cell p) (.list (xs.map m.view)) := by
  have hsame : ∀ q < p, (m.setItems p xs).items q = m.items q := fun q hq =>
    items_setItems_of_ne (Nat.ne_of_gt hq) m xs
  have hitems := items_setItems hp xs
  have hcell := (m.setItems p xs).shows_cell ((m.size_setItems p xs).symm ▸ hp) fun x hx =>
    (h x (hitems ▸ hx)).congr hsame
  rw [hitems] at hcell
  have hview : xs.map (m.setItems p xs).view = xs.map m.view :=
    List.map_congr_left fun x hx =>
      (h x hx).replace_eq hsame (by omega) (by rw [size_setItems]; omega)
  rw [hview] at hcell
  exact hcell

end Memory
end SchemaForge

import SchemaForge.Proofs.Language.References
import SchemaForge.Proofs.Outcome
import SchemaForge.Schema.Coercion

/-!
# Values that fit a type

A value fits a type if it is null where null is not excluded, a list of values that fit, a
record whose fields are fields of an input type, with values that fit these, or a value that a
scalar or enum can have. What is read for an argument or a variable fits its type, and what is
read for a type is read for the type with null allowed everywhere, as the same value.
-/
namespace SchemaForge

open Language

/-- The values that a leaf can have. -/
def Leaf.Has (l : Leaf) (v : Value) : Prop :=
  (∃ x, l.parse x = .ok v) ∨ ∃ x vars, l.parseLiteral x vars = .ok v

namespace Schema

/-- How the values of a type travel: with implementations, or without them, as in defaults. -/
def LeafOf (s : Schema) (leaves : Implementations) (name : String) (l : Leaf) : Prop :=
  s.leaf? leaves name = some l ∨ s.leaf? [] name = some l

variable (s : Schema) (leaves : Implementations)

mutual

/-- A value fits a type. -/
inductive Fits : TypeRef → Value → Prop
  /-- Null, where it is not excluded. -/
  | null {t : TypeRef} (h : t.isNonNull = false) : Fits t .null
  /-- Anything else. -/
  | some {t : TypeRef} {v : Value} (h : FitsSome t v) : Fits t v

/-- A value fits a type whether or not null is excluded. -/
inductive FitsSome : TypeRef → Value → Prop
  /-- A type that excludes null. -/
  | nonNull {t : TypeRef} {v : Value} (h : FitsSome t v) : FitsSome (.nonNull t) v
  /-- A list. -/
  | list {t : TypeRef} {xs : List Value} (h : ∀ x ∈ xs, Fits t x) : FitsSome (.list t) (.list xs)
  /-- A record. -/
  | record {name : String} {fs : Fields} (hinput : s.isKind name .input = true)
      (h : ∀ f ∈ fs, FitsInput name f.1 f.2) : FitsSome (.named name) (.record fs)
  /-- A value of a scalar or enum. -/
  | leaf {t : TypeRef} {l : Leaf} {v : Value} (hlist : ∀ item, t.nullable ≠ .list item)
      (hleaf : s.LeafOf leaves t.baseName l) (h : l.Has v) : FitsSome t v

/-- A value fits a field of an input type. -/
inductive FitsInput : String → String → Value → Prop
  /-- The field. -/
  | input {type : String} {i : InputNode} {v : Value} (hi : i ∈ s.inputs type)
      (h : Fits i.type v) : FitsInput type i.name v

end

variable {s leaves}

/-- A single value fits where a list is expected. -/
theorem FitsSome.inLists {t : TypeRef} {v : Value} (h : s.FitsSome leaves (.named t.baseName) v) :
    s.FitsSome leaves t (Coercion.inLists t v) := by
  induction t with
  | named name => exact h
  | list t ih =>
    refine .list fun x hx => ?_
    rw [List.mem_singleton.mp hx]
    exact .some (ih h)
  | nonNull t ih => exact .nonNull (ih h)

/-- A list fits a list type, which may exclude null. -/
theorem FitsSome.items {t item : TypeRef} {xs : List Value} (ht : t.nullable = .list item)
    (h : ∀ x ∈ xs, s.Fits leaves item x) : s.FitsSome leaves t (.list xs) := by
  cases t with
  | named name => cases ht
  | list t =>
    cases ht
    exact .list h
  | nonNull t =>
    obtain rfl : t = .list item := ht
    exact .nonNull (.list h)

/-- What fits a type without null fits it with null too. -/
theorem FitsSome.of_nullable {t : TypeRef} {v : Value} (h : s.FitsSome leaves t.nullable v) :
    s.FitsSome leaves t v := by
  cases t with
  | named name => exact h
  | list t => exact h
  | nonNull t => exact .nonNull h

end Schema

namespace Coercion

open Schema

variable {s : Schema} {leaves : Implementations} {defaults : Defaults}

/-- What is given for a field of an input type, or its default. -/
theorem mem_of_assemble {given : List (String × Option Value)} {is : List InputNode} {fs : Fields}
    (h : assemble defaults given is = some fs) {f : String × Value} (hf : f ∈ fs) :
    given.lookup f.1 = some (some f.2) ∨ ∃ i ∈ is, i.name = f.1 ∧ defaults i = some f.2 := by
  induction is generalizing fs with
  | nil =>
    cases h
    cases hf
  | cons i is ih =>
    have hlater : ∀ {fs'}, assemble defaults given is = some fs' → f ∈ fs' →
        given.lookup f.1 = some (some f.2) ∨ ∃ j ∈ i :: is, j.name = f.1 ∧ defaults j = some f.2 :=
      fun h' hf' => (ih h' hf').imp id fun ⟨j, hj, hrest⟩ => ⟨j, List.mem_cons_of_mem i hj, hrest⟩
    rw [assemble] at h
    cases hgiven : given.lookup i.name with
    | some v =>
      rw [hgiven] at h
      cases v with
      | none => cases h
      | some v =>
        obtain ⟨fs', hfs', rfl⟩ := Option.map_eq_some_iff.mp h
        rcases List.mem_cons.mp hf with rfl | hf
        · exact .inl hgiven
        · exact hlater hfs' hf
    | none =>
      rw [hgiven] at h
      cases hdefault : defaults i with
      | some v =>
        simp only [hdefault] at h
        obtain ⟨fs', hfs', rfl⟩ := Option.map_eq_some_iff.mp h
        rcases List.mem_cons.mp hf with rfl | hf
        · exact .inr ⟨i, List.mem_cons_self, rfl, hdefault⟩
        · exact hlater hfs' hf
      | none =>
        simp only [hdefault] at h
        split at h
        · cases h
        · exact hlater h hf

/-- An input type is found by the name of its field. -/
theorem fitsInput_of_inputType? {type key : String} {t : TypeRef} {v : Value}
    (ht : inputType? s type key = some t) (h : s.Fits leaves t v) :
    s.FitsInput leaves type key v := by
  obtain ⟨i, hi, rfl⟩ := Option.map_eq_some_iff.mp ht
  have hname : (i.name == key) = true :=
    List.find?_some (p := fun i : InputNode => i.name == key) hi
  obtain rfl := beq_iff_eq.mp hname
  exact .input (List.mem_of_find?_eq_some hi) h

/-- What is put together from values and defaults that fit is a record that fits. -/
theorem fits_of_assemble (hd : ∀ i v, defaults i = some v → s.Fits leaves i.type v) {t : TypeRef}
    (hinput : s.isKind t.baseName .input = true) {given : List (String × Option Value)}
    (hgiven : ∀ key v, (key, some v) ∈ given → s.FitsInput leaves t.baseName key v) {v : Value}
    (h : ((assemble defaults given (s.inputs t.baseName)).map fun fs => inLists t (.record fs))
      = some v) : s.Fits leaves t v := by
  obtain ⟨fs, hfs, rfl⟩ := Option.map_eq_some_iff.mp h
  refine .some (FitsSome.inLists (.record hinput fun f hf => ?_))
  rcases mem_of_assemble hfs hf with hlookup | ⟨i, hi, hname, hdefault⟩
  · exact hgiven f.1 f.2 (Table.mem_of_get? hlookup)
  · exact hname ▸ .input hi (hd i f.2 hdefault)

theorem fits_of_leafValue {t : TypeRef} {x v : Value}
    (h : (ofValue.leafValue s leaves t.baseName x).map (inLists t) = some v) :
    s.FitsSome leaves t v := by
  obtain ⟨y, hy, rfl⟩ := Option.map_eq_some_iff.mp h
  refine FitsSome.inLists ?_
  unfold ofValue.leafValue at hy
  split at hy
  · rename_i l hl
    refine .leaf (fun item h => by cases h) (.inl hl) (.inl ⟨x, ?_⟩)
    cases hp : l.parse x with
    | error e =>
      rw [hp] at hy
      cases hy
    | ok z =>
      rw [hp] at hy
      cases hy
      rfl
  · cases hy

/-- Null is read where it is not excluded. -/
theorem fits_of_null {t : TypeRef} {v : Value}
    (h : (if t.isNonNull then none else some .null) = some v) : s.Fits leaves t v := by
  split at h
  · cases h
  · rename_i ht
    cases h
    exact .null (by simpa using ht)

mutual

/-- **What is read for a variable fits its type.** -/
theorem fits_of_ofValue (hd : ∀ i v, defaults i = some v → s.Fits leaves i.type v) (t : TypeRef) :
    (x : Value) → ∀ v, ofValue s leaves defaults t x = some v → s.Fits leaves t v
  | .null, v, h => by
    rw [ofValue] at h
    exact fits_of_null h
  | .list xs, v, h | .tuple xs, v, h => by
    unfold ofValue at h
    split at h
    · rename_i item ht
      obtain ⟨ys, hys, rfl⟩ := Option.map_eq_some_iff.mp h
      exact .some (FitsSome.items ht (fits_of_ofValues hd item xs ys hys))
    · exact .some (FitsSome.of_nullable (fits_of_leafValue h))
  | .record fs, v, h => by
    rw [ofValue] at h
    split at h
    · rename_i hinput
      split at h
      · exact fits_of_assemble hd hinput (fitsInput_of_ofValueFields hd t.baseName fs) h
      · cases h
    · exact .some (fits_of_leafValue h)
  | .bool _, v, h | .int _, v, h | .real _, v, h | .text _, v, h | .date _, v, h
  | .moment _, v, h | .object _ _, v, h | .pattern _, v, h | .entity _ _, v, h
  | .cell _, v, h => .some (fits_of_leafValue h)

/-- What is read for several items fits the type of each. -/
theorem fits_of_ofValues (hd : ∀ i v, defaults i = some v → s.Fits leaves i.type v) (t : TypeRef) :
    (xs : List Value) → ∀ vs, ofValues s leaves defaults t xs = some vs → ∀ v ∈ vs, s.Fits leaves t v
  | [], vs, h, v, hv => by
    cases h
    cases hv
  | x :: xs, vs, h, v, hv => by
    unfold ofValues at h
    split at h
    · rename_i y ys hy hys
      cases h
      rcases List.mem_cons.mp hv with rfl | hv
      · exact fits_of_ofValue hd t x _ hy
      · exact fits_of_ofValues hd t xs ys hys v hv
    · cases h

/-- What is read for the fields of an input type fits them. -/
theorem fitsInput_of_ofValueFields (hd : ∀ i v, defaults i = some v → s.Fits leaves i.type v)
    (name : String) :
    (fs : List (String × Value)) → ∀ key v, (key, some v) ∈ ofValueFields s leaves defaults name fs →
      s.FitsInput leaves name key v
  | [], key, v, h => by cases h
  | (k, x) :: fs, key, v, h => by
    rw [ofValueFields] at h
    split at h
    · rename_i t ht
      rcases List.mem_cons.mp h with heq | h
      · obtain ⟨rfl, hv⟩ := Prod.mk.inj heq
        exact fitsInput_of_inputType? ht (fits_of_ofValue hd t x v hv.symm)
      · exact fitsInput_of_ofValueFields hd name fs key v h
    · exact fitsInput_of_ofValueFields hd name fs key v h

end

/-! ### Literals -/

variable {read : Implementations}

theorem leaf_of_leafLiteral (hread : read = leaves ∨ read = []) {vars : Fields} {name : String}
    {x : Literal} {v : Value} (h : leafLiteral s read vars name x = some v) :
    ∃ l, s.LeafOf leaves name l ∧ l.Has v := by
  unfold leafLiteral at h
  split at h
  · rename_i l hl
    have hleaf : s.LeafOf leaves name l := by
      rcases hread with rfl | rfl
      · exact .inl hl
      · exact .inr hl
    refine ⟨l, hleaf, .inr ⟨x, vars, ?_⟩⟩
    split at h
    · rename_i y hy
      split at h
      · cases h
      · cases h
        exact hy
    · cases h
  · cases h

theorem fits_of_leafLiteral (hread : read = leaves ∨ read = []) {vars : Fields} {t : TypeRef}
    {x : Literal} {v : Value}
    (h : (leafLiteral s read vars t.baseName x).map (inLists t) = some v) :
    s.Fits leaves t v := by
  obtain ⟨y, hy, rfl⟩ := Option.map_eq_some_iff.mp h
  obtain ⟨l, hl, hhas⟩ := leaf_of_leafLiteral hread hy
  exact .some (FitsSome.inLists (.leaf (fun item h => by cases h) hl hhas))

mutual

/-- **What is read for a literal without variables fits its type.** -/
theorem fits_of_ofLiteral (hread : read = leaves ∨ read = [])
    (hd : ∀ i v, defaults i = some v → s.Fits leaves i.type v) (t : TypeRef) :
    (x : Literal) → ∀ v, ofLiteral s read defaults [] t x = some v → s.Fits leaves t v
  | .var _, v, h => by cases h
  | .null, v, h => by
    rw [ofLiteral] at h
    exact fits_of_null h
  | .list xs, v, h => by
    unfold ofLiteral at h
    split at h
    · rename_i item ht
      obtain ⟨ys, hys, rfl⟩ := Option.map_eq_some_iff.mp h
      exact .some (FitsSome.items ht (fits_of_ofLiterals hread hd item xs ys hys))
    · rename_i ht
      obtain ⟨l, hl, hhas⟩ := leaf_of_leafLiteral hread h
      have hname : t.nullable.baseName = t.baseName := by cases t <;> rfl
      exact .some (.leaf (fun item hitem => ht item hitem) (hname ▸ hl) hhas)
  | .object fs, v, h => by
    rw [ofLiteral] at h
    split at h
    · rename_i hinput
      exact fits_of_assemble hd hinput (fitsInput_of_ofFields hread hd t.baseName fs) h
    · exact fits_of_leafLiteral hread h
  | .int _, v, h | .float _, v, h | .string _ _, v, h | .bool _, v, h | .enum _, v, h => by
    rw [ofLiteral] at h
    exact fits_of_leafLiteral hread h

/-- What is read for several items fits the type of each. -/
theorem fits_of_ofLiterals (hread : read = leaves ∨ read = [])
    (hd : ∀ i v, defaults i = some v → s.Fits leaves i.type v) (t : TypeRef) :
    (xs : List Literal) → ∀ vs, ofLiterals s read defaults [] t xs = some vs →
      ∀ v ∈ vs, s.Fits leaves t v
  | [], vs, h, v, hv => by
    cases h
    cases hv
  | x :: xs, vs, h, v, hv => by
    unfold ofLiterals at h
    dsimp only at h
    split at h
    · rename_i y ys hy hys
      cases h
      rcases List.mem_cons.mp hv with rfl | hv
      · split at hy
        · exact fits_of_null hy
        · exact fits_of_ofLiteral hread hd t x _ hy
      · exact fits_of_ofLiterals hread hd t xs ys hys v hv
    · cases h

/-- What is read for the fields of an input type fits them. -/
theorem fitsInput_of_ofFields (hread : read = leaves ∨ read = [])
    (hd : ∀ i v, defaults i = some v → s.Fits leaves i.type v) (name : String) :
    (fs : List (String × Literal)) → ∀ key v,
      (key, some v) ∈ ofFields s read defaults [] name fs → s.FitsInput leaves name key v
  | [], key, v, h => by cases h
  | (k, x) :: fs, key, v, h => by
    rw [ofFields] at h
    split at h
    · exact fitsInput_of_ofFields hread hd name fs key v h
    · split at h
      · rename_i t ht
        rcases List.mem_cons.mp h with heq | h
        · obtain ⟨rfl, hv⟩ := Prod.mk.inj heq
          exact fitsInput_of_inputType? ht (fits_of_ofLiteral hread hd t x v hv.symm)
        · exact fitsInput_of_ofFields hread hd name fs key v h
      · exact fitsInput_of_ofFields hread hd name fs key v h

end

/-- The default of an input fits its type. -/
theorem fits_of_defaultOf (i : InputNode) (v : Value) (h : defaultOf s i = some v) :
    s.Fits leaves i.type v := by
  have hlevels : ∀ n i v, defaultsTo s n i = some v → s.Fits leaves i.type v := by
    intro n
    induction n with
    | zero =>
      intro i v h
      cases h
    | succ n ih =>
      intro i v h
      obtain ⟨l, -, hl⟩ := Option.bind_eq_some_iff.mp h
      exact fits_of_ofLiteral (.inr rfl) ih i.type l v hl
  exact hlevels _ i v h

end Coercion

/-! ### Values of a type that allows null -/

namespace Coercion

variable {s : Schema} {leaves : Implementations} {defaults : Defaults} {vars : Fields}
  {t : TypeRef} {v w : Value} {l : Literal}

theorem inLists_loosened (t : TypeRef) : inLists t.loosened = inLists t := by
  funext v
  induction t with
  | named n => rfl
  | list t ih => rw [TypeRef.loosened, inLists, ih, inLists]
  | nonNull t ih => exact ih

/-- What fits where null is excluded fits where it is not. -/
theorem ofValue_of_nonNull (ht : t.isNonNull = false)
    (h : ofValue s leaves defaults (.nonNull t) v = some w) :
    ofValue s leaves defaults t v = some w := by
  have hnullable : t.nullable = t := by
    cases t with
    | named n => rfl
    | list t => rfl
    | nonNull t => cases ht
  cases v with
  | null => exact absurd h (by simp [ofValue, TypeRef.isNonNull])
  | list xs =>
    rw [ofValue] at h ⊢
    rwa [hnullable]
  | tuple xs =>
    rw [ofValue] at h ⊢
    rwa [hnullable]
  | _ => exact h

/-- Items that fit one type fit another that takes whatever fits the first. -/
theorem ofValues_mono {t u : TypeRef}
    (hmono : ∀ v w, ofValue s leaves defaults t v = some w → ofValue s leaves defaults u v = some w)
    {vs ws : List Value} (h : ofValues s leaves defaults t vs = some ws) :
    ofValues s leaves defaults u vs = some ws := by
  induction vs generalizing ws with
  | nil => simpa only [ofValues] using h
  | cons v vs ih =>
    unfold ofValues at h ⊢
    split at h
    · rename_i w ws hw hws
      rw [hmono v w hw, ih hws]
      exact h
    · cases h

/-- **What fits a type fits it with null allowed**, and is read as the same value. -/
theorem ofValue_loosened (ht : t.isProper = true)
    (h : ofValue s leaves defaults t v = some w) :
    ofValue s leaves defaults t.loosened v = some w := by
  induction t generalizing v w with
  | named n => exact h
  | list t ih =>
    have hitems : ∀ {vs ws}, ofValues s leaves defaults t vs = some ws →
        ofValues s leaves defaults t.loosened vs = some ws :=
      ofValues_mono fun v w => ih ht
    cases v with
    | null => exact h
    | list xs | tuple xs =>
      obtain ⟨ws, hws, rfl⟩ := Option.map_eq_some_iff.mp h
      exact Option.map_eq_some_iff.mpr ⟨ws, hitems hws, rfl⟩
    | _ =>
      rw [ofValue] at h ⊢
      · rwa [inLists_loosened, TypeRef.baseName_loosened]
      all_goals nofun
  | nonNull t ih =>
    rw [TypeRef.isProper, Bool.and_eq_true, Bool.not_eq_true'] at ht
    exact ih ht.2 (ofValue_of_nonNull ht.1 h)

/-- A literal that fits where null is excluded fits where it is not. -/
theorem ofLiteral_of_nonNull (ht : t.isNonNull = false)
    (h : ofLiteral s leaves defaults vars (.nonNull t) l = some w) :
    ofLiteral s leaves defaults vars t l = some w := by
  have hnullable : t.nullable = t := by
    cases t with
    | named n => rfl
    | list t => rfl
    | nonNull t => cases ht
  cases l with
  | null => exact absurd h (by simp [ofLiteral, TypeRef.isNonNull])
  | var n =>
    rw [ofLiteral] at h ⊢
    split at h
    · rename_i v hv
      rw [ht, Bool.and_false]
      split at h
      · cases h
      · exact h
    · cases h
  | list xs =>
    rw [ofLiteral] at h ⊢
    rwa [hnullable]
  | _ => exact h

theorem ofLiterals_cons {ls : List Literal} {ws : List Value} :
    ofLiterals s leaves defaults vars t (l :: ls) = some ws ↔ ∃ v vs, ws = v :: vs
      ∧ (if isMissing vars l then (if t.isNonNull then none else some .null)
        else ofLiteral s leaves defaults vars t l) = some v
      ∧ ofLiterals s leaves defaults vars t ls = some vs := by
  rw [ofLiterals]
  constructor
  · intro h
    split at h
    · rename_i v vs hv hvs
      exact ⟨v, vs, (Option.some.inj h).symm, hv, hvs⟩
    · cases h
  · rintro ⟨v, vs, rfl, hv, hvs⟩
    simp only [hv, hvs]

/-- Literals that fit one type fit another that allows null and takes whatever fits the first. -/
theorem ofLiterals_mono {t u : TypeRef} (hu : u.isNonNull = false)
    (hmono : ∀ l w, ofLiteral s leaves defaults vars t l = some w →
      ofLiteral s leaves defaults vars u l = some w)
    {ls : List Literal} {ws : List Value}
    (h : ofLiterals s leaves defaults vars t ls = some ws) :
    ofLiterals s leaves defaults vars u ls = some ws := by
  induction ls generalizing ws with
  | nil => simpa only [ofLiterals] using h
  | cons l ls ih =>
    obtain ⟨v, vs, rfl, hv, hvs⟩ := ofLiterals_cons.mp h
    refine ofLiterals_cons.mpr ⟨v, vs, rfl, ?_, ih hvs⟩
    -- A variable without a value counts as null.
    by_cases hmissing : isMissing vars l = true
    · rw [if_pos hmissing] at hv ⊢
      split at hv
      · cases hv
      · rwa [hu]
    · rw [if_neg hmissing] at hv ⊢
      exact hmono l v hv

/-- **A literal that fits a type fits it with null allowed**, and is read as the same value. -/
theorem ofLiteral_loosened (ht : t.isProper = true)
    (h : ofLiteral s leaves defaults vars t l = some w) :
    ofLiteral s leaves defaults vars t.loosened l = some w := by
  induction t generalizing l w with
  | named n => exact h
  | list t ih =>
    cases l with
    | var n | null => exact h
    | list xs =>
      obtain ⟨ws, hws, rfl⟩ := Option.map_eq_some_iff.mp h
      have hitems := ofLiterals_mono (TypeRef.isNonNull_loosened t) (fun l w => ih ht) hws
      exact Option.map_eq_some_iff.mpr ⟨ws, hitems, rfl⟩
    | _ =>
      rw [ofLiteral] at h ⊢
      rwa [inLists_loosened, TypeRef.baseName_loosened]
  | nonNull t ih =>
    rw [TypeRef.isProper, Bool.and_eq_true, Bool.not_eq_true'] at ht
    exact ih ht.2 (ofLiteral_of_nonNull ht.1 h)

end Coercion
end SchemaForge

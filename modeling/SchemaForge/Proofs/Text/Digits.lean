import Mathlib.Data.List.Induction
import Mathlib.Tactic.Ring
import SchemaForge.Text.Digits

/-!
# Runs of digits

The value of a run of digits, with whatever else stands among them left out: that of the decimal
notation of a number is the number, zeros before it do not count and each zero after it multiplies
by ten. Padded notation of a number that fits has exactly the width asked for.
-/
namespace SchemaForge.Text

/-! ### Single digits -/

theorem asciiDigit?_digitChar {d : Nat} (h : d < 10) : asciiDigit? (digitChar d) = some d := by
  revert d
  decide

theorem isAsciiDigit_digitChar {d : Nat} (h : d < 10) : isAsciiDigit (digitChar d) = true := by
  rw [isAsciiDigit, asciiDigit?_digitChar h]
  rfl

theorem decimalDigits_lt (n : Nat) : ∀ d ∈ decimalDigits n, d < 10 := by
  rw [decimalDigits]
  split
  · rename_i h
    intro d hd
    rwa [List.mem_singleton.mp hd]
  · intro d hd
    rcases List.mem_append.mp hd with hd | hd
    · exact decimalDigits_lt (n / 10) d hd
    · rw [List.mem_singleton.mp hd]
      exact Nat.mod_lt _ (by decide)
termination_by n
decreasing_by omega

/-! ### Values of runs -/

/-- The digits among some characters. -/
def digitsOf (cs : List Char) : List Nat := cs.filterMap asciiDigit?

@[simp] theorem digitsOf_nil : digitsOf [] = [] := rfl

@[simp] theorem digitsOf_append (cs ds : List Char) :
    digitsOf (cs ++ ds) = digitsOf cs ++ digitsOf ds := List.filterMap_append

theorem digitsOf_cons_of_not {c : Char} (h : isAsciiDigit c = false) (cs : List Char) :
    digitsOf (c :: cs) = digitsOf cs := by
  rw [isAsciiDigit, Option.isSome_eq_false_iff, Option.isNone_iff_eq_none] at h
  rw [digitsOf, List.filterMap_cons_none h]
  rfl

@[simp] theorem digitsOf_zeros (n : Nat) : digitsOf (List.replicate n '0') = List.replicate n 0 := by
  induction n with
  | zero => rfl
  | succ n ih =>
    rw [List.replicate_succ, List.replicate_succ, ← ih]
    rfl

@[simp] theorem digitsOf_ofNat (n : Nat) : digitsOf (ofNat n) = decimalDigits n := by
  have hall : ∀ ds : List Nat, (∀ d ∈ ds, d < 10) → digitsOf (ds.map digitChar) = ds := by
    intro ds h
    induction ds with
    | nil => rfl
    | cons d ds ih =>
      rw [List.forall_mem_cons] at h
      rw [List.map_cons, digitsOf, List.filterMap_cons_some (asciiDigit?_digitChar h.1)]
      exact congrArg _ (ih h.2)
  exact hall _ (decimalDigits_lt n)

/-- Characters that are all digits have one digit each. -/
theorem length_digitsOf {cs : List Char} (h : ∀ c ∈ cs, isAsciiDigit c = true) :
    (digitsOf cs).length = cs.length := by
  induction cs with
  | nil => rfl
  | cons c cs ih =>
    rw [List.forall_mem_cons] at h
    obtain ⟨d, hd⟩ := Option.isSome_iff_exists.mp h.1
    rw [digitsOf, List.filterMap_cons_some hd, List.length_cons, List.length_cons]
    exact congrArg _ (ih h.2)

theorem ofDigits_append (base : Nat) (cs ds : List Nat) :
    ofDigits base (cs ++ ds) = ofDigits base cs * base ^ ds.length + ofDigits base ds := by
  induction ds using List.reverseRecOn with
  | nil => simp
  | append_singleton ds d ih =>
    rw [← List.append_assoc, ofDigits_append_singleton, ih, ofDigits_append_singleton,
      List.length_append, List.length_singleton, pow_succ]
    ring

@[simp] theorem ofDigits_zeros (base n : Nat) : ofDigits base (List.replicate n 0) = 0 := by
  induction n with
  | zero => rfl
  | succ n ih => rw [List.replicate_succ', ofDigits_append_singleton, ih, Nat.zero_mul]

theorem ofDigits_zeros_append (base n : Nat) (ds : List Nat) :
    ofDigits base (List.replicate n 0 ++ ds) = ofDigits base ds := by
  rw [ofDigits_append, ofDigits_zeros, Nat.zero_mul, Nat.zero_add]

theorem ofDigits_append_zeros (base n : Nat) (ds : List Nat) :
    ofDigits base (ds ++ List.replicate n 0) = ofDigits base ds * base ^ n := by
  rw [ofDigits_append, ofDigits_zeros, Nat.add_zero, List.length_replicate]

/-! ### Padded notation -/

theorem ofDigits_padded (width n : Nat) : ofDigits 10 (digitsOf (padded width n)) = n := by
  unfold padded
  dsimp only
  rw [digitsOf_append, digitsOf_zeros, ofDigits_zeros_append, digitsOf_ofNat,
    ofDigits_decimalDigits]

/-- A number has as many digits as it needs. -/
theorem length_decimalDigits_le {n width : Nat} (hwidth : width ≠ 0) (h : n < 10 ^ width) :
    (decimalDigits n).length ≤ width := by
  rw [decimalDigits]
  split
  · exact Nat.one_le_iff_ne_zero.mpr hwidth
  · rename_i hn
    obtain ⟨w, rfl⟩ := Nat.exists_eq_succ_of_ne_zero hwidth
    have hw : w ≠ 0 := by
      rintro rfl
      exact hn h
    rw [List.length_append, List.length_singleton]
    exact Nat.succ_le_succ (length_decimalDigits_le hw (by omega))
termination_by n
decreasing_by omega

/-- A number that fits is padded to the width. -/
theorem length_padded {n width : Nat} (hwidth : width ≠ 0) (h : n < 10 ^ width) :
    (padded width n).length = width := by
  have hle := length_decimalDigits_le hwidth h
  rw [padded, List.length_append, List.length_replicate, ofNat, List.length_map]
  omega

end SchemaForge.Text

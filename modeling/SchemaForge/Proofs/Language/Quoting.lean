import SchemaForge.Proofs.Language.Spelling
import SchemaForge.Text.Quoted

/-!
# Quoted texts as tokens

A text between double quotes, with the escapes that data exchange uses, is one token with the
text. Each character is taken by itself: a character is escaped by a letter, by the four digits
of its code or, beyond the basic plane, by two units of four digits, or stands as it is.
-/
namespace SchemaForge.Language

open Text

variable {n : Nat} {rest done : List Char} {c : Char}

/-! ### Hexadecimal digits -/

theorem hexDigit?_hexDigit {d : Nat} (h : d < 16) : hexDigit? (hexDigit d) = some d := by
  revert d
  decide

theorem hex4_eq (n : Nat) : hex 4 n = [hexDigit (n / 4096 % 16), hexDigit (n / 256 % 16),
    hexDigit (n / 16 % 16), hexDigit (n % 16)] := by
  rw [← Nat.div_one (n % 16), ← Nat.div_one n]
  simp [hex, List.range_succ]

/-- Four digits give the number back. -/
theorem hex4?_hex (h : n < 65536) (rest : List Char) : hex4? (hex 4 n ++ rest) = some (n, rest) := by
  have hdigit : ∀ m : Nat, hexDigit? (hexDigit (m % 16)) = some (m % 16) :=
    fun m => hexDigit?_hexDigit (Nat.mod_lt m (by decide))
  have hvalue : ((n / 4096 % 16 * 16 + n / 256 % 16) * 16 + n / 16 % 16) * 16 + n % 16 = n := by
    omega
  simp only [hex4_eq, List.cons_append, List.nil_append, hex4?, hdigit, Option.bind_eq_bind,
    Option.bind_some, hvalue]
  rfl

theorem charOf?_toNat (c : Char) : charOf? c.toNat = some c := by
  have hvalid : c.toNat.isValidChar := c.valid
  unfold charOf?
  rw [dif_pos hvalid]
  rfl

/-- The code of a character of the basic plane gives it back. -/
theorem unicodeEscape?_basic (h : c.toNat < 65536) (rest : List Char) :
    unicodeEscape? (hex 4 c.toNat ++ rest) = some (c, rest) := by
  have hvalid : ¬ (0xD800 ≤ c.toNat ∧ c.toNat < 0xDC00) := by
    intro hsurrogate
    have := c.valid
    simp only [UInt32.isValidChar, Nat.isValidChar, Char.toNat] at this hsurrogate
    omega
  exact unicodeEscape?_eq_some_iff.mpr (.inr (.inl ⟨_, hex4?_hex h rest, hvalid, charOf?_toNat c⟩))

/-- The two units of a character beyond the basic plane give it back. -/
theorem unicodeEscape?_beyond (h : 65536 ≤ c.toNat) (rest : List Char) :
    unicodeEscape? (hex 4 (0xD800 + (c.toNat - 65536) / 1024)
      ++ (unicodeEscape (0xDC00 + (c.toNat - 65536) % 1024) ++ rest)) = some (c, rest) := by
  have hmax : c.toNat < 0x110000 := by
    have := c.valid
    simp only [UInt32.isValidChar, Nat.isValidChar, Char.toNat] at this ⊢
    omega
  generalize hn : c.toNat - 65536 = n
  have hcode : 0x10000 + (0xD800 + n / 1024 - 0xD800) * 0x400 + (0xDC00 + n % 1024 - 0xDC00)
      = c.toNat := by omega
  exact unicodeEscape?_eq_some_iff.mpr (.inr (.inr ⟨_, _, _, hex4?_hex (by omega) _, by omega,
    hex4?_hex (by omega) rest, by omega, by rw [hcode, charOf?_toNat]⟩))

/-! ### Characters and texts -/

/-- What stands for a character in a quoted text is read as the character. -/
theorem scanString_literalChar (c : Char) : scanString (n + 1) done (literalChar c ++ rest)
    = scanString n (c :: done) rest := by
  have hletter : ∀ e d : Char, e ≠ 'u' → letterEscape? e = some d → c = d →
      scanString (n + 1) done (['\\', e] ++ rest) = scanString n (c :: done) rest := by
    rintro e d hu he rfl
    rw [List.cons_append, List.cons_append, List.nil_append, scanString_letter hu, he]
  have hcode : ∀ m : Nat, m.isValidChar → c.toNat = m → c = Char.ofNat m := by
    rintro m - rfl
    exact (Char.ofNat_toNat c).symm
  unfold literalChar
  split
  · rename_i hc
    rw [Bool.or_eq_true, beq_iff_eq, beq_iff_eq] at hc
    rcases hc with rfl | rfl <;> exact hletter _ _ (by decide) rfl rfl
  rename_i hplain
  rw [Bool.or_eq_true, beq_iff_eq, beq_iff_eq, not_or] at hplain
  split
  · rename_i hc
    exact hletter 'n' _ (by decide) rfl (beq_iff_eq.mp hc)
  rename_i hline
  split
  · rename_i hc
    exact hletter 'r' _ (by decide) rfl (beq_iff_eq.mp hc)
  rename_i hreturn
  split
  · rename_i hc
    exact hletter 't' _ (by decide) rfl (beq_iff_eq.mp hc)
  split
  · rename_i hc
    exact hletter 'b' _ (by decide) rfl (hcode 8 (by decide) (beq_iff_eq.mp hc))
  split
  · rename_i hc
    exact hletter 'f' _ (by decide) rfl (hcode 12 (by decide) (beq_iff_eq.mp hc))
  split
  · have hend : isLineEnd c = false := by
      simp only [isLineEnd, Bool.or_eq_false_iff]
      exact ⟨Bool.eq_false_iff.mpr hline, Bool.eq_false_iff.mpr hreturn⟩
    rw [List.cons_append, List.nil_append, scanString_plain hplain.1 hplain.2, hend]
    rfl
  split
  · rename_i hbasic
    rw [unicodeEscape, List.cons_append, List.cons_append, scanString_unicode,
      unicodeEscape?_basic hbasic]
  · rename_i hbeyond
    dsimp only
    rw [unicodeEscape, List.append_assoc, List.cons_append, List.cons_append, scanString_unicode,
      unicodeEscape?_beyond (by omega)]

theorem scanString_literal (cs : List Char) (h : cs.length < n) :
    scanString n done (cs.flatMap literalChar ++ ['"'])
      = some (.string (String.ofList (done.reverse ++ cs)), []) := by
  induction cs generalizing n done with
  | nil =>
    obtain ⟨n, rfl⟩ : ∃ k, n = k + 1 := ⟨n - 1, by omega⟩
    simp [scanString]
  | cons c cs ih =>
    obtain ⟨n, rfl⟩ : ∃ k, n = k + 1 := ⟨n - 1, by omega⟩
    rw [List.flatMap_cons, List.append_assoc, scanString_literalChar,
      ih (Nat.lt_of_succ_lt_succ h), List.reverse_cons, List.append_assoc]
    rfl

/-- What stands for a character starts with no quote. -/
theorem head?_literalChar (c : Char) : ∃ d ds, literalChar c = d :: ds ∧ d ≠ '"' := by
  unfold literalChar
  split
  · exact ⟨_, _, rfl, by decide⟩
  rename_i hplain
  rw [Bool.or_eq_true, beq_iff_eq, beq_iff_eq, not_or] at hplain
  iterate 5
    split
    · exact ⟨_, _, rfl, by decide⟩
  split
  · exact ⟨_, _, rfl, hplain.1⟩
  split <;> exact ⟨_, _, rfl, by decide⟩

theorem length_le_flatMap_literalChar (cs : List Char) :
    cs.length ≤ (cs.flatMap literalChar).length := by
  induction cs with
  | nil => exact Nat.le_refl _
  | cons c cs ih =>
    obtain ⟨d, ds, hd, -⟩ := head?_literalChar c
    rw [List.flatMap_cons, hd, List.length_append, List.length_cons, List.length_cons]
    omega

/-- **A quoted text is one token with the text.** -/
theorem Spells.literal (s : String) : Spells (Text.literal s).toList [.string s] := by
  have hlength := length_le_flatMap_literalChar s.toList
  have hread : scanString ((s.toList.flatMap literalChar ++ ['"']).length + 1) []
      (s.toList.flatMap literalChar ++ ['"']) = some (.string s, []) := by
    rw [scanString_literal _ (by rw [List.length_append]; omega), List.reverse_nil, List.nil_append,
      String.ofList_toList]
  have hblock : ∀ tail, s.toList.flatMap literalChar ++ ['"'] ≠ '"' :: '"' :: tail := by
    intro tail heq
    cases hs : s.toList with
    | nil =>
      rw [hs] at heq
      cases heq
    | cons c cs =>
      obtain ⟨d, ds, hd, hne⟩ := head?_literalChar c
      rw [hs, List.flatMap_cons, hd] at heq
      exact hne (List.cons.inj heq).1
  rw [Text.literal, String.toList_ofList]
  have hend : Spells [] [] := .done rfl
  have hdrop : ('"' :: (s.toList.flatMap literalChar ++ ['"'])).dropWhile isSeparator
      = '"' :: (s.toList.flatMap literalChar ++ ['"']) := List.dropWhile_cons_of_neg (by decide)
  refine .token hdrop ?_ hend
  have hmark : markOf? '"' = none := rfl
  unfold scan
  rw [hmark]
  simp only [beq_iff_eq, if_true, show ('"' : Char) ≠ '.' from by decide, if_false]
  exact hread

end SchemaForge.Language

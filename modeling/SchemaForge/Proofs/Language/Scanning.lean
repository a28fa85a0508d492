import SchemaForge.Language.Token

/-!
# Tokens in context

A token that is read from a text is read in the same way wherever the text stands, as long as
what follows cannot go on with it. This is shown here for every reader of characters; the
readers of numbers, texts and block texts are taken one after another.
-/
namespace SchemaForge.Language

/-- Whether a character can go on with a token before it. -/
def goesOn (c : Char) : Bool := isNameChar c || c == '.' || c == '"'

/-- No token before a text goes on into it. -/
def Stops (rest : List Char) : Prop := ∀ c ∈ rest.head?, goesOn c = false

/-- A reader of characters reads in context what it reads alone, and leaves no more than it
got. -/
structure Scans {α : Type} (f : List Char → Option (α × List Char)) : Prop where
  /-- What follows is left as it is. -/
  append : ∀ {cs x r} rest, f cs = some (x, r) → (r = [] → Stops rest) →
    f (cs ++ rest) = some (x, r ++ rest)
  /-- What is left was there. -/
  length_le : ∀ {cs x r}, f cs = some (x, r) → r.length ≤ cs.length

variable {cs r rest : List Char} {c : Char}

/-- What becomes of the value that is read does not matter. -/
theorem Scans.map {α β : Type} {f : List Char → Option (α × List Char)} (h : Scans f)
    (g : α → β) : Scans fun cs => (f cs).map fun x => (g x.1, x.2) := by
  constructor
  · intro cs x r rest hx hr
    obtain ⟨⟨_, _⟩, hread, heq⟩ := Option.map_eq_some_iff.mp hx
    cases heq
    simp only [h.append rest hread hr, Option.map_some]
  · intro cs x r hx
    obtain ⟨⟨_, _⟩, hread, heq⟩ := Option.map_eq_some_iff.mp hx
    cases heq
    exact h.length_le hread

theorem Stops.digit (h : Stops rest) : ∀ c ∈ rest.head?, Text.isAsciiDigit c = false := by
  intro c hc
  have := h c hc
  simp only [goesOn, isNameChar, Bool.or_eq_false_iff] at this
  exact this.1.1.2

theorem Stops.nameChar (h : Stops rest) : ∀ c ∈ rest.head?, isNameChar c = false := by
  intro c hc
  have := h c hc
  simp only [goesOn, Bool.or_eq_false_iff] at this
  exact this.1.1

/-- A run of characters ends where it ended, unless it goes on into what follows. -/
theorem span_append (p : Char → Bool) (rest : List Char)
    (h : cs.dropWhile p = [] → ∀ c ∈ rest.head?, p c = false) :
    (cs ++ rest).takeWhile p = cs.takeWhile p ∧ (cs ++ rest).dropWhile p = cs.dropWhile p ++ rest := by
  induction cs with
  | nil =>
    cases rest with
    | nil => exact ⟨rfl, rfl⟩
    | cons c rest =>
      have hc : p c = false := h rfl c rfl
      simp [hc]
  | cons c cs ih =>
    cases hc : p c with
    | false => simp [hc]
    | true =>
      rw [List.dropWhile_cons_of_pos hc] at h
      simp [hc, ih h]

/-! ### Numbers -/

theorem scans_digits : Scans digits? := by
  constructor
  · intro cs x r rest h hr
    unfold digits? at h ⊢
    cases hds : cs.takeWhile Text.isAsciiDigit with
    | nil => rw [hds] at h; cases h
    | cons d ds =>
      rw [hds] at h
      cases h
      have hspan := span_append Text.isAsciiDigit rest fun h => (hr h).digit
      rw [hspan.1, hspan.2, hds]
  · intro cs x r h
    unfold digits? at h
    split at h
    · cases h
    · cases h
      exact (List.dropWhile_sublist _).length_le

theorem scans_wholePart : Scans wholePart? := by
  constructor
  · intro cs x r rest h hr
    cases cs with
    | nil => cases h
    | cons c cs =>
      by_cases hc : c = '0'
      · subst hc
        cases cs with
        | nil =>
          cases h
          cases rest with
          | nil => rfl
          | cons d rest =>
            have hd : Text.isAsciiDigit d = false := (hr rfl).digit d rfl
            simp [wholePart?, hd]
        | cons d cs =>
          simp only [wholePart?] at h
          split at h
          · cases h
          · rename_i hd
            cases h
            simp only [wholePart?, List.cons_append, if_neg hd]
      · have hother : ∀ ds : List Char, wholePart? (c :: ds) = digits? (c :: ds) := by
          intro ds
          unfold wholePart?
          split
          · rename_i heq
            cases heq
            exact absurd rfl hc
          · rfl
        rw [hother] at h
        rw [List.cons_append, hother]
        exact scans_digits.append rest h hr
  · intro cs x r h
    unfold wholePart? at h
    split at h
    · split at h
      · split at h
        · cases h
        · cases h
          simp
      · cases h
        simp
    · exact scans_digits.length_le h

theorem scans_fraction : Scans fraction? := by
  constructor
  · intro cs x r rest h hr
    cases cs with
    | nil =>
      cases h
      cases rest with
      | nil => rfl
      | cons d rest =>
        have hd : d ≠ '.' := by
          rintro rfl
          have := hr rfl '.' rfl
          revert this
          decide
        simp [fraction?, hd]
    | cons c cs =>
      by_cases hc : c = '.'
      · subst hc
        simp only [fraction?, List.cons_append] at h ⊢
        obtain ⟨⟨ds, r'⟩, hds, hx⟩ := Option.map_eq_some_iff.mp h
        cases hx
        rw [scans_digits.append rest hds hr]
        rfl
      · have hother : ∀ ds : List Char, fraction? (c :: ds) = some ([], c :: ds) := by
          intro ds
          simp [fraction?, hc]
        rw [hother] at h
        cases h
        exact hother _
  · intro cs x r h
    unfold fraction? at h
    split at h
    · obtain ⟨⟨ds, r'⟩, hds, hx⟩ := Option.map_eq_some_iff.mp h
      cases hx
      exact Nat.le_succ_of_le (scans_digits.length_le hds)
    · cases h
      exact Nat.le_refl _

/-- An exponent is a letter, perhaps a sign, and digits. -/
theorem exponent?_eq {c : Char} (hc : (c == 'e' || c == 'E') = true) (d : Char) :
    (∀ ds, exponent? (c :: d :: ds) = (digits? ds).map fun x => ([c, d] ++ x.1, x.2))
    ∨ ∀ ds, exponent? (c :: d :: ds) = (digits? (d :: ds)).map fun x => ([c] ++ x.1, x.2) := by
  by_cases hplus : d = '+'
  · subst hplus
    refine .inl fun ds => ?_
    rw [exponent?, if_pos hc]
    rfl
  · by_cases hminus : d = '-'
    · subst hminus
      refine .inl fun ds => ?_
      rw [exponent?, if_pos hc]
      rfl
    · refine .inr fun ds => ?_
      rw [exponent?, if_pos hc]
      · rfl
      · exact fun r h => hplus (List.cons.inj h).1
      · exact fun r h => hminus (List.cons.inj h).1

theorem scans_exponent : Scans exponent? := by
  have hsigned : ∀ sign : List Char, Scans fun cs =>
      (digits? cs).map fun x => (sign ++ x.1, x.2) := fun sign => scans_digits.map (sign ++ ·)
  constructor
  · intro cs x r rest h hr
    cases cs with
    | nil =>
      cases h
      cases rest with
      | nil => rfl
      | cons d rest =>
        have hd : ¬((d == 'e' || d == 'E') = true) := by
          intro hd
          have hname := (hr rfl).nameChar d rfl
          rcases Bool.or_eq_true_iff.mp hd with hd | hd <;>
            (rw [beq_iff_eq.mp hd] at hname; revert hname; decide)
        simp [exponent?, hd]
    | cons c cs =>
      by_cases hc : (c == 'e' || c == 'E') = true
      · cases cs with
        | nil =>
          simp [exponent?, hc, digits?] at h
        | cons d cs =>
          rcases exponent?_eq hc d with hread | hread
          · exact (hread _).trans ((hsigned [c, d]).append rest ((hread cs).symm.trans h) hr)
          · exact (hread _).trans ((hsigned [c]).append rest ((hread cs).symm.trans h) hr)
      · have hnone : ∀ cs, exponent? (c :: cs) = some ([], c :: cs) := fun cs => by
          unfold exponent?
          exact if_neg hc
        rw [hnone] at h
        cases h
        exact hnone _
  · intro cs x r h
    unfold exponent? at h
    split at h
    · rename_i c cs
      split at h
      · split at h
        · have := (hsigned [c, '+']).length_le h
          exact Nat.le_succ_of_le (Nat.le_succ_of_le this)
        · have := (hsigned [c, '-']).length_le h
          exact Nat.le_succ_of_le (Nat.le_succ_of_le this)
        · have := (hsigned [c]).length_le h
          exact Nat.le_succ_of_le this
      · cases h
        exact Nat.le_refl _
    · cases h
      exact Nat.le_refl _

/-- What a number is read from: its three parts, with nothing after them that goes on. -/
theorem scanNumber_eq_some_iff {sign : List Char} {t : Token} :
    scanNumber sign cs = some (t, r) ↔ ∃ whole r1 frac r2 exp,
      wholePart? cs = some (whole, r1) ∧ fraction? r1 = some (frac, r2)
        ∧ exponent? r2 = some (exp, r)
        ∧ (if frac.isEmpty && exp.isEmpty then .int (String.ofList (sign ++ whole ++ frac ++ exp))
            else .float (String.ofList (sign ++ whole ++ frac ++ exp))) = t
        ∧ ∀ c ∈ r.head?, (c == '.' || isNameStart c) = false := by
  unfold scanNumber
  simp only [Option.bind_eq_bind, Option.bind_eq_some_iff, Prod.exists]
  constructor
  · rintro ⟨whole, r1, hwhole, frac, r2, hfrac, exp, r3, hexp, h⟩
    split at h
    · rename_i c r3
      split at h
      · cases h
      · rename_i hc
        cases h
        refine ⟨whole, r1, frac, r2, exp, hwhole, hfrac, hexp, rfl, fun d hd => ?_⟩
        cases hd
        exact Bool.not_eq_true _ ▸ hc
    · cases h
      exact ⟨whole, r1, frac, r2, exp, hwhole, hfrac, hexp, rfl, fun _ hd => by cases hd⟩
  · rintro ⟨whole, r1, frac, r2, exp, hwhole, hfrac, hexp, rfl, hr⟩
    refine ⟨whole, r1, hwhole, frac, r2, hfrac, exp, r, hexp, ?_⟩
    cases r with
    | nil => rfl
    | cons c r => simp only [hr c rfl, Bool.false_eq_true, if_false]

theorem scans_number (sign : List Char) : Scans (scanNumber sign) := by
  constructor
  · intro cs t r rest h hr
    obtain ⟨whole, r1, frac, r2, exp, hwhole, hfrac, hexp, ht, hend⟩ := scanNumber_eq_some_iff.mp h
    have h2 := scans_exponent.length_le hexp
    have h1 := scans_fraction.length_le hfrac
    have hempty : ∀ {l : List Char}, r.length ≤ l.length → l = [] → r = [] := by
      rintro l hl rfl
      exact List.eq_nil_of_length_eq_zero (Nat.le_zero.mp hl)
    refine scanNumber_eq_some_iff.mpr ⟨whole, r1 ++ rest, frac, r2 ++ rest, exp,
      scans_wholePart.append rest hwhole fun h => hr (hempty (Nat.le_trans h2 h1) h),
      scans_fraction.append rest hfrac fun h => hr (hempty h2 h),
      scans_exponent.append rest hexp hr, ht, fun c hc => ?_⟩
    cases r with
    | nil =>
      have hgoes := hr rfl c hc
      simp only [goesOn, isNameChar, Bool.or_eq_false_iff] at hgoes ⊢
      exact ⟨hgoes.1.2, hgoes.1.1.1⟩
    | cons d r => exact hend c hc
  · intro cs t r h
    obtain ⟨whole, r1, frac, r2, exp, hwhole, hfrac, hexp, -⟩ := scanNumber_eq_some_iff.mp h
    exact Nat.le_trans (scans_exponent.length_le hexp)
      (Nat.le_trans (scans_fraction.length_le hfrac) (scans_wholePart.length_le hwhole))

/-! ### Texts -/

theorem scans_hex4 : Scans hex4? := by
  constructor
  · intro cs x r rest h hr
    unfold hex4? at h
    split at h
    · simp only [Option.bind_eq_bind, Option.bind_eq_some_iff] at h
      obtain ⟨a, ha, b, hb, c, hc, d, hd, hx⟩ := h
      cases hx
      simp [hex4?, ha, hb, hc, hd]
    · cases h
  · intro cs x r h
    unfold hex4? at h
    split at h
    · simp only [Option.bind_eq_bind, Option.bind_eq_some_iff] at h
      obtain ⟨a, ha, b, hb, c, hc, d, hd, hx⟩ := h
      cases hx
      simp only [List.length_cons]
      omega
    · cases h

theorem scans_hexBraced : Scans hexBraced? := by
  have hsplit : ∀ cs : List Char, cs.drop (cs.takeWhile (· != '\x7d')).length
      = cs.dropWhile (· != '\x7d') := by
    intro cs
    have hcs := List.takeWhile_append_dropWhile (p := (· != '\x7d')) (l := cs)
    have hdrop := congrArg (List.drop (cs.takeWhile (· != '\x7d')).length) hcs
    rw [List.drop_left] at hdrop
    exact hdrop.symm
  constructor
  · intro cs x r rest h hr
    unfold hexBraced? at h ⊢
    simp only [hsplit] at h ⊢
    cases hd : cs.dropWhile (· != '\x7d') with
    | nil => rw [hd] at h; cases h
    | cons c ds =>
      have hends : cs.dropWhile (· != '\x7d') = [] → ∀ c ∈ rest.head?, (c != '\x7d') = false :=
        fun hnil => by rw [hd] at hnil; cases hnil
      have hspan := span_append (· != '\x7d') rest hends
      rw [hspan.1, hspan.2, hd]
      rw [hd] at h
      dsimp only [List.cons_append] at h ⊢
      split at h
      · rename_i heq
        cases heq
        split at h
        · rename_i hlength
          simp only [if_pos hlength]
          obtain ⟨vs, hvs, hx⟩ := Option.map_eq_some_iff.mp h
          cases hx
          rw [hvs]
          rfl
        · cases h
      · cases h
  · intro cs x r h
    unfold hexBraced? at h
    simp only [hsplit] at h
    split at h
    · rename_i rest hd
      split at h
      · obtain ⟨vs, -, hx⟩ := Option.map_eq_some_iff.mp h
        cases hx
        have hle := (List.dropWhile_sublist (· != '\x7d') (l := cs)).length_le
        rw [hd] at hle
        exact Nat.le_of_succ_le hle
      · cases h
    · cases h

/-- Four digits do not start with a brace, so that the forms of a code do not overlap. -/
theorem hex4?_brace (ds : List Char) : hex4? ('\x7b' :: ds) = none := by
  have hdigit : hexDigit? '\x7b' = none := by decide
  unfold hex4?
  split
  · rename_i heq
    cases heq
    rw [hdigit]
    rfl
  · rfl

theorem unicodeEscape?_of_ne_brace (h : ∀ ds, cs ≠ '\x7b' :: ds) :
    unicodeEscape? cs = (hex4? cs).bind fun (n, rest) =>
      if 0xD800 ≤ n ∧ n < 0xDC00 then
        match rest with
        | '\\' :: 'u' :: rest => (hex4? rest).bind fun (m, rest) =>
          if 0xDC00 ≤ m ∧ m < 0xE000 then
            (charOf? (0x10000 + (n - 0xD800) * 0x400 + (m - 0xDC00))).bind fun c => some (c, rest)
          else none
        | _ => none
      else (charOf? n).bind fun c => some (c, rest) := by
  unfold unicodeEscape?
  split
  · rename_i ds
    exact absurd rfl (h ds)
  · rfl

/-- A code stands in braces, is one unit of four digits, or two units of four digits. -/
theorem unicodeEscape?_eq_some_iff {x : Char} : unicodeEscape? cs = some (x, r) ↔
    (∃ ds n, cs = '\x7b' :: ds ∧ hexBraced? ds = some (n, r) ∧ charOf? n = some x)
    ∨ (∃ n, hex4? cs = some (n, r) ∧ ¬(0xD800 ≤ n ∧ n < 0xDC00) ∧ charOf? n = some x)
    ∨ ∃ n ds m, hex4? cs = some (n, '\\' :: 'u' :: ds) ∧ (0xD800 ≤ n ∧ n < 0xDC00)
      ∧ hex4? ds = some (m, r) ∧ (0xDC00 ≤ m ∧ m < 0xE000)
      ∧ charOf? (0x10000 + (n - 0xD800) * 0x400 + (m - 0xDC00)) = some x := by
  by_cases hbrace : ∃ ds, cs = '\x7b' :: ds
  · obtain ⟨ds, rfl⟩ := hbrace
    simp only [unicodeEscape?, hex4?_brace, Option.bind_eq_bind, Option.bind_eq_some_iff]
    grind
  rw [unicodeEscape?_of_ne_brace fun ds hcs => hbrace ⟨ds, hcs⟩, Option.bind_eq_some_iff]
  constructor
  · rintro ⟨⟨n, tail⟩, hn, h⟩
    dsimp only at h
    split at h
    · rename_i hhigh
      split at h
      · rename_i ds
        obtain ⟨⟨m, r1⟩, hm, h⟩ := Option.bind_eq_some_iff.mp h
        dsimp only at h
        split at h
        · rename_i hlow
          obtain ⟨x', hx, h⟩ := Option.bind_eq_some_iff.mp h
          cases h
          exact .inr (.inr ⟨n, ds, m, hn, hhigh, hm, hlow, hx⟩)
        · cases h
      · cases h
    · rename_i hbasic
      obtain ⟨x', hx, h⟩ := Option.bind_eq_some_iff.mp h
      cases h
      exact .inr (.inl ⟨n, hn, hbasic, hx⟩)
  · rintro (⟨ds, n, hcs, -⟩ | ⟨n, hn, hbasic, hx⟩ | ⟨n, ds, m, hn, hhigh, hm, hlow, hx⟩)
    · exact absurd ⟨ds, hcs⟩ hbrace
    · exact ⟨_, hn, by simp only [if_neg hbasic, hx, Option.bind_some]⟩
    · exact ⟨_, hn, by simp only [if_pos hhigh, hm, if_pos hlow, hx, Option.bind_some]⟩

theorem scans_unicodeEscape : Scans unicodeEscape? := by
  constructor
  · intro cs x r rest h hr
    refine unicodeEscape?_eq_some_iff.mpr ?_
    rcases unicodeEscape?_eq_some_iff.mp h with ⟨ds, n, rfl, hn, hx⟩ | ⟨n, hn, hbasic, hx⟩
      | ⟨n, ds, m, hn, hhigh, hm, hlow, hx⟩
    · exact .inl ⟨ds ++ rest, n, rfl, scans_hexBraced.append rest hn hr, hx⟩
    · exact .inr (.inl ⟨n, scans_hex4.append rest hn hr, hbasic, hx⟩)
    · have hn' := scans_hex4.append rest hn fun hnil => by cases hnil
      exact .inr (.inr ⟨n, ds ++ rest, m, hn', hhigh, scans_hex4.append rest hm hr, hlow, hx⟩)
  · intro cs x r h
    rcases unicodeEscape?_eq_some_iff.mp h with ⟨ds, n, rfl, hn, -⟩ | ⟨n, hn, -⟩
      | ⟨n, ds, m, hn, -, hm, -⟩
    · exact Nat.le_succ_of_le (scans_hexBraced.length_le hn)
    · exact scans_hex4.length_le hn
    · have h1 := scans_hex4.length_le hn
      have h2 := scans_hex4.length_le hm
      simp only [List.length_cons] at h1
      omega

theorem scanString_plain {n : Nat} {done : List Char} (hq : c ≠ '"') (hb : c ≠ '\\') :
    scanString (n + 1) done (c :: cs)
      = if isLineEnd c then none else scanString n (c :: done) cs := by
  simp [scanString, hb]

theorem scanString_unicode {n : Nat} {done : List Char} : scanString (n + 1) done ('\\' :: 'u' :: cs)
    = match unicodeEscape? cs with
      | some (c, rest) => scanString n (c :: done) rest
      | none => none := rfl

theorem scanString_letter {n : Nat} {done : List Char} (hu : c ≠ 'u') :
    scanString (n + 1) done ('\\' :: c :: cs)
      = match letterEscape? c with
        | some c => scanString n (c :: done) cs
        | none => none := by
  cases hc : letterEscape? c <;> simp only [scanString, hc]

/-- The first step of a quoted text that is read: its end, or one character more. Either is the
same in context. -/
theorem scanString_step {n : Nat} {done : List Char} {t : Token}
    (h : scanString (n + 1) done cs = some (t, r)) :
    (r.length ≤ cs.length ∧ ∀ m rest, scanString (m + 1) done (cs ++ rest) = some (t, r ++ rest))
    ∨ ∃ x tail, scanString n (x :: done) tail = some (t, r) ∧ tail.length ≤ cs.length
      ∧ ∀ m rest, scanString (m + 1) done (cs ++ rest) = scanString m (x :: done) (tail ++ rest) := by
  cases cs with
  | nil => cases h
  | cons c cs =>
    by_cases hq : c = '"'
    · subst hq
      cases h
      exact .inl ⟨Nat.le_succ _, fun _ _ => rfl⟩
    by_cases hb : c = '\\'
    · subst hb
      cases cs with
      | nil => cases h
      | cons c cs =>
        by_cases hu : c = 'u'
        · subst hu
          rw [scanString_unicode] at h
          split at h
          · rename_i x tail hread
            -- Nothing is read where the text is over without its closing quote.
            have hstops : ∀ rest, tail = [] → Stops rest := by
              rintro rest rfl
              cases n <;> cases h
            refine .inr ⟨x, tail, h, ?_, fun m rest => ?_⟩
            · exact Nat.le_succ_of_le (Nat.le_succ_of_le (scans_unicodeEscape.length_le hread))
            · rw [List.cons_append, List.cons_append, scanString_unicode,
                scans_unicodeEscape.append rest hread (hstops rest)]
          · cases h
        · rw [scanString_letter hu] at h
          split at h
          · rename_i x hletter
            refine .inr ⟨x, cs, h, Nat.le_succ_of_le (Nat.le_succ _), fun m rest => ?_⟩
            rw [List.cons_append, List.cons_append, scanString_letter hu, hletter]
          · cases h
    · rw [scanString_plain hq hb] at h
      split at h
      · cases h
      · rename_i hend
        refine .inr ⟨c, cs, h, Nat.le_succ _, fun m rest => ?_⟩
        rw [List.cons_append, scanString_plain hq hb, if_neg hend]

/-- A quoted text is read in context, with more fuel if there is more, and leaves no more than
it got. -/
theorem scanString_append {n : Nat} {done : List Char} {t : Token}
    (h : scanString n done cs = some (t, r)) :
    (∀ (rest : List Char) {m : Nat}, n ≤ m → scanString m done (cs ++ rest) = some (t, r ++ rest))
      ∧ r.length ≤ cs.length := by
  induction n generalizing done cs with
  | zero => cases h
  | succ n ih =>
    have hfuel : ∀ {m}, n + 1 ≤ m → ∃ k, m = k + 1 ∧ n ≤ k := fun {m} hm => ⟨m - 1, by omega, by omega⟩
    rcases scanString_step h with ⟨hle, hends⟩ | ⟨x, tail, htail, hle, hgoes⟩
    · refine ⟨fun rest m hm => ?_, hle⟩
      obtain ⟨k, rfl, -⟩ := hfuel hm
      exact hends k rest
    · obtain ⟨hread, hle'⟩ := ih htail
      refine ⟨fun rest m hm => ?_, Nat.le_trans hle' hle⟩
      obtain ⟨k, rfl, hk⟩ := hfuel hm
      rw [hgoes]
      exact hread rest hk

/-! ### Block texts -/

/-- Text that does not start with some characters does not start with them in context, if it
is long enough. -/
theorem not_prefix_append {start : List Char} (h : ∀ tail, cs ≠ start ++ tail)
    (hlength : start.length ≤ cs.length) (tail : List Char) : cs ++ rest ≠ start ++ tail := by
  intro heq
  have hstart : start <+: cs ++ rest := ⟨tail, heq.symm⟩
  obtain ⟨tail', htail⟩ := List.prefix_of_prefix_length_le hstart (List.prefix_append cs rest) hlength
  exact h tail' htail.symm

/-- A character of a block text that ends neither the text nor a line in a longer way does so
in no context, if enough follows it. -/
theorem blockLines_cons_append {line tail : List Char} {done : List (List Char)}
    (h1 : ∀ t, c = '"' → tail = '"' :: '"' :: t → False)
    (h2 : ∀ t, c = '\\' → tail = '"' :: '"' :: '"' :: t → False)
    (h3 : ∀ t, c = '\r' → tail = '\n' :: t → False) (hlength : 3 ≤ tail.length)
    (rest : List Char) : blockLines line done (c :: (tail ++ rest))
      = if isLineEnd c then blockLines [] (line.reverse :: done) (tail ++ rest)
        else blockLines (c :: line) done (tail ++ rest) := by
  have hends : ∀ t, c = '"' → tail ++ rest ≠ ['"', '"'] ++ t := fun t hc =>
    not_prefix_append (fun t' => h1 t' hc) (by simp; omega) t
  have hquotes : ∀ t, c = '\\' → tail ++ rest ≠ ['"', '"', '"'] ++ t := fun t hc =>
    not_prefix_append (fun t' => h2 t' hc) (by simp; omega) t
  have hline : ∀ t, c = '\r' → tail ++ rest ≠ ['\n'] ++ t := fun t hc =>
    not_prefix_append (fun t' => h3 t' hc) (by simp; omega) t
  exact blockLines.eq_4 line done c (tail ++ rest) hends hquotes hline

/-- A block text is read in context. It takes its closing quotes. -/
theorem blockLines_append {line : List Char} {done ls : List (List Char)}
    (h : blockLines line done cs = some (ls, r)) :
    (∀ rest, blockLines line done (cs ++ rest) = some (ls, r ++ rest))
      ∧ r.length + 3 ≤ cs.length := by
  induction line, done, cs using blockLines.induct with
  | case1 line done tail =>
    cases h
    exact ⟨fun rest => rfl, Nat.le_refl _⟩
  | case2 line done tail ih =>
    have hread := ih h
    refine ⟨hread.1, ?_⟩
    have := hread.2
    simp only [List.length_cons]
    omega
  | case3 line done tail ih =>
    have hread := ih h
    refine ⟨hread.1, ?_⟩
    have := hread.2
    simp only [List.length_cons]
    omega
  | case4 line done c tail h1 h2 h3 hend ih =>
    rw [blockLines.eq_4 line done c tail h1 h2 h3, if_pos hend] at h
    obtain ⟨hread, hle⟩ := ih h
    refine ⟨fun rest => ?_, Nat.le_succ_of_le hle⟩
    rw [List.cons_append, blockLines_cons_append h1 h2 h3 (by omega), if_pos hend]
    exact hread rest
  | case5 line done c tail h1 h2 h3 hend ih =>
    rw [blockLines.eq_4 line done c tail h1 h2 h3, if_neg hend] at h
    obtain ⟨hread, hle⟩ := ih h
    refine ⟨fun rest => ?_, Nat.le_succ_of_le hle⟩
    rw [List.cons_append, blockLines_cons_append h1 h2 h3 (by omega), if_neg hend]
    exact hread rest
  | case6 => cases h

/-! ### All tokens -/

theorem scans_string : Scans fun cs => scanString (cs.length + 1) [] cs := by
  constructor
  · intro cs x r rest h _
    exact (scanString_append h).1 rest (by simp)
  · intro cs x r h
    exact (scanString_append h).2

theorem scans_block : Scans (blockLines [] []) := by
  constructor
  · intro cs x r rest h _
    exact (blockLines_append h).1 rest
  · intro cs x r h
    have := (blockLines_append h).2
    omega

/-- What follows an opening quote: a block text after two more, and a quoted text else. -/
theorem scans_quote : Scans fun cs => match cs with
    | '"' :: '"' :: rest =>
      (blockLines [] [] rest).map fun (ls, r) =>
        (Token.block (String.ofList (joinLines (dedent ls))), r)
    | _ => scanString (cs.length + 1) [] cs := by
  have hblock := scans_block.map fun ls => Token.block (String.ofList (joinLines (dedent ls)))
  have hplain : ∀ {cs : List Char}, (∀ tail, cs ≠ ['"', '"'] ++ tail) → (match cs with
      | '"' :: '"' :: rest =>
        (blockLines [] [] rest).map fun (ls, r) =>
          (Token.block (String.ofList (joinLines (dedent ls))), r)
      | _ => scanString (cs.length + 1) [] cs) = scanString (cs.length + 1) [] cs := by
    intro cs h
    split
    · rename_i tail
      exact absurd rfl (h tail)
    · rfl
  constructor
  · intro cs t r rest h hr
    by_cases hcs : ∃ tail, cs = ['"', '"'] ++ tail
    · obtain ⟨tail, rfl⟩ := hcs
      exact hblock.append rest h hr
    · have hcs : ∀ tail, cs ≠ ['"', '"'] ++ tail := fun tail heq => hcs ⟨tail, heq⟩
      rw [hplain hcs] at h
      refine (hplain fun tail => ?_).trans (scans_string.append rest h hr)
      cases cs with
      | nil => cases h
      | cons c cs =>
        cases cs with
        | cons d cs => exact not_prefix_append hcs (by simp) tail
        | nil =>
          intro heq
          obtain ⟨rfl, hrest⟩ := List.cons.inj heq
          cases h
          have hquote := hr rfl '"' (by rw [show rest = '"' :: tail from hrest]; rfl)
          exact absurd hquote (by decide)
  · intro cs t r h
    by_cases hcs : ∃ tail, cs = ['"', '"'] ++ tail
    · obtain ⟨tail, rfl⟩ := hcs
      exact Nat.le_succ_of_le (Nat.le_succ_of_le (hblock.length_le h))
    · rw [hplain fun tail heq => hcs ⟨tail, heq⟩] at h
      exact scans_string.length_le h

/-- A number takes at least one character. -/
theorem length_lt_of_scanNumber {sign : List Char} {t : Token}
    (h : scanNumber sign cs = some (t, r)) : r.length < cs.length := by
  have hdigits : ∀ {cs ds r : List Char}, digits? cs = some (ds, r) → r.length < cs.length := by
    intro cs ds r h
    have hsplit := congrArg List.length
      (List.takeWhile_append_dropWhile (p := Text.isAsciiDigit) (l := cs))
    unfold digits? at h
    split at h
    · cases h
    · rename_i hsome
      cases h
      have := List.length_pos_iff.mpr hsome
      rw [List.length_append] at hsplit
      omega
  have hwhole : ∀ {cs ds r : List Char}, wholePart? cs = some (ds, r) → r.length < cs.length := by
    intro cs ds r h
    unfold wholePart? at h
    split at h
    · split at h
      · split at h
        · cases h
        · cases h
          simp
      · cases h
        simp
    · exact hdigits h
  obtain ⟨whole, r1, frac, r2, exp, h1, h2, h3, -⟩ := scanNumber_eq_some_iff.mp h
  exact Nat.lt_of_le_of_lt (Nat.le_trans (scans_exponent.length_le h3)
    (scans_fraction.length_le h2)) (hwhole h1)

/-- **The token that starts with a given character is read in context.** -/
theorem scans_scan (c : Char) : Scans (scan c) := by
  unfold scan
  cases hmark : markOf? c with
  | some m =>
    constructor
    · intro cs t r rest h _
      cases h
      rfl
    · intro cs t r h
      cases h
      exact Nat.le_refl _
  | none =>
    dsimp only
    split
    · constructor
      · intro cs t r rest h _
        split at h
        · cases h
          rfl
        · cases h
      · intro cs t r h
        split at h
        · cases h
          simp only [List.length_cons]
          omega
        · cases h
    · split
      · exact scans_quote
      · split
        · constructor
          · intro cs t r rest h hr
            cases h
            have hspan := span_append isNameChar rest fun hnil => (hr hnil).nameChar
            rw [hspan.1, hspan.2]
          · intro cs t r h
            cases h
            exact (List.dropWhile_sublist _).length_le
        · split
          · exact scans_number _
          · split
            · constructor
              · intro cs t r rest h hr
                exact (scans_number _).append rest h hr
              · intro cs t r h
                exact Nat.le_of_lt_succ (length_lt_of_scanNumber h)
            · constructor
              · intro cs t r rest h
                cases h
              · intro cs t r h
                cases h

end SchemaForge.Language

import SchemaForge.Condition

/-!
# Patterns in memory and in the store

A pattern stands for the same pieces in memory and in the store. What matches by ASCII letters
alone also matches regardless of the case of all letters.

A text matches if it splits into parts, one for each piece of the pattern from left to right. For
a pattern in ASCII these are the texts that a condition in memory selects, where four letters
outside ASCII pose as letters inside. The empty text is the exception: in memory it is like no
pattern, not even like one that any text matches.
-/
namespace SchemaForge

namespace Text

/-! ### Letters without regard to case -/

/-- A letter outside ASCII that counts as one of ASCII when case is ignored: the capital I with a
dot and the small one without count as `i`, the long s as `s`, and the sign of a kelvin as `k`. -/
def Poses (a c : Char) : Prop :=
  asciiLower a = 'i' ∧ (c.toNat = 304 ∨ c.toNat = 305) ∨ asciiLower a = 's' ∧ c.toNat = 383
    ∨ asciiLower a = 'k' ∧ c.toNat = 8490

/-- The lower-case form of a character is itself, or the one that a span of the table moves it
to. -/
theorem toNat_lower (c : Char) : (lower c).toNat = c.toNat ∨ ∃ a b k d, (a, b, k, d) ∈ lowerSpans
    ∧ (a ≤ c.toNat ∧ c.toNat ≤ b ∧ (c.toNat - a) % k = 0)
    ∧ ((lower c).toNat : Int) = c.toNat + d := by
  -- No span leads to a surrogate.
  have hvalid : ∀ e ∈ lowerSpans, 0 < (e.1 : Int) + e.2.2.2 ∧ ((e.2.1 : Int) + e.2.2.2 < 55296
      ∨ 57343 < (e.1 : Int) + e.2.2.2 ∧ (e.2.1 : Int) + e.2.2.2 < 1114112) := by decide +kernel
  rcases mapCase_mem lowerSpans c.toNat with heq | ⟨a, b, k, d, hmem, hcovers, heq⟩
  · left
    rw [lower, heq, Char.ofNat_toNat]
  · right
    have hbounds := hvalid _ hmem
    simp only [CaseSpan.covers, Bool.and_eq_true, decide_eq_true_eq, beq_iff_eq] at hcovers
    obtain ⟨⟨hfirst, hlast⟩, hstep⟩ := hcovers
    dsimp only at hbounds
    have hcode : ((c.toNat : Int) + d).toNat.isValidChar := by
      simp only [Nat.isValidChar]
      omega
    have hlower : (lower c).toNat = ((c.toNat : Int) + d).toNat := by
      rw [lower, heq, Char.ofNat, dif_pos hcode]
      rfl
    exact ⟨a, b, k, d, hmem, ⟨hfirst, hlast, hstep⟩, by omega⟩

/-- Among the first 128 characters lower case is that of ASCII letters. -/
theorem lower_ascii {c : Char} (h : c.toNat < 128) : lower c = asciiLower c := by
  have hspans : ∀ e ∈ lowerSpans.tail, 128 ≤ e.1 := by decide +kernel
  have hmap : mapCase lowerSpans c.toNat = _ := mapCase_ascii hspans h
  unfold asciiLower
  rw [lower, hmap, show 'A'.toNat = 65 from rfl, show 'Z'.toNat = 90 from rfl]
  split
  · congr 1
  · rw [Char.ofNat_toNat]

/-- Outside ASCII two characters have a lower-case form inside, and the letters that share a class
with one of ASCII are the lower-case forms of themselves only. -/
theorem lower_outside {c : Char} (h : 128 ≤ c.toNat) (hdotted : c.toNat ≠ 304)
    (hkelvin : c.toNat ≠ 8490) : 128 ≤ (lower c).toNat
      ∧ ((lower c).toNat = 305 → c.toNat = 305) ∧ ((lower c).toNat = 383 → c.toNat = 383) := by
  have hspans : ∀ e ∈ lowerSpans, e.2.1 < 128 ∨ e.1 = 304 ∧ e.2.1 = 304 ∨ e.1 = 8490 ∧ e.2.1 = 8490
      ∨ (128 ≤ (e.1 : Int) + e.2.2.2 ∧ ∀ m ∈ [305, 383], m < (e.1 : Int) + e.2.2.2
        ∨ (e.2.1 : Int) + e.2.2.2 < m ∨ (e.2.2.1 = 2 ∧ (m - e.2.2.2 - e.1) % 2 = 1)) := by
    decide +kernel
  rcases toNat_lower c with hself | ⟨a, b, k, d, hmem, hcovers, hcode⟩
  · omega
  · have hspan := hspans _ hmem
    simp only [List.forall_mem_cons] at hspan
    rcases hspan with hlow | ⟨hfirst, hlast⟩ | ⟨hfirst, hlast⟩ | ⟨haway, hi, hs, -⟩
    · omega
    · omega
    · omega
    · refine ⟨by omega, fun heq => ?_, fun heq => ?_⟩
      · rcases hi with hi | hi | ⟨rfl, hi⟩ <;> omega
      · rcases hs with hs | hs | ⟨rfl, hs⟩ <;> omega

theorem toNat_asciiLower_lt {c : Char} (h : c.toNat < 128) : (asciiLower c).toNat < 128 := by
  have hall : ∀ n < 128, (asciiLower (Char.ofNat n)).toNat < 128 := by decide +kernel
  simpa using hall c.toNat h

theorem asciiLower_asciiLower {c : Char} (h : c.toNat < 128) :
    asciiLower (asciiLower c) = asciiLower c := by
  have hall : ∀ n < 128, asciiLower (asciiLower (Char.ofNat n)) = asciiLower (Char.ofNat n) := by
    decide +kernel
  simpa using hall c.toNat h

/-- Outside ASCII a character is its own lower-case form in ASCII. -/
theorem asciiLower_outside {c : Char} (h : 128 ≤ c.toNat) : asciiLower c = c := by
  unfold asciiLower
  rw [if_neg]
  rintro ⟨-, hlast⟩
  have hlast : c.toNat ≤ 90 := hlast
  omega

/-- The lower-case form of a letter is that of its own in ASCII. -/
theorem lower_asciiLower (c : Char) : lower (asciiLower c) = lower c := by
  rcases Nat.lt_or_ge c.toNat 128 with hc | hc
  · rw [lower_ascii (toNat_asciiLower_lt hc), lower_ascii hc, asciiLower_asciiLower hc]
  · rw [asciiLower_outside hc]

theorem sameLetter_of_sameAsciiLetter {a b : Char} (h : sameAsciiLetter a b = true) :
    sameLetter a b = true := by
  have heq : lower a = lower b := by
    rw [← lower_asciiLower a, ← lower_asciiLower b, beq_iff_eq.mp h]
  unfold sameLetter
  rw [heq]
  simp

/-- Of the classes of letters only those of `i` and `s` have a member in ASCII. -/
theorem sameClass_iff {x y : Nat} (hx : x < 128) :
    (caseClasses.any fun cls => cls.contains x && cls.contains y) = true
      ↔ x = 105 ∧ (y = 105 ∨ y = 305) ∨ x = 115 ∧ (y = 115 ∨ y = 383) := by
  have hrest : ∀ cls ∈ caseClasses.drop 2, ∀ m ∈ cls, 128 ≤ m := by decide
  have hnone : ((caseClasses.drop 2).any fun cls => cls.contains x && cls.contains y) = false := by
    rw [List.any_eq_false]
    intro cls hcls hboth
    rw [Bool.and_eq_true, List.contains_iff_mem] at hboth
    have hmem := hrest cls hcls x hboth.1
    omega
  rw [show caseClasses = [105, 305] :: [115, 383] :: caseClasses.drop 2 from rfl, List.any_cons,
    List.any_cons, hnone]
  simp only [List.contains_cons, List.contains_nil, Bool.or_false, Bool.or_eq_true,
    Bool.and_eq_true, beq_iff_eq]
  omega

/-- **A character of ASCII counts as another up to the case of ASCII letters, or where the other
poses as it.** -/
theorem sameLetter_iff {a c : Char} (ha : a.toNat < 128) :
    sameLetter a c = true ↔ sameAsciiLetter a c = true ∨ Poses a c := by
  have hsmall := toNat_asciiLower_lt ha
  simp only [sameLetter, lower_ascii ha, Bool.or_eq_true, beq_iff_eq, sameClass_iff hsmall,
    sameAsciiLetter, Poses, ← Char.toNat_inj]
  have hi : 'i'.toNat = 105 := rfl
  have hs : 's'.toNat = 115 := rfl
  have hk : 'k'.toNat = 107 := rfl
  rcases Nat.lt_or_ge c.toNat 128 with hc | hc
  · have hsmallc := toNat_asciiLower_lt hc
    rw [lower_ascii hc]
    omega
  rw [asciiLower_outside hc]
  have hcode : ∀ n m, c.toNat = n → (lower (Char.ofNat n)).toNat = m → (lower c).toNat = m := by
    rintro n m rfl hm
    rwa [Char.ofNat_toNat] at hm
  by_cases hdotted : c.toNat = 304
  · have hlower : (lower c).toNat = 105 := hcode 304 105 hdotted (by decide +kernel)
    omega
  by_cases hkelvin : c.toNat = 8490
  · have hlower : (lower c).toNat = 107 := hcode 8490 107 hkelvin (by decide +kernel)
    omega
  have hout := lower_outside hc hdotted hkelvin
  have hself : c.toNat = 305 ∨ c.toNat = 383 → (lower c).toNat = c.toNat := by
    rintro (h | h)
    · rw [hcode 305 305 h (by decide +kernel), h]
    · rw [hcode 383 383 h (by decide +kernel), h]
  omega

/-- No letter of ASCII poses as another. -/
theorem not_poses {a c : Char} (h : c.toNat < 128) : ¬Poses a c := by
  rintro (⟨-, h | h⟩ | ⟨-, h⟩ | ⟨-, h⟩) <;> omega

end Text

namespace Like

/-- A text that matches by fewer equal characters matches by more. -/
theorem matchesWith_mono {f g : Char → Char → Bool} (h : ∀ a b, f a b = true → g a b = true)
    (ps : List Piece) (cs : List Char) :
    matchesWith f ps cs = true → matchesWith g ps cs = true := by
  induction ps, cs using matchesWith.induct with
  | case1 cs => simp
  | case2 ps ih =>
    rw [matchesWith, matchesWith]
    exact ih
  | case3 ps c cs ih ih' =>
    rw [matchesWith, matchesWith, Bool.or_eq_true, Bool.or_eq_true]
    exact Or.imp ih ih'
  | case4 ps => simp [matchesWith]
  | case5 ps c cs ih =>
    rw [matchesWith, matchesWith]
    exact ih
  | case6 p ps => simp [matchesWith]
  | case7 p ps c cs ih =>
    rw [matchesWith, matchesWith, Bool.and_eq_true, Bool.and_eq_true]
    exact And.imp (h p c) ih

/-- In an empty text no characters are compared. -/
theorem matchesWith_empty (f g : Char → Char → Bool) (ps : List Piece) :
    matchesWith f ps [] = matchesWith g ps [] := by
  induction ps with
  | nil => simp
  | cons p ps ih =>
    cases p with
    | anyText =>
      rw [matchesWith, matchesWith]
      exact ih
    | _ => simp [matchesWith]

/-- Whether a pattern matches a text if the case of no letter counts. -/
def folded (pattern text : String) : Bool :=
  matchesWith Text.sameLetter (pieces pattern) text.toList

theorem folded_of_ascii {p s : String} (h : ascii p s = true) : folded p s = true :=
  matchesWith_mono (fun _ _ => Text.sameLetter_of_sameAsciiLetter) _ _ h

/-! ### Splitting a text -/

/-- A text splits into parts for the pieces of a pattern, from left to right: any text, any one
character, or one character that counts as the given one. -/
inductive Matches (same : Char → Char → Prop) : List Piece → List Char → Prop where
  /-- Nothing is left. -/
  | done : Matches same [] []
  /-- Any text comes first. -/
  | anyText (part : List Char) {ps : List Piece} {cs : List Char} (rest : Matches same ps cs) :
      Matches same (.anyText :: ps) (part ++ cs)
  /-- Any one character comes first. -/
  | anyChar (c : Char) {ps : List Piece} {cs : List Char} (rest : Matches same ps cs) :
      Matches same (.anyChar :: ps) (c :: cs)
  /-- A character that counts as the given one comes first. -/
  | char {p c : Char} (first : same p c) {ps : List Piece} {cs : List Char}
      (rest : Matches same ps cs) : Matches same (.char p :: ps) (c :: cs)

variable {same same' : Char → Char → Prop} {ps : List Piece} {cs : List Char}

theorem matches_nil : Matches same [] cs ↔ cs = [] := by
  constructor
  · intro h
    cases h
    rfl
  · rintro rfl
    exact .done

theorem matches_anyText_nil : Matches same (.anyText :: ps) [] ↔ Matches same ps [] := by
  constructor
  · intro h
    generalize htext : ([] : List Char) = text at h
    cases h with
    | anyText part h =>
      obtain ⟨rfl, rfl⟩ := List.nil_eq_append_iff.mp htext
      exact h
  · exact fun h => .anyText [] h

/-- The part for any text is empty, or one character longer than another such part. -/
theorem matches_anyText_cons (c : Char) :
    Matches same (.anyText :: ps) (c :: cs)
      ↔ Matches same ps (c :: cs) ∨ Matches same (.anyText :: ps) cs := by
  constructor
  · intro h
    generalize htext : c :: cs = text at h
    cases h with
    | @anyText part _ rest h =>
      cases part with
      | nil => exact .inl h
      | cons d part =>
        obtain ⟨-, rfl⟩ := List.cons.inj htext
        exact .inr (.anyText part h)
  · rintro (h | h)
    · exact .anyText [] h
    · generalize hpieces : Piece.anyText :: ps = pieces at h
      cases h with
      | anyText part h =>
        cases hpieces
        exact .anyText (c :: part) h
      | _ => cases hpieces

theorem matches_anyChar_cons (c : Char) :
    Matches same (.anyChar :: ps) (c :: cs) ↔ Matches same ps cs := by
  constructor
  · intro h
    cases h with
    | anyChar _ rest => exact rest
  · exact .anyChar c

theorem matches_char_cons (p c : Char) :
    Matches same (.char p :: ps) (c :: cs) ↔ same p c ∧ Matches same ps cs := by
  constructor
  · intro h
    cases h with
    | char first rest => exact ⟨first, rest⟩
  · exact fun h => .char h.1 h.2

/-- **Matching looks for a way to split the text.** -/
theorem matchesWith_iff (eq : Char → Char → Bool) (ps : List Piece) (cs : List Char) :
    matchesWith eq ps cs = true ↔ Matches (fun p c => eq p c = true) ps cs := by
  induction ps, cs using matchesWith.induct with
  | case1 cs => rw [matchesWith_nil, List.isEmpty_iff, matches_nil]
  | case2 ps ih => rw [matchesWith, ih, matches_anyText_nil]
  | case3 ps c cs ih ih' => rw [matchesWith, Bool.or_eq_true, ih, ih', matches_anyText_cons]
  | case4 ps =>
    rw [matchesWith]
    constructor <;> intro h <;> cases h
  | case5 ps c cs ih => rw [matchesWith, ih, matches_anyChar_cons]
  | case6 p ps =>
    rw [matchesWith]
    constructor <;> intro h <;> cases h
  | case7 p ps c cs ih => rw [matchesWith, Bool.and_eq_true, ih, matches_char_cons]

/-- What matches still does where more characters count as those of the pattern. -/
theorem Matches.imp (h : Matches same ps cs)
    (hsame : ∀ p c, Piece.char p ∈ ps → c ∈ cs → same p c → same' p c) : Matches same' ps cs := by
  induction h with
  | done => exact .done
  | anyText part _ ih =>
    exact .anyText part (ih fun p c hp hc => hsame p c (List.mem_cons_of_mem _ hp)
      (List.mem_append_right part hc))
  | anyChar c _ ih =>
    exact .anyChar c (ih fun p d hp hd => hsame p d (List.mem_cons_of_mem _ hp)
      (List.mem_cons_of_mem c hd))
  | char hfirst _ ih =>
    exact .char (hsame _ _ List.mem_cons_self List.mem_cons_self hfirst)
      (ih fun p d hp hd => hsame p d (List.mem_cons_of_mem _ hp) (List.mem_cons_of_mem _ hd))

theorem matches_congr (h : ∀ p c, Piece.char p ∈ ps → c ∈ cs → (same p c ↔ same' p c)) :
    Matches same ps cs ↔ Matches same' ps cs :=
  ⟨fun hm => hm.imp fun p c hp hc => (h p c hp hc).mp,
    fun hm => hm.imp fun p c hp hc => (h p c hp hc).mpr⟩

/-- A character that a pattern stands for is one of its own. -/
theorem mem_of_char_mem_pieces {s : String} {p : Char} (h : Piece.char p ∈ pieces s) :
    p ∈ s.toList := by
  obtain ⟨c, hc, hpiece⟩ := List.mem_map.mp h
  unfold Piece.ofChar at hpiece
  split at hpiece
  · cases hpiece
  · split at hpiece
    · cases hpiece
    · cases hpiece
      exact hc

end Like

namespace Operator

theorem entryPieces_singleton (c : Char) :
    entryPieces (.text (String.singleton c)) = .ok [Like.Piece.ofChar c] := by
  have hother : ∀ s : String, s.toList ≠ [c] → (String.singleton c == s) = false := by
    intro s hs
    refine beq_eq_false_iff_ne.mpr fun heq => hs ?_
    rw [← heq, String.toList_singleton]
  unfold Like.Piece.ofChar
  by_cases hpercent : c = '%'
  · subst hpercent
    rfl
  by_cases hline : c = '_'
  · subst hline
    rfl
  rw [entryPieces, hother "%" (by simpa using Ne.symm hpercent), hother "" (by simp),
    hother "_" (by simpa using Ne.symm hline), hother "%_" (by simp), String.toList_singleton,
    beq_eq_false_iff_ne.mpr hpercent, beq_eq_false_iff_ne.mpr hline]
  rfl

/-- A pattern stands for the same pieces in memory as in the store. -/
theorem patternPieces_text (p : String) :
    patternPieces (.text p) = .ok (Like.pieces p) := by
  have hall : ∀ cs : List Char,
      (cs.map fun c => Value.text (String.singleton c)).mapM entryPieces
        = .ok (cs.map fun c => [Like.Piece.ofChar c]) := by
    intro cs
    induction cs with
    | nil => rfl
    | cons c cs ih =>
      rw [List.map_cons, List.mapM_cons, entryPieces_singleton, ih]
      rfl
  simp only [patternPieces, Value.iterate?, hall, Except.map, ← List.flatMap_def,
    ← List.map_eq_flatMap, Like.pieces]

/-- In memory a text is like a pattern if it is not empty and matches, the case of all letters
aside. -/
theorem isLike_eq (s p : String) : isLike (.text s) (.text p)
    = .ok (decide (s ≠ "") && Like.folded p s) := by
  unfold isLike
  rw [patternPieces_text]
  by_cases hs : s = ""
  · subst hs
    rfl
  · simp [Value.truthy, hs, Like.folded, Value.plain, Except.map]

/-- A text is like a pattern in memory if it matches, where the pattern leaves out the empty
text. -/
theorem isLike_text {s p : String} (hempty : s = "" → Like.ascii p "" = false) :
    isLike (.text s) (.text p) = .ok (Like.folded p s) := by
  rw [isLike_eq]
  by_cases hs : s = ""
  · have hnone : Like.folded p "" = false := by
      rw [Like.folded, String.toList_empty, Like.matchesWith_empty _ Text.sameAsciiLetter,
        ← String.toList_empty, ← Like.ascii, hempty hs]
    simp [hs, hnone]
  · simp [hs]

/-- **A condition in memory selects the texts that match a pattern in ASCII, but not the empty
one**: each character of the pattern stands for itself up to the case of ASCII letters, and in texts
outside ASCII for a letter that poses as it. -/
theorem like_iff_matches (s p : String) (hp : ∀ a ∈ p.toList, a.toNat < 128) :
    ∃ b, test .like (.text s) (.text p) = .ok b ∧ test .notLike (.text s) (.text p) = .ok (!b)
      ∧ (b = true ↔ s ≠ "" ∧ Like.Matches
        (fun a c => Text.sameAsciiLetter a c = true ∨ Text.Poses a c) (Like.pieces p) s.toList)
      ∧ ((∀ c ∈ s.toList, c.toNat < 128) → (b = true ↔ s ≠ "" ∧ Like.Matches
        (fun a c => Text.sameAsciiLetter a c = true) (Like.pieces p) s.toList)) := by
  have hiff : (decide (s ≠ "") && Like.folded p s) = true ↔ s ≠ "" ∧ Like.Matches
      (fun a c => Text.sameAsciiLetter a c = true ∨ Text.Poses a c) (Like.pieces p) s.toList := by
    rw [Bool.and_eq_true, decide_eq_true_iff, Like.folded, Like.matchesWith_iff,
      Like.matches_congr fun a c ha _ => Text.sameLetter_iff (hp a (Like.mem_of_char_mem_pieces ha))]
  refine ⟨_, isLike_eq s p, by rw [test, isLike_eq]; rfl, hiff, fun hs => ?_⟩
  rw [hiff, Like.matches_congr fun a c _ hc => or_iff_left (Text.not_poses (hs c hc))]

/-- Here a wildcard stands for a line break, and a mark of other patterns for itself. -/
theorem like_iff_matches_lamp : (∀ a ∈ "l_MP.%".toList, a.toNat < 128)
    ∧ test .like (.text "Lamp.\n") (.text "l_MP.%") = .ok true
    ∧ test .notLike (.text "Lamp.\n") (.text "l_MP.%") = .ok false := by
  have hascii : ("l_MP.%".toList.all fun a => decide (a.toNat < 128)) = true := by decide
  have hp : ∀ a ∈ "l_MP.%".toList, a.toNat < 128 :=
    fun a ha => of_decide_eq_true (List.all_eq_true.mp hascii a ha)
  obtain ⟨b, hlike, hnot, hiff, -⟩ := like_iff_matches "Lamp.\n" "l_MP.%" hp
  have hb : b = true := hiff.mpr ⟨by decide, .char (.inl rfl) (.anyChar 'a' (.char (.inl rfl)
    (.char (.inl rfl) (.char (.inl rfl) (.anyText ['\n'] .done)))))⟩
  subst hb
  exact ⟨hp, hlike, hnot⟩

/-- **The empty text is like no pattern**, though it matches one for any text. -/
theorem not_like_empty : test .like (.text "") (.text "%") = .ok false
    ∧ test .notLike (.text "") (.text "%") = .ok true
    ∧ Like.Matches (fun a c => Text.sameAsciiLetter a c = true) (Like.pieces "%") "".toList :=
  ⟨rfl, rfl, .anyText [] .done⟩

end Operator
end SchemaForge

import SchemaForge.Proofs.Calendar.Order
import SchemaForge.Proofs.Language.Numerals
import SchemaForge.Proofs.Outcome
import SchemaForge.Scalar

/-!
# Days and moments read back

A day is read from its extended format as the day that it is, and so is a moment, with a `T` or a
blank before the time. Each part has a fixed width, so its digits are where the readers look for
them. Offsets of less than a second are lost: they are written with their fraction, but whole
seconds of zero are read as UTC itself. So a moment is read back exactly if its offset is legible,
and every moment that is read has such an offset.
-/
namespace SchemaForge

open Text Language

namespace Iso

/-! ### Days -/

/-- Padded notation is read back, whatever follows. -/
theorem digits_padded {width n : Nat} (hwidth : width ≠ 0) (h : n < 10 ^ width)
    (rest : List Char) : digits width (padded width n ++ rest) = some (n, rest) := by
  have hlength := length_padded hwidth h
  unfold digits
  dsimp only
  rw [List.take_left' hlength, List.drop_left' hlength]
  have hdigits : (digitsOf (padded width n)).length = width := by
    rw [length_digitsOf (isDigits_padded width n).2, hlength]
  rw [digitsOf] at hdigits
  rw [if_pos hdigits]
  exact congrArg (fun m => some (m, rest)) (ofDigits_padded width n)

/-- Padded notation starts with a digit. -/
theorem head?_padded (width n : Nat) (rest : List Char) :
    ∃ c, (padded width n ++ rest).head? = some c ∧ isAsciiDigit c = true := by
  have hdigits := isDigits_padded width n
  cases hpadded : padded width n with
  | nil => exact absurd hpadded hdigits.1
  | cons c cs => exact ⟨c, rfl, hdigits.2 c (hpadded ▸ List.mem_cons_self ..)⟩

/-- A day is read back, whatever follows. -/
theorem readDate_writeDate (d : Date) (len : Nat) (rest : List Char) :
    readDate len (writeDate d ++ rest) = some d := by
  obtain ⟨hyear, hmonth, hday⟩ := Date.digits_lt d
  have htext : writeDate d ++ rest = padded 4 d.year ++ '-' :: (padded 2 d.month
      ++ '-' :: (padded 2 d.day ++ rest)) := by
    simp only [writeDate, List.append_assoc, List.cons_append]
  obtain ⟨c, hhead, hc⟩ := head?_padded 2 d.month ('-' :: (padded 2 d.day ++ rest))
  have hweek : (some c == some 'W') = false := by
    refine beq_eq_false_iff_ne.mpr fun heq => ?_
    rw [Option.some.inj heq] at hc
    cases hc
  rw [htext, readDate, digits_padded (by decide) hyear]
  simp only [Option.bind_eq_bind, Option.bind_some, List.head?_cons, beq_self_eq_true, if_true,
    List.drop_one, List.tail_cons, hhead, hweek, Bool.false_eq_true, if_false,
    digits_padded (show 2 ≠ 0 by decide) hmonth, digits_padded (show 2 ≠ 0 by decide) hday,
    bne_self_eq_false, Bool.and_false]
  exact Date.of?_self d

/-! ### Characters -/

/-- A digit, or another character of the extended format. -/
def isPlain (c : Char) : Bool :=
  isAsciiDigit c || c == '-' || c == ':' || c == '.' || c == ' ' || c == 'T' || c == '+'

/-- These characters take one place each, and none of them is the mark of UTC. -/
theorem isPlain_bounds {c : Char} (h : isPlain c = true) : c.toNat ≤ 127 ∧ c ≠ 'Z' := by
  simp only [isPlain, Bool.or_eq_true, beq_iff_eq] at h
  rcases h with (((((h | rfl) | rfl) | rfl) | rfl) | rfl) | rfl
  · have hrange : 48 ≤ c.toNat ∧ c.toNat ≤ 57 := by
      unfold isAsciiDigit asciiDigit? at h
      split at h
      · assumption
      · cases h
    refine ⟨by omega, ?_⟩
    rintro rfl
    exact absurd hrange.2 (by decide)
  all_goals decide

theorem widen_plain {cs : List Char} (h : ∀ c ∈ cs, isPlain c = true) : widen cs = cs := by
  induction cs with
  | nil => rfl
  | cons c cs ih =>
    rw [List.forall_mem_cons] at h
    have hsize : c.utf8Size = 1 := Char.utf8Size_eq_one_iff.mpr (isPlain_bounds h.1).1
    unfold widen at ih ⊢
    rw [List.flatMap_cons, hsize, ih h.2]
    rfl

theorem spellOutUtc_plain {cs : List Char} (h : ∀ c ∈ cs, isPlain c = true) :
    Scalar.spellOutUtc (String.ofList cs) = String.ofList cs := by
  have hall : (cs.flatMap fun c => if c == 'Z' then Scalar.utcOffset else [c]) = cs := by
    induction cs with
    | nil => rfl
    | cons c cs ih =>
      rw [List.forall_mem_cons] at h
      rw [List.flatMap_cons, if_neg (by rw [beq_iff_eq]; exact (isPlain_bounds h.1).2), ih h.2]
      rfl
  rw [Scalar.spellOutUtc, String.toList_ofList, hall]

theorem isPlain_padded (width n : Nat) : ∀ c ∈ padded width n, isPlain c = true := by
  intro c hc
  simp only [isPlain, (isDigits_padded width n).2 c hc, Bool.true_or]

theorem isPlain_writeDate (d : Date) : ∀ c ∈ writeDate d, isPlain c = true := by
  simp only [writeDate, List.append_assoc, List.cons_append, List.forall_mem_append,
    List.forall_mem_cons]
  exact ⟨isPlain_padded _ _, by decide, isPlain_padded _ _, by decide, isPlain_padded _ _⟩

/-- A clock is written by digits, colons and a point. -/
theorem forall_mem_writeClock {p : Char → Prop} (hdigit : ∀ c, isAsciiDigit c = true → p c)
    (hcolon : p ':') (hpoint : p '.') (h m s micro : Nat) : ∀ c ∈ writeClock h m s micro, p c := by
  have hpadded : ∀ width n, ∀ c ∈ padded width n, p c :=
    fun width n c hc => hdigit c ((isDigits_padded width n).2 c hc)
  simp only [writeClock, List.append_assoc, List.cons_append, List.forall_mem_append,
    List.forall_mem_cons]
  refine ⟨hpadded _ _, hcolon, hpadded _ _, hcolon, hpadded _ _, ?_⟩
  split
  · nofun
  · exact List.forall_mem_cons.mpr ⟨hpoint, hpadded _ _⟩

theorem isPlain_writeClock (h m s micro : Nat) : ∀ c ∈ writeClock h m s micro, isPlain c = true :=
  forall_mem_writeClock (p := fun c => isPlain c = true)
    (fun c hc => by simp only [isPlain, hc, Bool.true_or]) rfl rfl h m s micro

/-- **A day is read back.** -/
theorem date?_iso (d : Date) : date? d.iso = some d := by
  have hlength := Date.length_writeDate d
  have hread := readDate_writeDate d 10 []
  rw [List.append_nil] at hread
  unfold date? Date.iso
  dsimp only
  rw [String.toList_ofList, widen_plain (isPlain_writeDate d), hlength, if_pos (by decide), hread]

/-! ### Clocks -/

variable {value : Nat} (hvalue : value < 100) (fuel : Nat) (reading : Clock)
include hvalue

/-- A part of a clock before a colon. -/
theorem components_colon {i len : Nat} {colons : Bool} (hlen : 3 < len)
    (hcolons : i = 0 ∨ colons = true) (rest : List Char) :
    components i (fuel + 1) len colons (padded 2 value ++ ':' :: rest) reading
      = components (i + 1) fuel (len - 3) true rest (reading.put i value) := by
  have hcolon : (if i = 0 then true else colons) = true := by
    rcases hcolons with rfl | rfl
    · rfl
    · exact ite_self _
  rw [components, digits_padded (by decide) hvalue]
  simp only [Option.bind_eq_bind, Option.bind_some, List.head?_cons, beq_self_eq_true, hcolon,
    if_neg (Nat.not_le.mpr hlen), Bool.and_self, if_true, List.drop_one, List.tail_cons]

/-- The last part of a clock. -/
theorem components_last {i len : Nat} {colons : Bool} (hlen : len ≤ 3) (rest : List Char) :
    components i (fuel + 1) len colons (padded 2 value ++ rest) reading
      = some (reading.put i value, rest.head?.isSome) := by
  rw [components, digits_padded (by decide) hvalue]
  simp only [Option.bind_eq_bind, Option.bind_some, if_pos hlen]
  rfl

/-- A part of a clock before the fraction. -/
theorem components_point {i len : Nat} (hlen : 3 < len) (hi : i ≠ 0) (rest : List Char) :
    components i (fuel + 1) len true (padded 2 value ++ '.' :: rest) reading
      = fraction (len - 3) rest (reading.put i value) := by
  rw [components, digits_padded (by decide) hvalue]
  simp only [Option.bind_eq_bind, Option.bind_some, List.head?_cons, if_neg hi,
    if_neg (Nat.not_le.mpr hlen), List.drop_one, List.tail_cons]
  rfl

omit hvalue

/-- Six digits of a fraction. -/
theorem fraction_padded {micro : Nat} (h : micro < 1000000) (rest : List Char) :
    fraction 6 (padded 6 micro ++ rest) reading
      = some ({ reading with micro := micro }, !(rest.dropWhile isAsciiDigit).isEmpty) := by
  rw [fraction]
  simp [digits_padded (show 6 ≠ 0 by decide) h]

/-- **A clock is read back**, whatever follows, and nothing is left if nothing does. -/
theorem clock_writeClock {h m s micro : Nat} (hh : h < 24) (hm : m < 60) (hs : s < 60)
    (hmicro : micro < 1000000) (rest : List Char) : ∃ more,
    clock (writeClock h m s micro).length (writeClock h m s micro ++ rest)
      = some (⟨h, m, s, micro⟩, more) ∧ (rest = [] → more = false) := by
  have hlength : ∀ {n}, n < 60 → (padded 2 n).length = 2 :=
    fun hn => length_padded (by decide) (by omega)
  unfold clock
  by_cases hzero : micro = 0
  · subst hzero
    have htext : writeClock h m s 0 = padded 2 h ++ ':' :: (padded 2 m ++ ':' :: padded 2 s) := by
      simp [writeClock]
    have hlen : (writeClock h m s 0).length = 8 := by
      simp [htext, hlength (show h < 60 by omega), hlength hm, hlength hs]
    rw [hlen, htext, List.append_assoc, List.cons_append, List.append_assoc, List.cons_append,
      components_colon (by omega) _ _ (by decide) (.inl rfl),
      components_colon (by omega) _ _ (by decide) (.inr rfl),
      components_last (by omega) _ _ (by decide)]
    exact ⟨_, rfl, fun hrest => by simp [hrest]⟩
  · have htext : writeClock h m s micro
        = padded 2 h ++ ':' :: (padded 2 m ++ ':' :: (padded 2 s ++ '.' :: padded 6 micro)) := by
      simp [writeClock, hzero]
    have hlen : (writeClock h m s micro).length = 15 := by
      simp [htext, hlength (show h < 60 by omega), hlength hm, hlength hs,
        length_padded (show 6 ≠ 0 by decide) hmicro]
    rw [hlen, htext, List.append_assoc, List.cons_append, List.append_assoc, List.cons_append,
      List.append_assoc, List.cons_append,
      components_colon (by omega) _ _ (by decide) (.inl rfl),
      components_colon (by omega) _ _ (by decide) (.inr rfl),
      components_point (by omega) _ _ (by decide) (by decide), fraction_padded _ hmicro]
    exact ⟨_, rfl, fun hrest => by simp [hrest]⟩

/-- Hours and minutes alone are read back. -/
theorem clock_hoursMinutes {h m : Nat} (hh : h < 24) (hm : m < 60) :
    clock 5 (padded 2 h ++ ':' :: padded 2 m) = some (⟨h, m, 0, 0⟩, false) := by
  have hlast : components 1 2 2 true (padded 2 m ++ []) (Clock.put {} 0 h)
      = some ((Clock.put {} 0 h).put 1 m, false) :=
    components_last (show m < 100 by omega) 1 (Clock.put {} 0 h) (by decide) []
  rw [List.append_nil] at hlast
  rw [clock, components_colon (by omega) _ _ (by decide) (.inl rfl), hlast]
  rfl

/-! ### Offsets -/

/-- The whole seconds of an offset, and the microseconds left over. -/
theorem writeOffset_eq (o : Int) : writeOffset o = (if o < 0 then '-' else '+') ::
    (if o.natAbs / 1000000 % 60 = 0 ∧ o.natAbs % 1000000 = 0 then
      padded 2 (o.natAbs / 1000000 / 3600) ++ ':' :: padded 2 (o.natAbs / 1000000 / 60 % 60)
    else writeClock (o.natAbs / 1000000 / 3600) (o.natAbs / 1000000 / 60 % 60)
      (o.natAbs / 1000000 % 60) (o.natAbs % 1000000)) := by
  simp [writeOffset, writeClock]

/-- An offset is a sign and a clock that reads its distance from UTC. -/
theorem clock_writeOffset {o : Int} (h : o.natAbs < dayMicros) : ∃ text c,
    writeOffset o = (if o < 0 then '-' else '+') :: text ∧ clock text.length text = some (c, false)
      ∧ c.hour * 3600 + c.minute * 60 + c.second = o.natAbs / 1000000
      ∧ c.micro = o.natAbs % 1000000 := by
  have hhour : o.natAbs / 1000000 / 3600 < 24 := by
    unfold dayMicros hourMicros at h
    omega
  have hminute : o.natAbs / 1000000 / 60 % 60 < 60 := Nat.mod_lt _ (by decide)
  rw [writeOffset_eq]
  by_cases hzero : o.natAbs / 1000000 % 60 = 0 ∧ o.natAbs % 1000000 = 0
  · rw [if_pos hzero]
    have hlength : (padded 2 (o.natAbs / 1000000 / 3600)
        ++ ':' :: padded 2 (o.natAbs / 1000000 / 60 % 60)).length = 5 := by
      simp [length_padded (show 2 ≠ 0 by decide) (show o.natAbs / 1000000 / 3600 < 10 ^ 2 by omega),
        length_padded (show 2 ≠ 0 by decide)
          (show o.natAbs / 1000000 / 60 % 60 < 10 ^ 2 by omega)]
    refine ⟨_, ⟨o.natAbs / 1000000 / 3600, o.natAbs / 1000000 / 60 % 60, 0, 0⟩, rfl, ?_, ?_, ?_⟩
    · rw [hlength]
      exact clock_hoursMinutes hhour hminute
    · dsimp only
      omega
    · exact hzero.2.symm
  · rw [if_neg hzero]
    obtain ⟨more, hread, hmore⟩ := clock_writeClock hhour hminute
      (show o.natAbs / 1000000 % 60 < 60 by omega) (show o.natAbs % 1000000 < 1000000 by omega) []
    rw [List.append_nil, hmore rfl] at hread
    refine ⟨_, _, rfl, hread, ?_, rfl⟩
    dsimp only
    omega

end Iso

/-- Whether an offset, if there is one, is zero or a second at least. -/
def Moment.Legible (t : Moment) : Prop := ∀ o ∈ t.offset, o = 0 ∨ 1000000 ≤ o.natAbs

instance (t : Moment) : Decidable t.Legible :=
  inferInstanceAs (Decidable (∀ o ∈ t.offset, o = 0 ∨ 1000000 ≤ o.natAbs))

theorem Moment.legible_of_naive {t : Moment} (h : t.offset = none) : t.Legible := by
  simp [Moment.Legible, h]

namespace Iso

/-- A distance from UTC is what a clock reads, if it is legible. -/
theorem offset_eq {o : Int} {c : Clock} (h : o = 0 ∨ 1000000 ≤ o.natAbs)
    (hseconds : c.hour * 3600 + c.minute * 60 + c.second = o.natAbs / 1000000)
    (hmicro : c.micro = o.natAbs % 1000000) : c.offset (decide (o < 0)) = o := by
  unfold Clock.offset
  dsimp only
  rw [hseconds, hmicro]
  by_cases hneg : o < 0
  · rw [decide_eq_true hneg, if_pos rfl]
    split <;> omega
  · rw [decide_eq_false hneg, if_neg Bool.false_ne_true]
    split <;> omega

/-- What a clock reads is no offset of less than a second. -/
theorem offset_legible (negative : Bool) (c : Clock) :
    c.offset negative = 0 ∨ 1000000 ≤ (c.offset negative).natAbs := by
  unfold Clock.offset
  dsimp only
  split
  · exact .inl rfl
  · cases negative with
    | false =>
      rw [if_neg Bool.false_ne_true]
      omega
    | true =>
      rw [if_pos rfl]
      omega

/-! ### Moments -/

/-- No character of a clock starts an offset. -/
theorem takeWhile_writeClock (h m s micro : Nat) {rest : List Char}
    (hrest : ∀ c ∈ rest.head?, startsOffset c = true) :
    (writeClock h m s micro ++ rest).takeWhile (fun c => !startsOffset c)
      = writeClock h m s micro := by
  have hclock : ∀ c ∈ writeClock h m s micro, (!startsOffset c) = true := by
    refine forall_mem_writeClock (p := fun c => (!startsOffset c) = true) (fun c hc => ?_) rfl rfl
      h m s micro
    have hother : ∀ d, isAsciiDigit d = false → c ≠ d := by
      rintro d hd rfl
      rw [hc] at hd
      cases hd
    simp [startsOffset, hother '+' rfl, hother '-' rfl, hother 'Z' rfl]
  have hstop : rest.takeWhile (fun c => !startsOffset c) = [] := by
    cases rest with
    | nil => rfl
    | cons c cs => simp [hrest c rfl]
  rw [List.takeWhile_append_of_pos hclock, hstop, List.append_nil]

/-- **A time is read back with its offset**, if this is legible. -/
theorem time_writeClock {h m s micro : Nat} {offset : Option Int} (hh : h < 24) (hm : m < 60)
    (hs : s < 60) (hmicro : micro < 1000000) (hrange : ∀ o ∈ offset, o.natAbs < dayMicros)
    (hlegible : ∀ o ∈ offset, o = 0 ∨ 1000000 ≤ o.natAbs) :
    time (writeClock h m s micro ++ (offset.map writeOffset).getD [])
      = some (⟨h, m, s, micro⟩, offset) := by
  cases offset with
  | none =>
    obtain ⟨more, hread, hmore⟩ := clock_writeClock hh hm hs hmicro []
    rw [hmore rfl] at hread
    unfold time
    dsimp only
    rw [Option.map_none, Option.getD_none, takeWhile_writeClock h m s micro (by simp), hread]
    simp
  | some o =>
    obtain ⟨text, c, htext, hclock, hseconds, hmicros⟩ := clock_writeOffset (hrange o rfl)
    obtain ⟨more, hread, -⟩ := clock_writeClock hh hm hs hmicro (writeOffset o)
    have hstarts : ∀ c ∈ (writeOffset o).head?, startsOffset c = true := by
      rw [htext]
      rintro c ⟨⟩
      split <;> rfl
    have hmark : ((if o < 0 then '-' else '+') == 'Z') = false := by split <;> rfl
    have hsign : ((if o < 0 then '-' else '+') == '-') = decide (o < 0) := by
      split <;> simp_all
    unfold time
    dsimp only
    rw [Option.map_some, Option.getD_some, takeWhile_writeClock h m s micro hstarts, hread]
    simp [htext, hmark, hclock, hsign, offset_eq (hlegible o rfl) hseconds hmicros]

/-- The date ends after ten places. -/
theorem separatorPlace_writeDate (d : Date) (mark : Char) (rest : List Char) :
    separatorPlace (writeDate d ++ mark :: rest) = some 10 := by
  obtain ⟨hyear, -, -⟩ := Date.digits_lt d
  have hlength : (writeDate d ++ mark :: rest).length ≠ 7 := by
    rw [List.length_append, Date.length_writeDate, List.length_cons]
    omega
  have htext : writeDate d ++ mark :: rest = padded 4 d.year ++ '-' :: (padded 2 d.month
      ++ '-' :: (padded 2 d.day ++ mark :: rest)) := by
    simp only [writeDate, List.append_assoc, List.cons_append]
  obtain ⟨c, hhead, hc⟩ := head?_padded 2 d.month ('-' :: (padded 2 d.day ++ mark :: rest))
  have hfour : (writeDate d ++ mark :: rest)[4]? = some '-' := by
    rw [htext, List.getElem?_append_right (by rw [length_padded (by decide) hyear]),
      length_padded (by decide) hyear]
    rfl
  have hfive : ((writeDate d ++ mark :: rest)[5]? == some 'W') = false := by
    rw [htext, List.getElem?_append_right (by rw [length_padded (by decide) hyear]; decide),
      length_padded (by decide) hyear, List.getElem?_cons_succ, ← List.head?_eq_getElem?, hhead]
    refine beq_eq_false_iff_ne.mpr fun heq => ?_
    rw [Option.some.inj heq] at hc
    cases hc
  unfold separatorPlace
  simp only [if_neg hlength, hfour, hfive, beq_self_eq_true, if_true, Bool.false_eq_true, if_false]

/-- An offset is written by digits, signs, colons and a point. -/
theorem isPlain_writeOffset (o : Int) : ∀ c ∈ writeOffset o, isPlain c = true := by
  rw [writeOffset_eq, List.forall_mem_cons]
  refine ⟨by split <;> rfl, ?_⟩
  split
  · rw [List.forall_mem_append, List.forall_mem_cons]
    exact ⟨isPlain_padded _ _, rfl, isPlain_padded _ _⟩
  · exact isPlain_writeClock _ _ _ _

/-- **A moment is read back** if its offset is legible, with either mark before its time. -/
theorem readMoment_writeMoment {t : Moment} (h : t.Legible) {mark : Char}
    (hmark : mark = 'T' ∨ mark = ' ') :
    Scalar.readMoment (String.ofList (writeMoment mark t)) = some t := by
  obtain ⟨⟨hhour, hminute, hsecond, hmicro⟩, hrange⟩ := t.exist
  obtain ⟨timeText, htimeText⟩ : ∃ text, text = writeClock t.hour t.minute t.second t.micro
      ++ (t.offset.map writeOffset).getD [] := ⟨_, rfl⟩
  have htext : writeMoment mark t = writeDate t.date ++ mark :: timeText := by
    simp [writeMoment, htimeText]
  have hmark' : isPlain mark = true := by rcases hmark with rfl | rfl <;> rfl
  have hplain : ∀ c ∈ writeMoment mark t, isPlain c = true := by
    rw [htext, List.forall_mem_append, List.forall_mem_cons, htimeText, List.forall_mem_append]
    refine ⟨isPlain_writeDate _, hmark', isPlain_writeClock _ _ _ _, ?_⟩
    cases t.offset with
    | none => nofun
    | some o => exact isPlain_writeOffset o
  unfold Scalar.readMoment
  rw [spellOutUtc_plain hplain]
  unfold moment?
  dsimp only
  rw [String.toList_ofList, widen_plain hplain, htext]
  have hdate := Date.length_writeDate t.date
  have hlength : 11 ≤ (writeDate t.date ++ mark :: timeText).length := by
    rw [List.length_append, hdate, List.length_cons]
    omega
  have hmark : (writeDate t.date ++ mark :: timeText)[10]? = some mark := by
    rw [List.getElem?_append_right (Nat.le_of_eq hdate), hdate]
    rfl
  have hdrop : (writeDate t.date ++ mark :: timeText).drop 11 = timeText := by
    rw [List.drop_append, hdate, List.drop_eq_nil_of_le (by omega)]
    rfl
  have hsize : mark.utf8Size = 1 := Char.utf8Size_eq_one_iff.mpr (isPlain_bounds hmark').1
  have htime := time_writeClock hhour hminute hsecond hmicro hrange h
  rw [← htimeText] at htime
  rw [if_neg (by omega), separatorPlace_writeDate, Option.bind_eq_bind, Option.bind_some,
    readDate_writeDate, Option.bind_eq_bind, Option.bind_some, if_neg (by omega), hmark,
    Option.map_some, Option.getD_some, hsize, hdrop, htime]
  exact t.of?_self

/-! ### What is read -/

theorem legible_of_time {cs : List Char} {c : Clock} {offset : Option Int}
    (h : time cs = some (c, offset)) : ∀ o ∈ offset, o = 0 ∨ 1000000 ≤ o.natAbs := by
  simp only [time, Option.bind_eq_bind] at h
  obtain ⟨⟨reading, more⟩, -, h⟩ := Option.bind_eq_some_iff.mp h
  dsimp only at h
  split at h
  · split at h
    · cases h
    · cases h
      nofun
  · split at h
    · split at h
      · cases h
        simp
      · cases h
    · obtain ⟨⟨distance, left⟩, -, h⟩ := Option.bind_eq_some_iff.mp h
      dsimp only at h
      split at h
      · cases h
      · cases h
        simpa using offset_legible _ distance

/-- **Every moment that is read has a legible offset.** -/
theorem legible_of_moment? {s : String} {t : Moment} (h : moment? s = some t) : t.Legible := by
  have hof : ∀ {d : Date} {h m s micro : Nat} {offset : Option Int},
      Moment.of? d h m s micro offset = some t → t.offset = offset := by
    intro d h m s micro offset hof
    unfold Moment.of? at hof
    split at hof
    · cases hof
      rfl
    · cases hof
  unfold moment? at h
  dsimp only at h
  split at h
  · cases h
  obtain ⟨place, -, h⟩ := Option.bind_eq_some_iff.mp h
  obtain ⟨date, -, h⟩ := Option.bind_eq_some_iff.mp h
  split at h
  · exact Moment.legible_of_naive (hof h)
  · obtain ⟨⟨c, offset⟩, htime, h⟩ := Option.bind_eq_some_iff.mp h
    unfold Moment.Legible
    rw [hof h]
    exact legible_of_time htime

/-- Moments without a legible offset are written, but not read back. -/
theorem readMoment_iso_iff (t : Moment) : Scalar.readMoment t.iso = some t ↔ t.Legible :=
  ⟨legible_of_moment?, fun h => readMoment_writeMoment h (.inl rfl)⟩

end Iso

/-! ### Scalars -/

namespace Scalar

/-- A text stands for a value if a scalar reads it as the value, as that of a variable and as a
literal. -/
def Reads (s : Scalar) (text : String) (v : Value) : Prop :=
  s.parse (.text text) = .ok v ∧ ∀ block vars, s.parseLiteral (.string text block) vars = .ok v

/-- The values that a scalar of days or moments is for. -/
inductive Represents : Scalar → Value → Prop where
  /-- A moment with a legible offset, or none. -/
  | moment {t : Moment} (legible : t.Legible) : Represents dateTime (.moment t)
  /-- A day. -/
  | date (d : Date) : Represents date (.date d)

variable {s : Scalar} {text : String} {v : Value}

/-- A text is read alike as the value of a variable and as a literal. -/
theorem reads_of_parse (hs : s ≠ json) (h : s.parse (.text text) = .ok v) : s.Reads text v := by
  refine ⟨h, fun block vars => ?_⟩
  cases s with
  | json => exact absurd rfl hs
  | date => exact h
  | dateTime => exact h

/-- What a text is read as is a value that the scalar is for, and is shown as the text is. -/
theorem represents_of_parse (hs : s ≠ json) (h : s.parse (.text text) = .ok v) :
    s.Represents v ∧ s.serialize (.text text) = s.serialize v := by
  cases s with
  | json => exact absurd rfl hs
  | date =>
    rw [parse] at h
    obtain ⟨d, hd, rfl⟩ := Outcome.map_eq_ok.mp h
    exact ⟨.date d, by simp [serialize, hd, Except.map]⟩
  | dateTime =>
    rw [parse] at h
    obtain ⟨t, ht, rfl⟩ := Outcome.map_eq_ok.mp h
    refine ⟨.moment ?_, by simp [serialize, ht, Except.map]⟩
    unfold parseMoment at ht
    cases hread : readMoment text with
    | none => simp [hread] at ht
    | some found =>
      simp only [hread, Except.ok.injEq] at ht
      exact ht ▸ Iso.legible_of_moment? hread

theorem legible_of_reads {t : Moment} (h : dateTime.Reads text (.moment t)) : t.Legible := by
  have hrepresents := (represents_of_parse (by simp) h.1).1
  cases hrepresents
  assumption

/-- A value that a scalar is for is shown as a text that is read as it. -/
theorem Represents.reads (h : s.Represents v) :
    ∃ w, s.serialize v = .ok (.text w) ∧ s.Reads w v := by
  cases h with
  | @moment t legible =>
    have hread := Iso.readMoment_writeMoment legible (.inl rfl)
    refine ⟨t.iso, rfl, reads_of_parse (by simp) ?_⟩
    simp [parse, parseMoment, Moment.iso, hread, Except.map]
  | date d =>
    refine ⟨d.iso, rfl, reads_of_parse (by simp) ?_⟩
    simp [parse, parseDate, Iso.date?_iso, Except.map]

/-- **Scalars of days and moments read what they show**: a value comes back from the text that an
answer shows for it, and a text that is read is shown as one that stands for the same value and is
shown as it is. -/
theorem reads_serialized (s : Scalar) (hs : s ≠ json) :
    (∀ v, s.Represents v → ∃ w, s.serialize v = .ok (.text w) ∧ s.Reads w v)
    ∧ ∀ x v, s.parse (.text x) = .ok v → ∃ w, s.serialize (.text x) = .ok (.text w)
      ∧ s.Reads w v ∧ s.serialize (.text w) = .ok (.text w) := by
  refine ⟨fun v hv => hv.reads, fun x v hx => ?_⟩
  obtain ⟨hv, hshown⟩ := represents_of_parse hs hx
  obtain ⟨w, hw, hreads⟩ := hv.reads
  refine ⟨w, hshown.trans hw, hreads, ?_⟩
  rw [(represents_of_parse hs hreads.1).2, hw]

/-- The end of a leap day, five hours, thirty minutes and fifteen seconds behind UTC. -/
def leapNight : Moment where
  date := ⟨2024, 2, 29, by decide⟩
  hour := 23
  minute := 59
  second := 59
  micro := 120
  offset := some (-19815000000)
  exist := by decide

theorem reads_serialized_leapNight : dateTime ≠ json ∧ dateTime.Represents (.moment leapNight)
    ∧ ∃ x, dateTime.serialize (.moment leapNight) = .ok (.text x)
      ∧ dateTime.Reads x (.moment leapNight) ∧ ∃ w, dateTime.serialize (.text x) = .ok (.text w)
        ∧ dateTime.Reads w (.moment leapNight) ∧ dateTime.serialize (.text w) = .ok (.text w) := by
  have hs : dateTime ≠ json := by decide
  have hrepresents : dateTime.Represents (.moment leapNight) := .moment (by decide)
  obtain ⟨hvalues, htexts⟩ := reads_serialized dateTime hs
  obtain ⟨x, hx, hreads⟩ := hvalues _ hrepresents
  exact ⟨hs, hrepresents, x, hx, hreads, htexts x _ hreads.1⟩

/-- Midnight a microsecond ahead of UTC. -/
def nearUtc : Moment where
  date := ⟨2024, 7, 1, by decide⟩
  hour := 0
  minute := 0
  second := 0
  micro := 0
  offset := some 1
  exist := by decide

/-- **An offset of less than a second does not come back.** -/
theorem not_reads_nearUtc : ∃ w, dateTime.serialize (.moment nearUtc) = .ok (.text w)
    ∧ ¬dateTime.Reads w (.moment nearUtc) := by
  exact ⟨nearUtc.iso, rfl, fun h => absurd (legible_of_reads h) (by decide)⟩

end Scalar
end SchemaForge

import SchemaForge.Proofs.Calendar.Order
import SchemaForge.Proofs.Number.Notation
import SchemaForge.Registry.Filters
import SchemaForge.Store.Clause
import SchemaForge.Store.Statement

/-!
# Kinds of values in columns

A column of a kind of value gives such values and takes them as operands. In the store they
compare as they do in memory: numbers as numbers, texts as texts, and days and moments as the
texts that they are kept as. A moment in a column has no offset, and a number in it is a number.
-/
namespace SchemaForge

/-- The kinds of values that conditions compare. -/
inductive ColumnKind where
  | int | float | string | boolean | date | dateTime
  deriving DecidableEq

namespace ColumnType

/-- The name of the type inside of all layers. -/
def bottom : ColumnType → String
  | base n => n
  | decorated _ inner => bottom inner
  | derived inner _ => bottom inner

theorem stored_eq_bottom {t : ColumnType} (h : wraps? t.bottom = none) : t.stored = t.bottom := by
  induction t with
  | base n =>
    rw [stored, show wraps? n = none from h]
    rfl
  | decorated n inner ih => exact ih h
  | derived inner n ih => exact ih h

/-- A type is known as the type inside, unless it is decorated. -/
theorem families_eq (t : ColumnType) :
    t.families = known t.bottom ∨ t.families = ["TypeDecorator"] := by
  induction t with
  | base n => exact .inl rfl
  | decorated n inner ih => exact .inr rfl
  | derived inner n ih => exact ih

end ColumnType

namespace ColumnKind

/-- The name of a kind in schemas. -/
def name : ColumnKind → String
  | int => "Int"
  | float => "Float"
  | string => "String"
  | boolean => "Boolean"
  | date => "Date"
  | dateTime => "DateTime"

/-- The column type of a kind. -/
def family : ColumnKind → String
  | int => "Integer"
  | float => "Float"
  | string => "String"
  | boolean => "Boolean"
  | date => "Date"
  | dateTime => "DateTime"

/-- All kinds. -/
def all : List ColumnKind := [int, float, string, boolean, date, dateTime]

theorem mem_all (k : ColumnKind) : k ∈ all := by cases k <;> decide

/-- The columns of a kind: their type is or refines that of the kind, perhaps decorated. -/
def Describes (k : ColumnKind) (t : ColumnType) : Prop :=
  (ColumnType.known t.bottom).contains k.family = true

instance (k : ColumnKind) (t : ColumnType) : Decidable (k.Describes t) :=
  inferInstanceAs (Decidable (_ = true))

/-- The values of a kind. -/
inductive Holds : ColumnKind → Value → Prop
  /-- An integer. -/
  | int (n : Int) : Holds .int (.int n)
  /-- A floating-point number. -/
  | float {x : Real64} (h : x.isNaN = false) : Holds .float (.real x)
  /-- A text. -/
  | string (s : String) : Holds .string (.text s)
  /-- A truth value. -/
  | boolean (b : Bool) : Holds .boolean (.bool b)
  /-- A day. -/
  | date (d : Date) : Holds .date (.date d)
  /-- A moment without offset. -/
  | dateTime {t : Moment} (h : t.offset = none) : Holds .dateTime (.moment t)

/-! ### Column types of a kind -/

open ColumnType in
/-- How columns of the listed types treat operands. -/
theorem known_kinds : ∀ n ∈ refined.map Prod.fst ++ all.map family, ∀ k ∈ all,
    (known n).contains k.family = true → wraps? n = none
      ∧ (base n).affinity = (if k = .string then .text else .number)
      ∧ (k = .string → (known n).contains "DateTime" = false ∧ (known n).contains "Date" = false
        ∧ (known n).contains "Integer" = false) := by
  decide +kernel

variable {k : ColumnKind} {t : ColumnType} {v x : Value}

theorem mem_listed {n : String} (h : (ColumnType.known n).contains k.family = true) :
    n ∈ ColumnType.refined.map Prod.fst ++ all.map family := by
  rw [List.contains_iff_mem, ColumnType.known, List.mem_cons] at h
  rcases h with rfl | h
  · exact List.mem_append_right _ (List.mem_map_of_mem k.mem_all)
  · refine List.mem_append_left _ ?_
    cases hn : ColumnType.refined.get? n with
    | none =>
      rw [hn] at h
      cases h
    | some names => exact List.mem_map_of_mem (Table.mem_of_get? hn)

theorem Describes.facts (h : k.Describes t) : ColumnType.wraps? t.bottom = none
    ∧ (ColumnType.base t.bottom).affinity = (if k = .string then .text else .number)
    ∧ (k = .string → (ColumnType.known t.bottom).contains "DateTime" = false
      ∧ (ColumnType.known t.bottom).contains "Date" = false
      ∧ (ColumnType.known t.bottom).contains "Integer" = false) :=
  known_kinds _ (mem_listed h) k k.mem_all h

theorem Describes.affinity (h : k.Describes t) :
    t.affinity = if k = .string then .text else .number := by
  obtain ⟨hwraps, haffinity, -⟩ := h.facts
  rw [← haffinity]
  unfold ColumnType.affinity
  rw [ColumnType.stored_eq_bottom hwraps, ColumnType.stored_eq_bottom (t := .base t.bottom) hwraps]
  rfl

/-- A text for a column of texts stays a text. -/
theorem Describes.coerceText (h : ColumnKind.string.Describes t) (s : String) :
    Clause.coerceText t s = .text s := by
  obtain ⟨-, -, hnot⟩ := h.facts
  obtain ⟨hdateTime, hdate, hinteger⟩ := hnot rfl
  have hisA : ∀ family, (ColumnType.known t.bottom).contains family = false →
      (["TypeDecorator"] : List String).contains family = false → t.isA family = false := by
    intro family hknown hdecorator
    rcases t.families_eq with heq | heq <;> rw [ColumnType.isA, heq]
    · exact hknown
    · exact hdecorator
  unfold Clause.coerceText
  rw [hisA _ hdateTime rfl, hisA _ hdate rfl, hisA _ hinteger rfl]
  rfl

/-- **A value of a kind is an operand as it is**, a text in a column of texts. -/
theorem Holds.coerce (h : k = .string → k.Describes t) (hx : k.Holds x) :
    Clause.coerce t x = x := by
  cases hx with
  | string s => exact (h rfl).coerceText s
  | _ => rfl

/-! ### Days and moments are no numbers -/

/-- The whole part of a number ends before a hyphen, or after a zero. -/
theorem wholePart_hyphen {ds : List Char} (h : Language.IsDigits ds) (tail : List Char) :
    ∃ whole more, Json.wholePart (ds ++ '-' :: tail) = (whole, more ++ '-' :: tail)
      ∧ whole.isEmpty = false ∧ ∀ c ∈ more, Text.isAsciiDigit c = true := by
  unfold Json.wholePart
  split
  · rename_i rest heq
    cases ds with
    | nil => exact absurd rfl h.1
    | cons c ds =>
      obtain ⟨-, rfl⟩ := List.cons.inj heq
      exact ⟨[0], ds, rfl, rfl, fun c hc => h.2 c (List.mem_cons_of_mem _ hc)⟩
  · exact ⟨_, [], Json.digits_append h.2 (by rintro c ⟨⟩; rfl), Json.digitsOf_ne_nil h,
      fun c hc => by cases hc⟩

/-- What starts like a number starts neither with a fraction nor with an exponent. -/
theorem fractionPart_startsNumber {c : Char} (hc : Json.StartsNumber c) (cs : List Char) :
    Json.fractionPart (c :: cs) = ([], c :: cs)
      ∧ Json.exponentPart (c :: cs) = (none, c :: cs) := by
  constructor
  · unfold Json.fractionPart
    split
    · rename_i heq
      exact absurd (List.cons.inj heq).1 (hc.ne (by decide) rfl)
    · rfl
  · simp [Json.exponentPart, hc.ne (d := 'e') (by decide) rfl, hc.ne (d := 'E') (by decide) rfl]

/-- A number ends before a hyphen. -/
theorem number_hyphen {ds : List Char} (h : Language.IsDigits ds) (tail : List Char) :
    ∃ v rest, Json.number (ds ++ '-' :: tail) = some (v, rest) ∧ rest ≠ [] := by
  obtain ⟨whole, more, hwhole, hne, hmore⟩ := wholePart_hyphen h tail
  obtain ⟨first, rest, hleft, hfirst⟩ : ∃ first rest, more ++ '-' :: tail = first :: rest
      ∧ Json.StartsNumber first := by
    cases more with
    | nil => exact ⟨_, _, rfl, .inl rfl⟩
    | cons c more => exact ⟨_, _, rfl, .inr (hmore c (List.mem_cons_self ..))⟩
  have hsign : Json.signPart (ds ++ '-' :: tail) = (false, ds ++ '-' :: tail) := by
    unfold Json.signPart
    split
    · rename_i rest heq
      cases ds with
      | nil => exact absurd rfl h.1
      | cons c ds =>
        obtain ⟨rfl, -⟩ := List.cons.inj heq
        exact absurd (h.2 _ (List.mem_cons_self ..)) (by decide)
    · rfl
  rw [hleft] at hwhole
  obtain ⟨hfrac, hexp⟩ := fractionPart_startsNumber hfirst rest
  exact ⟨_, _, Json.number_eq hsign hwhole hfrac hexp hne, by simp⟩

theorem isBlank_of_isAsciiDigit {c : Char} (h : Text.isAsciiDigit c = true) :
    Text.isBlank c = false := by
  have hrange : 48 ≤ c.toNat ∧ c.toNat ≤ 57 := by
    unfold Text.isAsciiDigit Text.asciiDigit? at h
    split at h
    · assumption
    · cases h
  have hruns : ∀ n < 58, 48 ≤ n →
      Text.blankRuns.any (fun run => run.1 ≤ n && n ≤ run.2) = false := by decide
  exact hruns c.toNat (by omega) hrange.1

/-- What starts with a year is no number. -/
theorem textNumber?_dated (year : Nat) (cs : List Char) {c : Char} (hlast : Text.isBlank c = false) :
    Stored.textNumber? (String.ofList (Text.padded 4 year ++ '-' :: (cs ++ [c]))) = none := by
  have hdigits := Language.isDigits_padded 4 year
  have htrim : Text.trim (String.ofList (Text.padded 4 year ++ '-' :: (cs ++ [c])))
      = String.ofList (Text.padded 4 year ++ '-' :: (cs ++ [c])) := by
    cases hpadded : Text.padded 4 year with
    | nil => exact absurd hpadded hdigits.1
    | cons d ds =>
      have hd : Text.isBlank d = false :=
        isBlank_of_isAsciiDigit (hdigits.2 d (hpadded ▸ List.mem_cons_self ..))
      unfold Text.trim
      rw [String.toList_ofList, List.cons_append, Text.trimStart_of_head hd, ← List.cons_append,
        ← List.cons_append, ← List.append_assoc, Text.trimEnd_of_last hlast]
  obtain ⟨v, rest, hnumber, hrest⟩ := number_hyphen hdigits (cs ++ [c])
  unfold Stored.textNumber?
  rw [htrim, String.toList_ofList, hnumber]
  cases rest with
  | nil => exact absurd rfl hrest
  | cons d rest => cases v <;> rfl

/-- Padded notation ends with a digit. -/
theorem padded_last (width n : Nat) :
    ∃ cs c, Text.padded width n = cs ++ [c] ∧ Text.isBlank c = false := by
  have hdigits := Language.isDigits_padded width n
  refine ⟨_, _, (List.dropLast_append_getLast hdigits.1).symm, ?_⟩
  exact isBlank_of_isAsciiDigit (hdigits.2 _ (List.getLast_mem hdigits.1))

/-- A value of the kind of a column is compared as it is. -/
theorem adapted_ofValue {a : ColumnType.Affinity} (ha : a = if k = .string then .text else .number)
    (hx : k.Holds x) : (Stored.ofValue x).adapted a = Stored.ofValue x := by
  have hdated : ∀ s, Stored.textNumber? s = none →
      (Stored.text s).adapted .number = Stored.text s := fun s hs => by
    rw [Stored.adapted, hs]
    rfl
  cases hx with
  | date d =>
    obtain ⟨cs, c, hday, hc⟩ := padded_last 2 d.day
    have hiso : d.iso = String.ofList (Text.padded 4 d.year ++ '-' ::
        (Text.padded 2 d.month ++ '-' :: cs ++ [c])) := by
      unfold Date.iso Iso.writeDate
      rw [hday]
      simp only [List.append_assoc, List.cons_append]
    subst ha
    exact hdated _ (hiso ▸ textNumber?_dated _ _ hc)
  | @dateTime t h =>
    obtain ⟨cs, c, hmicro, hc⟩ := padded_last 6 t.micro
    have htext : Stored.momentText t = String.ofList (Text.padded 4 t.date.year ++ '-' ::
        (Text.padded 2 t.date.month ++ '-' :: Text.padded 2 t.date.day ++ ' ' ::
          Iso.writeClock t.hour t.minute t.second 0 ++ '.' :: cs ++ [c])) := by
      unfold Stored.momentText Iso.writeDate
      rw [hmicro]
      simp only [List.append_assoc, List.cons_append]
    subst ha
    exact hdated _ (htext ▸ textNumber?_dated _ _ hc)
  | _ =>
    subst ha
    rfl

/-! ### Comparisons -/

theorem Real64.exists_compare? {x y : Real64} (hx : x.isNaN = false) (hy : y.isNaN = false) :
    ∃ r, Real64.compare? x y = some r := by
  unfold Real64.compare?
  rw [hx, hy]
  cases x.isInfinite <;> cases y.isInfinite <;> exact ⟨_, rfl⟩

theorem compareText_eq_iff (s t : String) : (Value.compareText s t == .eq) = (s == t) := by
  have h : Text.order s.toList t.toList = .eq ↔ s.toList = t.toList := Text.order_eq_iff
  rw [← Text.compareText_ofList, String.ofList_toList, String.ofList_toList, String.toList_inj] at h
  rw [Bool.eq_iff_iff, beq_iff_eq, beq_iff_eq]
  exact h

/-- Texts compare by their characters. -/
theorem compare?_text (s t : String) {r : Ordering} (h : Value.compareText s t = r) :
    Stored.compare? (.text s) (.text t) = some r := h ▸ rfl

/-- **Values of one kind compare in the store as they do in memory.** -/
theorem Holds.compare (hv : k.Holds v) (hx : k.Holds x) : ∃ r,
    Stored.compare? (Stored.ofValue v) (Stored.ofValue x) = some r
      ∧ Value.same v x = (r == .eq) ∧ Value.order? v x = some (some r) := by
  cases hv with
  | int m =>
    cases hx with
    | int n => exact ⟨_, rfl, rfl, rfl⟩
  | boolean a =>
    cases hx with
    | boolean b => exact ⟨_, rfl, rfl, rfl⟩
  | @float x hx' =>
    cases hx with
    | @float y hy =>
      obtain ⟨r, hr⟩ := Real64.exists_compare? hx' hy
      refine ⟨r, hr, ?_, congrArg some hr⟩
      have hsame : Value.same (.real x) (.real y) = (Real64.compare? x y == some .eq) := by
        simp only [Value.same, Value.sameLeaf]
        rfl
      rw [hsame, hr, Option.some_beq_some]
  | string s =>
    cases hx with
    | string t => exact ⟨_, rfl, (compareText_eq_iff s t).symm, rfl⟩
  | date d =>
    cases hx with
    | date e =>
      refine ⟨_, compare?_text _ _ (Date.compareText_iso d e), ?_, rfl⟩
      rw [Bool.eq_iff_iff, beq_iff_eq, Date.compare_ordinal_eq_iff]
      have hsame : Value.same (.date d) (.date e) = (d == e) := by
        simp only [Value.same, Value.sameLeaf]
        rfl
      rw [hsame, beq_iff_eq]
  | @dateTime s hs =>
    cases hx with
    | @dateTime t ht =>
      have hcompare := Moment.compare?_of_naive hs ht
      refine ⟨_, compare?_text _ _ (Moment.compareText_momentText s t), ?_, ?_⟩
      · have hsame : Value.same (.moment s) (.moment t) = (Moment.compare? s t == some .eq) := by
          simp only [Value.same, Value.sameLeaf]
          rfl
        rw [hsame, hcompare, Option.some_beq_some]
      · have horder : Value.order? (.moment s) (.moment t) = (Moment.compare? s t).map some := rfl
        rw [horder, hcompare, Option.map_some]

end ColumnKind
end SchemaForge

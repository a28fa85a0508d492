import SchemaForge.Proofs.Calendar.Reading
import SchemaForge.Proofs.Execution.Cells
import SchemaForge.Proofs.Number.Comparing
import SchemaForge.Proofs.Number.Notation
import SchemaForge.Proofs.Store.Agreement
import SchemaForge.Schema.Coercion

/-!
# Values passed back

What an answer shows of a column, passed back as the operand of `eq`, selects the row that it came
from, whether it is given as a variable or written in the request. An answer shows integers of 32
bits and finite numbers only. Days and moments travel by their scalars, or as texts if the schema
has none; a text is then read as a day or moment since the column is one of these.
-/
namespace SchemaForge

open Language

/-! ### Values of leaves -/

/-- Whether an answer shows a number as it is. -/
def Value.IsRepresentable : Value → Prop
  | .int n => -Leaf.greatestInt - 1 ≤ n ∧ n ≤ Leaf.greatestInt
  | .real x => x.isFinite = true
  | _ => True

/-- How the values of columns of a type travel, by the kind of the values: each by the scalar of
its kind. Days and moments also travel as they are, if their scalar has no implementation, and as
texts, if there is none. -/
inductive Leaf.Carries (t : ColumnType) : Leaf → ColumnKind → Prop
  | int : Carries t .int .int
  | float : Carries t .float .float
  | string : Carries t .string .string
  | boolean : Carries t .boolean .boolean
  | date : Carries t (.scalar .date) .date
  | dateTime : Carries t (.scalar .dateTime) .dateTime
  | free {k : ColumnKind} (hk : k = .date ∨ k = .dateTime) : Carries t .free k
  | fallback {k : ColumnKind} (hk : k = .date ∨ k = .dateTime) (ht : t.isA k.family = true) :
      Carries t .string k

namespace ColumnKind

/-- A column of days is no column of moments. -/
theorem not_dateTime_of_date : ∀ n ∈ ColumnType.refined.map Prod.fst ++ all.map family,
    (ColumnType.known n).contains "Date" = true →
      (ColumnType.known n).contains "DateTime" = false := by
  decide +kernel

theorem isA_dateTime_of_date {t : ColumnType} (h : t.isA "Date" = true) :
    t.isA "DateTime" = false := by
  rw [ColumnType.isA] at h ⊢
  rcases t.families_eq with heq | heq
  · rw [heq] at h ⊢
    exact not_dateTime_of_date _ (mem_listed (k := .date) h) h
  · rw [heq] at h
    cases h

end ColumnKind

/-- The value that a leaf returns for a value of a column: it is shown, parsed and coerced. -/
structure Leaf.Returns (l : Leaf) (t : ColumnType) (v shown operand : Value) : Prop where
  /-- An answer shows it. -/
  serialize : l.serialize v = .ok shown
  /-- A variable is read as an operand. -/
  parse : l.parse shown = .ok operand
  /-- A literal is read as this operand. -/
  parseLiteral : ∀ vars, shown.isLiteral = true → l.parseLiteral shown.literal vars = .ok operand
  /-- Neither of them has parts. -/
  flat : shown.isFlat = true ∧ operand.isFlat = true
  /-- What is shown is a value. -/
  value : shown.isNull = false
  /-- The operand stands for the value of the column. -/
  coerce : Clause.coerce t operand = v

namespace Leaf

variable {l : Leaf} {t : ColumnType} {k : ColumnKind} {v : Value}

theorem bounded_eq {n : Int} (h : (Value.int n).IsRepresentable) : bounded n = .ok (.int n) :=
  if_pos h

theorem finite_eq {x : Real64} (h : (Value.real x).IsRepresentable) : finite x = .ok (.real x) :=
  if_pos h

/-- **A value of a column is returned** by the leaf that carries its kind. -/
theorem Carries.returns (h : l.Carries t k) (hdescribes : k.Describes t) (hv : k.Holds v)
    (hfits : v.IsRepresentable) : ∃ shown operand, l.Returns t v shown operand := by
  cases h with
  | int =>
    cases hv with
    | int n =>
      refine ⟨.int n, .int n, bounded_eq hfits, bounded_eq hfits, fun vars _ => ?_, ⟨rfl, rfl⟩,
        rfl, rfl⟩
      rw [Value.literal, parseLiteral, Scalar.numberOf, Value.ofJson?_ofInt]
      exact bounded_eq hfits
  | float =>
    cases hv with
    | @float x hx =>
      refine ⟨.real x, .real x, finite_eq hfits, finite_eq hfits, fun vars _ => ?_, ⟨rfl, rfl⟩,
        rfl, rfl⟩
      rw [Value.literal, parseLiteral, Scalar.numberOf, Value.ofJson?_text hfits]
      rfl
  | string =>
    cases hv with
    | string s =>
      exact ⟨.text s, .text s, rfl, rfl, fun _ _ => rfl, ⟨rfl, rfl⟩, rfl, hdescribes.coerceText s⟩
  | boolean =>
    cases hv with
    | boolean b => exact ⟨.bool b, .bool b, rfl, rfl, fun _ _ => rfl, ⟨rfl, rfl⟩, rfl, rfl⟩
  | date =>
    cases hv with
    | date d =>
      have hparse : Scalar.parse .date (.text d.iso) = .ok (.date d) := by
        rw [Scalar.parse, Scalar.parseDate, Iso.date?_iso]
        rfl
      exact ⟨.text d.iso, .date d, rfl, hparse, fun _ _ => hparse, ⟨rfl, rfl⟩, rfl, rfl⟩
  | dateTime =>
    cases hv with
    | @dateTime m hm =>
      have hparse : Scalar.parse .dateTime (.text m.iso) = .ok (.moment m) := by
        rw [Scalar.parse, Scalar.parseMoment, Moment.iso,
          Iso.readMoment_writeMoment (Moment.legible_of_naive hm) (.inl rfl)]
        rfl
      exact ⟨.text m.iso, .moment m, rfl, hparse, fun _ _ => hparse, ⟨rfl, rfl⟩, rfl, rfl⟩
  | free hk =>
    rcases hk with rfl | rfl <;> cases hv <;>
      exact ⟨_, _, rfl, rfl, fun _ h => absurd h Bool.false_ne_true, ⟨rfl, rfl⟩, rfl, rfl⟩
  | fallback hk ht =>
    rcases hk with rfl | rfl
    · cases hv with
      | date d =>
        refine ⟨.text d.iso, .text d.iso, rfl, rfl, fun _ _ => rfl, ⟨rfl, rfl⟩, rfl, ?_⟩
        rw [Clause.coerce, Clause.coerceText, ColumnKind.isA_dateTime_of_date ht,
          if_neg Bool.false_ne_true, show t.isA "Date" = true from ht, if_pos rfl, Iso.date?_iso]
        rfl
    · cases hv with
      | @dateTime m hm =>
        refine ⟨.text m.spaced, .text m.spaced, rfl, rfl, fun _ _ => rfl, ⟨rfl, rfl⟩, rfl, ?_⟩
        rw [Clause.coerce, Clause.coerceText, show t.isA "DateTime" = true from ht, if_pos rfl,
          Moment.spaced, Iso.readMoment_writeMoment (Moment.legible_of_naive hm) (.inr rfl)]
        rfl

end Leaf

/-! ### Conditions in requests -/

/-- An input type takes a field of a type, and nothing else needs to be given for it. -/
structure Schema.TakesField (s : Schema) (type key : String) (t : TypeRef) : Prop where
  /-- It is an input type. -/
  kind : s.isKind type .input = true
  /-- The field has its type. -/
  field : Coercion.inputType? s type key = some t
  /-- Names of fields do not repeat. -/
  nodup : ((s.inputs type).map (·.name)).Nodup
  /-- Fields may be left out and have no defaults. -/
  optional : ∀ i ∈ s.inputs type, i.default? = none ∧ i.type.isNonNull = false

namespace Coercion

variable {s : Schema} {leaves : Implementations} {input key kind : String} {t : TypeRef}
  {l : Leaf} {shown operand : Value} {vars : Fields}

/-- Of fields that may all be left out, those are read that are given. -/
theorem assemble_single {defaults : Defaults} {is : List InputNode} (y : Value)
    (hnodup : (is.map (·.name)).Nodup)
    (hoptional : ∀ i ∈ is, defaults i = none ∧ i.type.isNonNull = false) :
    assemble defaults [(key, some y)] is
      = some (if key ∈ is.map (·.name) then [(key, y)] else []) := by
  induction is with
  | nil => rfl
  | cons i is ih =>
    rw [List.map_cons, List.nodup_cons] at hnodup
    rw [List.forall_mem_cons] at hoptional
    rw [assemble, ih hnodup.2 hoptional.2, List.map_cons]
    by_cases hname : i.name = key
    · subst hname
      rw [List.lookup_cons_self, if_neg hnodup.1, if_pos (List.mem_cons_self ..)]
      rfl
    · have hlookup : [(key, some y)].lookup i.name = none := by
        rw [List.lookup_cons, beq_eq_false_iff_ne.mpr hname]
        rfl
      rw [hlookup, hoptional.1.1]
      dsimp only
      rw [hoptional.1.2, if_neg Bool.false_ne_true]
      simp [Ne.symm hname]

variable (htakes : s.TakesField input key t)
include htakes

theorem assemble_field (y : Value) :
    assemble (defaultOf s) [(key, some y)] (s.inputs input) = some [(key, y)] := by
  have hmem : key ∈ (s.inputs input).map (·.name) := by
    obtain ⟨i, hi, -⟩ := Option.map_eq_some_iff.mp htakes.field
    have hname := List.find?_some hi
    exact List.mem_map.mpr ⟨i, List.mem_of_find?_eq_some hi, beq_iff_eq.mp hname⟩
  rw [assemble_single y htakes.nodup, if_pos hmem]
  intro i hi
  obtain ⟨hdefault, hnull⟩ := htakes.optional i hi
  exact ⟨by rw [defaultOf, defaultsTo, hdefault]; rfl, hnull⟩

/-- A field is read from a variable. -/
theorem ofValue_field {x y : Value} (h : ofValue s leaves (defaultOf s) t x = some y) :
    ofValue s leaves (defaultOf s) (.named input) (.record [(key, x)])
      = some (.record [(key, y)]) := by
  have hall : ([(key, x)].all fun f => (inputType? s input f.1).isSome) = true := by
    rw [List.all_cons, htakes.field]
    rfl
  rw [ofValue]
  simp only [TypeRef.baseName, htakes.kind, if_true, hall, ofValueFields, htakes.field, h,
    assemble_field htakes, Option.map_some, inLists]

/-- A field is read from a literal. -/
theorem ofLiteral_field {x : Literal} {y : Value} (hmissing : isMissing vars x = false)
    (h : ofLiteral s leaves (defaultOf s) vars t x = some y) :
    ofLiteral s leaves (defaultOf s) vars (.named input) (.object [(key, x)])
      = some (.record [(key, y)]) := by
  rw [ofLiteral]
  simp only [TypeRef.baseName, htakes.kind, if_true, ofFields, hmissing, Bool.false_eq_true,
    if_false, htakes.field, h, assemble_field htakes, Option.map_some, inLists]

omit htakes

/-- A value without parts is read by the leaf of its type. -/
theorem ofValue_of_isFlat (hleaf : s.leaf? leaves kind = some l) (hflat : shown.isFlat = true)
    (hnull : shown.isNull = false) (hparse : l.parse shown = .ok operand) (defaults : Defaults) :
    ofValue s leaves defaults (.named kind) shown = some operand := by
  have hvalue : ofValue.leafValue s leaves kind shown = some operand := by
    rw [ofValue.leafValue, hleaf]
    dsimp only
    rw [hparse]
    rfl
  cases shown with
  | null => cases hnull
  | list xs | tuple xs | record fs | object name fs => cases hflat
  | _ => exact congrArg (Option.map (inLists (.named kind))) hvalue

/-- The literal of a value without parts is read by the leaf of its type. -/
theorem ofLiteral_of_isFlat (hleaf : s.leaf? leaves kind = some l)
    (hflat : shown.isFlat = true ∧ operand.isFlat = true) (hnull : shown.isNull = false)
    (hliteral : shown.isLiteral = true)
    (hparse : l.parseLiteral shown.literal vars = .ok operand) (defaults : Defaults) :
    isMissing vars shown.literal = false
      ∧ ofLiteral s leaves defaults vars (.named kind) shown.literal = some operand := by
  have habsent : operand.isAbsent = false := by
    cases operand with
    | object name fs => cases hflat.2
    | _ => rfl
  have hvalue : leafLiteral s leaves vars kind shown.literal = some operand := by
    rw [leafLiteral, hleaf]
    dsimp only
    rw [hparse]
    dsimp only
    rw [habsent, if_neg Bool.false_ne_true]
  cases shown with
  | null => cases hnull
  | list xs | tuple xs => cases hflat.1
  | bool b => exact ⟨rfl, congrArg (Option.map (inLists (.named kind))) hvalue⟩
  | int n => exact ⟨rfl, congrArg (Option.map (inLists (.named kind))) hvalue⟩
  | real x => exact ⟨rfl, congrArg (Option.map (inLists (.named kind))) hvalue⟩
  | text x => exact ⟨rfl, congrArg (Option.map (inLists (.named kind))) hvalue⟩
  | _ => cases hliteral

/-- **A condition by `eq` on one name takes what is shown**, as a variable or as a literal, where
there is a field for the name that takes operators on the values of the leaf. -/
theorem reads_eq {type : ColumnType} {v : Value} (h : l.Returns type v shown operand)
    (hleaf : s.leaf? leaves kind = some l)
    (hwhere : s.TakesField input key (.named (operatorInputName kind)))
    (heq : s.TakesField (operatorInputName kind) "eq" (.named kind)) :
    ofValue s leaves (defaultOf s) (.named input) (Condition.single key .eq shown)
        = some (Condition.single key .eq operand)
      ∧ ∀ vars, shown.isLiteral = true →
        ofLiteral s leaves (defaultOf s) vars (.named input)
          (.object [(key, .object [("eq", shown.literal)])])
            = some (Condition.single key .eq operand) := by
  refine ⟨ofValue_field hwhere (ofValue_field heq ?_), fun vars hliteral => ?_⟩
  · exact ofValue_of_isFlat hleaf h.flat.1 h.value h.parse _
  · obtain ⟨hmissing, hread⟩ :=
      ofLiteral_of_isFlat hleaf h.flat h.value hliteral (h.parseLiteral vars hliteral) _
    exact ofLiteral_field hwhere rfl (ofLiteral_field heq hmissing hread)

end Coercion

/-! ### Rows -/

/-- A value of a kind is equal to itself. -/
theorem ColumnKind.Holds.same_self {k : ColumnKind} {v : Value} (h : k.Holds v) :
    Value.same v v = true := by
  cases h with
  | @float x hx =>
    obtain ⟨r, hr⟩ := Real64.exists_compare? hx hx
    have hswap := Numeral.compare?_swap (.real x) (.real x)
    rw [Numeral.compare?, hr, Option.map_some] at hswap
    have heq : r = .eq := by
      cases r with
      | eq => rfl
      | lt | gt => cases hswap
    simp only [Value.same, Value.sameLeaf, Value.numeral?, Numeral.compare?, hr, heq]
    rfl
  | _ => simp [Value.same, Value.sameLeaf, Value.numeral?, Numeral.compare?, Moment.same]

namespace Clause

/-- **An operand that stands for the value of a row selects the row.** -/
theorem selects_eq_value {k : ColumnKind} {models : Models} {m : Model} {c : Column} {row : Row}
    (hcolumn : m.HasColumn c) (hkey : Condition.isConnective c.key = false)
    (hdescribes : k.Describes c.type) (hvalue : k.Holds (Fields.get row c.key)) {operand : Value}
    (hcoerce : coerce c.type operand = Fields.get row c.key) :
    ∃ clause, ofCondition models m (Condition.single c.key .eq operand) = .ok (some clause)
      ∧ clause.selects row = true := by
  have h : HasValue k ⟨m.table, c⟩ row (Fields.get row c.key) := hasValue hdescribes (.inr hvalue)
  obtain ⟨b, clause, hmemory, hclause, hagree⟩ := h.agrees_eq (.inr hvalue)
  rw [Operator.inMemory_common (by decide), Operator.test, hvalue.same_self] at hmemory
  cases hmemory
  refine ⟨clause, ?_, hagree.mpr (Operator.not_differs (by decide))⟩
  rw [ofCondition_single hkey (subject_column hcolumn), hcoerce, hclause]
  rfl

end Clause
end SchemaForge

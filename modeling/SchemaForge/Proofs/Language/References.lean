import Mathlib.Logic.Function.Iterate
import SchemaForge.Language.Printer
import SchemaForge.Proofs.Language.Items
import SchemaForge.Text.Blank

/-!
# References to types as texts

A reference is written as its name between brackets, with a mark where null is excluded. It
reads as itself, so references are told apart by their texts; with a default after it a
reference reads as the two. Without its marks the text is that of the reference with null
allowed everywhere.
-/
namespace SchemaForge.Language

/-- The characters of names are among those of ASCII that are seen. -/
theorem toNat_of_isNameChar {c : Char} (h : isNameChar c = true) :
    c.toNat < 128 ∧ 32 < c.toNat := by
  simp only [isNameChar, isNameStart, Text.isAsciiDigit, Text.asciiDigit?, Bool.or_eq_true,
    Bool.and_eq_true, decide_eq_true_eq, beq_iff_eq, Char.le_def, UInt32.le_iff_toNat_le] at h
  rcases h with ((⟨hlow, hhigh⟩ | ⟨hlow, hhigh⟩) | rfl) | hdigit
  · exact ⟨Nat.lt_of_le_of_lt hhigh (by decide), Nat.lt_of_lt_of_le (by decide) hlow⟩
  · exact ⟨Nat.lt_of_le_of_lt hhigh (by decide), Nat.lt_of_lt_of_le (by decide) hlow⟩
  · decide
  · split at hdigit
    · rename_i hle
      exact ⟨Nat.lt_of_le_of_lt hle.2 (by decide), Nat.lt_of_lt_of_le (by decide) hle.1⟩
    · cases hdigit

/-- A reference that the grammar has: a name at the bottom, and null excluded once at each
level. -/
def TypeRef.isProper : TypeRef → Bool
  | .named n => isName n
  | .list t => t.isProper
  | .nonNull t => !t.isNonNull && t.isProper

namespace TypeRef

variable {t u : TypeRef} {c : Char}

theorem isProper_loosened (h : t.isProper = true) : t.loosened.isProper = true := by
  induction t with
  | named n => exact h
  | list t ih => exact ih h
  | nonNull t ih => exact ih (Bool.and_eq_true_iff.mp h).2

/-- How many lists a reference puts around its name. -/
def nesting : TypeRef → Nat
  | named _ => 0
  | list t => t.nesting + 1
  | nonNull t => t.nesting

@[simp] theorem isNonNull_loosened (t : TypeRef) : t.loosened.isNonNull = false := by
  induction t with
  | named n => rfl
  | list t ih => rfl
  | nonNull t ih => exact ih

/-- What allows null everywhere is known by its name and its lists. -/
theorem loosened_eq (t : TypeRef) : t.loosened = (list^[t.nesting]) (named t.baseName) := by
  induction t with
  | named n => rfl
  | list t ih =>
    show list t.loosened = (list^[t.nesting + 1]) (named t.baseName)
    rw [ih, Function.iterate_succ_apply']
  | nonNull t ih => exact ih

@[simp] theorem nesting_loosened (t : TypeRef) : t.loosened.nesting = t.nesting := by
  induction t with
  | named n => rfl
  | list t ih => exact congrArg (· + 1) ih
  | nonNull t ih => exact ih

/-- **Two references differ only in null if they agree in name and lists.** -/
theorem loosened_eq_iff :
    t.loosened = u.loosened ↔ t.baseName = u.baseName ∧ t.nesting = u.nesting := by
  constructor
  · intro h
    constructor
    · rw [← baseName_loosened t, h, baseName_loosened]
    · rw [← nesting_loosened t, h, nesting_loosened]
  · rintro ⟨hname, hlists⟩
    rw [loosened_eq, loosened_eq, hname, hlists]

/-- The characters of a reference are those of names, brackets and marks. -/
theorem mem_print (h : t.isProper = true) (hc : c ∈ t.print.toList) :
    isNameChar c = true ∨ c = '[' ∨ c = ']' ∨ c = '!' := by
  induction t with
  | named n =>
    left
    cases hname : isNameChar c with
    | true => rfl
    | false => exact absurd hc (not_mem_of_isName h hname)
  | list t ih =>
    simp only [print, String.toList_append, List.mem_append] at hc
    rcases hc with (hc | hc) | hc
    · exact .inr (.inl (List.mem_singleton.mp hc))
    · exact ih h hc
    · exact .inr (.inr (.inl (List.mem_singleton.mp hc)))
  | nonNull t ih =>
    simp only [print, String.toList_append, List.mem_append] at hc
    rcases hc with hc | hc
    · exact ih (Bool.and_eq_true_iff.mp h).2 hc
    · exact .inr (.inr (.inr (List.mem_singleton.mp hc)))

/-- No equals sign stands in a reference. -/
theorem not_mem_print (h : t.isProper = true) : '=' ∉ t.print.toList := by
  intro hmem
  rcases mem_print h hmem with hname | hopen | hclose | hbang
  · exact absurd hname (by decide)
  · exact absurd hopen (by decide)
  · exact absurd hclose (by decide)
  · exact absurd hbang (by decide)

/-- No blank stands in a reference. -/
theorem not_isBlank_print (h : t.isProper = true) :
    ∀ a ∈ t.print.toList, Text.isBlank a = false := by
  intro a ha
  rcases mem_print h ha with hname | rfl | rfl | rfl
  · have hrange := toNat_of_isNameChar hname
    simp only [Text.isBlank, Text.blankRuns, List.any_cons, List.any_nil, Bool.or_eq_false_iff,
      Bool.and_eq_false_iff, decide_eq_false_iff_not, and_true]
    omega
  all_goals decide

/-- A reference without its marks. -/
theorem filter_print (h : t.isProper = true) :
    t.print.toList.filter (· != '!') = t.loosened.print.toList := by
  induction t with
  | named n =>
    refine List.filter_eq_self.mpr fun c hc => ?_
    rw [bne_iff_ne]
    rintro rfl
    exact not_mem_of_isName h (by decide) hc
  | list t ih =>
    simp only [print, loosened, String.toList_append, List.filter_append, ih h]
    rfl
  | nonNull t ih =>
    simp only [print, loosened, String.toList_append, List.filter_append,
      ih (Bool.and_eq_true_iff.mp h).2]
    exact List.append_nil _

end TypeRef

namespace Parser

variable {t u : TypeRef} {ts rest : List Token} {d : String} {x : Literal}

/-- The end of a reference: null is excluded if a mark says so. -/
def closing (t : TypeRef) : Parser TypeRef := do
  if ← accept .bang then return .nonNull t else return t

theorem closing_bang (t : TypeRef) (rest : List Token) :
    closing t (.mark .bang :: rest) = some (.nonNull t, rest) := by
  unfold closing
  rw [bind_of_some (accept_cons _ _)]
  rfl

theorem closing_of_ne (t : TypeRef) (h : rest.head? ≠ some (.mark .bang)) :
    closing t rest = some (t, rest) := by
  unfold closing
  rw [bind_of_some (accept_of_ne h)]
  rfl

theorem typeRef_name (n : Nat) (w : String) (rest : List Token) :
    typeRef (n + 1) (.name w :: rest) = closing (.named w) rest := by
  unfold typeRef
  rw [bind_of_some (accept_of_ne (by simp)), if_neg Bool.false_ne_true]
  exact bind_of_some rfl

theorem typeRef_list {n : Nat} (h : typeRef n ts = some (t, .mark .bracketR :: rest)) :
    typeRef (n + 1) (.mark .bracketL :: ts) = closing (.list t) rest := by
  unfold typeRef
  rw [bind_of_some (accept_cons _ _), if_pos rfl, bind_of_some h, bind_of_some (expect_cons _ _)]
  exact bind_of_some rfl

/-- A reference is read up to its end; one that allows null goes on if a mark follows. -/
theorem read_print (h : t.isProper = true) : ∃ ts, Spells t.print.toList ts
    ∧ (∀ n rest, ts.length ≤ n → rest.head? ≠ some (.mark .bang) →
      typeRef n (ts ++ rest) = some (t, rest))
    ∧ (t.isNonNull = false → ∀ n rest, ts.length ≤ n → typeRef n (ts ++ rest) = closing t rest) := by
  -- What allows null is read up to a mark or to its end.
  have hnullable : ∀ {t : TypeRef} {ts : List Token},
      (∀ n rest, ts.length ≤ n → typeRef n (ts ++ rest) = closing t rest) →
      ∀ n rest, ts.length ≤ n → rest.head? ≠ some (.mark .bang) →
        typeRef n (ts ++ rest) = some (t, rest) := by
    intro t ts hread n rest hn hrest
    rw [hread n rest hn, closing_of_ne t hrest]
  induction t with
  | named w =>
    have hread : ∀ n rest, [Token.name w].length ≤ n →
        typeRef n ([.name w] ++ rest) = closing (.named w) rest := by
      intro n rest hn
      obtain ⟨n, rfl⟩ : ∃ k, n = k + 1 := ⟨n - 1, by simp at hn; omega⟩
      exact typeRef_name n w rest
    exact ⟨[.name w], .name h, hnullable hread, fun _ => hread⟩
  | list t ih =>
    obtain ⟨ts, hs, hinner, -⟩ := ih h
    have hclose : Spells "]".toList [.mark .bracketR] := .mark rfl (.done rfl)
    have hread : ∀ n rest, (.mark .bracketL :: (ts ++ [.mark .bracketR])).length ≤ n →
        typeRef n (.mark .bracketL :: (ts ++ [.mark .bracketR]) ++ rest)
          = closing (.list t) rest := by
      intro n rest hn
      simp only [List.length_cons, List.length_append] at hn
      obtain ⟨n, rfl⟩ : ∃ k, n = k + 1 := ⟨n - 1, by omega⟩
      rw [List.cons_append, List.append_assoc]
      exact typeRef_list (hinner n _ (by omega) (by simp))
    refine ⟨_, ?_, hnullable hread, fun _ => hread⟩
    rw [TypeRef.print, String.append_assoc, String.toList_append]
    refine .mark rfl (hs.concat hclose ?_)
    rintro c ⟨⟩
    rfl
  | nonNull t ih =>
    obtain ⟨hnonNull, ht⟩ := Bool.and_eq_true_iff.mp h
    obtain ⟨ts, hs, -, hread⟩ := ih ht
    have hbang : Spells "!".toList [.mark .bang] := .mark rfl (.done rfl)
    refine ⟨ts ++ [.mark .bang], ?_, fun n rest hn _ => ?_, fun h' => by cases h'⟩
    · refine hs.concat hbang ?_
      rintro c ⟨⟩
      rfl
    · rw [List.length_append] at hn
      rw [List.append_assoc, hread (by simpa using hnonNull) n _ (by omega)]
      exact closing_bang t rest

theorem type_print (h : t.isProper = true) (hrest : rest.head? ≠ some (.mark .bang)) :
    type (tokens t.print ++ rest) = some (t, rest) := by
  obtain ⟨ts, hs, hread, -⟩ := read_print h
  unfold type
  rw [tokens_of_spells hs, bind_of_some (fuel_apply _)]
  exact hread _ rest (by rw [List.length_append]; omega) hrest

theorem spells_print (h : t.isProper = true) : Spells t.print.toList (tokens t.print) := by
  obtain ⟨ts, hs, -⟩ := read_print h
  rw [tokens_of_spells hs]
  exact hs

/-- **A reference reads as itself.** -/
theorem reads_print (h : t.isProper = true) : type.Reads t.print t := by
  have hread : type (tokens t.print ++ []) = some (t, []) := type_print h (by simp)
  rw [List.append_nil] at hread
  exact ⟨_, spells_print h, hread⟩

/-- References with one text are the same. -/
theorem print_inj (h : t.isProper = true) (h' : u.isProper = true) (heq : t.print = u.print) :
    t = u := (reads_print h).unique (heq ▸ reads_print h')

/-- A reference alone has no default. -/
theorem reads_typed (h : t.isProper = true) : typed.Reads t.print (t, none) := by
  have hread : type (tokens t.print ++ []) = some (t, []) := type_print h (by simp)
  rw [List.append_nil] at hread
  exact ⟨_, spells_print h, bind_of_some hread⟩

/-- A reference with a default reads as the two. -/
theorem reads_typed_default (h : t.isProper = true) (hd : (value true).Reads d x) :
    typed.Reads (t.print ++ " = " ++ d) (t, some x) := by
  have hequals : Spells (" = " ++ d).toList (.mark .equals :: tokens d) := by
    rw [String.toList_append]
    exact .separator rfl (.mark rfl (.separator rfl hd.spells))
  have hstops : Stops (" = " ++ d).toList := by
    rw [String.toList_append]
    exact Spells.stops_of_separator rfl
  have htype : type (tokens t.print ++ .mark .equals :: tokens d)
      = some (t, .mark .equals :: tokens d) := type_print h (by simp)
  have hvalue : value true (tokens d ++ []) = some (x, []) :=
    hd.append (Carries.value true) (by rintro t ⟨⟩)
  rw [List.append_nil] at hvalue
  have hdefault : defaultValue (.mark .equals :: tokens d) = some (some x, []) := by
    unfold defaultValue
    rw [bind_of_some (accept_cons _ _), if_pos rfl, map_apply, hvalue]
    rfl
  refine ⟨tokens t.print ++ .mark .equals :: tokens d, ?_, ?_⟩
  · rw [String.append_assoc]
    exact (spells_print h).concat hequals hstops
  · unfold typed
    rw [bind_of_some htype, bind_of_some hdefault]
    rfl

end Parser
end SchemaForge.Language

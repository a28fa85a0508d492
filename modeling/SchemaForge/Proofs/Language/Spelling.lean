import Mathlib.Data.List.TakeWhile
import SchemaForge.Proofs.Language.Scanning

/-!
# Texts that spell tokens

A text spells its tokens if it holds no comment. What is put together from such texts spells
the tokens of the parts, one after another, provided that no token goes on from one part into
the next.
-/
namespace SchemaForge.Language

/-- A name has no characters but those of names. -/
theorem not_mem_of_isName {word : String} (h : isName word = true) {c : Char}
    (hc : isNameChar c = false) : c ∉ word.toList := by
  intro hmem
  unfold isName at h
  split at h
  · cases h
  · rename_i first rest hword
    obtain ⟨hfirst, hrest⟩ := Bool.and_eq_true_iff.mp h
    rw [hword] at hmem
    have hname : isNameChar c = true := by
      rcases List.mem_cons.mp hmem with rfl | hmem
      · rw [isNameChar, hfirst, Bool.true_or]
      · exact List.all_eq_true.mp hrest c hmem
    rw [hc] at hname
    cases hname

/-- Characters that hold no comment are read as some tokens. -/
inductive Spells : List Char → List Token → Prop where
  /-- Separators alone. -/
  | done {cs : List Char} (h : cs.dropWhile isSeparator = []) : Spells cs []
  /-- A token after separators, and what follows it. -/
  | token {cs tail r : List Char} {c : Char} {t : Token} {ts : List Token}
    (h : cs.dropWhile isSeparator = c :: tail) (hscan : scan c tail = some (t, r))
    (hrest : Spells r ts) : Spells cs (t :: ts)

namespace Spells

variable {cs ds : List Char} {ts us : List Token} {c : Char}

/-- Separators are passed over. -/
theorem skip_eq (h : ∀ tail, cs.dropWhile isSeparator ≠ '#' :: tail) :
    skip false cs = cs.dropWhile isSeparator := by
  induction cs with
  | nil => rfl
  | cons c cs ih =>
    cases hc : isSeparator c with
    | true =>
      rw [List.dropWhile_cons_of_pos hc] at h ⊢
      have hcomment : (c == '#') = false := by
        cases heq : c == '#' with
        | false => rfl
        | true =>
          rw [beq_iff_eq.mp heq] at hc
          exact absurd hc (by decide)
      rw [skip, if_neg (by simp), if_neg (by simp [hcomment]), if_pos hc]
      exact ih h
    | false =>
      rw [List.dropWhile_cons_of_neg (by simp [hc])] at h ⊢
      have hcomment : (c == '#') = false := by
        cases heq : c == '#' with
        | false => rfl
        | true => exact absurd (by rw [beq_iff_eq.mp heq]) (h cs)
      rw [skip, if_neg (by simp), if_neg (by simp [hcomment]), if_neg (by simp [hc])]

/-- What is spelled is read, with any fuel beyond the length. -/
theorem scanAll_eq (h : Spells cs ts) {n : Nat} (hn : cs.length < n) : scanAll n cs = some ts := by
  induction h generalizing n with
  | @done cs h =>
    obtain ⟨n, rfl⟩ : ∃ k, n = k + 1 := ⟨n - 1, by omega⟩
    rw [scanAll, skip_eq (by rw [h]; simp), h]
  | @token cs tail r c t ts h hscan hrest ih =>
    obtain ⟨n, rfl⟩ : ∃ k, n = k + 1 := ⟨n - 1, by omega⟩
    have hle := (List.dropWhile_sublist isSeparator (l := cs)).length_le
    have hr := (scans_scan c).length_le hscan
    rw [h, List.length_cons] at hle
    have hcomment : ∀ tail', cs.dropWhile isSeparator ≠ '#' :: tail' := by
      rintro tail' heq
      rw [h] at heq
      obtain ⟨rfl, -⟩ := List.cons.inj heq
      cases hscan
    rw [scanAll, skip_eq hcomment, h]
    dsimp only
    rw [hscan]
    dsimp only
    rw [ih (by omega)]
    rfl

/-- **What is spelled one after another is spelled as a whole.** -/
theorem append (h : Spells cs ts) (h' : Spells ds us) (hstops : Stops ds) :
    Spells (cs ++ ds) (ts ++ us) := by
  induction h with
  | @done cs h =>
    have hdrop : (cs ++ ds).dropWhile isSeparator = ds.dropWhile isSeparator := by
      rw [List.dropWhile_append, h]
      rfl
    cases h' with
    | done h' => exact .done (hdrop.trans h')
    | token h' hscan hrest => exact .token (hdrop.trans h') hscan hrest
  | @token cs tail r c t ts h hscan hrest ih =>
    have hdrop : (cs ++ ds).dropWhile isSeparator = c :: (tail ++ ds) := by
      rw [List.dropWhile_append, h]
      rfl
    exact .token hdrop ((scans_scan c).append ds hscan fun _ => hstops) ih

theorem separator (hc : isSeparator c) (h : Spells cs ts) : Spells (c :: cs) ts := by
  have hdrop : (c :: cs).dropWhile isSeparator = cs.dropWhile isSeparator :=
    List.dropWhile_cons_of_pos hc
  cases h with
  | done h => exact .done (hdrop.trans h)
  | token h hscan hrest => exact .token (hdrop.trans h) hscan hrest

theorem mark {m : Mark} (hc : markOf? c = some m) (h : Spells cs ts) :
    Spells (c :: cs) (.mark m :: ts) := by
  have hsep : isSeparator c = false := by
    cases hsep : isSeparator c with
    | false => rfl
    | true =>
      simp only [isSeparator, Bool.or_eq_true, beq_iff_eq] at hsep
      rcases hsep with ((((rfl | rfl) | rfl) | rfl) | rfl) | rfl <;> cases hc
  refine .token (List.dropWhile_cons_of_neg (by simp [hsep])) ?_ h
  unfold scan
  rw [hc]

/-- A name spells itself. -/
theorem name {s : String} (h : isName s) : Spells s.toList [.name s] := by
  unfold isName at h
  split at h
  · cases h
  · rename_i c cs hs
    obtain ⟨hstart, hall⟩ := Bool.and_eq_true_iff.mp h
    have hother : markOf? c = none ∧ isSeparator c = false ∧ c ≠ '.' ∧ c ≠ '"' := by
      have hne : ∀ d : Char, isNameStart d = false → c ≠ d := by
        rintro d hd rfl
        rw [hstart] at hd
        cases hd
      refine ⟨?_, ?_, hne '.' (by decide), hne '"' (by decide)⟩
      · unfold markOf?
        split <;> first | rfl | exact absurd hstart (by decide)
      · simp only [isSeparator, Bool.or_eq_false_iff, beq_eq_false_iff_ne]
        exact ⟨⟨⟨⟨⟨hne _ (by decide), hne _ (by decide)⟩, hne _ (by decide)⟩, hne _ (by decide)⟩,
          hne _ (by decide)⟩, hne _ (by decide)⟩
    obtain ⟨hmark, hsep, hdot, hquote⟩ := hother
    have hall := List.all_eq_true.mp hall
    have htake := List.takeWhile_eq_self_iff.mpr hall
    have hdrop := List.dropWhile_eq_nil_iff.mpr hall
    have hscan : scan c cs = some (.name s, []) := by
      unfold scan
      rw [hmark]
      simp only [beq_iff_eq, hdot, hquote, hstart, if_true, if_false, htake, hdrop, ← hs,
        String.ofList_toList]
    rw [hs]
    exact .token (List.dropWhile_cons_of_neg (by simp [hsep])) hscan (.done rfl)

/-- Read all tokens of a text that holds no comment. -/
def read : Nat → List Char → Option (List Token)
  | 0, _ => none
  | n + 1, cs =>
    match cs.dropWhile isSeparator with
    | [] => some []
    | c :: tail =>
      match scan c tail with
      | some (t, rest) => (read n rest).map (t :: ·)
      | none => none

theorem of_read {n : Nat} (h : read n cs = some ts) : Spells cs ts := by
  induction n generalizing cs ts with
  | zero => cases h
  | succ n ih =>
    unfold read at h
    split at h
    · rename_i hd
      cases h
      exact .done hd
    · rename_i c tail hd
      split at h
      · rename_i t rest hscan
        obtain ⟨ts', hts, rfl⟩ := Option.map_eq_some_iff.mp h
        exact .token hd hscan (ih hts)
      · cases h

end Spells

/-- A text that spells tokens has these tokens. -/
theorem Token.ofText?_of_spells {s : String} {ts : List Token} (h : Spells s.toList ts) :
    Token.ofText? s = some ts := h.scanAll_eq (Nat.lt_succ_self _)

end SchemaForge.Language

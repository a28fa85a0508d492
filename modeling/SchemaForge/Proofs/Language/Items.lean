import Mathlib.Data.List.Forall2
import SchemaForge.Proofs.Language.Reading
import SchemaForge.Proofs.Outcome

/-!
# Lists of items in context

The members of a definition, and definitions themselves, are items that start with a name and
come one after another. A text stands for an item if reading it gives the item, or fails,
whatever fresh item or closing mark follows; texts one after another then stand for all the
items.
-/
namespace SchemaForge.Language

variable {α ξ : Type} {ts us rest : List Token} {s u : String}

namespace Spells

/-- Texts one after another spell their tokens one after another. -/
theorem concat (h : Spells s.toList ts) (h' : Spells u.toList us) (hstops : Stops u.toList) :
    Spells (s ++ u).toList (ts ++ us) := by
  rw [String.toList_append]
  exact h.append h' hstops

/-- Separators before a text do not count. -/
theorem separators {cs ds : List Char} (hcs : ∀ c ∈ cs, isSeparator c = true)
    (h : Spells ds ts) : Spells (cs ++ ds) ts := by
  induction cs with
  | nil => exact h
  | cons c cs ih =>
    exact separator (hcs c (List.mem_cons_self ..)) (ih fun d hd => hcs d (List.mem_cons_of_mem _ hd))

theorem stops_of_separator {c : Char} {cs : List Char} (h : isSeparator c = true) :
    Stops (c :: cs) := by
  rintro d ⟨⟩
  cases hgoes : goesOn c with
  | false => rfl
  | true =>
    simp only [isSeparator, Bool.or_eq_true, beq_iff_eq] at h
    rcases h with ((((rfl | rfl) | rfl) | rfl) | rfl) | rfl <;> cases hgoes

/-- Texts with separators between them spell their tokens one after another. -/
theorem intercalate {sep : String} {c : Char} {cs : List Char} (hsep : sep.toList = c :: cs)
    (hcs : (c :: cs).all isSeparator = true) {texts : List String}
    (h : ∀ s ∈ texts, Spells s.toList (Parser.tokens s)) :
    Spells (String.intercalate sep texts).toList (texts.flatMap Parser.tokens) := by
  induction texts with
  | nil => exact .done rfl
  | cons s texts ih =>
    have hs := h s (List.mem_cons_self ..)
    have hrest := ih fun u hu => h u (List.mem_cons_of_mem _ hu)
    cases texts with
    | nil =>
      rw [String.intercalate_singleton, List.flatMap_cons, List.flatMap_nil, List.append_nil]
      exact hs
    | cons u texts =>
      rw [String.intercalate_cons_cons, List.flatMap_cons, String.append_assoc,
        String.toList_append, String.toList_append]
      have hall := List.all_eq_true.mp hcs
      refine hs.append (separators (by rw [hsep]; exact hall) hrest) ?_
      rw [hsep]
      exact stops_of_separator (hall c (List.mem_cons_self ..))

end Spells

namespace Parser

theorem tokens_of_spells (h : Spells s.toList ts) : tokens s = ts := by
  rw [tokens, Token.ofText?_of_spells h]
  rfl

/-- Whether a token starts an item, or closes what holds the items. -/
def isFresh : Token → Bool
  | .name _ | .mark .parenR | .mark .braceR => true
  | _ => false

/-- Nothing follows, or what follows starts an item or closes what holds the items. -/
def Fresh (rest : List Token) : Prop := ∀ t ∈ rest.head?, isFresh t = true

theorem Fresh.ends (h : Fresh rest) : Ends rest := by
  intro t ht
  have hfresh := h t ht
  unfold isFresh at hfresh
  split at hfresh <;> first | rfl | cases hfresh

theorem Fresh.head_ne (h : Fresh rest) {m : Mark} (hm : isFresh (.mark m) = false) :
    rest.head? ≠ some (.mark m) := by
  intro heq
  have := h _ heq
  rw [hm] at this
  cases this

/-- A text stands for an item, or for none if it cannot be read. -/
structure Stands (p : Parser α) (s : String) (x : Option α) : Prop where
  /-- It spells its tokens. -/
  spells : Spells s.toList (tokens s)
  /-- It starts with a name. -/
  head : ∃ w tail, tokens s = .name w :: tail
  /-- Reading it gives the item, whatever fresh item follows. -/
  read : ∀ rest, Fresh rest → p (tokens s ++ rest) = x.map (·, rest)

theorem fresh_of_head (h : ∃ w tail, ts = .name w :: tail) (rest : List Token) :
    Fresh (ts ++ rest) := by
  obtain ⟨w, tail, rfl⟩ := h
  rintro t ⟨⟩
  rfl

theorem fresh_flatMap {p : Parser α} {texts : List String} {results : List (Option α)}
    (h : List.Forall₂ (Stands p) texts results) (hrest : Fresh rest) :
    Fresh (texts.flatMap tokens ++ rest) := by
  cases h with
  | nil => exact hrest
  | cons hs _ =>
    rw [List.flatMap_cons, List.append_assoc]
    exact fresh_of_head hs.head _

theorem length_le_flatMap {p : Parser α} {texts : List String} {results : List (Option α)}
    (h : List.Forall₂ (Stands p) texts results) :
    texts.length ≤ (texts.flatMap tokens).length := by
  induction h with
  | nil => exact Nat.le_refl _
  | cons hs _ ih =>
    obtain ⟨w, tail, hhead⟩ := hs.head
    simp only [List.flatMap_cons, List.length_append, List.length_cons, hhead]
    omega

/-- Items up to a closing mark are read one after another, if all can be read. -/
theorem upTo_texts {p : Parser α} {close : Mark} (hclose : isFresh (.mark close) = true)
    {texts : List String} {results : List (Option α)} (h : List.Forall₂ (Stands p) texts results)
    {n : Nat} (hn : texts.length < n) (rest : List Token) :
    upTo p close n (texts.flatMap tokens ++ .mark close :: rest)
      = (results.mapM id).map (·, rest) := by
  induction h generalizing n with
  | nil =>
    obtain ⟨n, rfl⟩ : ∃ k, n = k + 1 := ⟨n - 1, by omega⟩
    unfold upTo
    exact bind_of_some (accept_cons _ _)
  | @cons s x texts results hs htexts ih =>
    obtain ⟨n, rfl⟩ : ∃ k, n = k + 1 := ⟨n - 1, by omega⟩
    obtain ⟨w, tail, hhead⟩ := hs.head
    have hfresh : Fresh (texts.flatMap tokens ++ .mark close :: rest) :=
      fresh_flatMap htexts (by rintro t ⟨⟩; exact hclose)
    have hread := hs.read _ hfresh
    have hrest := ih (Nat.lt_of_succ_lt_succ hn)
    unfold upTo
    rw [List.flatMap_cons, List.append_assoc, bind_of_some (accept_of_ne (by simp [hhead]))]
    rw [if_neg Bool.false_ne_true, List.mapM_cons]
    cases x with
    | none => exact bind_of_none hread
    | some x =>
      rw [bind_of_some hread]
      cases hresults : results.mapM id with
      | none =>
        rw [hresults] at hrest
        exact bind_of_none hrest
      | some xs =>
        rw [hresults] at hrest
        exact bind_of_some hrest

/-- Items between marks are read if all can be read. -/
theorem optionalMany_texts {p : Parser α} {opening close : Mark}
    (hclose : isFresh (.mark close) = true) {texts : List String} {results : List (Option α)}
    (h : List.Forall₂ (Stands p) texts results) (hsome : texts ≠ []) (rest : List Token) :
    optionalMany opening p close (.mark opening :: texts.flatMap tokens ++ .mark close :: rest)
      = (results.mapM id).map (·, rest) := by
  cases h with
  | nil => exact absurd rfl hsome
  | @cons s x texts results hs htexts =>
    have hfresh : Fresh (texts.flatMap tokens ++ .mark close :: rest) :=
      fresh_flatMap htexts (by rintro t ⟨⟩; exact hclose)
    have hread := hs.read _ hfresh
    unfold optionalMany many
    rw [List.cons_append, bind_of_some (at?_apply _ _), List.head?_cons, beq_self_eq_true,
      if_pos rfl, bind_of_some (expect_cons _ _), List.flatMap_cons, List.append_assoc,
      List.mapM_cons]
    cases x with
    | none => exact bind_of_none hread
    | some x =>
      have hlength := length_le_flatMap htexts
      have hfuel : texts.length < (texts.flatMap tokens ++ .mark close :: rest).length + 1 := by
        rw [List.length_append]
        omega
      have hrest := upTo_texts hclose htexts hfuel rest
      rw [bind_of_some hread, bind_of_some (fuel_apply _)]
      cases hresults : results.mapM id with
      | none =>
        rw [hresults] at hrest
        exact bind_of_none hrest
      | some xs =>
        rw [hresults] at hrest
        exact bind_of_some hrest

/-- Where no opening mark stands there are no items. -/
theorem optionalMany_none {p : Parser α} {opening close : Mark}
    (h : rest.head? ≠ some (.mark opening)) : optionalMany opening p close rest = some ([], rest) := by
  unfold optionalMany
  rw [bind_of_some (at?_apply _ _), beq_eq_false_iff_ne.mpr h, if_neg Bool.false_ne_true]
  rfl

/-- Definitions up to the end are read if all can be read. -/
theorem definitions_texts {texts : List String} {results : List (Option Definition)}
    (h : List.Forall₂ (Stands definition) texts results) (hsome : texts ≠ []) {n : Nat}
    (hn : texts.length ≤ n) :
    definitions n (texts.flatMap tokens) = (results.mapM id).map (·, []) := by
  induction h generalizing n with
  | nil => exact absurd rfl hsome
  | @cons s x texts results hs htexts ih =>
    obtain ⟨n, rfl⟩ : ∃ k, n = k + 1 := ⟨n - 1, by simp at hn; omega⟩
    have hfresh : Fresh (texts.flatMap tokens ++ []) := fresh_flatMap htexts (by rintro t ⟨⟩)
    rw [List.append_nil] at hfresh
    have hread := hs.read _ hfresh
    have hget : ∀ ts : List Token, (get : Parser (List Token)) ts = some (ts, ts) := fun _ => rfl
    unfold definitions
    rw [List.flatMap_cons, List.mapM_cons]
    cases x with
    | none => exact bind_of_none hread
    | some x =>
      rw [bind_of_some hread, bind_of_some (hget _)]
      cases htexts with
      | nil => rfl
      | @cons u y texts results hu htexts =>
        have hnonempty : ((u :: texts).flatMap tokens).isEmpty = false := by
          obtain ⟨w, tail, hhead⟩ := hu.head
          simp [List.flatMap_cons, hhead]
        have hrest := ih (by simp) (Nat.le_of_succ_le_succ hn)
        rw [hnonempty, if_neg Bool.false_ne_true]
        cases hresults : (y :: results).mapM id with
        | none =>
          rw [hresults] at hrest
          exact bind_of_none hrest
        | some xs =>
          rw [hresults] at hrest
          exact bind_of_some hrest

end Parser
end SchemaForge.Language

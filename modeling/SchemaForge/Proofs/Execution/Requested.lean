import SchemaForge.Execution.Asked
import SchemaForge.Proofs.Store.Lookahead

/-!
# Selections that ask for the same

Selections can be written down in many ways: fields under other keys, with other arguments, split
up, repeated, in another order, under conditions, or in fragments. None of this changes the chains
of fields that they select, and so none of it changes what is loaded ahead. In particular it makes
no difference that fragments are written out before an operation is run.
-/
namespace SchemaForge

open Language

/-! ### Chains, selection by selection -/

namespace Selects

variable {fragments : Table Fragment} {xs ys sub : List Selection} {p : List String}

/-- A chain starts in one of the selections. -/
theorem iff_mem (xs : List Selection) :
    Selects fragments xs p ↔ ∃ x ∈ xs, Selects fragments [x] p := by
  constructor
  · intro h
    cases h with
    | last hx hsub => exact ⟨_, hx, .last (List.mem_singleton_self _) hsub⟩
    | field hx hp => exact ⟨_, hx, .field (List.mem_singleton_self _) hp⟩
    | inline hx hp => exact ⟨_, hx, .inline (List.mem_singleton_self _) hp⟩
    | spread hx hf hp => exact ⟨_, hx, .spread (List.mem_singleton_self _) hf hp⟩
  · rintro ⟨x, hx, h⟩
    cases h with
    | last hy hsub => exact .last (List.mem_singleton.mp hy ▸ hx) hsub
    | field hy hp => exact .field (List.mem_singleton.mp hy ▸ hx) hp
    | inline hy hp => exact .inline (List.mem_singleton.mp hy ▸ hx) hp
    | spread hy hf hp => exact .spread (List.mem_singleton.mp hy ▸ hx) hf hp

theorem iff_append :
    Selects fragments (xs ++ ys) p ↔ Selects fragments xs p ∨ Selects fragments ys p := by
  rw [iff_mem, iff_mem xs, iff_mem ys]
  simp only [List.mem_append, or_and_right, exists_or]

theorem iff_field {a : Option String} {name : String} {arguments : Arguments}
    {uses : List DirectiveUse} :
    Selects fragments [.field a name arguments uses sub] p
      ↔ p = [name] ∧ sub ≠ [] ∨ ∃ q, p = name :: q ∧ Selects fragments sub q := by
  constructor
  · intro h
    cases h with
    | last hx hsub =>
      cases List.mem_singleton.mp hx
      exact .inl ⟨rfl, hsub⟩
    | field hx hp =>
      cases List.mem_singleton.mp hx
      exact .inr ⟨_, rfl, hp⟩
    | inline hx => cases List.mem_singleton.mp hx
    | spread hx => cases List.mem_singleton.mp hx
  · rintro (⟨rfl, hsub⟩ | ⟨q, rfl, hq⟩)
    · exact .last (List.mem_singleton_self _) hsub
    · exact .field (List.mem_singleton_self _) hq

theorem iff_inline {condition : Option String} {uses : List DirectiveUse} :
    Selects fragments [.inline condition uses sub] p ↔ Selects fragments sub p := by
  constructor
  · intro h
    cases h with
    | inline hx hp =>
      cases List.mem_singleton.mp hx
      exact hp
    | last hx => cases List.mem_singleton.mp hx
    | field hx => cases List.mem_singleton.mp hx
    | spread hx => cases List.mem_singleton.mp hx
  · exact .inline (List.mem_singleton_self _)

theorem iff_spread {name : String} {uses : List DirectiveUse} :
    Selects fragments [.spread name uses] p
      ↔ ∃ f, fragments.get? name = some f ∧ Selects fragments f.selections p := by
  constructor
  · intro h
    cases h with
    | spread hx hf hp =>
      cases List.mem_singleton.mp hx
      exact ⟨_, hf, hp⟩
    | last hx => cases List.mem_singleton.mp hx
    | field hx => cases List.mem_singleton.mp hx
    | inline hx => cases List.mem_singleton.mp hx
  · rintro ⟨f, hf, hp⟩
    exact .spread (List.mem_singleton_self _) hf hp

end Selects

/-! ### Other ways to write selections -/

/-- Selections, with the fragments that they may name, in another way of writing. -/
inductive Rewritten : Table Fragment → List Selection → Table Fragment → List Selection → Prop
  /-- No selections, whatever fragments there are. -/
  | nil (F G : Table Fragment) : Rewritten F [] G []
  /-- The same. -/
  | refl (F : Table Fragment) (xs : List Selection) : Rewritten F xs F xs
  /-- The other way round. -/
  | symm {F G : Table Fragment} {xs ys : List Selection} (h : Rewritten F xs G ys) :
      Rewritten G ys F xs
  /-- In two steps. -/
  | trans {F G H : Table Fragment} {xs ys zs : List Selection} (h : Rewritten F xs G ys)
      (k : Rewritten G ys H zs) : Rewritten F xs H zs
  /-- In two parts. -/
  | append {F G : Table Fragment} {xs ys xs' ys' : List Selection} (h : Rewritten F xs G xs')
      (k : Rewritten F ys G ys') : Rewritten F (xs ++ ys) G (xs' ++ ys')
  /-- In another order. -/
  | reordered {F : Table Fragment} {xs ys : List Selection} (h : xs.Perm ys) : Rewritten F xs F ys
  /-- Repeated. -/
  | repeated (F : Table Fragment) (xs : List Selection) : Rewritten F xs F (xs ++ xs)
  /-- A field under another key, with other arguments and directives, and with its own selections
  written in another way. -/
  | field {F G : Table Fragment} {sub sub' : List Selection} (a a' : Option String) (name : String)
      (arguments arguments' : Arguments) (uses uses' : List DirectiveUse)
      (hsub : sub = [] ↔ sub' = []) (h : Rewritten F sub G sub') :
      Rewritten F [.field a name arguments uses sub] G [.field a' name arguments' uses' sub']
  /-- A field that is split in two. -/
  | split (F : Table Fragment) (a : Option String) (name : String) (arguments : Arguments)
      (uses : List DirectiveUse) (xs ys : List Selection) :
      Rewritten F [.field a name arguments uses (xs ++ ys)]
        F [.field a name arguments uses xs, .field a name arguments uses ys]
  /-- Selections under a condition. -/
  | inline (F : Table Fragment) (condition : Option String) (uses : List DirectiveUse)
      (sub : List Selection) : Rewritten F [.inline condition uses sub] F sub
  /-- A fragment written out. -/
  | spread {F : Table Fragment} {name : String} {f : Fragment} (uses : List DirectiveUse)
      (hf : F.get? name = some f) : Rewritten F [.spread name uses] F f.selections
  /-- A fragment that is not there. -/
  | missing {F : Table Fragment} {name : String} (uses : List DirectiveUse)
      (hf : F.get? name = none) : Rewritten F [.spread name uses] F []

namespace Rewritten

/-- **Selections select the same chains however they are written.** -/
theorem selects_iff {F G : Table Fragment} {xs ys : List Selection} (h : Rewritten F xs G ys)
    (p : List String) : Selects F xs p ↔ Selects G ys p := by
  induction h generalizing p with
  | nil => exact iff_of_false not_selects_nil not_selects_nil
  | refl => exact Iff.rfl
  | symm _ ih => exact (ih p).symm
  | trans _ _ ih ih' => exact (ih p).trans (ih' p)
  | append _ _ ih ih' => rw [Selects.iff_append, Selects.iff_append, ih, ih']
  | reordered h =>
    rw [Selects.iff_mem, Selects.iff_mem]
    simp only [h.mem_iff]
  | repeated => rw [Selects.iff_append, or_self]
  | field a a' name arguments arguments' uses uses' hsub _ ih =>
    simp only [Selects.iff_field, ne_eq, hsub, ih]
  | split F a name arguments uses xs ys =>
    change _ ↔ Selects F ([_] ++ [_]) p
    rw [Selects.iff_append]
    simp only [Selects.iff_field, Selects.iff_append, ne_eq, List.append_eq_nil_iff,
      Classical.not_and_iff_not_or_not, and_or_left, exists_or, or_assoc, or_left_comm]
  | inline => exact Selects.iff_inline
  | spread uses hf =>
    rw [Selects.iff_spread]
    simp [hf]
  | missing uses hf =>
    rw [Selects.iff_spread]
    simp [hf, not_selects_nil]

end Rewritten

/-! ### Fragments written out -/

namespace Fragments

/-- Fragments by name. -/
def table (fragments : List Fragment) : Table Fragment := fragments.map fun f => (f.name, f)

theorem get?_table (fragments : List Fragment) (name : String) :
    (table fragments).get? name = fragments.find? (·.name == name) := by
  induction fragments with
  | nil => rfl
  | cons f fs ih =>
    rw [table, List.map_cons, Table.get?_cons, List.find?_cons, ← table, ih, BEq.comm]
    cases f.name == name <;> rfl

/-- What a fragment names so many levels down. -/
def namesAfter (fragments : Table Fragment) : Nat → String → List String
  | 0, name => [name]
  | n + 1, name => match fragments.get? name with
    | some f => (Selection.namedAll f.selections).flatMap (namesAfter fragments n)
    | none => []

/-- There are no more levels than fragments. -/
theorem namesAfter_eq_nil {fragments : Table Fragment} (hacyclic : Acyclic fragments) {n : Nat} :
    ∀ {names : List String} {name : String}, Covers fragments names [.spread name []] →
      names.length ≤ n → namesAfter fragments (n + 1) name = [] := by
  induction n with
  | zero =>
    intro names name hcovers hn
    rw [namesAfter]
    cases hf : fragments.get? name with
    | none => rfl
    | some f =>
      have hmem := (hcovers.spread hacyclic (List.mem_singleton_self _) hf).1
      rw [List.length_eq_zero_iff.mp (Nat.le_zero.mp hn)] at hmem
      cases hmem
  | succ n ih =>
    intro names name hcovers hn
    rw [namesAfter]
    cases hf : fragments.get? name with
    | none => rfl
    | some f =>
      obtain ⟨hmem, hrest⟩ := hcovers.spread hacyclic (List.mem_singleton_self _) hf
      refine List.flatMap_eq_nil_iff.mpr fun a ha => @ih (names.erase name) _ ?_ ?_
      · exact hrest.of_named fun b hb => List.mem_singleton.mp hb ▸ ha
      · rw [List.length_erase_of_mem hmem]
        omega

end Fragments

namespace Language.Selection

variable (fragments : List Fragment)

mutual

theorem rewritten_unfolded : ∀ x : Selection, Rewritten (Fragments.table fragments) [x]
    (Fragments.table fragments) [unfolded fragments x]
  | field a name arguments uses sub => by
    rw [unfolded]
    refine .field a a name arguments arguments uses uses ?_ (rewritten_unfoldedAll sub)
    cases sub with
    | nil => exact Iff.rfl
    | cons y ys => exact iff_of_false (List.cons_ne_nil _ _) (List.cons_ne_nil _ _)
  | inline condition uses sub => by
    rw [unfolded]
    exact (Rewritten.inline ..).trans ((rewritten_unfoldedAll sub).trans (Rewritten.inline ..).symm)
  | spread name uses => by
    rw [unfolded]
    cases hf : fragments.find? (·.name == name) with
    | none =>
      rw [← Fragments.get?_table] at hf
      exact (Rewritten.missing uses hf).trans (Rewritten.inline ..).symm
    | some f =>
      rw [← Fragments.get?_table] at hf
      exact (Rewritten.spread uses hf).trans (Rewritten.inline ..).symm

theorem rewritten_unfoldedAll : ∀ xs : List Selection, Rewritten (Fragments.table fragments) xs
    (Fragments.table fragments) (unfoldedAll fragments xs)
  | [] => .nil ..
  | x :: xs => by
    rw [unfoldedAll]
    exact (rewritten_unfolded x).append (rewritten_unfoldedAll xs)

end

theorem rewritten_unfoldedTo (n : Nat) (xs : List Selection) :
    Rewritten (Fragments.table fragments) xs (Fragments.table fragments)
      (unfoldedTo fragments n xs) := by
  induction n generalizing xs with
  | zero => exact .refl ..
  | succ n ih => exact (rewritten_unfoldedAll fragments xs).trans (ih _)

mutual

/-- Fragments that are not named do not matter. -/
theorem rewritten_of_named_nil (F G : Table Fragment) : ∀ x : Selection, named x = [] →
    Rewritten F [x] G [x]
  | field a name arguments uses sub, h => by
    rw [named] at h
    exact .field a a name arguments arguments uses uses Iff.rfl (rewritten_of_namedAll_nil F G sub h)
  | inline condition uses sub, h => by
    rw [named] at h
    exact (Rewritten.inline ..).trans
      ((rewritten_of_namedAll_nil F G sub h).trans (Rewritten.inline ..).symm)
  | spread name uses, h => by
    rw [named] at h
    cases h

theorem rewritten_of_namedAll_nil (F G : Table Fragment) : ∀ xs : List Selection,
    namedAll xs = [] → Rewritten F xs G xs
  | [], _ => .nil ..
  | x :: xs, h => by
    rw [namedAll, List.append_eq_nil_iff] at h
    exact (rewritten_of_named_nil F G x h.1).append (rewritten_of_namedAll_nil F G xs h.2)

end

mutual

theorem named_unfolded : ∀ x : Selection, named (unfolded fragments x)
    = (named x).flatMap (Fragments.namesAfter (Fragments.table fragments) 1)
  | field a name arguments uses sub => by
    rw [unfolded, named, named]
    exact namedAll_unfoldedAll sub
  | inline condition uses sub => by
    rw [unfolded, named, named]
    exact namedAll_unfoldedAll sub
  | spread name uses => by
    rw [unfolded, named, List.flatMap_singleton, Fragments.namesAfter, Fragments.get?_table]
    cases fragments.find? (·.name == name) with
    | none => rfl
    | some f => exact (List.flatMap_singleton' _).symm

theorem namedAll_unfoldedAll : ∀ xs : List Selection, namedAll (unfoldedAll fragments xs)
    = (namedAll xs).flatMap (Fragments.namesAfter (Fragments.table fragments) 1)
  | [] => rfl
  | x :: xs => by
    rw [unfoldedAll, namedAll, namedAll, List.flatMap_append, named_unfolded, namedAll_unfoldedAll]

end

theorem namedAll_unfoldedTo (n : Nat) (xs : List Selection) :
    namedAll (unfoldedTo fragments n xs)
      = (namedAll xs).flatMap (Fragments.namesAfter (Fragments.table fragments) n) := by
  induction n generalizing xs with
  | zero => exact (List.flatMap_singleton' _).symm
  | succ n ih =>
    rw [unfoldedTo, ih, namedAll_unfoldedAll, List.flatMap_assoc]
    refine congrArg (List.flatMap · (namedAll xs)) (funext fun name => ?_)
    rw [Fragments.namesAfter, Fragments.namesAfter]
    cases (Fragments.table fragments).get? name with
    | none => rfl
    | some f =>
      dsimp only
      rw [List.flatMap_assoc]
      refine congrArg (List.flatMap · _) (funext fun name => ?_)
      rw [Fragments.namesAfter, List.flatMap_singleton]

/-- Selections that are written out name no fragments. -/
theorem namedAll_expanded (hacyclic : Fragments.Acyclic (Fragments.table fragments))
    (xs : List Selection) : namedAll (expanded fragments xs) = [] := by
  rw [expanded, namedAll_unfoldedTo, List.flatMap_eq_nil_iff]
  intro name _
  refine Fragments.namesAfter_eq_nil hacyclic (Fragments.covers_keys _) (Nat.le_of_eq ?_)
  rw [Table.keys, Fragments.table, List.length_map, List.length_map]

theorem rewritten_expanded (hacyclic : Fragments.Acyclic (Fragments.table fragments))
    (xs : List Selection) :
    Rewritten (Fragments.table fragments) xs [] (expanded fragments xs) :=
  (rewritten_unfoldedTo fragments _ xs).trans
    (rewritten_of_namedAll_nil _ [] _ (namedAll_expanded fragments hacyclic xs))

end Language.Selection

/-! ### What is loaded ahead -/

namespace Models

/-- No association from a model, or from any other, has a name that belongs to introspection. A
schema with such a field is not sound, and answers no query. -/
def Unreserved (models : Models) (m : Model) : Prop :=
  ∀ t, t = m ∨ (∃ name, models.get? name = some t) →
    ∀ name, Include.isMeta name → t.association? name = none

theorem Unreserved.isMeta_eq_false {models : Models} {m : Model} (h : models.Unreserved m)
    {p : List String} (hp : models.Leads m p) : ∀ name ∈ p, Include.isMeta name = false := by
  induction p generalizing m with
  | nil => exact fun name hname => by cases hname
  | cons key rest ih =>
    obtain ⟨a, ha, -, hrest⟩ := hp
    intro name hname
    rcases List.mem_cons.mp hname with rfl | hname
    · refine Bool.eq_false_iff.mpr fun hmeta => ?_
      rw [h m (.inl rfl) name hmeta] at ha
      cases ha
    · rcases hrest with rfl | ⟨t, ht, hrest⟩
      · cases hname
      · refine ih (fun u hu => h u (.inr ?_)) hrest name hname
        exact hu.elim (fun heq => heq ▸ ⟨_, ht⟩) id

end Models

namespace Include

variable {models : Models} {m : Model}

/-- What is loaded ahead are the selected chains of associations to single rows. -/
theorem mem_loaded_requested {fragments : Table Fragment}
    (hacyclic : Fragments.Acyclic fragments) (hnames : models.Unreserved m) (xs : List Selection)
    (p : List String) : p ∈ (requested fragments xs).loaded models m
      ↔ Selects fragments xs p ∧ models.Leads m p := by
  rw [mem_loaded]
  refine and_congr_left fun hleads => ⟨selects_of_has ?_, fun h => ?_⟩
  · rintro rfl
    exact hleads
  · exact has_of_selects hacyclic h (hnames.isMeta_eq_false hleads) (Fragments.covers_keys xs)
      (Nat.le_refl _)

/-- **Exactly the chains of selected fields that are associations to single rows are loaded
ahead**, and the same ones however the selections are written: with fields under other keys,
split, repeated or in another order, and with fragments written out, as they are in a run. -/
theorem loads_selected (fragments : List Fragment)
    (hacyclic : Fragments.Acyclic (Fragments.table fragments)) (hnames : models.Unreserved m)
    (xs : List Selection) :
    (∀ p, p ∈ (requested (Fragments.table fragments) xs).loaded models m
      ↔ Selects (Fragments.table fragments) xs p ∧ models.Leads m p)
    ∧ (∀ G ys, Fragments.Acyclic G → Rewritten (Fragments.table fragments) xs G ys →
      ∀ p, p ∈ (requested G ys).loaded models m
        ↔ p ∈ (requested (Fragments.table fragments) xs).loaded models m)
    ∧ ∀ p, p ∈ (requested [] (Selection.expanded fragments xs)).loaded models m
        ↔ p ∈ (requested (Fragments.table fragments) xs).loaded models m := by
  have hexact := mem_loaded_requested hacyclic hnames xs
  have hsame : ∀ G ys, Fragments.Acyclic G → Rewritten (Fragments.table fragments) xs G ys →
      ∀ p, p ∈ (requested G ys).loaded models m
        ↔ p ∈ (requested (Fragments.table fragments) xs).loaded models m := by
    intro G ys hG hrewritten p
    rw [mem_loaded_requested hG hnames, hexact, hrewritten.selects_iff]
  have hnone : Fragments.Acyclic [] := by
    intro name hpath
    obtain ⟨_, ⟨f, hf, -⟩, -⟩ := Relation.TransGen.head'_iff.mp hpath
    cases hf
  exact ⟨hexact, hsame, hsame [] _ hnone (Selection.rewritten_expanded fragments hacyclic xs)⟩

/-! ### Items of orders -/

/-- A column that holds integers. -/
def number (key : String) (foreign : Option (String × String)) : Column where
  key := key
  name := key
  type := .base "Integer"
  primary := key == "id"
  nullable := true
  foreign := foreign

/-- Items, each of an order and of a product. -/
def item : Model where
  name := "Item"
  table := "items"
  columns := [number "id" none, number "order_id" (some ("orders", "id")),
    number "product_id" (some ("products", "id"))]
  virtuals := []
  associations := [⟨"order", "Order", none⟩, ⟨"product", "Product", none⟩]

/-- Items with their orders, and products with their groups. -/
def warehouse : Models :=
  [("Item", item),
    ("Order", ⟨"Order", "orders", [number "id" none], [], [⟨"items", "Item", none⟩]⟩),
    ("Product", ⟨"Product", "products",
      [number "id" none, number "group_id" (some ("groups", "id"))], [], [⟨"group", "Group", none⟩]⟩),
    ("Group", ⟨"Group", "groups", [number "id" none], [], []⟩)]

/-- A field without arguments and directives. -/
def plainField (name : String) (sub : List Selection) : Selection := .field none name [] [] sub

/-- What is selected of an item's product and order. -/
def details : Fragment where
  name := "Details"
  condition := "Item"
  directives := []
  selections := [plainField "product" [plainField "group" [plainField "id" []]],
    .field (some "whole") "order" [] [] [plainField "items" [plainField "id" []]]]

/-- What is selected of an item. -/
def ofItem : List Selection :=
  [plainField "order" [plainField "id" []], .spread "Details" []]

theorem acyclic_details : Fragments.Acyclic (Fragments.table [details]) := by
  intro name hpath
  obtain ⟨b, ⟨f, hf, hb⟩, -⟩ := Relation.TransGen.head'_iff.mp hpath
  have hmem := Table.mem_of_get? hf
  cases List.mem_singleton.mp hmem
  cases hb

theorem unreserved_warehouse : warehouse.Unreserved item := by
  have hkeys : ∀ e ∈ warehouse, ∀ a ∈ e.2.associations, isMeta a.key = false := by
    decide +kernel
  intro t ht name hname
  obtain ⟨key, hmem⟩ : ∃ key, (key, t) ∈ warehouse := by
    rcases ht with rfl | ⟨key, hkey⟩
    · exact ⟨"Item", List.mem_cons_self⟩
    · exact ⟨key, Table.mem_of_get? hkey⟩
  refine List.find?_eq_none.mpr fun a ha hkey => ?_
  rw [← beq_iff_eq.mp hkey, hkeys _ hmem a ha] at hname
  cases hname

/-- The group of the product is loaded ahead, through a fragment; the items of the order are
not. -/
theorem loads_selected_details : Fragments.Acyclic (Fragments.table [details])
    ∧ warehouse.Unreserved item
    ∧ ["product", "group"] ∈ (requested (Fragments.table [details]) ofItem).loaded warehouse item
    ∧ ["order", "items"] ∉ (requested (Fragments.table [details]) ofItem).loaded warehouse item := by
  obtain ⟨hexact, -, -⟩ := loads_selected [details] acyclic_details unreserved_warehouse ofItem
  refine ⟨acyclic_details, unreserved_warehouse, (hexact _).mpr ⟨?_, ?_⟩, fun h => ?_⟩
  · have hgroup : Selects (Fragments.table [details]) details.selections ["product", "group"] :=
      .field List.mem_cons_self (.last List.mem_cons_self (List.cons_ne_nil _ _))
    exact .spread (List.mem_cons_of_mem _ List.mem_cons_self) rfl hgroup
  · exact ⟨_, rfl, by decide, .inr ⟨_, rfl, _, rfl, by decide, .inl rfl⟩⟩
  · obtain ⟨-, a, ha, -, hrest⟩ := (hexact _).mp h
    cases ha
    obtain ⟨t, ht, b, hb, hmany, -⟩ := hrest.resolve_left (List.cons_ne_nil _ _)
    cases ht
    cases hb
    exact absurd hmany (by decide)

end Include
end SchemaForge

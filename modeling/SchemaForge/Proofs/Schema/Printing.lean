import SchemaForge.Proofs.Schema.Rebuilding
import SchemaForge.Schema.Printer

/-!
# What is written of a schema

A schema is written in an order of its own, which is total, so the order of its types does not
matter. The text is that of the nodes: every type by its definition, its extensions right after.
What is written is itself a schema, and writing it gives the same text.
-/
namespace SchemaForge

open Language

/-- Texts that are joined in groups are joined altogether, unless a group is empty. -/
theorem intercalate_flatMap {α : Type} {sep : String} {f : α → List String} {xs : List α}
    (hf : ∀ x ∈ xs, f x ≠ []) :
    String.intercalate sep (xs.map fun x => String.intercalate sep (f x))
      = String.intercalate sep (xs.flatMap f) := by
  induction xs with
  | nil => rfl
  | cons x xs ih =>
    obtain ⟨hx, hxs⟩ := List.forall_mem_cons.mp hf
    rw [List.map_cons, List.flatMap_cons]
    cases xs with
    | nil => rw [List.map_nil, List.flatMap_nil, List.append_nil, String.intercalate_singleton]
    | cons y ys =>
      have hne : (y :: ys).flatMap f ≠ [] := by
        rw [List.flatMap_cons]
        exact List.append_ne_nil_of_left_ne_nil (hxs y List.mem_cons_self) _
      rw [String.intercalate_append_of_ne_nil hx hne, ← ih hxs, List.map_cons,
        String.intercalate_cons_cons]

theorem intercalate_append_flatMap {α : Type} {sep : String} {f : α → List String}
    {texts : List String} {xs : List α} (hf : ∀ x ∈ xs, f x ≠ []) :
    String.intercalate sep (texts ++ xs.map fun x => String.intercalate sep (f x))
      = String.intercalate sep (texts ++ xs.flatMap f) := by
  cases texts with
  | nil => exact intercalate_flatMap hf
  | cons text texts =>
    cases xs with
    | nil => rfl
    | cons x xs =>
      have hne : (x :: xs).flatMap f ≠ [] := by
        rw [List.flatMap_cons]
        exact List.append_ne_nil_of_left_ne_nil (hf x List.mem_cons_self) _
      have hmap : (x :: xs).map (fun x => String.intercalate sep (f x)) ≠ [] := List.cons_ne_nil _ _
      rw [String.intercalate_append_of_ne_nil (List.cons_ne_nil _ _) hmap,
        String.intercalate_append_of_ne_nil (List.cons_ne_nil _ _) hne, intercalate_flatMap hf]

namespace Schema

/-! ### The order of types -/

/-- The order of types, by rank and then by name. -/
theorem notAfter_eq (a b : String) :
    notAfter a b = (compareLex (compareOn rank) compare a b).isLE := by
  have hname : (Value.compareText a b).isLE = (compare a b).isLE := rfl
  rw [notAfter, hname, compareLex, compareOn]
  rcases Nat.lt_trichotomy (rank a) (rank b) with h | h | h
  · simp [h, Nat.compare_eq_lt.mpr h]
  · simp [h]
  · simp [Nat.compare_eq_gt.mpr h, Nat.not_lt.mpr (Nat.le_of_lt h), (Nat.ne_of_lt h).symm]

theorem notAfter_trans (a b c : String) (hab : notAfter a b = true) (hbc : notAfter b c = true) :
    notAfter a c = true := by
  rw [notAfter_eq] at *
  exact Std.TransCmp.isLE_trans hab hbc

theorem notAfter_total (a b : String) : (notAfter a b || notAfter b a) = true := by
  have hswap : compareLex (compareOn rank) compare b a
      = (compareLex (compareOn rank) compare a b).swap := Std.OrientedCmp.eq_swap
  rw [notAfter_eq, notAfter_eq, hswap]
  cases compareLex (compareOn rank) compare a b <;> rfl

/-- Whether a type comes before another: roots first, then by name. -/
def Precedes (a b : String) : Prop := rank a < rank b ∨ rank a = rank b ∧ a < b

theorem precedes_of_notAfter {a b : String} (h : notAfter a b = true) (hne : a ≠ b) :
    Precedes a b := by
  simp only [notAfter, Bool.or_eq_true, Bool.and_eq_true, decide_eq_true_eq, beq_iff_eq] at h
  refine h.imp_right fun ⟨hrank, hle⟩ => ⟨hrank, ?_⟩
  rw [Value.compareText, compareOfLessAndEq] at hle
  split at hle
  · assumption
  · simp at hle

theorem rank_eq_zero {n : String} : rank n = 0 ↔ n = OperationKind.query.rootName := by
  unfold rank
  split
  · simp_all
  · split <;> simp_all

theorem rank_eq_one {n : String} : rank n = 1 ↔ n = OperationKind.mutation.rootName := by
  unfold rank
  split
  · rename_i h
    rw [beq_iff_eq.mp h]
    decide
  · split <;> simp_all

theorem rank_le (n : String) : rank n ≤ 2 := by
  unfold rank
  split
  · decide
  · split <;> decide

theorem Precedes.irrefl {n : String} : ¬ Precedes n n := by
  rintro (h | ⟨-, h⟩)
  · exact Nat.lt_irrefl _ h
  · exact String.lt_irrefl _ h

/-- Nothing comes before the query root. -/
theorem not_precedes_query (n : String) : ¬ Precedes n OperationKind.query.rootName := by
  rintro (h | ⟨h, hlt⟩)
  · exact Nat.not_lt_zero _ h
  · obtain rfl := rank_eq_zero.mp h
    exact String.lt_irrefl _ hlt

/-- Only the query root comes before the mutation root. -/
theorem eq_query_of_precedes {n : String} (h : Precedes n OperationKind.mutation.rootName) :
    n = OperationKind.query.rootName := by
  have hrank : rank OperationKind.mutation.rootName = 1 := rank_eq_one.mpr rfl
  rcases h with h | ⟨h, hlt⟩
  · rw [hrank] at h
    exact rank_eq_zero.mp (Nat.lt_one_iff.mp h)
  · obtain rfl := rank_eq_one.mp (h.trans hrank)
    exact absurd hlt (String.lt_irrefl _)

/-- What nothing comes before is first. -/
theorem eq_cons_of_first {names : List String} (h : names.Pairwise Precedes) {n : String}
    (hn : n ∈ names) (hfirst : ∀ m ∈ names, ¬ Precedes m n) : ∃ rest, names = n :: rest := by
  cases names with
  | nil => cases hn
  | cons m names =>
    rcases List.mem_cons.mp hn with rfl | hn
    · exact ⟨names, rfl⟩
    · exact absurd ((List.pairwise_cons.mp h).1 n hn) (hfirst m List.mem_cons_self)

/-- **Roots come first**, the query root before the mutation root, and all others by name. -/
theorem roots_first {names : List String} (h : names.Pairwise Precedes)
    (hquery : OperationKind.query.rootName ∈ names) : ∃ rest : List String,
    names = OperationKind.query.rootName ::
        ((if OperationKind.mutation.rootName ∈ names then [OperationKind.mutation.rootName] else [])
          ++ rest)
      ∧ rest.Pairwise (· < ·) := by
  obtain ⟨names, rfl⟩ := eq_cons_of_first h hquery fun m _ => not_precedes_query m
  obtain ⟨hafter, hnames⟩ := List.pairwise_cons.mp h
  have hne : ∀ n ∈ names, n ≠ OperationKind.query.rootName := fun n hn heq =>
    Precedes.irrefl (heq ▸ hafter n hn)
  -- Without the roots only names decide.
  have hothers : ∀ rest : List String, rest.Sublist names →
      OperationKind.mutation.rootName ∉ rest → rest.Pairwise (· < ·) := by
    intro rest hrest hmutation
    have htwo : ∀ n ∈ rest, rank n = 2 := by
      intro n hn
      have hzero := mt rank_eq_zero.mp (hne n (hrest.subset hn))
      have hone := mt rank_eq_one.mp fun heq => hmutation (heq ▸ hn)
      have hle := rank_le n
      omega
    refine (hnames.sublist hrest).imp_of_mem fun hm hn hprecedes => ?_
    rcases hprecedes with hlt | ⟨-, hlt⟩
    · rw [htwo _ hm, htwo _ hn] at hlt
      exact absurd hlt (Nat.lt_irrefl _)
    · exact hlt
  by_cases hmutation : OperationKind.mutation.rootName ∈ names
  · obtain ⟨rest, rfl⟩ := eq_cons_of_first hnames hmutation fun m hm hprecedes =>
      hne m hm (eq_query_of_precedes hprecedes)
    refine ⟨rest, ?_, hothers rest (List.sublist_cons_self _ _) fun hmem => ?_⟩
    · rw [if_pos (List.mem_cons_of_mem _ hmutation)]
      rfl
    · exact Precedes.irrefl ((List.pairwise_cons.mp hnames).1 _ hmem)
  · refine ⟨names, ?_, hothers names (List.Sublist.refl _) hmutation⟩
    rw [if_neg]
    · rfl
    · intro hmem
      rcases List.mem_cons.mp hmem with heq | hmem
      · exact absurd heq (by decide)
      · exact hmutation hmem

/-- Everything that is written of a schema, in order. -/
def written (s : Schema) : Schema :=
  ⟨s.writtenTypes, s.writtenDirectives, rootsByName s.writtenTypes⟩

variable {s : Schema}

theorem pairwise_writtenTypes (s : Schema) :
    s.writtenTypes.Pairwise fun t u => notAfter t.1 u.1 = true :=
  List.pairwise_mergeSort (fun t u v => notAfter_trans t.1 u.1 v.1)
    (fun t u => notAfter_total t.1 u.1) _

/-- Types are written in their order. -/
theorem precedes_written (hnames : (Table.keys s.types).Nodup) :
    (Table.keys s.writtenTypes).Pairwise Precedes := by
  have hperm : s.writtenTypes.Perm (s.types.filter fun t => !isHidden t.1) :=
    List.mergeSort_perm _ _
  have hnodup : (Table.keys s.writtenTypes).Nodup :=
    (hperm.map Prod.fst).nodup_iff.mpr (hnames.sublist (List.filter_sublist.map _))
  have hsorted : (Table.keys s.writtenTypes).Pairwise fun a b => notAfter a b = true :=
    List.pairwise_map.mpr (pairwise_writtenTypes s)
  exact (hsorted.and hnodup).imp fun ⟨h, hne⟩ => precedes_of_notAfter h hne

/-- Types that are in order are written as they are. -/
theorem writtenTypes_of_pairwise (hshown : ∀ t ∈ s.types, isHidden t.1 = false)
    (hsorted : s.types.Pairwise fun t u => notAfter t.1 u.1 = true) : s.writtenTypes = s.types := by
  have hall : s.types.filter (fun t => !isHidden t.1) = s.types :=
    List.filter_eq_self.mpr fun t ht => by rw [hshown t ht]; rfl
  rw [writtenTypes, hall]
  exact List.mergeSort_of_pairwise hsorted

/-- What is written is all that is written of it. -/
theorem written_written (s : Schema) : s.written.written = s.written := by
  have htypes : s.written.writtenTypes = s.writtenTypes := by
    refine writtenTypes_of_pairwise (fun t ht => ?_) (pairwise_writtenTypes s)
    have hshown := (List.mem_filter.mp ((List.mergeSort_perm _ _).mem_iff.mp ht)).2
    rwa [Bool.not_eq_true'] at hshown
  have hdirectives : s.written.writtenDirectives = s.writtenDirectives := by
    show (s.directives.filter _).filter _ = s.directives.filter _
    rw [List.filter_filter]
    simp only [Bool.and_self]
  rw [written, htypes, hdirectives]
  rfl

/-! ### The text -/

/-- All nodes of a schema as text, in order. -/
def layout (s : Schema) : String :=
  String.intercalate "\n\n" (s.directives.map DirectiveNode.print ++ s.nodes.map TypeNode.print)

/-- **The text of a schema is that of the nodes that are written of it**, if all its types were
written as text. -/
theorem text_eq_layout (h : ∀ t ∈ s.types, t.2.written = true) : s.text = s.written.layout := by
  have hwritten : ∀ t ∈ s.writtenTypes, t.2.written = true := fun t ht =>
    h t (List.mem_filter.mp ((List.mergeSort_perm _ _).mem_iff.mp ht)).1
  have htypes : s.writtenTypes.map (fun t => s.typeText t.2)
      = s.writtenTypes.map fun t => String.intercalate "\n\n" (t.2.nodes.map TypeNode.print) := by
    refine List.map_congr_left fun t ht => ?_
    rw [typeText, shownNodes, if_pos (hwritten t ht)]
    rfl
  have hnodes : s.written.nodes.map TypeNode.print
      = s.writtenTypes.flatMap fun t => t.2.nodes.map TypeNode.print := List.map_flatMap
  rw [text, layout, htypes, hnodes]
  exact intercalate_append_flatMap fun t _ => List.cons_ne_nil _ _

end Schema
end SchemaForge

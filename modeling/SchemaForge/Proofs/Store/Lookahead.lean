import Mathlib.Logic.Relation
import SchemaForge.Store.Lookahead

/-!
# What is loaded ahead

What a field selects is gathered into one tree, through fragments and repeated fields. Its paths
are the chains of selected fields; and of these, exactly the chains of associations that lead to
single rows are loaded ahead. A chain does not depend on how the selections are written down, so
neither does what is loaded.
-/
namespace SchemaForge

open Language

/-! ### Trees of fields -/

namespace Include

/-- A path from the root of a tree. -/
def Has (t : Include) : List String → Prop
  | [] => True
  | name :: rest => ∃ sub, (name, sub) ∈ t.fields ∧ Has sub rest

theorem has_cons {t : Include} {name : String} {rest : List String} :
    t.Has (name :: rest) ↔ ∃ sub, (name, sub) ∈ t.fields ∧ sub.Has rest := Iff.rfl

theorem has_empty {p : List String} : empty.Has p ↔ p = [] := by
  cases p with
  | nil => exact iff_of_true trivial rfl
  | cons name rest => exact iff_of_false (fun ⟨_, h, _⟩ => by cases h) (List.cons_ne_nil _ _)

theorem has_node_cons (e : String × Include) (fs : List (String × Include)) {p : List String} :
    (node (e :: fs)).Has p ↔ (node [e]).Has p ∨ (node fs).Has p := by
  cases p with
  | nil => exact iff_of_true trivial (.inl trivial)
  | cons key rest =>
    simp only [has_cons, fields, List.mem_cons, List.not_mem_nil, or_false, or_and_right, exists_or]

theorem has_singleton {name key : String} {sub : Include} {rest : List String} :
    (node [(name, sub)]).Has (key :: rest) ↔ key = name ∧ sub.Has rest := by
  simp only [has_cons, fields, List.mem_singleton, Prod.mk.injEq]
  constructor
  · rintro ⟨_, ⟨rfl, rfl⟩, h⟩
    exact ⟨rfl, h⟩
  · rintro ⟨rfl, h⟩
    exact ⟨sub, ⟨rfl, rfl⟩, h⟩

/-- Changing what is below a name adds the paths that the change adds. -/
theorem has_modify {fs : List (String × Include)} {name : String} {sub : Include}
    {change : Include → Include} (hname : Table.has fs name)
    (h : ∀ u p, (change u).Has p ↔ u.Has p ∨ sub.Has p) (p : List String) :
    (node (Table.modify fs name change)).Has p ↔ (node fs).Has p ∨ (node [(name, sub)]).Has p := by
  cases p with
  | nil => exact iff_of_true trivial (.inl trivial)
  | cons key rest =>
    rw [has_singleton, has_cons, has_cons, fields, fields, Table.modify]
    simp only [List.mem_map]
    constructor
    · rintro ⟨u, ⟨⟨k, v⟩, hmem, he⟩, hu⟩
      split at he
      · rename_i hk
        cases he
        obtain rfl := beq_iff_eq.mp hk
        rcases (h v rest).mp hu with hv | hsub
        · exact .inl ⟨v, hmem, hv⟩
        · exact .inr ⟨rfl, hsub⟩
      · cases he
        exact .inl ⟨u, hmem, hu⟩
    · rintro (⟨u, hmem, hu⟩ | ⟨rfl, hsub⟩)
      · by_cases hk : key = name
        · subst hk
          exact ⟨change u, ⟨_, hmem, if_pos (beq_self_eq_true _)⟩, (h u rest).mpr (.inl hu)⟩
        · exact ⟨u, ⟨_, hmem, if_neg (mt beq_iff_eq.mp hk)⟩, hu⟩
      · obtain ⟨v, hv⟩ := Option.isSome_iff_exists.mp (Table.has_eq_isSome fs key ▸ hname)
        exact ⟨change v, ⟨_, Table.mem_of_get? hv, if_pos (beq_self_eq_true _)⟩,
          (h v rest).mpr (.inr hsub)⟩

theorem has_update {t sub : Include} {name : String} {change : Include → Include}
    (h : ∀ u p, (change u).Has p ↔ u.Has p ∨ sub.Has p) (p : List String) :
    (node (Table.update t.fields name empty change)).Has p
      ↔ t.Has p ∨ (node [(name, sub)]).Has p := by
  have hthere : Table.has (Table.ensure t.fields name empty) name := by
    rw [Table.has_eq_isSome, Table.get?_ensure, if_pos (beq_self_eq_true _)]
    cases Table.get? t.fields name <;> rfl
  rw [Table.update, has_modify hthere h]
  cases p with
  | nil => exact iff_of_true (.inl trivial) (.inl trivial)
  | cons key rest =>
    obtain ⟨fs⟩ := t
    -- A name that is added has nothing below it but what is changed there.
    have hensure : (node (Table.ensure fs name empty)).Has (key :: rest)
        → (node fs).Has (key :: rest) ∨ (node [(name, sub)]).Has (key :: rest) := by
      rintro ⟨u, hmem, hu⟩
      rw [fields, Table.ensure] at hmem
      split at hmem
      · exact .inl ⟨u, hmem, hu⟩
      · rcases List.mem_append.mp hmem with hmem | hmem
        · exact .inl ⟨u, hmem, hu⟩
        · cases List.mem_singleton.mp hmem
          rw [has_empty.mp hu]
          exact .inr (has_singleton.mpr ⟨rfl, trivial⟩)
    refine ⟨fun hp => hp.elim hensure .inr, Or.imp_left ?_⟩
    rintro ⟨u, hmem, hu⟩
    have hmem : (key, u) ∈ fs := hmem
    refine ⟨u, ?_, hu⟩
    rw [fields, Table.ensure]
    split
    · exact hmem
    · exact List.mem_append_left _ hmem

mutual

/-- **Two trees together have the paths of both.** -/
theorem has_merge : ∀ (t u : Include) (p : List String), (merge t u).Has p ↔ t.Has p ∨ u.Has p
  | t, node fs, p => by
    rw [merge]
    exact has_mergeAll t fs p

theorem has_mergeAll : ∀ (t : Include) (fs : List (String × Include)) (p : List String),
    (mergeAll t fs).Has p ↔ t.Has p ∨ (node fs).Has p
  | t, [], p => by
    rw [mergeAll]
    exact (or_iff_left_of_imp fun h => has_empty.mp h ▸ trivial).symm
  | t, (name, sub) :: rest, p => by
    rw [mergeAll, has_mergeAll, has_update fun u => has_merge u sub,
      has_node_cons _ rest, or_assoc]

end

end Include

/-! ### Associations to single rows -/

/-- A path of associations from a model, each of which leads to a single row. -/
def Models.Leads (models : Models) : Model → List String → Prop
  | _, [] => False
  | m, name :: rest => ∃ a, m.association? name = some a ∧ models.isMany m a = false
      ∧ (rest = [] ∨ ∃ t, models.target? a = some t ∧ Leads models t rest)

namespace Include

variable (models : Models)

mutual

/-- **What is loaded are the paths of associations to single rows.** -/
theorem mem_loaded : ∀ (t : Include) (m : Model) (p : List String),
    p ∈ t.loaded models m ↔ t.Has p ∧ models.Leads m p
  | node fs, m, p => by
    rw [loaded]
    exact mem_loadedAll fs m p

theorem mem_loadedAll : ∀ (fs : List (String × Include)) (m : Model) (p : List String),
    p ∈ loadedAll models m fs ↔ (node fs).Has p ∧ models.Leads m p
  | [], m, p => by
    refine iff_of_false List.not_mem_nil ?_
    rintro ⟨h, hleads⟩
    rw [has_empty.mp h] at hleads
    exact hleads
  | (name, sub) :: rest, m, p => by
    rw [loadedAll, List.mem_append, mem_loadedAll rest, has_node_cons _ rest, or_and_right]
    refine or_congr_left ?_
    -- What starts with this name goes on in the tree below it, and from the model it leads to.
    cases p with
    | nil =>
      refine iff_of_false (fun h => ?_) And.right
      split at h
      · cases h
      · split at h
        · cases h
        · simp at h
    | cons key below =>
      rw [has_singleton, Models.Leads]
      cases ha : m.association? name with
      | none =>
        refine iff_of_false List.not_mem_nil ?_
        rintro ⟨⟨rfl, -⟩, a, ha', -⟩
        rw [ha] at ha'
        cases ha'
      | some a =>
        dsimp only
        cases hmany : models.isMany m a with
        | true =>
          refine iff_of_false List.not_mem_nil ?_
          rintro ⟨⟨rfl, -⟩, b, hb, hsingle, -⟩
          cases ha.symm.trans hb
          rw [hmany] at hsingle
          cases hsingle
        | false =>
          have hbelow : below ∈ (match models.target? a with
              | some t => loaded models t sub
              | none => []) ↔ ∃ t, models.target? a = some t ∧ sub.Has below
                ∧ models.Leads t below := by
            cases ht : models.target? a with
            | none => simp
            | some t => simpa using mem_loaded sub t below
          rw [if_neg Bool.false_ne_true, List.mem_cons, List.cons.injEq, List.mem_map]
          constructor
          · rintro (⟨rfl, rfl⟩ | ⟨_, hmem, ⟨⟩⟩)
            · exact ⟨⟨rfl, trivial⟩, a, ha, hmany, .inl rfl⟩
            · obtain ⟨t, ht, hhas, hleads⟩ := hbelow.mp hmem
              exact ⟨⟨rfl, hhas⟩, a, ha, hmany, .inr ⟨t, ht, hleads⟩⟩
          · rintro ⟨⟨rfl, hhas⟩, b, hb, -, hleads⟩
            cases ha.symm.trans hb
            rcases hleads with rfl | ⟨t, ht, hleads⟩
            · exact .inl ⟨rfl, rfl⟩
            · exact .inr ⟨below, hbelow.mpr ⟨t, ht, hhas, hleads⟩, rfl⟩

end

end Include

/-! ### Chains of selected fields -/

/-- Chains of fields with selections of their own, each selected below the one before, directly or
through fragments. -/
inductive Selects (fragments : Table Fragment) : List Selection → List String → Prop
  /-- A field. -/
  | last {xs sub : List Selection} {a : Option String} {name : String} {arguments : Arguments}
      {uses : List DirectiveUse} (hx : .field a name arguments uses sub ∈ xs) (hsub : sub ≠ []) :
      Selects fragments xs [name]
  /-- A field, and a chain below it. -/
  | field {xs sub : List Selection} {a : Option String} {name : String} {arguments : Arguments}
      {uses : List DirectiveUse} {p : List String} (hx : .field a name arguments uses sub ∈ xs)
      (hp : Selects fragments sub p) : Selects fragments xs (name :: p)
  /-- A chain in selections under a condition. -/
  | inline {xs sub : List Selection} {condition : Option String} {uses : List DirectiveUse}
      {p : List String} (hx : .inline condition uses sub ∈ xs) (hp : Selects fragments sub p) :
      Selects fragments xs p
  /-- A chain in a fragment that is named. -/
  | spread {xs : List Selection} {name : String} {uses : List DirectiveUse} {f : Fragment}
      {p : List String} (hx : .spread name uses ∈ xs) (hf : fragments.get? name = some f)
      (hp : Selects fragments f.selections p) : Selects fragments xs p

theorem Selects.ne_nil {fragments : Table Fragment} {xs : List Selection} {p : List String}
    (h : Selects fragments xs p) : p ≠ [] := by
  induction h with
  | last => exact List.cons_ne_nil _ _
  | field => exact List.cons_ne_nil _ _
  | inline _ _ ih => exact ih
  | spread _ _ _ ih => exact ih

/-- Where nothing is selected there are no chains. -/
theorem not_selects_nil {fragments : Table Fragment} {p : List String} :
    ¬Selects fragments [] p := by
  rintro (⟨hx, -⟩ | ⟨hx, -⟩ | ⟨hx, -⟩ | ⟨hx, -, -⟩) <;> cases hx

namespace Language.Selection

mutual

/-- The fragments that a selection names. -/
def named : Selection → List String
  | field _ _ _ _ sub => namedAll sub
  | spread name _ => [name]
  | inline _ _ sub => namedAll sub

/-- The fragments that selections name. -/
def namedAll : List Selection → List String
  | [] => []
  | x :: xs => named x ++ namedAll xs

end

theorem namedAll_eq (xs : List Selection) : namedAll xs = xs.flatMap named := by
  induction xs with
  | nil => rfl
  | cons x xs ih => rw [namedAll, ih, List.flatMap_cons]

theorem named_subset {x : Selection} {xs : List Selection} (h : x ∈ xs) :
    named x ⊆ namedAll xs := by
  rw [namedAll_eq]
  exact fun name hname => List.mem_flatMap.mpr ⟨x, h, hname⟩

theorem depth_le {x : Selection} {xs : List Selection} (h : x ∈ xs) : depth x ≤ depthAll xs := by
  induction xs with
  | nil => cases h
  | cons y ys ih =>
    rw [depthAll]
    rcases List.mem_cons.mp h with rfl | h
    · exact Nat.le_max_left ..
    · exact Nat.le_trans (ih h) (Nat.le_max_right ..)

end Language.Selection

/-! ### Fragments without cycles -/

namespace Fragments

variable (fragments : Table Fragment)

/-- A fragment names another. -/
def Names (a b : String) : Prop :=
  ∃ f, fragments.get? a = some f ∧ b ∈ Selection.namedAll f.selections

/-- No fragment names itself, directly or through others. -/
def Acyclic : Prop := ∀ name, ¬Relation.TransGen (Names fragments) name name

/-- All fragments that selections name, directly or through others, are among some names. -/
def Covers (names : List String) (xs : List Selection) : Prop :=
  ∀ a ∈ Selection.namedAll xs, ∀ b, Relation.ReflTransGen (Names fragments) a b →
    (fragments.get? b).isSome → b ∈ names

variable {fragments} {names : List String} {xs : List Selection}

theorem Covers.of_named (h : Covers fragments names xs) {sub : List Selection}
    (hsub : Selection.namedAll sub ⊆ Selection.namedAll xs) : Covers fragments names sub :=
  fun a ha => h a (hsub ha)

/-- What a fragment names is covered without the fragment itself. -/
theorem Covers.spread (hacyclic : Acyclic fragments) (h : Covers fragments names xs) {name : String}
    (hname : name ∈ Selection.namedAll xs) {f : Fragment} (hf : fragments.get? name = some f) :
    name ∈ names ∧ Covers fragments (names.erase name) f.selections := by
  refine ⟨h name hname name .refl (by rw [hf]; rfl), fun a ha b hb hsome => ?_⟩
  have hpath : Relation.TransGen (Names fragments) name b := .head' ⟨f, hf, ha⟩ hb
  have hne : b ≠ name := by
    rintro rfl
    exact hacyclic b hpath
  refine (List.mem_erase_of_ne hne).mpr ?_
  exact h name hname b hpath.to_reflTransGen hsome

theorem covers_keys (xs : List Selection) : Covers fragments (Table.keys fragments) xs :=
  fun _ _ b _ hb => (Table.mem_keys_iff fragments b).mpr (Table.has_eq_isSome fragments b ▸ hb)

end Fragments

namespace Include

variable {fragments : Table Fragment} {models : Models} {m : Model}

theorem depthIn_erase {names : List String} {name : String} (h : name ∈ names) {f : Fragment}
    (hf : fragments.get? name = some f) : depthIn fragments names
      = Selection.depthAll f.selections + depthIn fragments (names.erase name) := by
  induction names with
  | nil => cases h
  | cons other names ih =>
    rw [depthIn, List.erase_cons]
    split
    · rename_i hname
      rw [beq_iff_eq.mp hname, depthOf, hf]
      rfl
    · rename_i hname
      rw [depthIn, ih (List.mem_of_ne_of_mem (fun heq => hname (beq_iff_eq.mpr heq.symm)) h)]
      omega

/-- What one selection reaches. -/
def reached (fragments : Table Fragment) (n : Nat) : Selection → Include
  | .field _ name _ _ sub =>
    if sub.isEmpty || isMeta name then empty else node [(name, ofSelections fragments n sub)]
  | .inline _ _ sub => ofSelections fragments n sub
  | .spread name _ => ((fragments.get? name).map fun f =>
      ofSelections fragments n f.selections).getD empty

theorem has_or_empty {t : Include} {p : List String} : t.Has p ∨ empty.Has p ↔ t.Has p :=
  or_iff_left_of_imp fun h => has_empty.mp h ▸ trivial

theorem has_add (n : Nat) (t : Include) (x : Selection) (p : List String) :
    (ofSelections.add fragments n t x).Has p ↔ t.Has p ∨ (reached fragments n x).Has p := by
  cases x with
  | field a name arguments uses sub =>
    rw [ofSelections.add, reached]
    split
    · exact has_or_empty.symm
    · exact has_merge ..
  | inline condition uses sub =>
    rw [ofSelections.add, reached]
    exact has_merge ..
  | spread name uses =>
    rw [ofSelections.add, reached]
    cases fragments.get? name with
    | none => exact has_or_empty.symm
    | some f => exact has_merge ..

/-- Selections reach what one of them reaches. -/
theorem has_ofSelections (n : Nat) (xs : List Selection) {p : List String} (hp : p ≠ []) :
    (ofSelections fragments (n + 1) xs).Has p ↔ ∃ x ∈ xs, (reached fragments n x).Has p := by
  have hfold : ∀ (xs : List Selection) (t : Include),
      (xs.foldl (ofSelections.add fragments n) t).Has p
        ↔ t.Has p ∨ ∃ x ∈ xs, (reached fragments n x).Has p := by
    intro xs
    induction xs with
    | nil => simp
    | cons x xs ih =>
      intro t
      rw [List.foldl_cons, ih, has_add, or_assoc]
      simp only [List.mem_cons, exists_eq_or_imp]
  rw [ofSelections, hfold, has_empty, or_iff_right hp]

/-- Paths of the tree are chains of selected fields. -/
theorem selects_of_has {n : Nat} {xs : List Selection} {p : List String} (hp : p ≠ [])
    (h : (ofSelections fragments n xs).Has p) : Selects fragments xs p := by
  induction n generalizing xs p with
  | zero =>
    rw [ofSelections] at h
    exact absurd (has_empty.mp h) hp
  | succ n ih =>
    obtain ⟨x, hx, h⟩ := (has_ofSelections n xs hp).mp h
    cases x with
    | field a name arguments uses sub =>
      obtain ⟨key, rest, rfl⟩ := List.exists_cons_of_ne_nil hp
      rw [reached] at h
      split at h
      · exact absurd (has_empty.mp h) hp
      · rename_i hsub
        obtain ⟨rfl, hrest⟩ := has_singleton.mp h
        by_cases hnil : rest = []
        · subst hnil
          refine .last hx ?_
          rintro rfl
          exact hsub rfl
        · exact .field hx (ih hnil hrest)
    | inline condition uses sub => exact .inline hx (ih hp h)
    | spread name uses =>
      rw [reached] at h
      cases hf : fragments.get? name with
      | none =>
        rw [hf] at h
        exact absurd (has_empty.mp h) hp
      | some f =>
        rw [hf] at h
        exact .spread hx hf (ih hp h)

open Selection Fragments in
/-- Chains of selected fields are paths of the tree, if no field belongs to introspection and the
tree is as deep as the selections and the fragments that they need. -/
theorem has_of_selects (hacyclic : Acyclic fragments) {xs : List Selection} {p : List String}
    (h : Selects fragments xs p) (hmeta : ∀ name ∈ p, isMeta name = false) :
    ∀ {names : List String} {n : Nat}, Covers fragments names xs →
      depthAll xs + depthIn fragments names ≤ n → (ofSelections fragments n xs).Has p := by
  -- Every step of a chain goes into a selection, or into a fragment that was not met before.
  have hsucc : ∀ {xs : List Selection} {x : Selection} {k n : Nat}, x ∈ xs → 0 < depth x →
      depthAll xs + k ≤ n → ∃ l, n = l + 1 ∧ depth x + k ≤ l + 1 := by
    intro xs x k n hx hpos hn
    have := depth_le hx
    exact ⟨n - 1, by omega, by omega⟩
  induction h with
  | @last xs sub a name arguments uses hx hsub =>
    intro names n hcovers hn
    obtain ⟨n, rfl, -⟩ := hsucc hx (Nat.succ_pos _) hn
    refine (has_ofSelections n xs (List.cons_ne_nil _ _)).mpr ⟨_, hx, ?_⟩
    rw [reached, if_neg (by simp [hsub, hmeta name]), has_singleton]
    exact ⟨rfl, trivial⟩
  | @field xs sub a name arguments uses p hx hp ih =>
    intro names n hcovers hn
    obtain ⟨n, rfl, hle⟩ := hsucc hx (Nat.succ_pos _) hn
    rw [depth] at hle
    refine (has_ofSelections n xs (List.cons_ne_nil _ _)).mpr ⟨_, hx, ?_⟩
    have hsub : sub ≠ [] := by
      rintro rfl
      exact not_selects_nil hp
    rw [reached, if_neg (by simp [hsub, hmeta name]), has_singleton]
    exact ⟨rfl, ih (fun name hname => hmeta name (List.mem_cons_of_mem _ hname))
      (hcovers.of_named (named_subset hx)) (by omega)⟩
  | @inline xs sub condition uses p hx hp ih =>
    intro names n hcovers hn
    obtain ⟨n, rfl, hle⟩ := hsucc hx (Nat.succ_pos _) hn
    rw [depth] at hle
    exact (has_ofSelections n xs hp.ne_nil).mpr ⟨_, hx,
      ih hmeta (hcovers.of_named (named_subset hx)) (by omega)⟩
  | @spread xs name uses f p hx hf hp ih =>
    intro names n hcovers hn
    obtain ⟨n, rfl, hle⟩ := hsucc hx Nat.one_pos hn
    rw [depth] at hle
    obtain ⟨hmem, hrest⟩ := hcovers.spread hacyclic (named_subset hx (List.mem_singleton_self _)) hf
    rw [depthIn_erase hmem hf] at hle
    refine (has_ofSelections n xs hp.ne_nil).mpr ⟨_, hx, ?_⟩
    rw [reached, hf]
    exact ih hmeta hrest (by omega)

end Include
end SchemaForge

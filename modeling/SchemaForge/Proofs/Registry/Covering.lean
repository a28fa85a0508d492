import SchemaForge.Proofs.Registry.Kinds

/-!
# One definition for all uses of a directive

The record of a directive covers its uses after any sequence of registrations: whatever a use
gave is among the kinds of its argument, and where a use left an argument out, null is among
them. A registration that fails only adds to the record, so it keeps what is covered. If none
failed, nothing else is in the record, and then the definition says exactly what the uses have
in common.
-/
namespace SchemaForge

open Language Parser

namespace DirectiveRecord

variable {r r' : DirectiveRecord} {g : Fields} {given : List Fields} {key name text : String}
  {kinds kinds' : List (Option LiteralKind)} {k : Option LiteralKind} {v : Value}

/-! ### Kinds of one argument -/

theorem mem_withKind {j : Option LiteralKind} : j ∈ withKind kinds k ↔ j ∈ kinds ∨ j = k := by
  unfold withKind
  split
  · rename_i hk
    have hk := List.contains_iff_mem.mp hk
    constructor
    · exact .inl
    · rintro (hj | rfl)
      · exact hj
      · exact hk
  · simp

theorem nodup_withKind (h : kinds.Nodup) : (withKind kinds k).Nodup := by
  unfold withKind
  split
  · exact h
  · rename_i hk
    rw [List.contains_iff_mem] at hk
    refine List.nodup_append.mpr ⟨h, by simp, ?_⟩
    rintro a ha b hb rfl
    exact hk (List.mem_singleton.mp hb ▸ ha)

/-! ### What one registration adds -/

/-- What is known of a directive only grows: kinds stay, and a new argument starts like one that
no earlier use had. -/
structure Grows (r r' : DirectiveRecord) : Prop where
  /-- No use is counted. -/
  uses : r'.uses = r.uses
  /-- Kinds stay. -/
  kept : ∀ {key kinds}, Table.get? r.arguments key = some kinds →
    ∃ kinds', Table.get? r'.arguments key = some kinds' ∧ kinds ⊆ kinds'
  /-- A new argument starts like one that no earlier use had. -/
  start : ∀ {key kinds'}, Table.get? r.arguments key = none →
    Table.get? r'.arguments key = some kinds' → r.fresh ⊆ kinds'

namespace Grows

theorem refl (r : DirectiveRecord) : Grows r r := by
  refine ⟨rfl, fun h => ⟨_, h, List.Subset.refl _⟩, fun hnone hsome => ?_⟩
  rw [hnone] at hsome
  cases hsome

theorem trans {r'' : DirectiveRecord} (h : Grows r r') (h' : Grows r' r'') : Grows r r'' := by
  have hfresh : r'.fresh = r.fresh := by
    unfold fresh
    rw [h.uses]
  refine ⟨h'.uses.trans h.uses, fun hkey => ?_, fun {key kinds''} hnone hsome => ?_⟩
  · obtain ⟨kinds', hkey', hsub⟩ := h.kept hkey
    obtain ⟨kinds'', hkey'', hsub'⟩ := h'.kept hkey'
    exact ⟨kinds'', hkey'', List.Subset.trans hsub hsub'⟩
  · cases hkey : Table.get? r'.arguments key with
    | none => exact hfresh ▸ h'.start hkey hsome
    | some kinds' =>
      obtain ⟨_, hkey'', hsub⟩ := h'.kept hkey
      rw [hsome] at hkey''
      cases hkey''
      exact List.Subset.trans (h.start hnone hkey) hsub

end Grows

/-- Note one argument of a use. -/
def note (r : DirectiveRecord) (key : String) (k : Option LiteralKind) : DirectiveRecord :=
  { r with arguments := r.arguments.update key r.fresh (withKind · k) }

theorem get?_note (other : String) : Table.get? (r.note key k).arguments other
    = if other == key then some (withKind ((Table.get? r.arguments key).getD r.fresh) k)
      else Table.get? r.arguments other :=
  Table.get?_update r.arguments key other r.fresh (withKind · k)

theorem fresh_note : (r.note key k).fresh = r.fresh := rfl

theorem noteGiven_cons (h : LiteralKind.ofArgument v = .ok k) :
    r.noteGiven ((key, v) :: g) = (r.note key k).noteGiven g := by
  rw [noteGiven, h]
  rfl

theorem noteGiven_cons_error {e : Failure} (h : LiteralKind.ofArgument v = .error e) :
    r.noteGiven ((key, v) :: g)
      = (.error e, { r with arguments := r.arguments.ensure key r.fresh }) := by
  rw [noteGiven, h]

theorem grows_note : Grows r (r.note key k) := by
  refine ⟨rfl, fun {other kinds} hother => ?_, fun {other kinds'} hnone hsome => ?_⟩
  · rw [get?_note]
    by_cases ho : other = key
    · subst ho
      rw [if_pos (beq_self_eq_true _), hother]
      exact ⟨_, rfl, fun j hj => mem_withKind.mpr (.inl hj)⟩
    · rw [if_neg (by simpa using ho)]
      exact ⟨_, hother, List.Subset.refl _⟩
  · rw [get?_note] at hsome
    by_cases ho : other = key
    · subst ho
      rw [if_pos (beq_self_eq_true _), hnone] at hsome
      cases hsome
      exact fun j hj => mem_withKind.mpr (.inl hj)
    · rw [if_neg (by simpa using ho), hnone] at hsome
      cases hsome

theorem grows_ensure :
    Grows r { r with arguments := r.arguments.ensure key r.fresh } := by
  refine ⟨rfl, fun {other kinds} hother => ?_, fun {other kinds'} hnone hsome => ?_⟩
  · rw [Table.get?_ensure, hother]
    exact ⟨_, rfl, List.Subset.refl _⟩
  · rw [Table.get?_ensure, hnone] at hsome
    by_cases ho : other = key
    · subst ho
      rw [if_pos (beq_self_eq_true _), Option.none_or] at hsome
      cases hsome
      exact List.Subset.refl _
    · rw [if_neg (by simpa using ho)] at hsome
      cases hsome

theorem get?_noteAbsent : Table.get? (r.noteAbsent g).arguments key
    = (Table.get? r.arguments key).map fun kinds =>
        if Table.has g key then kinds else withKind kinds none := by
  have hshape : (r.noteAbsent g).arguments = r.arguments.map fun a =>
      (a.1, if Table.has g a.1 then a.2 else withKind a.2 none) := by
    refine List.map_congr_left fun a _ => ?_
    split <;> rfl
  rw [hshape, Table.get?_mapEntries]

theorem grows_noteAbsent : Grows r (r.noteAbsent g) := by
  refine ⟨rfl, fun {key kinds} hkey => ?_, fun {key kinds'} hnone hsome => ?_⟩
  · rw [get?_noteAbsent, hkey]
    refine ⟨_, rfl, fun j hj => ?_⟩
    split
    · exact hj
    · exact mem_withKind.mpr (.inl hj)
  · rw [get?_noteAbsent, hnone] at hsome
    cases hsome

theorem grows_noteGiven : Grows r (r.noteGiven g).2 := by
  induction g generalizing r with
  | nil => exact .refl r
  | cons a g ih =>
    cases hk : LiteralKind.ofArgument a.2 with
    | error e =>
      rw [noteGiven_cons_error hk]
      exact grows_ensure
    | ok k =>
      rw [noteGiven_cons hk]
      exact grows_note.trans ih

/-- What a use without failure adds: to each argument that it gives the kind of the value, and
to no other argument anything. -/
theorem get?_noteGiven (hg : (Table.keys g).Nodup) (h : (r.noteGiven g).1 = .ok ()) (key : String) :
    (Table.get? g key = none
      ∧ Table.get? (r.noteGiven g).2.arguments key = Table.get? r.arguments key)
    ∨ ∃ v k, Table.get? g key = some v ∧ LiteralKind.ofArgument v = .ok k
      ∧ Table.get? (r.noteGiven g).2.arguments key
        = some (withKind ((Table.get? r.arguments key).getD r.fresh) k) := by
  induction g generalizing r with
  | nil => exact .inl ⟨rfl, rfl⟩
  | cons a g ih =>
    obtain ⟨other, v⟩ := a
    cases hk : LiteralKind.ofArgument v with
    | error e =>
      rw [noteGiven_cons_error hk] at h
      cases h
    | ok k =>
      rw [noteGiven_cons hk] at h ⊢
      obtain ⟨hfirst, hg⟩ := List.nodup_cons.mp hg
      have hrest := ih hg h
      rw [get?_note, fresh_note] at hrest
      rw [Table.get?_cons]
      by_cases hkey : key = other
      · subst hkey
        have hnone : Table.get? g key = none := by
          rw [Table.get?_eq_none_iff, ← Bool.not_eq_true, ← Table.mem_keys_iff]
          exact hfirst
        rw [if_pos (beq_self_eq_true _)] at hrest ⊢
        rcases hrest with ⟨-, hrest⟩ | ⟨v', k', hv', -⟩
        · exact .inr ⟨v, k, rfl, hk, hrest⟩
        · rw [hnone] at hv'
          cases hv'
      · rw [if_neg (by simpa using hkey)] at hrest ⊢
        exact hrest

theorem noteGiven_eq_ok :
    (r.noteGiven g).1 = .ok () ↔ (g.all fun a => (LiteralKind.ofArgument a.2).isOk) = true := by
  induction g generalizing r with
  | nil => exact ⟨fun _ => rfl, fun _ => rfl⟩
  | cons a g ih =>
    rw [List.all_cons, Bool.and_eq_true]
    cases hk : LiteralKind.ofArgument a.2 with
    | error e =>
      rw [noteGiven_cons_error hk]
      constructor
      · intro h
        cases h
      · rintro ⟨h, -⟩
        cases h
    | ok k =>
      rw [noteGiven_cons hk, ih]
      exact ⟨fun h => ⟨rfl, h⟩, fun h => h.2⟩

theorem record_of_ok (h : (g.all fun a => (LiteralKind.ofArgument a.2).isOk) = true) :
    r.record g = (.ok (), { ((r.noteAbsent g).noteGiven g).2 with uses := r.uses + 1 }) := by
  have hok := noteGiven_eq_ok (r := r.noteAbsent g).mpr h
  have huses : ((r.noteAbsent g).noteGiven g).2.uses = r.uses :=
    (grows_noteAbsent.trans grows_noteGiven).uses
  unfold record
  split
  · rename_i r' heq
    rw [heq] at huses ⊢
    rw [huses]
  · rename_i hne
    exact (hne _ (Prod.ext hok rfl)).elim

theorem record_of_error (h : ¬ (g.all fun a => (LiteralKind.ofArgument a.2).isOk) = true) :
    (∃ e, (r.record g).1 = .error e) ∧ Grows r (r.record g).2 := by
  have hgrows : Grows r ((r.noteAbsent g).noteGiven g).2 := grows_noteAbsent.trans grows_noteGiven
  unfold record
  split
  · rename_i r' heq
    exact absurd (noteGiven_eq_ok.mp (congrArg Prod.fst heq)) h
  · refine ⟨?_, hgrows⟩
    cases houtcome : ((r.noteAbsent g).noteGiven g).1 with
    | error e => exact ⟨e, rfl⟩
    | ok u => exact absurd (noteGiven_eq_ok.mp houtcome) h

theorem get?_record (hg : (Table.keys g).Nodup)
    (h : (g.all fun a => (LiteralKind.ofArgument a.2).isOk) = true) (key : String) :
    (Table.get? g key = none ∧ Table.get? (r.record g).2.arguments key
      = (Table.get? r.arguments key).map (withKind · none))
    ∨ ∃ v k, Table.get? g key = some v ∧ LiteralKind.ofArgument v = .ok k
      ∧ Table.get? (r.record g).2.arguments key
        = some (withKind ((Table.get? r.arguments key).getD r.fresh) k) := by
  have hok := noteGiven_eq_ok (r := r.noteAbsent g).mpr h
  rw [record_of_ok h]
  rcases get?_noteGiven hg hok key with ⟨hnone, hkey⟩ | ⟨v, k, hv, hk, hkey⟩
  · refine .inl ⟨hnone, hkey.trans ?_⟩
    rw [get?_noteAbsent, (Table.get?_eq_none_iff g key).mp hnone]
    rfl
  · refine .inr ⟨v, k, hv, hk, hkey.trans ?_⟩
    rw [get?_noteAbsent, Table.has_eq_isSome, hv]
    simp only [Option.isSome_some, if_true, Option.map_id_fun', id_eq]
    rfl

/-! ### What the record covers -/

/-- The record of a directive covers the uses that succeeded. -/
structure Covers (r : DirectiveRecord) (given : List Fields) : Prop where
  /-- They are counted. -/
  uses : r.uses = given.length
  /-- What a use gave is among the kinds of the argument. -/
  kinds : ∀ g ∈ given, ∀ a ∈ g, ∃ k kinds, LiteralKind.ofArgument a.2 = .ok k
    ∧ Table.get? r.arguments a.1 = some kinds ∧ k ∈ kinds
  /-- Null is among the kinds of an argument that a use left out. -/
  absent : ∀ g ∈ given, ∀ {key kinds}, Table.get? r.arguments key = some kinds →
    Table.get? g key = none → none ∈ kinds

namespace Covers

theorem empty : Covers {} [] := by
  constructor
  · rfl
  · intro g hg
    cases hg
  · intro g hg
    cases hg

/-- **A record that only grows keeps what it covers.** -/
theorem grows (h : Covers r given) (hr : Grows r r') : Covers r' given := by
  refine ⟨hr.uses.trans h.uses, fun g hg a ha => ?_, fun g hg {key kinds'} hkey hnone => ?_⟩
  · obtain ⟨k, kinds, hk, hkey, hmem⟩ := h.kinds g hg a ha
    obtain ⟨kinds', hkey', hsub⟩ := hr.kept hkey
    exact ⟨k, kinds', hk, hkey', hsub hmem⟩
  · cases hold : Table.get? r.arguments key with
    | none =>
      have hlength : given.length ≠ 0 := List.length_eq_zero_iff.not.mpr (List.ne_nil_of_mem hg)
      refine hr.start hold hkey ?_
      rw [fresh, h.uses, if_neg hlength]
      exact List.mem_cons_self ..
    | some kinds =>
      obtain ⟨_, hkey', hsub⟩ := hr.kept hold
      rw [hkey] at hkey'
      cases hkey'
      exact hsub (h.absent g hg hold hnone)

/-- **A use that succeeds is covered from then on.** -/
theorem record (h : Covers r given) (hg : (Table.keys g).Nodup)
    (hok : (g.all fun a => (LiteralKind.ofArgument a.2).isOk) = true) :
    Covers (r.record g).2 (given ++ [g]) := by
  have hgrows : Grows r ((r.noteAbsent g).noteGiven g).2 := grows_noteAbsent.trans grows_noteGiven
  have hold := h.grows hgrows
  have hrecord : (r.record g).2 = { ((r.noteAbsent g).noteGiven g).2 with uses := r.uses + 1 } := by
    rw [record_of_ok hok]
  refine ⟨?_, fun f hf a ha => ?_, fun f hf {key kinds} hkey hnone => ?_⟩
  · rw [hrecord, List.length_append, h.uses]
    rfl
  · rcases List.mem_append.mp hf with hf | hf
    · rw [hrecord]
      exact hold.kinds f hf a ha
    · obtain rfl := List.mem_singleton.mp hf
      have hget := Table.get?_of_mem hg ha
      rcases get?_record (r := r) hg hok a.1 with ⟨hnone, -⟩ | ⟨v, k, hv, hk, hkey⟩
      · rw [hget] at hnone
        cases hnone
      · rw [hget] at hv
        cases hv
        exact ⟨k, _, hk, hkey, mem_withKind.mpr (.inr rfl)⟩
  · rcases List.mem_append.mp hf with hf | hf
    · rw [hrecord] at hkey
      exact hold.absent f hf hkey hnone
    · obtain rfl := List.mem_singleton.mp hf
      rcases get?_record (r := r) hg hok key with ⟨-, hkey'⟩ | ⟨v, k, hv, -⟩
      · rw [hkey] at hkey'
        obtain ⟨old, -, rfl⟩ := Option.map_eq_some_iff.mp hkey'.symm
        exact mem_withKind.mpr (.inr rfl)
      · rw [hnone] at hv
        cases hv

end Covers

/-- The record of a directive says nothing that its uses do not say. -/
structure Stems (r : DirectiveRecord) (given : List Fields) : Prop where
  /-- A kind is that of a value that some use gave. -/
  kinds : ∀ {key kinds k}, Table.get? r.arguments key = some kinds → some k ∈ kinds →
    ∃ g ∈ given, ∃ v, Table.get? g key = some v ∧ LiteralKind.ofArgument v = .ok (some k)
  /-- Null is among the kinds if some use gave no value. -/
  absent : ∀ {key kinds}, Table.get? r.arguments key = some kinds → none ∈ kinds →
    ∃ g ∈ given, ∀ v, Table.get? g key = some v → LiteralKind.ofArgument v = .ok none

theorem Stems.empty : Stems {} [] := by
  constructor
  · intro key kinds k h
    cases h
  · intro key kinds h
    cases h

theorem Stems.kind_of_record (h : Stems r given) (hg : (Table.keys g).Nodup)
    (hok : (g.all fun a => (LiteralKind.ofArgument a.2).isOk) = true) {key : String}
    {kinds : List (Option LiteralKind)} {k : LiteralKind}
    (hkey : Table.get? (r.record g).2.arguments key = some kinds) (hmem : some k ∈ kinds) :
    ∃ f ∈ given ++ [g], ∃ v, Table.get? f key = some v ∧ LiteralKind.ofArgument v = .ok (some k) := by
  have hold : ∀ {old}, Table.get? r.arguments key = some old → some k ∈ old →
      ∃ f ∈ given ++ [g], ∃ v, Table.get? f key = some v
        ∧ LiteralKind.ofArgument v = .ok (some k) := by
    intro old hget hk
    obtain ⟨f, hf, hv⟩ := h.kinds hget hk
    exact ⟨f, List.mem_append_left _ hf, hv⟩
  rcases get?_record (r := r) hg hok key with ⟨-, hkey'⟩ | ⟨v, k', hv, hk', hkey'⟩
  · rw [hkey] at hkey'
    obtain ⟨old, hget, rfl⟩ := Option.map_eq_some_iff.mp hkey'.symm
    rcases mem_withKind.mp hmem with hmem | hmem
    · exact hold hget hmem
    · cases hmem
  · rw [hkey] at hkey'
    cases hkey'
    rcases mem_withKind.mp hmem with hmem | rfl
    · cases hget : Table.get? r.arguments key with
      | none =>
        rw [hget, Option.getD_none] at hmem
        unfold fresh at hmem
        split at hmem <;> simp at hmem
      | some old =>
        rw [hget] at hmem
        exact hold hget hmem
    · exact ⟨g, List.mem_append_right _ (List.mem_singleton_self g), v, hv, hk'⟩

/-- An argument is missing from an earlier use if it is new after one. -/
theorem exists_absent_of_fresh (hcovers : Covers r given) {key : String}
    (hnone : Table.get? r.arguments key = none) (hmem : none ∈ r.fresh) :
    ∃ f ∈ given ++ [g], ∀ v, Table.get? f key = some v → LiteralKind.ofArgument v = .ok none := by
  cases given with
  | nil =>
    rw [fresh, hcovers.uses] at hmem
    cases hmem
  | cons f given =>
    refine ⟨f, List.mem_cons_self .., fun v hv => ?_⟩
    obtain ⟨_, _, -, hkey, -⟩ := hcovers.kinds f (List.mem_cons_self ..) _ (Table.mem_of_get? hv)
    rw [hnone] at hkey
    cases hkey

theorem Stems.absent_of_record (h : Stems r given) (hcovers : Covers r given)
    (hg : (Table.keys g).Nodup) (hok : (g.all fun a => (LiteralKind.ofArgument a.2).isOk) = true)
    {key : String} {kinds : List (Option LiteralKind)}
    (hkey : Table.get? (r.record g).2.arguments key = some kinds) (hmem : none ∈ kinds) :
    ∃ f ∈ given ++ [g], ∀ v, Table.get? f key = some v → LiteralKind.ofArgument v = .ok none := by
  have hlast : g ∈ given ++ [g] := List.mem_append_right _ (List.mem_singleton_self g)
  have hold : ∀ {old}, Table.get? r.arguments key = some old → none ∈ old →
      ∃ f ∈ given ++ [g], ∀ v, Table.get? f key = some v → LiteralKind.ofArgument v = .ok none := by
    intro old hget hk
    obtain ⟨f, hf, hv⟩ := h.absent hget hk
    exact ⟨f, List.mem_append_left _ hf, hv⟩
  rcases get?_record (r := r) hg hok key with ⟨hnone, -⟩ | ⟨v, k', hv, hk', hkey'⟩
  · refine ⟨g, hlast, fun v hv => ?_⟩
    rw [hnone] at hv
    cases hv
  · rw [hkey] at hkey'
    cases hkey'
    rcases mem_withKind.mp hmem with hmem | rfl
    · cases hget : Table.get? r.arguments key with
      | none =>
        rw [hget, Option.getD_none] at hmem
        exact exists_absent_of_fresh hcovers hget hmem
      | some old =>
        rw [hget] at hmem
        exact hold hget hmem
    · refine ⟨g, hlast, fun v' hv' => ?_⟩
      rw [hv] at hv'
      cases hv'
      exact hk'

/-- **A use that succeeds adds only what it says.** -/
theorem Stems.record (h : Stems r given) (hcovers : Covers r given) (hg : (Table.keys g).Nodup)
    (hok : (g.all fun a => (LiteralKind.ofArgument a.2).isOk) = true) :
    Stems (r.record g).2 (given ++ [g]) :=
  ⟨h.kind_of_record hg hok, h.absent_of_record hcovers hg hok⟩

/-! ### No argument and no kind stands twice -/

/-- Every argument stands once, and so does every kind of an argument. -/
structure Tidy (r : DirectiveRecord) : Prop where
  /-- Every argument stands once. -/
  keys : (Table.keys r.arguments).Nodup
  /-- Every kind of an argument stands once. -/
  kinds : ∀ a ∈ r.arguments, a.2.Nodup

theorem nodup_fresh (r : DirectiveRecord) : r.fresh.Nodup := by
  unfold fresh
  split <;> simp

namespace Tidy

theorem empty : Tidy {} := ⟨List.nodup_nil, fun a ha => by cases ha⟩

theorem ensure (h : Tidy r) :
    Tidy { r with arguments := r.arguments.ensure key r.fresh } := by
  refine ⟨Table.nodup_keys_ensure h.keys _ _, fun a ha => ?_⟩
  change a ∈ Table.ensure r.arguments key r.fresh at ha
  unfold Table.ensure at ha
  split at ha
  · exact h.kinds a ha
  · rcases List.mem_append.mp ha with ha | ha
    · exact h.kinds a ha
    · rw [List.mem_singleton.mp ha]
      exact nodup_fresh r

theorem note (h : Tidy r) : Tidy (r.note key k) := by
  have hensured : Tidy { r with arguments := r.arguments.ensure key r.fresh } := h.ensure
  refine ⟨Table.nodup_keys_update h.keys key r.fresh (withKind · k), fun a ha => ?_⟩
  obtain ⟨b, hb, rfl⟩ := List.mem_map.mp ha
  split
  · exact nodup_withKind (hensured.kinds b hb)
  · exact hensured.kinds b hb

theorem noteAbsent (h : Tidy r) : Tidy (r.noteAbsent g) := by
  have hkeys : Table.keys (r.noteAbsent g).arguments = Table.keys r.arguments := by
    simp only [Table.keys, DirectiveRecord.noteAbsent, List.map_map]
    refine List.map_congr_left fun a _ => ?_
    rw [Function.comp_apply]
    split <;> rfl
  refine ⟨hkeys ▸ h.keys, fun a ha => ?_⟩
  obtain ⟨b, hb, rfl⟩ := List.mem_map.mp ha
  split
  · exact h.kinds b hb
  · exact nodup_withKind (h.kinds b hb)

theorem noteGiven (h : Tidy r) : Tidy (r.noteGiven g).2 := by
  induction g generalizing r with
  | nil => exact h
  | cons a g ih =>
    cases hk : LiteralKind.ofArgument a.2 with
    | error e =>
      rw [noteGiven_cons_error hk]
      exact h.ensure
    | ok k =>
      rw [noteGiven_cons hk]
      exact ih h.note

theorem record (h : Tidy r) (g : Fields) : Tidy (r.record g).2 := by
  have hnoted : Tidy ((r.noteAbsent g).noteGiven g).2 := h.noteAbsent.noteGiven
  unfold DirectiveRecord.record
  split
  · rename_i r' heq
    rw [heq] at hnoted
    exact ⟨hnoted.keys, hnoted.kinds⟩
  · exact hnoted

end Tidy

end DirectiveRecord
end SchemaForge

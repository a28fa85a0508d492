import SchemaForge.Proofs.Declaration.Meaning
import SchemaForge.Proofs.Registry.Edits
import SchemaForge.Proofs.Registry.Conforming
import SchemaForge.Proofs.Synthesis.Derived
import SchemaForge.Proofs.Synthesis.Lockstep

/-!
# Every use is recorded

A directive is written on a type or a field only after it was recorded. So all along, the records
are those of some directives that the declarations mean, and the registry bears no uses but those
of directives among them that were accepted. The first pass keeps this because its single steps
do, and the second pass adds no uses.
-/
namespace SchemaForge

/-- The call that a directive makes. -/
def Directive.call (x : Directive) : DirectiveCall := ⟨x.name, x.arguments⟩

/-- A text is that of a directive among some, one that was accepted. -/
def Directive.WrittenAmong (xs : List Directive) (use : String) : Prop :=
  ∃ x ∈ xs, x.call.isAccepted = true ∧ use = x.call.text

/-- What is recorded, and borne by the registry, are directives of some sort, and so is what is
yet to be resolved. -/
structure Draft.Recorded (P : Directive → Prop) (fields : Table (List (String × FieldEntry)))
    (d : Draft) : Prop where
  /-- The records, and the uses in the registry. -/
  uses : ∃ xs : List Directive, (∀ x ∈ xs, P x)
    ∧ d.directives = DirectiveRecords.after (xs.map Directive.call)
    ∧ d.registry.Bears (Directive.WrittenAmong xs)
  /-- The configurations. -/
  configs : ∀ t fs, d.configs.get? t = some fs → ∀ e ∈ fs, e.2.directives.All P
  /-- What is kept of thunks. -/
  thunks : d.thunks.All P
  /-- The fields of the extensions. -/
  extended : d.extensions.fields = fields

namespace Synthesis

open Run

variable {P : Directive → Prop} {fields : Table (List (String × FieldEntry))} {α : Type}

/-- A step keeps that every use is recorded, whether or not it succeeds. -/
def KeepsRecorded (P : Directive → Prop) (fields : Table (List (String × FieldEntry)))
    (m : Synthesis α) : Prop :=
  Alike (fun d d' => d = d' ∧ d.Recorded P fields) m m

theorem keepsRecorded_of {m : Synthesis α}
    (h : ∀ d, d.Recorded P fields → (m d).2.Recorded P fields) : KeepsRecorded P fields m := by
  rintro d _ ⟨rfl, hd⟩
  exact ⟨rfl, rfl, h d hd⟩

theorem KeepsRecorded.of_run {m : Synthesis α} (h : KeepsRecorded P fields m) {d d' : Draft}
    {x : Except Failure α} (hd : d.Recorded P fields) (hrun : m d = (x, d')) :
    d'.Recorded P fields := by
  obtain ⟨-, -, hstate⟩ := h d d ⟨rfl, hd⟩
  rwa [hrun] at hstate

/-- A change of the registry that adds no uses. -/
theorem keepsRecorded_change {u : Registry → Registry}
    (hu : ∀ Q r, Registry.Bears Q r → Registry.Bears Q (u r)) :
    KeepsRecorded P fields (change u) := by
  refine keepsRecorded_of fun d hd => { hd with uses := ?_ }
  obtain ⟨xs, hxs, hrecords, hbears⟩ := hd.uses
  exact ⟨xs, hxs, hrecords, hu _ _ hbears⟩

/-- A directive is recorded, and if it is accepted its text is written. -/
theorem keepsRecorded_use {x : Directive} (hx : P x) {u : String → Registry → Registry}
    (hu : ∀ Q use r, Q use → Registry.Bears Q r → Registry.Bears Q (u use r)) :
    KeepsRecorded P fields (record x >>= fun use => change (u use)) := by
  refine keepsRecorded_of fun d hd => ?_
  obtain ⟨xs, hxs, hrecords, hbears⟩ := hd.uses
  have hP : ∀ y ∈ xs ++ [x], P y := by
    intro y hy
    rcases List.mem_append.mp hy with hy | hy
    · exact hxs y hy
    · rw [List.mem_singleton.mp hy]
      exact hx
  have hafter : (d.directives.register x.call).2
      = DirectiveRecords.after ((xs ++ [x]).map Directive.call) := by
    rw [hrecords, List.map_append]
    exact (DirectiveRecords.after_append _ _).symm
  have hgrown : d.registry.Bears (Directive.WrittenAmong (xs ++ [x])) :=
    hbears.mono fun use ⟨y, hy, huse⟩ => ⟨y, List.mem_append_left _ hy, huse⟩
  rw [bind_apply]
  cases hout : (d.directives.register x.call).1 with
  | error e =>
    rw [show record x d = (.error e, { d with directives := (d.directives.register x.call).2 })
      from Prod.ext hout rfl]
    exact { hd with uses := ⟨_, hP, hafter, hgrown⟩ }
  | ok use =>
    rw [show record x d = (.ok use, { d with directives := (d.directives.register x.call).2 })
      from Prod.ext hout rfl]
    obtain ⟨haccepted, htext⟩ := DirectiveRecords.register_eq_ok.mp hout
    have hwritten : Directive.WrittenAmong (xs ++ [x]) use :=
      ⟨x, List.mem_append_right _ (List.mem_singleton_self x), haccepted, htext⟩
    exact { hd with uses := ⟨_, hP, hafter, hu _ _ _ hwritten hgrown⟩ }

/-- A change of the draft that leaves the registry, the records and the thunks. -/
theorem keepsRecorded_modify {u : Draft → Draft} (hr : ∀ d, (u d).registry = d.registry)
    (hd : ∀ d, (u d).directives = d.directives) (ht : ∀ d, (u d).thunks = d.thunks)
    (hx : ∀ d, (u d).extensions.fields = d.extensions.fields)
    (hc : ∀ d : Draft, d.Recorded P fields →
      ∀ t fs, (u d).configs.get? t = some fs → ∀ e ∈ fs, e.2.directives.All P) :
    KeepsRecorded P fields (modify u : Synthesis PUnit) := by
  refine keepsRecorded_of fun d h => ⟨?_, hc d h, ?_, (hx d).trans h.extended⟩
  · change ∃ xs : List Directive, (∀ x ∈ xs, P x)
      ∧ (u d).directives = _ ∧ (u d).registry.Bears _
    rw [hr, hd]
    exact h.uses
  · change (u d).thunks.All P
    rw [ht]
    exact h.thunks

/-- **Every single step keeps that uses are recorded.** -/
theorem lockstep_recorded : Lockstep (DirectiveOption.All P) P .all
    (fun d d' => d = d' ∧ d.Recorded P fields) where
  absent := DirectiveOption.all_none
  union h _ := by rw [h.1]
  line h _ := by rw [h.1]
  known h _ := by
    obtain ⟨rfl, h⟩ := h
    refine ⟨rfl, fun c hc => ?_⟩
    obtain ⟨fs, hfs, hget⟩ := Option.bind_eq_some_iff.mp hc
    exact h.configs _ fs hfs _ (Table.mem_of_get? hget)
  resolve ho := keepsRecorded_of fun d hd =>
    { hd with thunks := (DirectiveOption.gives_resolve ho d.thunks hd.thunks).1 }
  resolved h ho hrun := by
    obtain ⟨s, hs, -⟩ := resolve_eq_ok hrun
    exact (DirectiveOption.gives_resolve ho _ h.2.thunks).2 _ (congrArg Prod.fst hs)
  list h := DirectiveOption.all_list h
  useOnType t _ hc := keepsRecorded_use hc fun _ _ _ huse h => h.addTypeDirective t huse
  useOnField _ hc := keepsRecorded_use hc fun _ _ _ huse h => h.addFieldDirective _ _ huse
  field _ hu := keepsRecorded_change fun _ _ h => h.updateField_same hu
  configure _ c hc := keepsRecorded_modify (fun _ => rfl) (fun _ => rfl) (fun _ => rfl)
    (fun _ => rfl) fun _ hd => Table.forall_update_put hd.configs hc
  govern t p _ := keepsRecorded_modify (fun _ => rfl) (fun _ => rfl) (fun _ => rfl)
    (fun _ => Extensions.fields_setPolicy ..) fun _ hd => hd.configs
  ensure _ := keepsRecorded_change fun _ _ h => h.ensure TypeEntry.bears_empty
  kind _ := keepsRecorded_change fun _ _ h => h.setKind _ _
  put _ _ hlines := keepsRecorded_change fun _ _ h =>
    h.put (TypeEntry.bears_lines fun l hl => (hlines.given l hl).2)
  start t p primary _ := keepsRecorded_modify (fun _ => rfl) (fun _ => rfl) (fun _ => rfl)
    (fun _ => Extensions.fields_setPolicy ..) fun _ hd =>
      Table.forall_ensure hd.configs fun _ he => by cases he
  request _ := keepsRecorded_modify (fun _ => rfl) (fun _ => rfl) (fun _ => rfl)
    (fun _ => rfl) fun _ hd => hd.configs
  expose _ _ _ _ := keepsRecorded_modify (fun _ => rfl) (fun _ => rfl) (fun _ => rfl)
    (fun _ => rfl) fun _ hd => hd.configs
  warn _ := keepsRecorded_modify (fun _ => rfl) (fun _ => rfl) (fun _ => rfl)
    (fun _ => rfl) fun _ hd => hd.configs

theorem keepsRecorded_describeConfigured (t : String) :
    KeepsRecorded P fields (describeConfigured t) := by
  refine alike_get_bind fun d d' ⟨hsame, hd⟩ => ?_
  subst hsame
  have hconfigs : ∀ e ∈ (d.configs.get? t).getD [], e.2.directives.All P := by
    intro e he
    cases hget : d.configs.get? t with
    | none =>
      rw [hget] at he
      cases he
    | some fs =>
      rw [hget] at he
      exact hd.configs t fs hget e he
  refine (alike_forM fun e he => lockstep_recorded.describe trivial (hconfigs e he)).bind
    fun _ => ?_
  exact alike_ite (fun _ => lockstep_recorded.request _) fun _ => alike_pure _

/-- A draft in which nothing is recorded yet. -/
theorem recorded_fresh {x : Extensions} {s : ThunkState} (hs : s.All P) :
    (fresh x s).Recorded P x.fields where
  uses := ⟨[], fun _ hx => (List.not_mem_nil hx).elim, rfl, fun _ he => (List.not_mem_nil he).elim⟩
  configs _ _ h := by cases h
  thunks := hs
  extended := rfl

/-- **After a synthesis the records are those of directives that are declared, and the registry
bears no uses but those of accepted ones.** -/
theorem recorded_of_synthesize {b : Declarations} {d d' : Draft} (ht : d.Tidy)
    (ho : ∀ o ∈ b.directiveOptions fields, o.All P) (hd : d.Recorded P fields)
    (h : synthesize b d = (.ok ⟨⟩, d')) : d'.Recorded P fields := by
  obtain ⟨d1, hfirst, hkept⟩ := synthesize_passes ht h
  have hpass : KeepsRecorded P fields (firstPass b) :=
    lockstep_recorded.firstPass keepsRecorded_describeConfigured (fun _ => trivial)
      (fun c _ => Footprint.allows_all b c) ho fun hR => ⟨hR.2.extended, hR.1 ▸ hR.2.extended⟩
  have hd1 := hpass.of_run hd hfirst
  refine (hkept (fun d2 => d1.Filtered d2 ∧ d2.Recorded P fields)
    (fun d2 hd2 a _ isList x d3 hrun => ?_) (fun _ hd2 => hd2.1) ⟨.refl d1, hd1⟩).2
  obtain ⟨hfiltered, hrecorded⟩ := hd2
  have hwrites := Registry.writesFilters_addFilters a.type a.field a.returned isList
  refine ⟨keeps_filtered hwrites d1 d2 x d3 hrun hfiltered, ?_⟩
  obtain ⟨r, hr, rfl⟩ := edit_eq_ok hrun
  obtain ⟨xs, hxs, hrecords, hbears⟩ := hrecorded.uses
  refine { hrecorded with uses := ⟨xs, hxs, hrecords, ?_⟩ }
  exact Registry.keeps_addFilters (Registry.bears_keptByFilters a.type a.field a.returned)
    (fun _ _ _ _ => trivial) isList _ _ _ hr hbears

end Synthesis
end SchemaForge

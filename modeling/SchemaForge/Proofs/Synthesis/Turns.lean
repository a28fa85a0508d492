import SchemaForge.Proofs.Synthesis.Standing

/-!
# Steps of a synthesis and what they do to every field

`Turns d m g` says that a step `m` of a synthesis, when it succeeds from a draft `d`,
changes how every field stands as `g` says. Steps in a row turn one after the other.
Besides, a successful step forgets no thunk, leaves the extensions alone and keeps drafts
tidy. `Does m deeds` is the case in which the change is that of a list of deeds.
-/
namespace SchemaForge

/-- A change of how each field stands. -/
abbrev Turning := ThunkState → String → String → Standing → Standing

/-- A use that is recorded gives its own text. -/
theorem DirectiveRecords.text_of_register {rs rs' : DirectiveRecords} {c : DirectiveCall}
    {u : String} (h : rs.register c = (.ok u, rs')) : u = c.text := by
  have ho : (rs.register c).1 = .ok u := by rw [h]
  rw [register] at ho
  cases hr : (((Table.ensure rs c.name {}).get? c.name).getD {}).record c.arguments with
  | mk outcome r =>
    rw [hr] at ho
    cases outcome with
    | error e => cases ho
    | ok _ =>
      cases ho
      rfl

namespace Synthesis

variable {α β : Type}

/-- What a step does to every field when it succeeds. -/
def Turns (d : Draft) (m : Synthesis α) (g : Turning) : Prop :=
  ∀ a d', m d = (.ok a, d') → d.Tidy →
    d'.Tidy ∧ d.thunks.Extends d'.thunks ∧ d'.extensions.fields = d.extensions.fields
    ∧ ∀ s, d'.thunks.Extends s → ∀ type field,
        d'.standing s type field = g s type field (d.standing s type field)

/-- The change that leaves everything as it stands. -/
def still : Turning := fun _ _ _ v => v

/-- The change that some deeds make. -/
def turningOf (deeds : List Deed) : Turning := fun s type field v =>
  Standing.after s type field deeds v

/-- A step that does some deeds, from whatever draft. -/
def Does (m : Synthesis α) (deeds : List Deed) : Prop := ∀ d, Turns d m (turningOf deeds)

variable {d : Draft} {m : Synthesis α} {f : α → Synthesis β} {g k : Turning}

theorem Turns.congr_here (h : Turns d m g) (hg : ∀ s type field,
    g s type field (d.standing s type field) = k s type field (d.standing s type field)) :
    Turns d m k := by
  intro a d' hm ht
  obtain ⟨h1, h2, h3, h4⟩ := h a d' hm ht
  exact ⟨h1, h2, h3, fun s hs type field => (h4 s hs type field).trans (hg s type field)⟩

theorem Turns.congr (h : Turns d m g)
    (hg : ∀ s type field v, g s type field v = k s type field v) : Turns d m k :=
  h.congr_here fun s type field => hg s type field _

/-- Only what a step does from this draft matters. -/
theorem Turns.of_eq {m' : Synthesis α} (h : Turns d m' g) (he : m d = m' d) : Turns d m g := by
  intro a d' hm
  rw [he] at hm
  exact h a d' hm

/-- Drafts are tidy all along. -/
theorem Turns.of_tidy (h : d.Tidy → Turns d m g) : Turns d m g :=
  fun a d' hm ht => h ht a d' hm ht

theorem turns_pure (a : α) : Turns d (pure a : Synthesis α) still := by
  intro b d' h ht
  rw [Run.pure_apply] at h
  cases h
  exact ⟨ht, .refl _, rfl, fun _ _ _ _ => rfl⟩

theorem turns_throw (e : Failure) : Turns d (throw e : Synthesis α) g := by
  intro b d' h
  rw [Run.throw_apply] at h
  cases h

/-- Steps in a row turn one after the other; the second may depend on what the first
gave and on the draft that it left. -/
theorem Turns.bind (hm : Turns d m g) (hf : ∀ a d', m d = (.ok a, d') → Turns d' (f a) k) :
    Turns d (m >>= f) fun s type field v => k s type field (g s type field v) := by
  intro b d'' h ht
  obtain ⟨a, d', h1, h2⟩ := Run.bind_eq_ok.mp h
  obtain ⟨t1, e1, x1, v1⟩ := hm a d' h1 ht
  obtain ⟨t2, e2, x2, v2⟩ := hf a d' h1 b d'' h2 t1
  refine ⟨t2, e1.trans e2, x2.trans x1, fun s hs type field => ?_⟩
  rw [v2 s hs, v1 s (e2.trans hs)]

/-- A step that leaves every field as it stands can be passed over. -/
theorem Turns.bind_still (hm : Turns d m still)
    (hf : ∀ a d', m d = (.ok a, d') → Turns d' (f a) k) : Turns d (m >>= f) k :=
  hm.bind hf

/-- A step is done when nothing but still ones follow. -/
theorem Turns.then_still (hm : Turns d m g)
    (hf : ∀ a d', m d = (.ok a, d') → Turns d' (f a) still) : Turns d (m >>= f) g :=
  hm.bind hf

/-- Looking at the draft changes nothing. -/
theorem turns_get_bind {f : Draft → Synthesis β} (h : Turns d (f d) k) :
    Turns d (get >>= f) k := by
  intro b d' hb
  rw [Run.bind_of_ok (Run.get_apply d)] at hb
  exact h b d' hb

/-- An outcome that changes nothing can be passed over, and what it gave is known. -/
theorem turns_lift_bind {x : Except Failure α} (h : ∀ a, x = .ok a → Turns d (f a) k) :
    Turns d (lift x >>= f) k := by
  intro b d' hb
  obtain ⟨a, d1, h1, h2⟩ := Run.bind_eq_ok.mp hb
  have hx : x = .ok a ∧ d = d1 := by
    cases x with
    | error e => cases h1
    | ok y => cases h1; exact ⟨rfl, rfl⟩
  obtain ⟨hx, rfl⟩ := hx
  exact h a hx b d' h2

/-- A change of the draft that keeps what is known of thunks. -/
theorem turns_modify {u : Draft → Draft} (hc : d.Tidy → (u d).Tidy)
    (ht : (u d).thunks = d.thunks) (hx : (u d).extensions.fields = d.extensions.fields)
    (hv : ∀ s type field, (u d).standing s type field = g s type field (d.standing s type field)) :
    Turns d (modify u : Synthesis PUnit) g := by
  intro a d' h htidy
  rw [Run.modify_apply] at h
  cases h
  refine ⟨hc htidy, ?_, hx, fun s _ => hv s⟩
  rw [ht]
  exact .refl _

/-! ### Changes of the registry -/

/-- A change of the registry that declares no type twice. -/
theorem turns_change {u : Registry → Registry}
    (hr : (Table.keys d.registry).Nodup → (Table.keys (u d.registry)).Nodup)
    (hv : ∀ s type field, Draft.standing s type field { d with registry := u d.registry }
      = g s type field (d.standing s type field)) :
    Turns d (change u) g :=
  turns_modify (fun ht => ⟨hr ht.types, ht.configs⟩) rfl rfl hv

/-- Changing a line changes the signature and the uses of its field. -/
theorem turns_updateField (t f : String) {h : FieldLine → FieldLine} {a : String → String}
    {b : List String → List String} (ha : ∀ l, (h l).type = a l.type)
    (hb : ∀ l, (h l).directives = b l.directives) :
    Turns d (change (·.updateField t f h)) fun _ type field v =>
      if t = type ∧ f = field then { v with signature := a v.signature, uses := b v.uses }
      else v := by
  refine turns_change (fun hr => Registry.nodup_updateType hr _ _) fun s type field => ?_
  simp only [Draft.standing, Draft.configOf?, Registry.kind_updateField,
    Registry.directives_updateField, Registry.line_updateField]
  by_cases hc : t = type ∧ f = field
  · obtain ⟨rfl, rfl⟩ := hc
    simp [ha, hb]
  · have hc' : ¬(type = t ∧ field = f) := fun h' => hc ⟨h'.1.symm, h'.2.symm⟩
    simp only [if_neg hc, if_neg hc']

/-- Changing a line in its arguments alone changes nothing. -/
theorem turns_updateField_still (t f : String) {h : FieldLine → FieldLine}
    (ha : ∀ l, (h l).type = l.type) (hb : ∀ l, (h l).directives = l.directives) :
    Turns d (change (·.updateField t f h)) still := by
  refine (turns_updateField t f (a := id) (b := id) ha hb).congr fun s type field v => ?_
  simp [still]

/-- Changing what an entry says of the type itself. -/
theorem turns_updateType (t : String) {h : TypeEntry → TypeEntry}
    {a : Language.TypeKind → Language.TypeKind} {b : List String → List String}
    (ha : ∀ e, (h e).kind = a e.kind) (hb : ∀ e, (h e).directives = b e.directives)
    (hl : ∀ e, (h e).lines = e.lines) :
    Turns d (change (·.updateType t h)) fun _ type _ v =>
      if t = type then { v with kind := a v.kind, typeUses := b v.typeUses } else v := by
  refine turns_change (fun hr => Registry.nodup_updateType hr _ _) fun s type field => ?_
  simp only [Draft.standing, Draft.configOf?, Registry.entry_updateType,
    Registry.line_updateType _ _ _ _ _ hl]
  by_cases hc : t = type
  · subst hc
    simp [ha, hb]
  · have hc' : ¬type = t := fun h' => hc h'.symm
    simp only [if_neg hc, if_neg hc']

theorem turns_ensureType (t : String) : Turns d (change (·.ensureType t)) still := by
  refine turns_change (fun hr => Table.nodup_keys_ensure hr _ _) fun s type field => ?_
  simp only [Draft.standing, Draft.configOf?, Registry.line, Registry.entry_ensureType, still]

theorem turns_ensureField (t f : String) : Turns d (change (·.ensureField t f)) still :=
  turns_updateField_still t f (fun _ => rfl) fun _ => rfl

theorem turns_addArgument (t f argument signature : String) :
    Turns d (change (·.addArgument t f argument signature)) still :=
  turns_updateField_still t f (fun _ => rfl) fun _ => rfl

/-- The arguments of the store change neither the type of a line nor its directives. -/
theorem addFetchArguments_keeps (l : FieldLine) (t f : String) (isList : Bool) :
    (Registry.addFetchArguments l t f isList).type = l.type
      ∧ (Registry.addFetchArguments l t f isList).directives = l.directives := by
  unfold Registry.addFetchArguments
  generalize Registry.fetchArguments t f isList = arguments
  induction arguments generalizing l with
  | nil => exact ⟨rfl, rfl⟩
  | cons a arguments ih => exact ih (l.addArgument a.1 a.2)

theorem turns_addFetchArguments (t f : String) (isList : Bool) :
    Turns d (change (·.updateField t f (Registry.addFetchArguments · t f isList))) still :=
  turns_updateField_still t f (fun l => (addFetchArguments_keeps l t f isList).1)
    fun l => (addFetchArguments_keeps l t f isList).2

/-- Setting the kind of a type is a deed. -/
theorem does_setKind (t : String) (kind : Language.TypeKind) :
    Does (change (·.setKind t kind)) [.kind t kind] := fun _ =>
  (turns_updateType t (h := fun e => { e with kind }) (a := fun _ => kind) (b := id)
    (fun _ => rfl) (fun _ => rfl) fun _ => rfl).congr fun _ _ _ _ => rfl

/-- Setting the signature of a line is a deed. -/
theorem does_setFieldType (t f signature : String) :
    Does (change (·.setFieldType t f signature)) [.typed t f signature] := fun _ =>
  (turns_updateField t f (h := fun line => { line with type := signature })
    (a := fun _ => signature) (b := id) (fun _ => rfl) fun _ => rfl).congr fun _ _ _ _ => rfl

/-- Putting a class in the place of what was there is a deed. -/
theorem does_put (t : String) (signatures : Table String) :
    Does (change fun r => Table.put r t { lines := Registry.plainLines signatures })
      [.replaced t signatures] := by
  intro d
  refine turns_change (fun hr => Table.nodup_keys_put hr _ _) fun s type field => ?_
  simp only [Draft.standing, Draft.configOf?, Registry.line, Registry.entry_put, turningOf,
    Standing.after, List.foldl_cons, List.foldl_nil, Standing.step]
  by_cases hc : t = type
  · subst hc
    simp only [if_true, Registry.get?_plainLines]
  · have hc' : ¬type = t := fun h' => hc h'.symm
    simp only [if_neg hc, if_neg hc']

/-! ### Steps beside the registry -/

/-- Resolving an option changes only what is known of thunks. -/
theorem resolve_eq_ok {o : DirectiveOption} {ds : List Directive} {d' : Draft}
    (h : resolve o d = (.ok ds, d')) :
    ∃ t, o.resolve d.thunks = (.ok ds, t) ∧ d' = { d with thunks := t } := by
  rcases hr : o.resolve d.thunks with ⟨x, t⟩
  have hrun : resolve o d = (x, { d with thunks := t }) := by
    change ((o.resolve d.thunks).1, { d with thunks := (o.resolve d.thunks).2 }) = _
    rw [hr]
  rw [hrun] at h
  cases h
  exact ⟨t, rfl, rfl⟩

/-- What an option was resolved to is what it means from then on. -/
theorem turns_resolve_bind {o : DirectiveOption} {f : List Directive → Synthesis β}
    {k : List Directive → Turning}
    (hf : ∀ ds d', Turns d' (f ds) (k ds)) :
    Turns d (resolve o >>= f) fun s type field v => k (o.meaning s) s type field v := by
  intro b d'' h ht
  obtain ⟨ds, d', h1, h2⟩ := Run.bind_eq_ok.mp h
  obtain ⟨t, ho, rfl⟩ := resolve_eq_ok h1
  obtain ⟨t2, e2, x2, v2⟩ := hf ds _ b d'' h2 ⟨ht.types, ht.configs⟩
  refine ⟨t2, (DirectiveOption.extends_of_resolve ho).trans e2, x2, fun s hs type field => ?_⟩
  have hm : o.meaning s = ds := DirectiveOption.meaning_of_resolve ho (e2.trans hs)
  rw [v2 s hs, ← hm]
  rfl

/-- Recording a use gives its text and changes only what is known of directives. -/
theorem turns_record_bind {x : Directive} {f : String → Synthesis β}
    (hf : ∀ d', Turns d' (f x.use) k) : Turns d (record x >>= f) k := by
  intro b d'' h ht
  obtain ⟨u, d', h1, h2⟩ := Run.bind_eq_ok.mp h
  have hd : u = x.use ∧ ∃ rs, d' = { d with directives := rs } := by
    rcases hr : d.directives.register ⟨x.name, x.arguments⟩ with ⟨outcome, rs⟩
    have hrun : record x d = (outcome, { d with directives := rs }) := by
      change ((d.directives.register ⟨x.name, x.arguments⟩).1,
        { d with directives := (d.directives.register ⟨x.name, x.arguments⟩).2 }) = _
      rw [hr]
    rw [hrun] at h1
    obtain ⟨rfl, rfl⟩ := Prod.mk.inj h1
    refine ⟨DirectiveRecords.text_of_register hr, rs, rfl⟩
  obtain ⟨rfl, rs, rfl⟩ := hd
  exact hf { d with directives := rs } b d'' h2 ⟨ht.types, ht.configs⟩

/-- A type gets a policy and perhaps becomes an alternate name. -/
theorem does_setPolicy (t : String) (p : PolicyOption) (primary : Option String) :
    Does (modify fun d => { d with extensions := d.extensions.setPolicy t p primary })
      [.governed t p primary] := fun d =>
  turns_modify (fun ht => ⟨ht.types, ht.configs⟩) rfl (d.extensions.fields_setPolicy t p primary)
    fun s type field => by
    simp only [Draft.standing, Draft.configOf?, Extensions.policy?_setPolicy,
      Extensions.primary?_setPolicy, turningOf, Standing.after, List.foldl_cons, List.foldl_nil,
      Standing.step]
    split <;> rfl

/-- Making room for the configurations of a type. -/
theorem turns_ensureConfigs (t : String) :
    Turns d (modify fun d => { d with configs := d.configs.ensure t [] }) still := by
  refine turns_modify (fun htidy => ?_) rfl rfl fun s type field => ?_
  · exact ⟨htidy.types, Table.forall_ensure htidy.configs List.nodup_nil⟩
  · have hconfig : (Draft.configOf? { d with configs := d.configs.ensure t [] } type field)
        = d.configOf? type field := by
      rw [Draft.configOf?, Table.get?_ensure, Draft.configOf?]
      cases d.configs.get? type with
      | some _ => rfl
      | none => by_cases ht : type = t <;> simp [ht]
    rw [Draft.standing, hconfig]
    rfl

/-- Setting how a field is resolved. -/
theorem turns_configure (t f : String) (c : FieldConfig) :
    Turns d (configure t f c) fun s type field v =>
      if t = type ∧ f = field then { v with config := some (c.settled s) } else v := by
  intro a d' h htidy
  rw [configure, Run.modify_apply] at h
  cases h
  refine ⟨?_, .refl _, rfl, fun s _ type field => ?_⟩
  · have hknown : (Table.keys ((d.configs.get? t).getD [])).Nodup := by
      cases hk : d.configs.get? t with
      | none => exact List.nodup_nil
      | some known => exact htidy.configs t known hk
    have hset : ∀ type fs, (d.configs.update t [] fun fs => Table.put fs f c).get? type = some fs →
        (Table.keys fs).Nodup :=
      Table.forall_update htidy.configs (Table.nodup_keys_put hknown f c)
    exact ⟨htidy.types, hset⟩
  · simp only [Draft.standing, Draft.configOf?, Table.get?_update]
    by_cases ht : t = type
    · subst ht
      by_cases hf : f = field
      · subst hf
        simp [Table.get?_put]
      · have hf' : ¬field = f := fun h' => hf h'.symm
        cases hk : d.configs.get? t <;> simp [Table.get?_put, hf, hf']
    · have ht' : ¬type = t := fun h' => ht h'.symm
      simp [ht, ht']

/-! ### Loops -/

/-- A loop of steps that each do some deeds does them all in turn. -/
theorem does_forM {f : α → Synthesis PUnit} {deeds : α → List Deed} {xs : List α}
    (h : ∀ x ∈ xs, Does (f x) (deeds x)) : Does (xs.forM f) (xs.flatMap deeds) := by
  induction xs with
  | nil => exact fun _ => turns_pure _
  | cons x xs ih =>
    intro d
    rw [List.flatMap_cons]
    change Turns d (f x >>= fun _ => xs.forM f) _
    have hx := h x (List.mem_cons_self ..) d
    have hxs := ih fun y hy => h y (List.mem_cons_of_mem x hy)
    refine (hx.bind fun _ d' _ => hxs d').congr fun s type field v => ?_
    exact (Standing.after_append s type field _ _ v).symm

/-- A loop of still steps changes nothing. -/
theorem turns_forM_still {f : α → Synthesis PUnit} {xs : List α}
    (h : ∀ x ∈ xs, ∀ d, Turns d (f x) still) : Turns d (xs.forM f) still := by
  induction xs generalizing d with
  | nil => exact turns_pure _
  | cons x xs ih =>
    change Turns d (f x >>= fun _ => xs.forM f) _
    exact (h x (List.mem_cons_self ..) d).bind_still fun _ d' _ =>
      ih fun y hy => h y (List.mem_cons_of_mem x hy)

/-- So does one that gathers what its still steps give. -/
theorem turns_filterMapM_still {f : α → Synthesis (Option β)} {xs : List α}
    (h : ∀ x d, Turns d (f x) still) : Turns d (xs.filterMapM f) still := by
  have hloop : ∀ xs acc d, Turns d (List.filterMapM.loop f xs acc) still := by
    intro xs
    induction xs with
    | nil => exact fun acc d => turns_pure _
    | cons x xs ih =>
      intro acc d
      refine (h x d).bind_still fun y d1 _ => ?_
      cases y with
      | none => exact ih acc d1
      | some y => exact ih (y :: acc) d1
  exact hloop xs [] d

/-- Writing directives on a type. -/
theorem turns_directType (t : String) (ds : List Directive) :
    Turns d (directType t ds) fun _ type _ v =>
      if t = type then { v with typeUses := addUses v.typeUses ds } else v := by
  induction ds generalizing d with
  | nil => exact (turns_pure _).congr fun s type field v => by simp [still]
  | cons x ds ih =>
    refine ((turns_record_bind fun d' => turns_updateType t (h := (·.addDirective x.use)) (a := id)
      (b := fun us => addOnce us x.use) (fun _ => rfl) (fun _ => rfl) fun _ => rfl).bind
      fun _ d' _ => ih).congr fun s type field v => ?_
    by_cases ht : t = type
    · simp only [if_pos ht]
      rfl
    · simp only [if_neg ht]

end Synthesis
end SchemaForge

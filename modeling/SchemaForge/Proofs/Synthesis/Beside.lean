import SchemaForge.Proofs.Synthesis.Settling

/-!
# A synthesis beside another

A declared type is described into a draft on its own and into one that has what other types brought
before. If what it gives to types is free there, then both go alike: they have the same outcome,
and the second draft has what the first one has beside what it had before (`alike_addType`). What
was there before is described again at times, but that changes nothing, for it is settled.
-/
namespace SchemaForge

theorem Table.put_append {α : Type} {t : Table α} {key : String} (h : ∀ e ∈ t, e.1 ≠ key)
    (u : Table α) (x : α) : Table.put (t ++ u) key x = t ++ Table.put u key x := by
  have hnew : Table.has t key = false := by
    rw [← Bool.not_eq_true, ← Table.mem_keys_iff]
    rintro hmem
    obtain ⟨e, he, hname⟩ := List.mem_map.mp hmem
    exact h e he hname
  have hmap : (t.map fun e => if e.1 == key then (key, x) else e) = t := by
    refine (List.map_congr_left fun e he => ?_).trans (List.map_id t)
    rw [if_neg (by simpa using h e he)]
    rfl
  have hhas : Table.has (t ++ u) key = Table.has u key := by
    rw [Table.has, List.any_append, ← Table.has, ← Table.has, hnew, Bool.false_or]
  unfold Table.put
  rw [hhas, List.map_append, hmap]
  split
  · rfl
  · rw [List.append_assoc]

/-- Whether a use is accepted, and how it fails, does not depend on what was recorded before. -/
theorem DirectiveRecords.register_fst (records records' : DirectiveRecords) (d : DirectiveCall) :
    (records.register d).1 = (records'.register d).1 := by
  have hgiven : ∀ (given : Fields) (r r' : DirectiveRecord),
      (r.noteGiven given).1 = (r'.noteGiven given).1 := by
    intro given
    induction given with
    | nil => exact fun _ _ => rfl
    | cons a given ih =>
      intro r r'
      unfold DirectiveRecord.noteGiven
      dsimp only
      cases LiteralKind.ofArgument a.2 with
      | error e => rfl
      | ok k => exact ih _ _
  have hrecord : ∀ r : DirectiveRecord,
      (r.record d.arguments).1 = ((r.noteAbsent d.arguments).noteGiven d.arguments).1 := by
    intro r
    unfold DirectiveRecord.record
    split
    · rename_i h
      rw [h]
    · rfl
  have hsame : ∀ r r' : DirectiveRecord,
      (r.record d.arguments).1 = (r'.record d.arguments).1 := fun r r' => by
    rw [hrecord, hrecord, hgiven]
  exact congrArg (Except.map fun _ => d.text) (hsame _ _)

/-- A draft has what two others have beside each other. The second gives only some fields to types,
and only some kinds. Where it matters, the fields of each type are configured in the order of the
first and then of the second. -/
structure Draft.Beside (result : String → DirectiveOption) (base : String → Language.TypeKind)
    (first : Draft) (mine : String → String → Prop) (kinds : String → Language.TypeKind → Prop)
    (ordered : Prop) (second both : Draft) : Prop where
  /-- The registry has what the registries of both have. -/
  registry : Registry.Beside base first.registry second.registry both.registry
  /-- What the second gives is resolved as there. -/
  known : ∀ t f, mine t f → both.configOf? t f = second.configOf? t f
  /-- Fields are configured in this order. -/
  listed : ordered → ∀ t, both.configsOf t = first.configsOf t ++ second.configsOf t
  /-- Configured options are coherent. -/
  coherent : ∀ t, ∀ e ∈ second.configsOf t, DirectiveOption.Coherent result e.2.directives
  /-- The filters of both are asked for. -/
  steps : ∀ q, q ∈ both.steps ↔ q ∈ first.steps ∨ q ∈ second.steps
  /-- What is kept of thunks are their values. -/
  thunks : DirectiveOption.Agreeing result second.thunks both.thunks
  /-- The second gives these lines. -/
  lines : ∀ t f l, second.registry.line? t f = some l → mine t f
  /-- It configures these fields. -/
  configs : ∀ t, ∀ e ∈ second.configsOf t, mine t e.1
  /-- It gives these kinds. -/
  kinds : ∀ t, (second.registry.entry t).kind = base t
    ∨ kinds t (second.registry.entry t).kind

namespace Synthesis

open Run

variable {result : String → DirectiveOption} {base : String → Language.TypeKind} {first : Draft}
  {mine : String → String → Prop} {kinds : String → Language.TypeKind → Prop} {ordered : Prop}
  {α : Type}

/-- What a declared type may give to types beside what is there. -/
def besideFootprint (base : String → Language.TypeKind) (first : Draft)
    (mine : String → String → Prop) (kinds : String → Language.TypeKind → Prop) : Footprint where
  fields := mine
  kinds t k := kinds t k ∧ (k = base t → (first.registry.entry t).kind = base t)
  plain t := ((first.registry.entry t).kind = .union ↔ base t = .union)
  described t := kinds t .object ∧ (first.registry.entry t).kind = base t
    ∧ (first.registry.entry t).directives = [] ∧ ∀ f, first.registry.line? t f = none

/-- What leaves the registry and the configurations as they are keeps drafts beside each other. -/
theorem beside_of_eq {x y x' y' : Draft} (h : first.Beside result base mine kinds ordered x y)
    (hx : x'.registry = x.registry ∧ ∀ t, x'.configsOf t = x.configsOf t)
    (hy : y'.registry = y.registry ∧ ∀ t, y'.configsOf t = y.configsOf t)
    (hsteps : ∀ q, q ∈ y'.steps ↔ q ∈ first.steps ∨ q ∈ x'.steps)
    (hthunks : DirectiveOption.Agreeing result x'.thunks y'.thunks) :
    first.Beside result base mine kinds ordered x' y' where
  registry := by
    rw [hx.1, hy.1]
    exact h.registry
  known t f hf := by
    rw [Draft.configOf?_eq, Draft.configOf?_eq, hx.2, hy.2, ← Draft.configOf?_eq,
      ← Draft.configOf?_eq, h.known t f hf]
  listed ho t := by rw [hy.2, hx.2, h.listed ho t]
  coherent t e he := h.coherent t e (hx.2 t ▸ he)
  steps := hsteps
  thunks := hthunks
  lines t f l hl := h.lines t f l (hx.1 ▸ hl)
  configs t e he := h.configs t e (hx.2 t ▸ he)
  kinds t := by
    rw [hx.1]
    exact h.kinds t

/-- A change of the registry that keeps it beside another, and gives lines and kinds that may be
given. -/
theorem beside_change {u : Registry → Registry}
    (hu : ∀ {r r'}, Registry.Beside base first.registry r r' →
      Registry.Beside base first.registry (u r) (u r'))
    (hlines : ∀ r t f l, Registry.line? (u r) t f = some l → (r.line? t f).isSome ∨ mine t f)
    (hkinds : ∀ r t, ((u r).entry t).kind = (r.entry t).kind ∨ kinds t ((u r).entry t).kind) :
    Alike (first.Beside result base mine kinds ordered) (change u) (change u) :=
  alike_modify fun x y h => { h with
    registry := hu h.registry
    lines := fun t f l hl => by
      rcases hlines x.registry t f l hl with hsome | hmine
      · obtain ⟨l', hl'⟩ := Option.isSome_iff_exists.mp hsome
        exact h.lines t f l' hl'
      · exact hmine
    kinds := fun t => by
      rcases hkinds x.registry t with hsame | hkind
      · exact hsame ▸ h.kinds t
      · exact .inr hkind }

/-- A directive is recorded in both drafts or in none, and then used in both. -/
theorem beside_use {c : Directive} {u : String → Registry → Registry}
    (h : ∀ use, Alike (first.Beside result base mine kinds ordered) (change (u use))
      (change (u use))) :
    Alike (first.Beside result base mine kinds ordered) (record c >>= fun use => change (u use))
      (record c >>= fun use => change (u use)) := by
  refine Alike.bind (fun x y hxy => ⟨?_, ?_⟩) h
  · exact DirectiveRecords.register_fst x.directives y.directives ⟨c.name, c.arguments⟩
  · exact beside_of_eq hxy ⟨rfl, fun _ => rfl⟩ ⟨rfl, fun _ => rfl⟩ hxy.steps hxy.thunks

theorem beside_modify {u : Draft → Draft} (hr : ∀ d, (u d).registry = d.registry)
    (hc : ∀ d t, (u d).configsOf t = d.configsOf t) (hq : ∀ d, (u d).steps = d.steps)
    (ht : ∀ d, (u d).thunks = d.thunks) :
    Alike (first.Beside result base mine kinds ordered) (modify u : Synthesis PUnit) (modify u) :=
  alike_modify fun x y h => beside_of_eq h ⟨hr x, hc x⟩ ⟨hr y, hc y⟩
    (fun q => by rw [hq, hq, h.steps]) (by rw [ht, ht]; exact h.thunks)

/-- A line that may be given is changed. -/
theorem beside_updateField (hfree : ∀ t f, mine t f → first.registry.line? t f = none) {t f : String}
    (hf : mine t f) (g : FieldLine → FieldLine) :
    Alike (first.Beside result base mine kinds ordered) (change (·.updateField t f g))
      (change (·.updateField t f g)) := by
  refine beside_change (fun h => h.updateField (hfree t f hf) g) (fun r t' f' l hl => ?_)
    fun r t' => .inl (Registry.kind_updateField r t f t' g)
  rw [Registry.line?_updateField] at hl
  split at hl
  · rename_i h
    exact .inr (h.1 ▸ h.2 ▸ hf)
  · exact .inl (hl ▸ rfl)

/-- So is an entry, in something else than its lines. -/
theorem beside_updateType {t : String} {u : TypeEntry → TypeEntry}
    (hu : ∀ {r r'}, Registry.Beside base first.registry r r' →
      Registry.Beside base first.registry (r.updateType t u) (r'.updateType t u))
    (hlines : ∀ e, (u e).lines = e.lines) (hkinds : ∀ e, (u e).kind = e.kind ∨ kinds t (u e).kind) :
    Alike (first.Beside result base mine kinds ordered) (change (·.updateType t u))
      (change (·.updateType t u)) := by
  refine beside_change hu (fun r t' f l hl => ?_) fun r t' => ?_
  · rw [line?_updateType_of_lines r t t' f hlines] at hl
    exact .inl (hl ▸ rfl)
  · rw [Registry.entry_updateType]
    split
    · rename_i h
      subst h
      exact hkinds _
    · exact .inl rfl

/-- A field that the first does not configure is configured after what it does. -/
theorem beside_configure (hnew : ∀ t f, mine t f → ∀ e ∈ first.configsOf t, e.1 ≠ f)
    {t f : String} (hf : mine t f) {c : FieldConfig}
    (hc : DirectiveOption.Coherent result c.directives) :
    Alike (first.Beside result base mine kinds ordered)
      (modify fun d => { d with configs := d.configs.update t [] fun fs => Table.put fs f c } :
        Synthesis PUnit)
      (modify fun d => { d with configs := d.configs.update t [] fun fs => Table.put fs f c }) :=
  alike_modify fun x y h => { h with
    known := fun t' f' hf' => by
      have hknown := h.known t' f' hf'
      rw [Draft.configOf?_eq, Draft.configOf?_eq] at hknown ⊢
      rw [Draft.configsOf_configure, Draft.configsOf_configure]
      split
      · rename_i heq
        subst heq
        rw [Table.get?_put, Table.get?_put, hknown]
      · exact hknown
    listed := fun ho t' => by
      rw [Draft.configsOf_configure, Draft.configsOf_configure]
      split
      · rename_i heq
        rw [h.listed ho, heq, Table.put_append (hnew t f hf)]
      · exact h.listed ho t'
    coherent := fun t' e he => by
      rcases Draft.mem_configsOf_configure he with he | ⟨-, rfl⟩
      · exact h.coherent t' e he
      · exact hc
    configs := fun t' e he => by
      rcases Draft.mem_configsOf_configure he with he | ⟨rfl, rfl⟩
      · exact h.configs t' e he
      · exact hf }

theorem steps_request (d : Draft) (q : FilterRequest) :
    Draft.steps { d with requests := d.requests ++ [q] } = d.steps ++ q.steps := by
  rw [Draft.steps, List.flatMap_append, List.flatMap_singleton, Draft.steps]

theorem isUnion_eq (d : Draft) (t : String) :
    d.isUnion t = ((d.registry.entry t).kind == .union) := by
  unfold Draft.isUnion Registry.entry
  cases Table.get? d.registry t <;> rfl

/-- **Every single step keeps drafts beside each other** that gives what may be given. -/
theorem lockstep_beside (hfree : ∀ t f, mine t f → first.registry.line? t f = none)
    (hnew : ∀ t f, mine t f → ∀ e ∈ first.configsOf t, e.1 ≠ f) :
    Lockstep (DirectiveOption.Coherent result) (fun _ => True)
      (besideFootprint base first mine kinds)
      (first.Beside result base mine kinds ordered) where
  absent := DirectiveOption.coherent_none
  union {x y t} h ht := by
    have hkind := (h.registry.entries t).kind
    have ht : (first.registry.entry t).kind = .union ↔ base t = .union := ht
    rw [isUnion_eq, isUnion_eq, hkind, Bool.eq_iff_iff, beq_iff_eq, beq_iff_eq]
    split
    · rename_i hbase
      rw [hbase]
      exact ht.symm
    · exact .rfl
  line h hf := by
    rw [h.registry.line?, hfree _ _ hf, Option.none_or]
  known {x y t f} h hf := by
    refine ⟨(h.known t f hf).symm, fun c hc => ?_⟩
    rw [Draft.configOf?_eq] at hc
    exact h.coherent _ _ (Table.mem_of_get? hc)
  resolve ho x y h := by
    obtain ⟨hout, hthunks⟩ := DirectiveOption.alike_resolve ho _ _ h.thunks
    exact ⟨hout, beside_of_eq h ⟨rfl, fun _ => rfl⟩ ⟨rfl, fun _ => rfl⟩ h.steps hthunks⟩
  resolved _ _ _ _ _ := trivial
  list _ := DirectiveOption.coherent_list _
  useOnType t _ _ := beside_use fun use => beside_updateType (fun h => h.addTypeDirective t use)
    (fun _ => rfl) fun _ => .inl rfl
  useOnField hf _ := beside_use fun _ => beside_updateField hfree hf _
  field hf _ := beside_updateField hfree hf _
  configure hf _ hc := beside_configure hnew hf hc
  govern _ _ _ := beside_modify (fun _ => rfl) (fun _ _ => rfl) (fun _ => rfl) fun _ => rfl
  ensure t := beside_change (fun h => h.ensureType t)
    (fun r t' f l hl => .inl (by
      rw [Registry.line?_eq, Registry.entry_ensureType, ← Registry.line?_eq] at hl
      exact hl ▸ rfl))
    fun r t' => .inl (by rw [Registry.entry_ensureType])
  kind hk := beside_updateType (fun h => h.setKind hk.2) (fun _ => rfl) fun _ => .inr hk.1
  put {t} ht lines hlines := by
    obtain ⟨hobject, hkind, hdirectives, hnone⟩ := ht
    refine beside_change (fun h => h.put hdirectives hnone hkind lines) (fun r t' f l hl => ?_)
      fun r t' => ?_
    · rw [Registry.line?_eq, Registry.entry_put] at hl
      split at hl
      · rename_i heq
        exact .inr (heq ▸ (hlines.given _ (Table.mem_of_get? hl)).1)
      · rw [Registry.line?_eq, hl]
        exact .inl rfl
    · rw [Registry.entry_put]
      split
      · rename_i heq
        exact .inr (heq ▸ hobject)
      · exact .inl rfl
  start t p primary _ := beside_modify (fun _ => rfl) (fun d other =>
    Draft.configsOf_ensure { d with extensions := d.extensions.setPolicy t p primary } t other)
    (fun _ => rfl) fun _ => rfl
  request q := alike_modify fun x y h => { h with
    steps := fun q' => by
      rw [steps_request, steps_request, List.mem_append, List.mem_append, h.steps, or_assoc] }
  expose _ _ _ _ := beside_modify (fun _ => rfl) (fun _ _ => rfl) (fun _ => rfl) fun _ => rfl
  warn _ := beside_modify (fun _ => rfl) (fun _ _ => rfl) (fun _ => rfl) fun _ => rfl

/-! ### Fields that are described again -/

/-- What changes nothing on one side can be passed over there. -/
theorem alike_pass {R : Draft → Draft → Prop} {m : Synthesis PUnit} {n n' : Synthesis α}
    (hm : ∀ x y, R x y → ∃ y', m y = (.ok ⟨⟩, y') ∧ R x y') (h : Alike R n n') :
    Alike R n (m >>= fun _ => n') := by
  intro x y hxy
  obtain ⟨y', hrun, hxy'⟩ := hm x y hxy
  rw [bind_of_ok hrun]
  exact h x y' hxy'

theorem beside_of_echo {x y y' : Draft} (h : first.Beside result base mine kinds ordered x y)
    (hecho : y.Echoes result y') : first.Beside result base mine kinds ordered x y' := by
  have hconfigs : ∀ t, y'.configsOf t = y.configsOf t := fun t => by
    rw [Draft.configsOf, hecho.configs, Draft.configsOf]
  exact { h with
    registry := h.registry.same hecho.registry.symm
    known := fun t f hf => by
      rw [Draft.configOf?_eq, hconfigs, ← Draft.configOf?_eq, h.known t f hf]
    listed := fun ho t => (hconfigs t).trans (h.listed ho t)
    steps := fun q => by rw [Draft.steps, hecho.requests, ← Draft.steps, h.steps]
    thunks := ⟨h.thunks.1, hecho.thunks⟩ }

variable {known : String → String → Prop}

/-- Fields that are settled in the first draft are described again without a change. -/
theorem beside_again (hfirst : first.Settled result (fun _ => False) (fun _ _ => True) known)
    {t : String} {fs : Table FieldConfig} (hfs : ∀ e ∈ fs, e ∈ first.configsOf t) {x y : Draft}
    (h : first.Beside result base mine kinds ordered x y) :
    ∃ y', (fs.forM fun e => describe t e.1 e.2) y = (.ok ⟨⟩, y')
      ∧ first.Beside result base mine kinds ordered x y' := by
  induction fs generalizing y with
  | nil => exact ⟨y, rfl, h⟩
  | cons e fs ih =>
    have he := hfs e List.mem_cons_self
    obtain ⟨l, hline, hl⟩ := (hfirst.settles t e he trivial).line
    have hline' : y.registry.line? t e.1 = some l := by
      rw [h.registry.line?, hline, Option.some_or]
    obtain ⟨y1, hrun, hecho⟩ := describe_of_bears (hfirst.coherent t e he) h.thunks.2 hline' hl
    obtain ⟨y2, hruns, hy2⟩ := ih (fun e' he' => hfs e' (List.mem_cons_of_mem e he'))
      (beside_of_echo h hecho)
    exact ⟨y2, (bind_of_ok hrun _).trans hruns, hy2⟩

/-- What is asked for by configurations. -/
theorem mem_steps_configured (d : Draft) (t : String) (fs : Table FieldConfig) :
    ∃ d', (if fs.any (·.2.hasFetchArguments) then request (.configured t fs) else pure ⟨⟩ :
        Synthesis Unit) d = (.ok ⟨⟩, d')
      ∧ d'.registry = d.registry ∧ d'.configs = d.configs ∧ d'.thunks = d.thunks
      ∧ ∀ q, q ∈ d'.steps ↔ q ∈ d.steps ∨ ∃ e ∈ fs, e.2.step? t e.1 = some q := by
  split
  · refine ⟨_, rfl, rfl, rfl, rfl, fun q => ?_⟩
    rw [steps_request, List.mem_append]
    exact or_congr .rfl List.mem_filterMap
  · rename_i hnone
    refine ⟨d, rfl, rfl, rfl, rfl, fun q => ⟨.inl, fun h => h.resolve_right ?_⟩⟩
    rintro ⟨e, he, hq⟩
    refine hnone (List.any_eq_true.mpr ⟨e, he, ?_⟩)
    unfold FieldConfig.step? at hq
    split at hq
    · assumption
    · cases hq

/-- **The fields of a type are described alike**, where those of the first draft are settled. -/
theorem alike_describeConfigured
    (hfree : ∀ t f, mine t f → first.registry.line? t f = none)
    (hnew : ∀ t f, mine t f → ∀ e ∈ first.configsOf t, e.1 ≠ f)
    (hfirst : first.Settled result (fun _ => False) (fun _ _ => True) known) (t : String) :
    Alike (first.Beside result base mine kinds True) (describeConfigured t)
      (describeConfigured t) := by
  refine alike_get_bind fun x y hxy => ?_
  have hlisted : (y.configs.get? t).getD [] = first.configsOf t ++ x.configsOf t :=
    hxy.listed trivial t
  dsimp only
  rw [hlisted]
  change Alike _ (do
    (x.configsOf t).forM fun e => describe t e.1 e.2
    if (x.configsOf t).any (·.2.hasFetchArguments) then request (.configured t (x.configsOf t))
    else pure ⟨⟩) _
  have hcoherent := hxy.coherent t
  have hmine := hxy.configs t
  generalize x.configsOf t = fs at hcoherent hmine
  have hsplit : (first.configsOf t ++ fs).forM (fun e => describe t e.1 e.2)
      = (do
        (first.configsOf t).forM fun e => describe t e.1 e.2
        fs.forM fun e => describe t e.1 e.2) := List.forM_append
  rw [hsplit, bind_assoc]
  refine alike_pass (fun x y h => beside_again hfirst (fun _ => id) h) ?_
  refine (alike_forM fun e he => (lockstep_beside hfree hnew).describe (hmine e he)
    (hcoherent e he)).bind fun _ => fun x y h => ?_
  obtain ⟨x', hx, hxr, hxc, hxt, hxs⟩ := mem_steps_configured x t fs
  obtain ⟨y', hy, hyr, hyc, hyt, hys⟩ := mem_steps_configured y t (first.configsOf t ++ fs)
  rw [hx, hy]
  have hconfigs : ∀ {d d' : Draft}, d'.configs = d.configs → ∀ t, d'.configsOf t = d.configsOf t :=
    fun h t => by rw [Draft.configsOf, h, Draft.configsOf]
  refine ⟨rfl, beside_of_eq h ⟨hxr, hconfigs hxc⟩ ⟨hyr, hconfigs hyc⟩ (fun q => ?_) ?_⟩
  · -- What the first draft configures it has asked for already.
    have hasked : ∀ e ∈ first.configsOf t, e.2.step? t e.1 = some q → q ∈ first.steps :=
      fun e he hq => ((hfirst.settles t e he trivial).asked q hq).resolve_left id
    rw [hxs, hys, h.steps]
    simp only [List.mem_append, or_and_right, exists_or]
    have hold : (∃ e ∈ first.configsOf t, e.2.step? t e.1 = some q) → q ∈ first.steps := by
      rintro ⟨e, he, hq⟩
      exact hasked e he hq
    tauto
  · rw [hxt, hyt]
    exact h.thunks

end Synthesis
end SchemaForge

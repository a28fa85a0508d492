import SchemaForge.Proofs.Registry.Conforming
import SchemaForge.Proofs.Registry.Sides
import SchemaForge.Proofs.Synthesis.Asking
import SchemaForge.Proofs.Synthesis.Recording

/-!
# Described fields

A field is described from its configuration: its line gets the arguments and the directives that
the configuration says. Lines only grow in this, so a line goes on to bear what it was described
with (`FieldLine.Bears`), and to describe it again from the same configuration succeeds and changes
nothing (`Synthesis.describe_of_bears`).
-/
namespace SchemaForge

namespace FieldLine

variable {l l' l'' : FieldLine} {argument signature : String}

/-- A line has a signature of an argument. -/
def Takes (l : FieldLine) (argument signature : String) : Prop :=
  l.arguments.has argument = true
    ∧ ∀ e ∈ l.arguments, e.1 = argument → withPageDefault argument signature ∈ e.2

/-- To add a signature that is there changes nothing. -/
theorem addArgument_of_takes (h : l.Takes argument signature) :
    l.addArgument argument signature = l := by
  have hsame : l.arguments.update argument [] (addOnce · (withPageDefault argument signature))
      = l.arguments := by
    rw [Table.update, Table.ensure_of_has h.1]
    exact Table.modify_of_forall fun e he hname =>
      if_pos (List.contains_iff_mem.mpr (h.2 e he hname))
  exact congrArg (FieldLine.mk l.type · l.directives) hsame

/-- A signature is added to those of its argument alone. -/
theorem mem_arguments_addArgument {e : String × List String}
    (h : e ∈ (l.addArgument argument signature).arguments) :
    (e ∈ l.arguments.ensure argument [] ∧ e.1 ≠ argument)
      ∨ ∃ x, (argument, x) ∈ l.arguments.ensure argument []
        ∧ e = (argument, addOnce x (withPageDefault argument signature)) :=
  Registry.mem_modify h

theorem takes_addArgument (l : FieldLine) (argument signature : String) :
    (l.addArgument argument signature).Takes argument signature := by
  refine ⟨by simp [addArgument, Table.has_update], fun e he hname => ?_⟩
  rcases mem_arguments_addArgument he with ⟨-, hne⟩ | ⟨x, -, rfl⟩
  · exact absurd hname hne
  · exact mem_addOnce.mpr (.inr rfl)

theorem Takes.addArgument (h : l.Takes argument signature) (argument' signature' : String) :
    (l.addArgument argument' signature').Takes argument signature := by
  refine ⟨by simp [FieldLine.addArgument, Table.has_update, h.1], fun e he hname => ?_⟩
  have hensure : ∀ e ∈ l.arguments.ensure argument' [], e.1 = argument → e ∈ l.arguments := by
    intro e he hname
    unfold Table.ensure at he
    split at he
    · exact he
    · rename_i hnew
      rcases List.mem_append.mp he with he | he
      · exact he
      · obtain rfl := List.mem_singleton.mp he
        obtain rfl : argument' = argument := hname
        exact absurd h.1 hnew
  rcases mem_arguments_addArgument he with ⟨he, -⟩ | ⟨x, hx, rfl⟩
  · exact h.2 e (hensure e he hname) hname
  · exact mem_addOnce.mpr (.inl (h.2 _ (hensure _ hx hname) hname))

/-- A line grows by arguments and directives. -/
structure Below (l l' : FieldLine) : Prop where
  /-- The signature stays. -/
  type : l'.type = l.type
  /-- Arguments may be added. -/
  takes : ∀ argument signature, l.Takes argument signature → l'.Takes argument signature
  /-- Directives may be added. -/
  directives : l.directives ⊆ l'.directives

theorem Below.refl (l : FieldLine) : l.Below l := ⟨rfl, fun _ _ => id, List.Subset.refl _⟩

theorem Below.trans (h : l.Below l') (h' : l'.Below l'') : l.Below l'' :=
  ⟨h'.type.trans h.type, fun a s ha => h'.takes a s (h.takes a s ha),
    fun _ huse => h'.directives (h.directives huse)⟩

theorem below_addArgument (l : FieldLine) (argument signature : String) :
    l.Below (l.addArgument argument signature) :=
  ⟨rfl, fun _ _ h => h.addArgument _ _, List.Subset.refl _⟩

theorem below_addDirective (l : FieldLine) (use : String) : l.Below (l.addDirective use) :=
  ⟨rfl, fun _ _ h => h, fun _ h => mem_addOnce.mpr (.inl h)⟩

/-- Adding several arguments, the line grows and has all of them. -/
theorem below_foldl_addArgument (args : List (String × String)) (l : FieldLine) :
    l.Below (args.foldl (fun l a => l.addArgument a.1 a.2) l)
      ∧ ∀ a ∈ args, (args.foldl (fun l a => l.addArgument a.1 a.2) l).Takes a.1 a.2 := by
  induction args generalizing l with
  | nil => exact ⟨.refl l, by simp⟩
  | cons a args ih =>
    obtain ⟨hbelow, htakes⟩ := ih (l.addArgument a.1 a.2)
    refine ⟨(l.below_addArgument a.1 a.2).trans hbelow, fun b hb => ?_⟩
    rcases List.mem_cons.mp hb with rfl | hb
    · exact hbelow.takes _ _ (l.takes_addArgument _ _)
    · exact htakes b hb

theorem foldl_addArgument_of_takes {args : List (String × String)}
    (h : ∀ a ∈ args, l.Takes a.1 a.2) : args.foldl (fun l a => l.addArgument a.1 a.2) l = l := by
  induction args with
  | nil => rfl
  | cons a args ih =>
    rw [List.foldl_cons, addArgument_of_takes (h a List.mem_cons_self)]
    exact ih fun b hb => h b (List.mem_cons_of_mem a hb)

/-- Adding several directives, the line grows and has all of them. -/
theorem below_foldl_addDirective (ds : List Directive) (l : FieldLine) :
    l.Below (ds.foldl (fun l x => l.addDirective x.use) l)
      ∧ ∀ x ∈ ds, x.use ∈ (ds.foldl (fun l x => l.addDirective x.use) l).directives := by
  induction ds generalizing l with
  | nil => exact ⟨.refl l, by simp⟩
  | cons x ds ih =>
    obtain ⟨hbelow, huses⟩ := ih (l.addDirective x.use)
    refine ⟨(l.below_addDirective x.use).trans hbelow, fun y hy => ?_⟩
    rcases List.mem_cons.mp hy with rfl | hy
    · exact hbelow.directives (mem_addOnce.mpr (.inr rfl))
    · exact huses y hy

theorem foldl_addDirective_of_mem {ds : List Directive} (h : ∀ x ∈ ds, x.use ∈ l.directives) :
    ds.foldl (fun l x => l.addDirective x.use) l = l := by
  induction ds with
  | nil => rfl
  | cons x ds ih =>
    have hx : l.addDirective x.use = l := congrArg (FieldLine.mk l.type l.arguments ·)
      (if_pos (List.contains_iff_mem.mpr (h x List.mem_cons_self)))
    rw [List.foldl_cons, hx]
    exact ih fun y hy => h y (List.mem_cons_of_mem x hy)

end FieldLine

/-- A line with an argument, if its signature is a text. -/
def FieldLine.addInput (l : FieldLine) (a : String × Value) : FieldLine :=
  a.2.text?.elim l (l.addArgument a.1 ·)

/-- The arguments that a configuration says, for a field with some signature. -/
def FieldConfig.inputs? (type field : String) (c : FieldConfig) (signature : String) :
    Except Failure (List (String × String)) :=
  if c.hasFetchArguments then
    if signature == "" then .error (.noReturnType type field)
    else (Signature.isList signature).map (Registry.fetchArguments type field)
  else match c.arguments with
    | .record fs => .ok (fs.filterMap fun a => a.2.text?.map (a.1, ·))
    | _ => .ok []

/-- The directives that a coherent option is resolved to, whenever it is. -/
def DirectiveOption.Means (result : String → DirectiveOption) (o : DirectiveOption)
    (ds : List Directive) : Prop :=
  ∀ s : ThunkState, s.Agrees result → (o.resolve s).1 = .ok ds

/-- A line bears the arguments and the directives that a configuration says. -/
structure FieldLine.Bears (result : String → DirectiveOption) (type field : String)
    (c : FieldConfig) (l : FieldLine) : Prop where
  /-- It has the arguments. -/
  inputs : ∃ args, c.inputs? type field l.type = .ok args ∧ ∀ a ∈ args, l.Takes a.1 a.2
  /-- It has the directives, and these are accepted. -/
  directives : ∃ ds, c.directives.Means result ds
    ∧ ∀ x ∈ ds, x.call.isAccepted = true ∧ x.use ∈ l.directives

theorem FieldLine.Bears.below {result : String → DirectiveOption} {type field : String}
    {c : FieldConfig} {l l' : FieldLine} (h : l.Bears result type field c) (hl : l.Below l') :
    l'.Bears result type field c where
  inputs := by
    obtain ⟨args, hargs, htakes⟩ := h.inputs
    exact ⟨args, hl.type ▸ hargs, fun a ha => hl.takes _ _ (htakes a ha)⟩
  directives := by
    obtain ⟨ds, hds, huses⟩ := h.directives
    exact ⟨ds, hds, fun x hx => ⟨(huses x hx).1, hl.directives (huses x hx).2⟩⟩

/-! ### Changes of a line -/

/-- A registry has a line changed and nothing else. -/
structure Registry.Alters (type field : String) (g : FieldLine → FieldLine) (r r' : Registry) :
    Prop where
  /-- It has the same types. -/
  has : ∀ other, Table.has r' other = Table.has r other
  /-- They are of the same kinds. -/
  kind : ∀ other, (r'.entry other).kind = (r.entry other).kind
  /-- They use the same directives. -/
  directives : ∀ other, (r'.entry other).directives = (r.entry other).directives
  /-- The line is changed. -/
  line : r'.line? type field = (r.line? type field).map g
  /-- Other lines are not. -/
  others : ∀ other key, ¬(other = type ∧ key = field) → r'.line? other key = r.line? other key

namespace Registry

variable {r r' r'' : Registry} {type field : String} {g h : FieldLine → FieldLine}

/-- A line that is changed is there afterwards. -/
theorem line?_updateField (r : Registry) (type field other key : String) (g : FieldLine → FieldLine) :
    (r.updateField type field g).line? other key
      = if other = type ∧ key = field then some (g ((r.line? type field).getD {}))
        else r.line? other key := by
  rw [line?_eq, updateField, entry_updateType, line?_eq]
  by_cases hother : other = type
  · subst hother
    rw [if_pos rfl, TypeEntry.updateLine, Table.get?_update]
    by_cases hkey : key = field <;> simp [hkey, line?_eq]
  · simp [hother, line?_eq]

theorem Alters.refl (type field : String) (r : Registry) : Alters type field id r r :=
  ⟨fun _ => rfl, fun _ => rfl, fun _ => rfl, Option.map_id.symm ▸ rfl, fun _ _ _ => rfl⟩

theorem Alters.trans (hg : Alters type field g r r') (hh : Alters type field h r' r'') :
    Alters type field (h ∘ g) r r'' where
  has other := (hh.has other).trans (hg.has other)
  kind other := (hh.kind other).trans (hg.kind other)
  directives other := (hh.directives other).trans (hg.directives other)
  line := by rw [hh.line, hg.line, Option.map_map]
  others other key hne := (hh.others other key hne).trans (hg.others other key hne)

theorem alters_updateField {l : FieldLine} (hline : r.line? type field = some l)
    (g : FieldLine → FieldLine) : Alters type field g r (r.updateField type field g) where
  has other := by
    rw [updateField, updateType, Table.has_update]
    by_cases hother : other = type
    · simp [hother, has_of_line? hline]
    · simp [hother]
  kind other := kind_updateField r type field other g
  directives other := directives_updateField r type field other g
  line := by rw [line?_updateField, if_pos ⟨rfl, rfl⟩, hline, Option.getD_some, Option.map_some]
  others other key hne := by rw [line?_updateField, if_neg hne]

/-- A change that leaves the line as it is changes nothing. -/
theorem Alters.same {l : FieldLine} (halters : Alters type field g r r')
    (hline : r.line? type field = some l) (hg : g l = l) : r'.Same r := by
  have hlines : ∀ other key, r'.line? other key = r.line? other key := by
    intro other key
    by_cases h : other = type ∧ key = field
    · obtain ⟨rfl, rfl⟩ := h
      rw [halters.line, hline, Option.map_some, hg]
    · exact halters.others other key h
  exact ⟨halters.has, fun other => ⟨halters.kind other, fun use => by rw [halters.directives],
    fun key => by rw [← line?_eq, hlines, line?_eq]⟩⟩

end Registry

/-- A draft has a line changed and nothing else, but what is recorded of directives and known of
thunks. -/
structure Draft.Alters (result : String → DirectiveOption) (type field : String)
    (g : FieldLine → FieldLine) (d d' : Draft) : Prop where
  /-- The line is changed. -/
  registry : d.registry.Alters type field g d'.registry
  /-- Fields are resolved alike. -/
  configs : d'.configs = d.configs
  /-- The requests are the same. -/
  requests : d'.requests = d.requests
  /-- So are the extensions. -/
  extensions : d'.extensions = d.extensions
  /-- What is kept of thunks are their values. -/
  thunks : d'.thunks.Agrees result

theorem Draft.Alters.trans {result : String → DirectiveOption} {type field : String}
    {g h : FieldLine → FieldLine} {d d' d'' : Draft} (hg : d.Alters result type field g d')
    (hh : d'.Alters result type field h d'') : d.Alters result type field (h ∘ g) d'' where
  registry := hg.registry.trans hh.registry
  configs := hh.configs.trans hg.configs
  requests := hh.requests.trans hg.requests
  extensions := hh.extensions.trans hg.extensions
  thunks := hh.thunks

/-- The line with the arguments and the directives that a description adds. -/
def FieldLine.described (args : List (String × String)) (ds : List Directive) (l : FieldLine) :
    FieldLine :=
  ds.foldl (fun l x => l.addDirective x.use) (args.foldl (fun l a => l.addArgument a.1 a.2) l)

namespace Synthesis

open Run

variable {result : String → DirectiveOption} {type field : String} {c : FieldConfig}
  {d d' : Draft} {l : FieldLine}

theorem alters_change (hd : d.thunks.Agrees result) (hline : d.registry.line? type field = some l)
    (g : FieldLine → FieldLine) :
    d.Alters result type field g { d with registry := d.registry.updateField type field g } :=
  ⟨Registry.alters_updateField hline g, rfl, rfl, rfl, hd⟩

/-- Changes of a line one after the other. -/
theorem alters_forM {α : Type} {m : α → Synthesis PUnit} {g : FieldLine → α → FieldLine}
    (hm : ∀ x d l, d.thunks.Agrees result → d.registry.line? type field = some l →
      ∃ d', m x d = (.ok ⟨⟩, d') ∧ d.Alters result type field (g · x) d')
    (xs : List α) (hd : d.thunks.Agrees result) (hline : d.registry.line? type field = some l) :
    ∃ d', xs.forM m d = (.ok ⟨⟩, d') ∧ d.Alters result type field (xs.foldl g) d' := by
  induction xs generalizing d l with
  | nil => exact ⟨d, rfl, .refl type field d.registry, rfl, rfl, rfl, hd⟩
  | cons x xs ih =>
    obtain ⟨d1, hrun, halters⟩ := hm x d l hd hline
    have hline1 : d1.registry.line? type field = some (g l x) := by
      rw [halters.registry.line, hline, Option.map_some]
    obtain ⟨d2, hruns, hrest⟩ := ih halters.thunks hline1
    exact ⟨d2, (bind_of_ok hrun _).trans hruns, halters.trans hrest⟩

/-- Add an argument of a field, if its signature is a text. -/
def addInput (type field : String) (a : String × Value) : Synthesis PUnit :=
  a.2.text?.elim (pure ⟨⟩) fun s => change (·.addArgument type field a.1 s)

theorem addInput_apply (a : String × Value) (d : Draft) (l : FieldLine)
    (hd : d.thunks.Agrees result) (hline : d.registry.line? type field = some l) :
    ∃ d', addInput type field a d = (.ok ⟨⟩, d')
      ∧ d.Alters result type field (·.addInput a) d' := by
  obtain ⟨name, v⟩ := a
  cases v with
  | text s => exact ⟨_, rfl, alters_change hd hline (·.addArgument name s)⟩
  | _ => exact ⟨d, rfl, .refl type field d.registry, rfl, rfl, rfl, hd⟩

/-- The arguments that a configuration says are added, if they can be told. -/
theorem addInputs_apply (hd : d.thunks.Agrees result)
    (hline : d.registry.line? type field = some l) :
    (∃ args d', c.inputs? type field l.type = .ok args ∧ addInputs type field c d = (.ok ⟨⟩, d')
      ∧ d.Alters result type field
        (fun l => args.foldl (fun l a => l.addArgument a.1 a.2) l) d')
    ∨ ∃ e, c.inputs? type field l.type = .error e ∧ addInputs type field c d = (.error e, d) := by
  unfold addInputs FieldConfig.inputs?
  split
  · rw [bind_of_ok (get_apply d), hline, Option.getD_some]
    dsimp only
    split
    · exact .inr ⟨_, rfl, rfl⟩
    · cases hlist : Signature.isList l.type with
      | error e => exact .inr ⟨e, rfl, rfl⟩
      | ok isList => exact .inl ⟨_, _, rfl, rfl, alters_change hd hline _⟩
  · cases hargs : c.arguments with
    | record fs =>
      obtain ⟨d', hrun, halters⟩ := alters_forM addInput_apply fs hd hline
      have hfold : (fun l => (fs.filterMap fun a => a.2.text?.map (a.1, ·)).foldl
          (fun l a => l.addArgument a.1 a.2) l) = fs.foldl FieldLine.addInput := by
        funext l
        rw [List.foldl_filterMap]
        congr 1
        funext l a
        obtain ⟨name, v⟩ := a
        cases v <;> rfl
      refine .inl ⟨_, d', rfl, (congrFun (congrArg (List.forM fs) (funext fun a => ?_)) d).trans hrun,
        hfold ▸ halters⟩
      obtain ⟨name, v⟩ := a
      cases v <;> rfl
    | _ => exact .inl ⟨[], d, rfl, rfl, .refl type field d.registry, rfl, rfl, rfl, hd⟩

/-- A directive is used on a line that is there, if it is accepted. -/
theorem useOnField_apply {x : Directive} (hd : d.thunks.Agrees result)
    (hline : d.registry.line? type field = some l) :
    (x.call.isAccepted = true ∧ ∃ d', useOnField type field x d = (.ok ⟨⟩, d')
      ∧ d.Alters result type field (·.addDirective x.use) d')
    ∨ (¬x.call.isAccepted = true ∧ ∃ e d', useOnField type field x d = (.error e, d')) := by
  have hrecord : record x d = ((d.directives.register x.call).1,
    { d with directives := (d.directives.register x.call).2 }) := rfl
  unfold useOnField
  rw [bind_apply, hrecord]
  cases hout : (d.directives.register x.call).1 with
  | ok use =>
    obtain ⟨haccepted, rfl⟩ := DirectiveRecords.register_eq_ok.mp hout
    have halters := (Registry.alters_updateField hline (·.addDirective x.use))
    exact .inl ⟨haccepted, _, rfl, halters, rfl, rfl, rfl, hd⟩
  | error e =>
    refine .inr ⟨fun haccepted => ?_, e, _, rfl⟩
    have hok : (d.directives.register x.call).1 = .ok x.call.text :=
      DirectiveRecords.register_eq_ok.mpr ⟨haccepted, rfl⟩
    rw [hout] at hok
    cases hok

/-- Directives are used on a line in turn, if all of them are accepted. -/
theorem useAll_apply (ds : List Directive) (hd : d.thunks.Agrees result)
    (hline : d.registry.line? type field = some l) :
    ((∀ x ∈ ds, x.call.isAccepted = true)
      ∧ ∃ d', ds.forM (useOnField type field) d = (.ok ⟨⟩, d')
        ∧ d.Alters result type field (fun l => ds.foldl (fun l x => l.addDirective x.use) l) d')
    ∨ ((¬∀ x ∈ ds, x.call.isAccepted = true)
      ∧ ∃ e d', ds.forM (useOnField type field) d = (.error e, d')) := by
  induction ds generalizing d l with
  | nil => exact .inl ⟨by simp, d, rfl, .refl type field d.registry, rfl, rfl, rfl, hd⟩
  | cons x ds ih =>
    rcases useOnField_apply (x := x) hd hline with ⟨haccepted, d1, hrun, halters⟩
      | ⟨hrefused, e, d1, hrun⟩
    · have hline1 : d1.registry.line? type field = some (l.addDirective x.use) := by
        rw [halters.registry.line, hline, Option.map_some]
      rcases ih halters.thunks hline1 with ⟨hall, d2, hruns, hrest⟩ | ⟨hsome, e, d2, hruns⟩
      · exact .inl ⟨List.forall_mem_cons.mpr ⟨haccepted, hall⟩, d2,
          (bind_of_ok hrun _).trans hruns, halters.trans hrest⟩
      · exact .inr ⟨fun h => hsome (List.forall_mem_cons.mp h).2, e, d2,
          (bind_of_ok hrun _).trans hruns⟩
    · exact .inr ⟨fun h => hrefused (List.forall_mem_cons.mp h).1, e, d1, bind_of_error hrun _⟩

theorem describe_eq (type field : String) (c : FieldConfig) : describe type field c = (do
    change (·.ensureField type field)
    addInputs type field c
    (← resolve c.directives).forM (useOnField type field)) := by
  unfold describe
  congr 1
  funext _
  congr 1
  funext _
  congr 1
  funext ds
  rw [← forIn_yield]
  simp only [useOnField, bind_assoc]
  exact bind_pure _

/-- What a configuration says of a field can be written to its line. -/
structure Describable (result : String → DirectiveOption) (type field : String) (c : FieldConfig)
    (signature : String) (args : List (String × String)) (ds : List Directive) : Prop where
  /-- These are the arguments. -/
  inputs : c.inputs? type field signature = .ok args
  /-- These are the directives. -/
  means : c.directives.Means result ds
  /-- They are accepted. -/
  accepted : ∀ x ∈ ds, x.call.isAccepted = true

/-- **A field is described by adding to its line what its configuration says**, if that can be
written. -/
theorem describe_apply (hc : DirectiveOption.Coherent result c.directives)
    (hd : d.thunks.Agrees result) :
    (∃ args ds d', Describable result type field c (d.registry.line type field).type args ds
      ∧ describe type field c d = (.ok ⟨⟩, d')
      ∧ Draft.Alters result type field (FieldLine.described args ds)
        { d with registry := d.registry.ensureField type field } d')
    ∨ ((∀ args ds, ¬Describable result type field c (d.registry.line type field).type args ds)
      ∧ ∃ e d', describe type field c d = (.error e, d')) := by
  have hstart : describe type field c d = (do
      addInputs type field c
      (← resolve c.directives).forM (useOnField type field))
      { d with registry := d.registry.ensureField type field } := by
    rw [describe_eq]
    exact bind_of_ok rfl _
  have hline : (d.registry.ensureField type field).line? type field
      = some (d.registry.line type field) := by
    rw [Registry.ensureField, Registry.line?_updateField, if_pos ⟨rfl, rfl⟩,
      Registry.line_eq_getD_line?]
    rfl
  rw [hstart]
  rcases addInputs_apply (c := c)
    (d := { d with registry := d.registry.ensureField type field }) hd hline with
    ⟨args, d2, hargs, hinputs, hadded⟩ | ⟨e, hargs, hinputs⟩
  · have hmeans : ∀ s : ThunkState, s.Agrees result →
        (c.directives.resolve s).1 = (c.directives.resolve d2.thunks).1 := fun s hs =>
      (DirectiveOption.alike_resolve hc s d2.thunks ⟨hs, hadded.thunks⟩).1
    have hthunks := (DirectiveOption.alike_resolve hc d2.thunks d2.thunks
      ⟨hadded.thunks, hadded.thunks⟩).2.1
    have hresolve : resolve c.directives d2 = ((c.directives.resolve d2.thunks).1,
      { d2 with thunks := (c.directives.resolve d2.thunks).2 }) := rfl
    rw [bind_of_ok hinputs, bind_apply, hresolve]
    cases hout : (c.directives.resolve d2.thunks).1 with
    | error e =>
      refine .inr ⟨fun args ds h => ?_, e, _, rfl⟩
      rw [h.means _ hadded.thunks] at hout
      cases hout
    | ok ds =>
      have hline2 : d2.registry.line? type field
          = some (args.foldl (fun l a => l.addArgument a.1 a.2) (d.registry.line type field)) := by
        rw [hadded.registry.line, hline, Option.map_some]
      have hsettled : d2.Alters result type field id
          { d2 with thunks := (c.directives.resolve d2.thunks).2 } :=
        ⟨.refl type field d2.registry, rfl, rfl, rfl, hthunks⟩
      rcases useAll_apply (d := { d2 with thunks := (c.directives.resolve d2.thunks).2 }) ds
        hthunks hline2 with ⟨haccepted, d3, huses, hused⟩ | ⟨hrefused, e, d3, huses⟩
      · exact .inl ⟨args, ds, d3, ⟨hargs, fun s hs => (hmeans s hs).trans hout, haccepted⟩, huses,
          (hadded.trans hsettled).trans hused⟩
      · refine .inr ⟨fun args ds' h => hrefused ?_, e, d3, huses⟩
        rw [h.means _ hadded.thunks] at hout
        cases hout
        exact h.accepted
  · rw [bind_of_error hinputs]
    refine .inr ⟨fun args ds h => ?_, e, _, rfl⟩
    rw [h.inputs] at hargs
    cases hargs

/-! ### What lines bear -/

variable {args : List (String × String)} {ds : List Directive}

theorem below_described (l : FieldLine) (args : List (String × String)) (ds : List Directive) :
    l.Below (l.described args ds) :=
  (l.below_foldl_addArgument args).1.trans (FieldLine.below_foldl_addDirective ds _).1

theorem Describable.bears (h : Describable result type field c l.type args ds) :
    (l.described args ds).Bears result type field c where
  inputs := by
    obtain ⟨hbelow, htakes⟩ := l.below_foldl_addArgument args
    have hgrown := (FieldLine.below_foldl_addDirective ds
      (args.foldl (fun l a => l.addArgument a.1 a.2) l)).1
    refine ⟨args, ?_, fun a ha => hgrown.takes _ _ (htakes a ha)⟩
    rw [(below_described l args ds).type]
    exact h.inputs
  directives := ⟨ds, h.means, fun x hx =>
    ⟨h.accepted x hx, (FieldLine.below_foldl_addDirective ds _).2 x hx⟩⟩

/-- What a line bears can be written, and need not be. -/
theorem exists_describable (hl : l.Bears result type field c) :
    ∃ args ds, Describable result type field c l.type args ds := by
  obtain ⟨args, hargs, -⟩ := hl.inputs
  obtain ⟨ds, hmeans, huses⟩ := hl.directives
  exact ⟨args, ds, hargs, hmeans, fun x hx => (huses x hx).1⟩

theorem Describable.described_eq (h : Describable result type field c l.type args ds)
    (hd : d.thunks.Agrees result) (hl : l.Bears result type field c) :
    l.described args ds = l := by
  obtain ⟨args', hargs, htakes⟩ := hl.inputs
  obtain ⟨ds', hmeans, huses⟩ := hl.directives
  obtain rfl : args = args' := Except.ok.inj (h.inputs.symm.trans hargs)
  obtain rfl : ds = ds' := Except.ok.inj ((h.means _ hd).symm.trans (hmeans _ hd))
  rw [FieldLine.described, FieldLine.foldl_addArgument_of_takes htakes]
  exact FieldLine.foldl_addDirective_of_mem fun x hx => (huses x hx).2

end Synthesis

/-- A draft says the same as another, but for what is recorded of directives and known of thunks. -/
structure Draft.Echoes (result : String → DirectiveOption) (d d' : Draft) : Prop where
  /-- The registry says the same. -/
  registry : d'.registry.Same d.registry
  /-- Fields are resolved alike. -/
  configs : d'.configs = d.configs
  /-- The requests are the same. -/
  requests : d'.requests = d.requests
  /-- So are the extensions. -/
  extensions : d'.extensions = d.extensions
  /-- What is kept of thunks are their values. -/
  thunks : d'.thunks.Agrees result

/-- What a description of a field leaves. -/
structure Draft.Draws (result : String → DirectiveOption) (type field : String) (c : FieldConfig)
    (d d' : Draft) : Prop where
  /-- The line has grown to bear the configuration. -/
  line : ∃ l, d'.registry.line? type field = some l ∧ (d.registry.line type field).Below l
    ∧ l.Bears result type field c
  /-- Other lines are as they were. -/
  others : ∀ other key, ¬(other = type ∧ key = field) →
    d'.registry.line? other key = d.registry.line? other key
  /-- Fields are resolved alike. -/
  configs : d'.configs = d.configs
  /-- The requests are the same. -/
  requests : d'.requests = d.requests
  /-- What is kept of thunks are their values. -/
  thunks : d'.thunks.Agrees result

namespace Synthesis

variable {result : String → DirectiveOption} {type field : String} {c : FieldConfig}
  {d d' : Draft}

/-- **A field is described so that its line bears the configuration.** -/
theorem draws_of_describe (hc : DirectiveOption.Coherent result c.directives)
    (hd : d.thunks.Agrees result) {x : Unit} (h : describe type field c d = (.ok x, d')) :
    d.Draws result type field c d' := by
  rcases describe_apply hc hd with ⟨args, ds, d1, hwritten, hrun, halters⟩ | ⟨-, e, d1, hrun⟩
  · rw [hrun] at h
    cases h
    have hline := halters.registry.line
    rw [Registry.ensureField, Registry.line?_updateField, if_pos ⟨rfl, rfl⟩, id,
      ← Registry.line_eq_getD_line?, Option.map_some] at hline
    refine ⟨⟨_, hline, below_described _ _ _, hwritten.bears⟩, fun other key hne => ?_,
      halters.configs, halters.requests, halters.thunks⟩
    rw [halters.registry.others other key hne, Registry.ensureField, Registry.line?_updateField,
      if_neg hne]
  · rw [hrun] at h
    cases h

/-- **A field whose line bears the configuration is described without a change.** -/
theorem describe_of_bears (hc : DirectiveOption.Coherent result c.directives)
    (hd : d.thunks.Agrees result) {l : FieldLine} (hline : d.registry.line? type field = some l)
    (hl : l.Bears result type field c) :
    ∃ d', describe type field c d = (.ok ⟨⟩, d') ∧ d.Echoes result d' := by
  have hsame : d.registry.line type field = l := by
    rw [Registry.line_eq_getD_line?, hline]
    rfl
  have hensure : (d.registry.ensureField type field).Same d.registry :=
    (Registry.alters_updateField hline id).same hline rfl
  rcases describe_apply hc hd with ⟨args, ds, d', hwritten, hrun, halters⟩ | ⟨hnone, -⟩
  · rw [hsame] at hwritten
    have hline' := (hensure.line? type field).trans hline
    have hecho := halters.registry.same hline' (hwritten.described_eq hd hl)
    exact ⟨d', hrun, hecho.trans hensure, halters.configs, halters.requests, halters.extensions,
      halters.thunks⟩
  · rw [hsame] at hnone
    obtain ⟨args, ds, hwritten⟩ := exists_describable hl
    exact absurd hwritten (hnone args ds)

end Synthesis
end SchemaForge

import SchemaForge.Proofs.Synthesis.Derived

/-!
# What fields are given

Deeds give signatures to fields: mapped models write those of their members, and mappings, classes
and policies state them. With a signature goes what its configuration says of arguments. A line, a
request or a whole draft is `Sourced` if all of it is given so, or is an argument of the store on
a field whose filters are asked for.
-/
namespace SchemaForge

namespace FieldConfig

/-- The arguments that are declared with their signatures, if they are not those of the store. -/
def inputs (c : FieldConfig) : List (String × String) :=
  if c.hasFetchArguments then []
  else match c.arguments with
    | .record fs => fs.filterMap fun a =>
      match a.2 with
      | .text s => some (a.1, FieldLine.withPageDefault a.1 s)
      | _ => none
    | _ => []

end FieldConfig

namespace Deed

/-- The signature that a member of a mapped model gives a field. -/
def written : Deed → List (String × String × String)
  | typed t f signature => [(t, f, signature)]
  | _ => []

/-- The configuration that a field gets. -/
def configs : Deed → List (String × String × FieldConfig)
  | configured t f c | declared t f _ c => [(t, f, c)]
  | _ => []

/-- The signatures that are stated: those of a class, and those of configurations. -/
def stated : Deed → List (String × String × String)
  | replaced t lines => lines.map fun l => (t, l.1, l.2)
  | d => d.configs.filterMap fun e =>
    if e.2.2.returnType.truthy then some (e.1, e.2.1, e.2.2.signature) else none

/-- The arguments that are stated. -/
def statedInputs (d : Deed) : List (String × String × String × String) :=
  d.configs.flatMap fun e => e.2.2.inputs.map fun a => (e.1, e.2.1, a.1, a.2)

end Deed

/-- The deeds of a contribution. Whose the fields of a mapping are does not matter here. -/
def Contribution.deeds (b : Declarations) : Contribution → List Deed
  | members plugin t c p => Deed.ofMembers b plugin t c p
  | mapping t m => Deed.ofMap t m none

namespace Declarations

variable (b : Declarations) (x : Table (List (String × FieldEntry)))

/-- The deeds of all that is contributed. -/
def contributed : List Deed := (b.contributions x).flatMap (Contribution.deeds b)

/-- The signatures that mapped models write, by type and field. -/
def written : List (String × String × String) := (b.contributed x).flatMap Deed.written

/-- The signatures that are stated, by type and field. -/
def stated : List (String × String × String) := (b.contributed x).flatMap Deed.stated

/-- All signatures that fields are given. -/
def given : List (String × String × String) := b.written x ++ b.stated x

/-- The arguments that are stated, by type, field and argument. -/
def statedInputs : List (String × String × String × String) :=
  (b.contributed x).flatMap Deed.statedInputs

/-- What a configuration of a field says of its line is stated. -/
structure Configures (t f : String) (c : FieldConfig) : Prop where
  /-- Its signature. -/
  signature : c.returnType.truthy = true → (t, f, c.signature) ∈ b.stated x
  /-- Its arguments. -/
  inputs : ∀ a ∈ c.inputs, (t, f, a.1, a.2) ∈ b.statedInputs x

variable {b x}

theorem mem_stated {c : Contribution} (hc : c ∈ b.contributions x) {d : Deed}
    (hd : d ∈ c.deeds b) {e : String × String × String} (he : e ∈ d.stated) : e ∈ b.stated x :=
  List.mem_flatMap.mpr ⟨d, List.mem_flatMap.mpr ⟨c, hc, hd⟩, he⟩

theorem mem_given_of_written {c : Contribution} (hc : c ∈ b.contributions x) {d : Deed}
    (hd : d ∈ c.deeds b) {e : String × String × String} (he : e ∈ d.written) : e ∈ b.given x :=
  List.mem_append_left _
    (List.mem_flatMap.mpr ⟨d, List.mem_flatMap.mpr ⟨c, hc, hd⟩, he⟩)

/-- The configuration of a deed is stated by it. -/
theorem configures_of_mem {c : Contribution} (hc : c ∈ b.contributions x) {d : Deed}
    (hd : d ∈ c.deeds b) {t f : String} {config : FieldConfig}
    (he : (t, f, config) ∈ d.configs) (hstated : d.stated = d.configs.filterMap fun e =>
      if e.2.2.returnType.truthy then some (e.1, e.2.1, e.2.2.signature) else none) :
    b.Configures x t f config where
  signature htype := mem_stated hc hd (hstated ▸ List.mem_filterMap.mpr ⟨_, he, if_pos htype⟩)
  inputs a ha := List.mem_flatMap.mpr ⟨d, List.mem_flatMap.mpr ⟨c, hc, hd⟩,
    List.mem_flatMap.mpr ⟨_, he, List.mem_map.mpr ⟨a, ha, rfl⟩⟩⟩

theorem configures_of_configured {c : Contribution} (hc : c ∈ b.contributions x) {t f : String}
    {config : FieldConfig} (hd : .configured t f config ∈ c.deeds b) : b.Configures x t f config :=
  configures_of_mem hc hd (List.mem_singleton_self _) rfl

theorem configures_of_declared {c : Contribution} (hc : c ∈ b.contributions x) {t f : String}
    {owner : Option ModelRef} {config : FieldConfig}
    (hd : .declared t f owner config ∈ c.deeds b) : b.Configures x t f config :=
  configures_of_mem hc hd (List.mem_singleton_self _) rfl

/-- Only the signature, the arguments and the resolver of a configuration count. -/
theorem Configures.congr {t f : String} {c c' : FieldConfig} (h : b.Configures x t f c)
    (htype : c'.returnType = c.returnType) (harguments : c'.arguments = c.arguments)
    (hresolver : c'.resolver = c.resolver) : b.Configures x t f c' := by
  have hfetch : c'.hasFetchArguments = c.hasFetchArguments := by
    unfold FieldConfig.hasFetchArguments FieldConfig.namesStore
    rw [hresolver, harguments]
  have hinputs : c'.inputs = c.inputs := by
    unfold FieldConfig.inputs
    rw [hfetch, harguments]
  constructor
  · rw [FieldConfig.signature, htype]
    exact h.signature
  · rw [hinputs]
    exact h.inputs

end Declarations

/-! ### What comes from where -/

section sourced

variable (b : Declarations) (x : Table (List (String × FieldEntry)))

/-- An argument is stated, or it is one that the store takes on a field of some, a list or not as
a signature says that the field is given. -/
inductive ArgumentSource (asked : String × String → Prop) (t f argument signature : String) : Prop
  | stated (h : (t, f, argument, signature) ∈ b.statedInputs x)
  | store (isList : Bool) (g base : String) (hgiven : (t, f, g) ∈ b.given x)
      (hlist : Signature.isList g = .ok isList)
      (h : (argument, base) ∈ Registry.fetchArguments t f isList)
      (hsignature : signature = FieldLine.withPageDefault argument base) (hasked : asked (t, f))

/-- A line of a field has a signature that the field is given, if any, and arguments with a
source. -/
structure FieldLine.Sourced (asked : String × String → Prop) (t f : String) (line : FieldLine) :
    Prop where
  /-- Its signature. -/
  type : line.type = "" ∨ (t, f, line.type) ∈ b.given x
  /-- Its arguments. -/
  arguments : ∀ a ∈ line.arguments, ∀ s ∈ a.2, ArgumentSource b x asked t f a.1 s

/-- A request is for fields with signatures that they are given. -/
def FilterRequest.Sourced : FilterRequest → Prop
  | .declared t (.fields entries) => ∀ e ∈ fieldEntries entries, ∀ c, e.2.normalize = .ok c →
      b.Configures x t e.1 c
  | .declared _ (.value _) => True
  | .configured t fs => ∀ e ∈ fs, b.Configures x t e.1 e.2
  | .association t f target => (t, f, "[" ++ target ++ "!]") ∈ b.given x
      ∧ Signature.isList ("[" ++ target ++ "!]") = .ok true

/-- All of a draft comes from what is contributed, where some requests for filters of fields are
still to be left. -/
structure Draft.Sourced (pending : List (String × String)) (d : Draft) : Prop where
  /-- The lines. -/
  lines : ∀ t, ∀ l ∈ (d.registry.entry t).lines,
    l.2.Sourced b x (· ∈ d.requests.flatMap FilterRequest.fetched ++ pending) t l.1
  /-- The configurations. -/
  configs : ∀ t fs, d.configs.get? t = some fs → ∀ e ∈ fs, b.Configures x t e.1 e.2
  /-- The requests. -/
  requests : ∀ q ∈ d.requests, q.Sourced b x
  /-- The extensions. -/
  extended : d.extensions.fields = x

end sourced

variable {b : Declarations} {x : Table (List (String × FieldEntry))}
  {asked asked' : String × String → Prop} {pending pending' : List (String × String)}
  {t f argument signature : String} {line : FieldLine}

namespace FieldLine.Sourced

theorem empty : FieldLine.Sourced b x asked t f {} where
  type := .inl rfl
  arguments a ha := by cases ha

theorem mono (h : line.Sourced b x asked t f) (hasked : ∀ a, asked a → asked' a) :
    line.Sourced b x asked' t f where
  type := h.type
  arguments a ha s hs := by
    cases h.arguments a ha s hs with
    | stated h => exact .stated h
    | store isList g base hgiven hlist h hsignature hfield =>
      exact .store isList g base hgiven hlist h hsignature (hasked _ hfield)

theorem setType (h : line.Sourced b x asked t f) (hgiven : (t, f, signature) ∈ b.given x) :
    FieldLine.Sourced b x asked t f { line with type := signature } where
  type := .inr hgiven
  arguments := h.arguments

theorem addArgument (h : line.Sourced b x asked t f)
    (hsource : ArgumentSource b x asked t f argument (withPageDefault argument signature)) :
    (line.addArgument argument signature).Sourced b x asked t f where
  type := h.type
  arguments a ha s hs := by
    have ha : a ∈ line.arguments.update argument []
        (addOnce · (withPageDefault argument signature)) := ha
    rcases Registry.mem_update ha with ha | ⟨known, hknown, rfl⟩
    · exact h.arguments a ha s hs
    · rcases mem_addOnce.mp hs with hs | rfl
      · rcases hknown with hknown | rfl
        · exact h.arguments _ hknown s hs
        · cases hs
      · exact hsource

/-- The arguments of the store, where the field is given a signature that says whether it is a
list. -/
theorem addFetchArguments (h : line.Sourced b x asked t f) {isList : Bool} {g : String}
    (hgiven : (t, f, g) ∈ b.given x) (hlist : Signature.isList g = .ok isList)
    (hasked : asked (t, f)) :
    (Registry.addFetchArguments line t f isList).Sourced b x asked t f := by
  have hfold : ∀ as ⊆ Registry.fetchArguments t f isList, ∀ line : FieldLine,
      line.Sourced b x asked t f →
      (as.foldl (fun line a => line.addArgument a.1 a.2) line).Sourced b x asked t f := by
    intro as
    induction as with
    | nil => exact fun _ _ h => h
    | cons a as ih =>
      intro has line h
      have ha := has List.mem_cons_self
      exact ih (fun _ hmem => has (List.mem_cons_of_mem a hmem)) _
        (h.addArgument (.store isList g a.2 hgiven hlist ha rfl hasked))
  exact hfold _ (List.Subset.refl _) line h

end FieldLine.Sourced

theorem Draft.Sourced.mono {d : Draft} (h : d.Sourced b x pending)
    (hpending : pending ⊆ d.requests.flatMap FilterRequest.fetched ++ pending') :
    d.Sourced b x pending' where
  lines t l hl := (h.lines t l hl).mono fun a ha => by
    rcases List.mem_append.mp ha with ha | ha
    · exact List.mem_append_left _ ha
    · exact hpending ha
  configs := h.configs
  requests := h.requests
  extended := h.extended

end SchemaForge

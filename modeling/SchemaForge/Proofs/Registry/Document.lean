import SchemaForge.Proofs.Registry.Definitions
import SchemaForge.Proofs.Registry.Lines

/-!
# The document that a registry stands for

Every part of a registry is a text that is read on its own: signatures, defaults and uses of
directives. From these readings the definitions of the whole registry follow. A registry is
readable if its names are names and its texts read alone, without comments; nothing is asked
of return types that are missing.
-/
namespace SchemaForge

open Language Parser

namespace Registry

/-! ### Definitions from single texts -/

/-- The uses of directives that some texts are. -/
def usesOf (uses : List String) : Option (List DirectiveUse) :=
  uses.mapM fun u => (use.run u).toOption

/-- The argument that the declared signatures make. -/
def inputOf (type field : String) (argument : String × List String) : Option InputNode := do
  let signature ← (reconcile type field argument.1 argument.2).toOption
  let (t, default?) ← (typed.run signature).toOption
  return { description := none, name := argument.1, type := t, default?, directives := [] }

/-- The field that a line is. -/
def fieldOf (type : String) (named : String × FieldLine) : Option FieldNode := do
  let arguments ← named.2.arguments.mapM (inputOf type named.1)
  let t ← (TypeRef.ofText? named.2.type).toOption
  let directives ← usesOf named.2.directives
  return { description := none, name := named.1, arguments, type := t, directives }

/-- The field of an input type that a line is. -/
def memberOf (named : String × FieldLine) : Option InputNode := do
  let t ← (TypeRef.ofText? named.2.type).toOption
  let directives ← usesOf named.2.directives
  return { description := none, name := named.1, type := t, default? := none, directives }

/-- What a type says, from its lines. -/
def bodyOf (name : String) (entry : TypeEntry) : Option TypeBody :=
  match entry.kind with
  | .scalar => some .scalar
  | .object => (entry.lines.mapM (fieldOf name)).map (.object [])
  | .interface => (entry.lines.mapM (fieldOf name)).map (.interface [])
  | .union => some (.union (Table.keys entry.lines))
  | .enum => some (.enum (entry.lines.map fun l => ⟨none, l.1, []⟩))
  | .input => (entry.lines.mapM memberOf).map .input

/-- What is said of a type: the uses of directives that are shown, and its body. -/
def contentOf (name : String) (entry : TypeEntry) : Option (List DirectiveUse × TypeBody) := do
  let directives ← usesOf entry.shown
  let body ← bodyOf name entry
  return (directives, body)

/-- Whether anything is written of a type. -/
def isWritten (existing : List String) (named : String × TypeEntry) : Bool :=
  if named.2.kind = .scalar then !(existing.contains named.1 && named.2.directives.isEmpty)
  else !named.2.lines.isEmpty

end Registry

/-! ### Readable registries -/

/-- A line is readable: its name, its arguments, its return type if there is one, and its uses
of directives read alone. Words and members are bare, and fields of inputs have no arguments. -/
structure FieldLine.Readable (kind : TypeKind) (type field : String) (line : FieldLine) : Prop where
  /-- Its name is a name. -/
  named : isName field
  /-- Its arguments have names, and signatures that read. -/
  arguments : ∀ a ∈ line.arguments, isName a.1 ∧
    ∀ s, Registry.reconcile type field a.1 a.2 = .ok s → ∃ x, typed.Reads s x
  /-- Its return type reads, if there is one. -/
  type : line.type ≠ "" → ∃ t, Parser.type.Reads line.type t
  /-- Its uses of directives read. -/
  uses : ∀ u ∈ line.directives, ∃ x, use.Reads u x
  /-- Words of enums and members of unions are names alone. -/
  bare : kind = .enum ∨ kind = .union → line.type = "" ∧ line.arguments = []
  /-- Words of enums are free. -/
  free : kind = .enum → isReserved field = false
  /-- Fields of input types have no arguments. -/
  plain : kind = .input → line.arguments = []

/-- A type is readable if its name, its uses of directives and its lines are. -/
structure TypeEntry.Readable (name : String) (entry : TypeEntry) : Prop where
  /-- Its name is a name. -/
  named : isName name
  /-- Its uses of directives read. -/
  uses : ∀ u ∈ entry.directives, ∃ x, use.Reads u x
  /-- Its lines are readable, if they are written. -/
  lines : entry.kind ≠ .scalar → ∀ l ∈ entry.lines, l.2.Readable entry.kind name l.1

namespace Registry

/-- Outcomes of one list, item by item. -/
theorem forall₂_of_mapM {α ξ β : Type} {R : α → β → Prop} {f : ξ → Except Failure α} {g : ξ → β}
    {xs : List ξ} {ys : List α} (hf : xs.mapM f = .ok ys)
    (h : ∀ x ∈ xs, ∀ y, f x = .ok y → R y (g x)) : List.Forall₂ R ys (xs.map g) := by
  induction xs generalizing ys with
  | nil =>
    cases hf
    exact .nil
  | cons x xs ih =>
    rw [List.mapM_cons] at hf
    obtain ⟨y, hy, hf⟩ := Outcome.bind_eq_ok.mp hf
    obtain ⟨ys', hys, hf⟩ := Outcome.bind_eq_ok.mp hf
    cases hf
    exact .cons (h x (List.mem_cons_self ..) y hy)
      (ih hys fun x hx => h x (List.mem_cons_of_mem _ hx))

/-- Each item of a list of outcomes has one. -/
theorem exists_of_mapM {α ξ : Type} {f : ξ → Except Failure α} {xs : List ξ} {ys : List α}
    (h : xs.mapM f = .ok ys) : ∀ x ∈ xs, ∃ y, f x = .ok y := by
  have hrel : List.Forall₂ (fun y x => f x = .ok y) ys (xs.map id) :=
    forall₂_of_mapM h fun _ _ _ hy => hy
  rw [List.map_id] at hrel
  exact forall_of_forall₂ hrel.flip fun x y hxy => ⟨y, hxy⟩

theorem mapM_id_map {ξ β : Type} (g : ξ → Option β) (xs : List ξ) :
    (xs.map g).mapM id = xs.mapM g := by
  rw [List.mapM_map]
  rfl

/-- Uses that read alone are the uses that they are. -/
theorem reads_uses {uses : List String} (h : ∀ u ∈ uses, ∃ x, use.Reads u x) :
    ∃ nodes, List.Forall₂ use.Reads uses nodes ∧ usesOf uses = some nodes := by
  induction uses with
  | nil => exact ⟨[], .nil, rfl⟩
  | cons u uses ih =>
    obtain ⟨x, hx⟩ := h u (List.mem_cons_self ..)
    obtain ⟨nodes, hnodes, huses⟩ := ih fun w hw => h w (List.mem_cons_of_mem _ hw)
    refine ⟨x :: nodes, .cons hx hnodes, ?_⟩
    unfold usesOf at huses ⊢
    rw [List.mapM_cons, hx.run_eq, huses]
    rfl

variable {type field name text : String} {line : FieldLine} {kind : TypeKind}

/-- The arguments of a line stand for the arguments that they are. -/
theorem stands_inputs (h : line.Readable kind type field) {texts : List String}
    (htexts : line.arguments.mapM (argumentText type field) = .ok texts) :
    List.Forall₂ (Stands inputNode) texts (line.arguments.map (inputOf type field)) := by
  refine forall₂_of_mapM htexts fun a ha s hs => ?_
  obtain ⟨hname, hreads⟩ := h.arguments a ha
  unfold argumentText at hs
  cases hsignature : reconcile type field a.1 a.2 with
  | error e => rw [hsignature] at hs; cases hs
  | ok signature =>
    rw [hsignature] at hs
    cases hs
    obtain ⟨⟨t, default?⟩, hx⟩ := hreads signature hsignature
    have hnode : inputOf type field a
        = some { description := none, name := a.1, type := t, default?, directives := [] } := by
      unfold inputOf
      rw [hsignature]
      change ((typed.run signature).toOption >>= _) = _
      rw [hx.run_eq]
      rfl
    rw [hnode]
    exact stands_argument hname hx

/-- A line is written as its name, its arguments and what it returns. -/
theorem lineText_eq_inputs (h : lineText type field line = .ok text) :
    ∃ inputs, line.arguments.mapM (argumentText type field) = .ok inputs
      ∧ text = if line.type = "" then field ++ inputsText inputs
        else field ++ inputsText inputs ++ (": " ++ line.type ++ usesText line.directives) := by
  obtain ⟨inputs, hinputs, hrest⟩ := Outcome.bind_eq_ok.mp h
  cases hrest
  refine ⟨inputs, hinputs, ?_⟩
  unfold inputsText
  by_cases htype : line.type = ""
  · rw [if_pos htype, if_pos (beq_iff_eq.mpr htype), String.append_empty]
  · rw [if_neg htype, if_neg (fun h => htype (beq_iff_eq.mp h))]

theorem toOption_ofText?_empty : (TypeRef.ofText? "").toOption = none := by
  have h : TypeRef.ofText? "" = .error .badSyntax := rfl
  rw [h]
  rfl

/-- The line of an object type or interface stands for a field; without a return type it
cannot be read. -/
theorem stands_fieldOf (h : line.Readable kind type field) (htext : lineText type field line = .ok text) :
    Stands fieldNode text (fieldOf type (field, line)) := by
  obtain ⟨inputs, hinputs, rfl⟩ := lineText_eq_inputs htext
  have hstands := stands_inputs h hinputs
  unfold fieldOf
  by_cases htype : line.type = ""
  · rw [if_pos htype, htype, toOption_ofText?_empty]
    have hnone : ∀ x : Option (List InputNode), (do
        let arguments ← x
        let t ← (none : Option TypeRef)
        let directives ← usesOf line.directives
        return ({ description := none, name := field, arguments, type := t, directives } : FieldNode))
        = none := by
      intro x
      cases x <;> rfl
    rw [hnone]
    exact (stands_untyped h.named hstands).1
  · obtain ⟨t, ht⟩ := h.type htype
    obtain ⟨nodes, huses, hnodes⟩ := reads_uses h.uses
    have hfield := stands_field h.named hstands ht huses
    rw [if_neg htype, hnodes, show TypeRef.ofText? line.type = .ok t from ht.run_eq]
    rw [mapM_id_map] at hfield
    cases hargs : line.arguments.mapM (inputOf type field) with
    | none =>
      rw [hargs] at hfield
      exact hfield
    | some arguments =>
      rw [hargs] at hfield
      exact hfield

/-- A line without arguments. -/
theorem lineText_of_bare (hnone : line.arguments = []) (h : lineText type field line = .ok text) :
    text = if line.type = "" then field
      else field ++ ": " ++ line.type ++ usesText line.directives := by
  obtain ⟨inputs, hinputs, rfl⟩ := lineText_eq_inputs h
  rw [hnone] at hinputs
  have hempty : inputs = [] := by
    cases hinputs
    rfl
  subst hempty
  split <;> simp [inputsText, String.append_assoc]

/-- The line of an input type stands for one of its fields. -/
theorem stands_memberOf (h : line.Readable .input type field)
    (htext : lineText type field line = .ok text) :
    Stands inputNode text (memberOf (field, line)) := by
  rw [lineText_of_bare (h.plain rfl) htext]
  unfold memberOf
  by_cases htype : line.type = ""
  · rw [if_pos htype, htype, toOption_ofText?_empty]
    have huntyped := (stands_untyped h.named .nil).2 rfl
    rw [show inputsText [] = "" from rfl, String.append_empty] at huntyped
    exact huntyped
  · obtain ⟨t, ht⟩ := h.type htype
    obtain ⟨nodes, huses, hnodes⟩ := reads_uses h.uses
    rw [if_neg htype, hnodes, show TypeRef.ofText? line.type = .ok t from ht.run_eq]
    exact stands_input h.named ht huses

/-- The line of an enum stands for a word. -/
theorem stands_wordOf (h : line.Readable .enum type field)
    (htext : lineText type field line = .ok text) :
    Stands enumNode text (some ⟨none, field, []⟩) := by
  obtain ⟨htype, hnone⟩ := h.bare (.inl rfl)
  rw [lineText_of_bare hnone htext, if_pos htype]
  exact stands_word h.named (h.free rfl)

/-- The line of a union is a name. -/
theorem lineText_of_union (h : line.Readable .union type field)
    (htext : lineText type field line = .ok text) : text = field := by
  obtain ⟨htype, hnone⟩ := h.bare (.inr rfl)
  rw [lineText_of_bare hnone htext, if_pos htype]

/-! ### Types -/

variable {entry : TypeEntry} {extends? : Bool}

theorem contentOf_eq {nodes : List DirectiveUse} {x : Option TypeBody}
    (huses : usesOf entry.shown = some nodes) (hbody : bodyOf name entry = x) :
    contentOf name entry = x.map fun b => (nodes, b) := by
  unfold contentOf
  rw [huses, hbody]
  cases x <;> rfl

theorem length_of_mapM {α ξ : Type} {f : ξ → Except Failure α} {xs : List ξ} {ys : List α}
    (h : xs.mapM f = .ok ys) (hsome : xs ≠ []) : ys ≠ [] := by
  cases xs with
  | nil => exact absurd rfl hsome
  | cons x xs =>
    rw [List.mapM_cons] at h
    obtain ⟨y, -, h⟩ := Outcome.bind_eq_ok.mp h
    obtain ⟨ys', -, h⟩ := Outcome.bind_eq_ok.mp h
    cases h
    exact List.cons_ne_nil _ _

theorem mapM_ne_nil {β ξ : Type} {g : ξ → Option β} {xs : List ξ} {ys : List β}
    (h : xs.mapM g = some ys) (hsome : xs ≠ []) : ys.isEmpty = false := by
  cases xs with
  | nil => exact absurd rfl hsome
  | cons x xs =>
    rw [List.mapM_cons] at h
    obtain ⟨y, -, h⟩ := Option.bind_eq_some_iff.mp h
    obtain ⟨ys', -, h⟩ := Option.bind_eq_some_iff.mp h
    cases h
    rfl

/-- The text of a type with lines between braces stands for what it says. -/
theorem stands_braced {α : Type} {p : Parser α} {g : String × FieldLine → Option α}
    {make : List α → TypeBody} (h : entry.Readable name) {lines : List String}
    (hlines : List.Forall₂ (Stands p) lines (entry.lines.map g)) (hsome : lines ≠ [])
    (hshown : entry.shown = entry.directives)
    (hbody : bodyOf name entry = (entry.lines.mapM g).map make)
    (hread : ∀ {nodes}, List.Forall₂ use.Reads entry.directives nodes → ∀ rest,
      typeBody entry.kind (entry.directives.flatMap tokens ++ (membersTokens lines ++ rest))
        = (((entry.lines.map g).mapM id).map fun xs => (nodes, make xs)).map (·, rest))
    (hcontent : ∀ xs nodes, xs.isEmpty = false → hasContent nodes (make xs) = true) :
    Stands definition (startText extends? ++ (entry.kind.word ++ (" " ++ (name
        ++ (usesText entry.directives ++ membersText lines)))))
      ((contentOf name entry).map (definitionOf extends? name)) := by
  obtain ⟨nodes, huses, hnodes⟩ := reads_uses h.uses
  have hspells := (spells_uses (forall_of_forall₂ huses fun _ _ hu => hu.spells)).concat
    (spells_members (forall_of_forall₂ hlines fun _ _ hs => hs.spells)) (stops_members lines)
  have hstops : Stops (usesText entry.directives ++ membersText lines).toList := by
    unfold usesText
    split
    · rw [String.empty_append]
      exact stops_members lines
    · rw [String.append_assoc]
      exact stops_of_toList rfl (by decide) _
  have hlength : entry.lines ≠ [] := by
    intro hnone
    rw [hnone] at hlines
    cases hlines
    exact hsome rfl
  rw [contentOf_eq (hshown ▸ hnodes) hbody]
  refine stands_definition h.named hspells hstops (fun rest hrest => ?_) fun _ y hy => ?_
  · rw [List.append_assoc, hread huses rest, mapM_id_map]
    cases entry.lines.mapM g <;> rfl
  · cases hxs : entry.lines.mapM g with
    | none =>
      rw [hxs] at hy
      cases hy
    | some xs =>
      rw [hxs] at hy
      cases hy
      exact hcontent xs nodes (mapM_ne_nil hxs hlength)

/-- A type with lines between braces is written in this form. -/
theorem typeText_braced (hkind : entry.kind ≠ .scalar ∧ entry.kind ≠ .union)
    (hsome : entry.lines ≠ []) (h : typeText name entry extends? = .ok text) :
    ∃ lines, entry.lines.mapM (fun l => lineText name l.1 l.2) = .ok lines ∧ lines ≠ []
      ∧ text = startText extends? ++ (entry.kind.word ++ (" " ++ (name
        ++ (usesText entry.directives ++ membersText lines)))) := by
  unfold typeText at h
  dsimp only at h
  rw [if_neg hkind.1] at h
  obtain ⟨lines, hlines, hrest⟩ := Outcome.bind_eq_ok.mp h
  have hlength := length_of_mapM hlines hsome
  refine ⟨lines, hlines, hlength, ?_⟩
  have hempty : ¬(lines.isEmpty = true) := fun h => hlength (List.isEmpty_iff.mp h)
  rw [if_neg hempty, if_neg hkind.2] at hrest
  cases hrest
  unfold startText membersText
  simp only [String.append_assoc]

theorem shown_eq (hunion : entry.kind ≠ .union) (hsome : entry.kind ≠ .scalar → entry.lines ≠ []) :
    entry.shown = entry.directives := by
  unfold TypeEntry.shown
  refine if_pos ?_
  unfold TypeEntry.isShown
  by_cases hscalar : entry.kind = .scalar
  · simp [hscalar]
  · simp [hunion, hsome hscalar]

/-- The text of an object type or interface stands for what it says. -/
theorem stands_fielded {make : List String → List FieldNode → TypeBody} (h : entry.Readable name)
    (htext : typeText name entry extends? = .ok text)
    (hkind : entry.kind ≠ .scalar ∧ entry.kind ≠ .union) (hsome : entry.lines ≠ [])
    (htype : typeBody entry.kind = fieldedBody make)
    (hbody : bodyOf name entry = (entry.lines.mapM (fieldOf name)).map (make []))
    (hcontent : ∀ xs nodes, xs.isEmpty = false → hasContent nodes (make [] xs) = true) :
    Stands definition text ((contentOf name entry).map (definitionOf extends? name)) := by
  obtain ⟨lines, hlines, hnonempty, rfl⟩ := typeText_braced hkind hsome htext
  have hstands : List.Forall₂ (Stands fieldNode) lines (entry.lines.map (fieldOf name)) :=
    forall₂_of_mapM hlines fun l hl s hs => stands_fieldOf (h.lines hkind.1 l hl) hs
  refine stands_braced h hstands hnonempty (shown_eq hkind.2 fun _ => hsome) hbody
    (fun huses rest => ?_) hcontent
  rw [htype]
  exact read_fielded make huses hstands hnonempty rest

/-- The text of an enum stands for its words. -/
theorem stands_enum (h : entry.Readable name) (htext : typeText name entry extends? = .ok text)
    (hkind : entry.kind = .enum) (hsome : entry.lines ≠ []) :
    Stands definition text ((contentOf name entry).map (definitionOf extends? name)) := by
  have hother : entry.kind ≠ .scalar ∧ entry.kind ≠ .union := by
    rw [hkind]
    simp
  let word (l : String × FieldLine) : Option EnumNode := some ⟨none, l.1, []⟩
  obtain ⟨lines, hlines, hnonempty, rfl⟩ := typeText_braced hother hsome htext
  have hstands : List.Forall₂ (Stands enumNode) lines (entry.lines.map word) :=
    forall₂_of_mapM hlines fun l hl s hs => stands_wordOf (hkind ▸ h.lines hother.1 l hl) hs
  have hbody : bodyOf name entry = (entry.lines.mapM word).map .enum := by
    have hwords : entry.lines.mapM word = some (entry.lines.map fun l => ⟨none, l.1, []⟩) :=
      List.mapM_pure
    unfold bodyOf
    rw [hkind, hwords]
    rfl
  refine stands_braced h hstands hnonempty (shown_eq hother.2 fun _ => hsome) hbody
    (fun huses rest => ?_) fun xs nodes hxs => ?_
  · rw [hkind]
    exact read_braced .enum huses hstands hnonempty rest
  · simp [hasContent, hxs]

/-- The text of an input type stands for its fields. -/
theorem stands_inputType (h : entry.Readable name)
    (htext : typeText name entry extends? = .ok text) (hkind : entry.kind = .input)
    (hsome : entry.lines ≠ []) :
    Stands definition text ((contentOf name entry).map (definitionOf extends? name)) := by
  have hother : entry.kind ≠ .scalar ∧ entry.kind ≠ .union := by
    rw [hkind]
    simp
  obtain ⟨lines, hlines, hnonempty, rfl⟩ := typeText_braced hother hsome htext
  have hstands : List.Forall₂ (Stands inputNode) lines (entry.lines.map memberOf) :=
    forall₂_of_mapM hlines fun l hl s hs => stands_memberOf (hkind ▸ h.lines hother.1 l hl) hs
  have hbody : bodyOf name entry = (entry.lines.mapM memberOf).map .input := by
    unfold bodyOf
    rw [hkind]
  refine stands_braced h hstands hnonempty (shown_eq hother.2 fun _ => hsome) hbody
    (fun huses rest => ?_) fun xs nodes hxs => ?_
  · rw [hkind]
    exact read_braced .input huses hstands hnonempty rest
  · simp [hasContent, hxs]

/-- The text of a scalar stands for it. -/
theorem stands_scalar (h : entry.Readable name) (htext : typeText name entry extends? = .ok text)
    (hkind : entry.kind = .scalar) (hsome : extends? = true → entry.directives ≠ []) :
    Stands definition text ((contentOf name entry).map (definitionOf extends? name)) := by
  obtain ⟨nodes, huses, hnodes⟩ := reads_uses h.uses
  have hshown : entry.shown = entry.directives :=
    shown_eq (by rw [hkind]; simp) fun hother => absurd hkind hother
  have hbody : bodyOf name entry = some .scalar := by
    unfold bodyOf
    rw [hkind]
  have hwritten : text = startText extends? ++ (TypeKind.word .scalar ++ (" " ++ (name
      ++ usesText entry.directives))) := by
    unfold typeText at htext
    dsimp only at htext
    rw [if_pos hkind] at htext
    cases htext
    rw [show "scalar " = TypeKind.word .scalar ++ " " from rfl]
    unfold startText
    simp only [String.append_assoc]
  have hspells := spells_uses (forall_of_forall₂ huses fun _ _ hu => hu.spells)
  rw [hwritten, contentOf_eq (hshown ▸ hnodes) hbody]
  refine stands_definition h.named hspells (stops_uses _)
    (fun rest hrest => read_scalar huses hrest) fun hext y hy => ?_
  cases hy
  cases nodes with
  | nil => exact absurd (List.eq_nil_of_length_eq_zero huses.length_eq) (hsome hext)
  | cons _ _ => rfl

/-- The text of a union stands for its members. -/
theorem stands_union (h : entry.Readable name) (htext : typeText name entry extends? = .ok text)
    (hkind : entry.kind = .union) (hsome : entry.lines ≠ []) :
    Stands definition text ((contentOf name entry).map (definitionOf extends? name)) := by
  have hscalar : entry.kind ≠ .scalar := by
    rw [hkind]
    simp
  have hshown : usesOf entry.shown = some [] := by
    unfold TypeEntry.shown TypeEntry.isShown
    rw [hkind]
    rfl
  have hbody : bodyOf name entry = some (.union (Table.keys entry.lines)) := by
    unfold bodyOf
    rw [hkind]
  unfold typeText at htext
  dsimp only at htext
  rw [if_neg hscalar] at htext
  obtain ⟨lines, hlines, hrest⟩ := Outcome.bind_eq_ok.mp htext
  have hnames : lines = Table.keys entry.lines := by
    have hequal := forall₂_of_mapM (R := Eq) (g := Prod.fst) hlines fun l hl s hs =>
      lineText_of_union (hkind ▸ h.lines hscalar l hl) hs
    exact List.forall₂_eq_eq_eq ▸ hequal
  have hlength := length_of_mapM hlines hsome
  have hempty : ¬(lines.isEmpty = true) := fun h => hlength (List.isEmpty_iff.mp h)
  rw [if_neg hempty, if_pos hkind] at hrest
  cases hrest
  cases hlines' : lines with
  | nil => exact absurd hlines' hlength
  | cons n names =>
    have hmembers : ∀ m ∈ n :: names, isName m := by
      intro m hm
      rw [← hlines', hnames] at hm
      obtain ⟨l, hl, rfl⟩ := List.mem_map.mp hm
      exact (h.lines hscalar l hl).named
    have hspells := spells_union n names (hmembers n (List.mem_cons_self ..))
      fun m hm => hmembers m (List.mem_cons_of_mem _ hm)
    have hwritten : (if extends? then "extend " else "") ++ "union " ++ name ++ " = "
          ++ String.intercalate " | " (n :: names)
        = startText extends? ++ (TypeKind.word .union ++ (" " ++ (name ++ (" = "
          ++ String.intercalate " | " (n :: names))))) := by
      rw [show "union " = TypeKind.word .union ++ " " from rfl]
      unfold startText
      simp only [String.append_assoc]
    rw [contentOf_eq hshown hbody, ← hnames, hlines', hwritten]
    refine stands_definition h.named hspells (stops_of_toList rfl (by decide) _)
      (fun rest hrest => read_union n names hrest) fun _ y hy => ?_
    cases hy
    rfl

/-- **The text of a type stands for what its parts stand for.** -/
theorem stands_type (h : entry.Readable name) (htext : typeText name entry extends? = .ok text)
    (hscalar : entry.kind = .scalar → extends? = true → entry.directives ≠ [])
    (hsome : entry.kind ≠ .scalar → entry.lines ≠ []) :
    Stands definition text ((contentOf name entry).map (definitionOf extends? name)) := by
  cases hkind : entry.kind with
  | scalar => exact stands_scalar h htext hkind (hscalar hkind)
  | object =>
    have hbody : bodyOf name entry = (entry.lines.mapM (fieldOf name)).map (.object []) := by
      unfold bodyOf
      rw [hkind]
    refine stands_fielded h htext (by simp [hkind]) (hsome (by simp [hkind]))
      (by rw [hkind]; rfl) hbody fun xs nodes hxs => ?_
    simp [hasContent, hxs]
  | interface =>
    have hbody : bodyOf name entry = (entry.lines.mapM (fieldOf name)).map (.interface []) := by
      unfold bodyOf
      rw [hkind]
    refine stands_fielded h htext (by simp [hkind]) (hsome (by simp [hkind]))
      (by rw [hkind]; rfl) hbody fun xs nodes hxs => ?_
    simp [hasContent, hxs]
  | union => exact stands_union h htext hkind (hsome (by simp [hkind]))
  | enum => exact stands_enum h htext hkind (hsome (by simp [hkind]))
  | input => exact stands_inputType h htext hkind (hsome (by simp [hkind]))

end Registry
end SchemaForge

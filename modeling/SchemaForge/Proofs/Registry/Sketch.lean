import SchemaForge.Proofs.Registry.Calls
import SchemaForge.Proofs.Registry.Reconciling
import SchemaForge.Proofs.Registry.Written

/-!
# Sketches of registries

A registry keeps return types, signatures of arguments and uses of directives as texts. A sketch
has what these texts are written from. **`Sketch.ofText?_text`**: the text of a registry that
is written from a sketch is read as the document that the sketch stands for, in which nothing
is a text any more.
-/
namespace SchemaForge

open Language Parser Registry

/-! ### Parts of a sketch -/

/-- A call that a schema can show: names, values of literal kinds, finite numbers. -/
structure DirectiveCall.Proper (d : DirectiveCall) : Prop where
  /-- The directive and its arguments have names. -/
  named : d.Named
  /-- The arguments are accepted when the call is registered. -/
  accepted : d.isAccepted = true
  /-- Their numbers are finite. -/
  finite : d.Finite

/-- A field: candidates for each argument, the return type and the uses of directives. -/
structure FieldSketch where
  /-- The candidates for each argument. -/
  arguments : Table (List Candidate) := []
  /-- The return type. -/
  type : TypeRef
  /-- The uses of directives. -/
  directives : List DirectiveCall := []

namespace FieldSketch

/-- The line that is written from a field. -/
def line (f : FieldSketch) : FieldLine :=
  { type := f.type.print
    arguments := f.arguments.map fun a => (a.1, a.2.map Candidate.text)
    directives := f.directives.map DirectiveCall.text }

/-- The arguments, each with the signature that its candidates agree on. -/
def inputs (f : FieldSketch) : List InputNode :=
  f.arguments.filterMap fun a => (Candidate.reconciled a.2).map (·.node a.1)

/-- The field of an object type or interface. -/
def node (name : String) (f : FieldSketch) : FieldNode :=
  { description := none, name, arguments := f.inputs, type := f.type
    directives := f.directives.map DirectiveCall.use }

/-- The field of an input type. -/
def member (name : String) (f : FieldSketch) : InputNode :=
  { description := none, name, type := f.type, default? := none
    directives := f.directives.map DirectiveCall.use }

/-- The parts of a field are of the grammar. -/
structure Proper (f : FieldSketch) : Prop where
  /-- Arguments have names, and candidates of the grammar. -/
  arguments : ∀ a ∈ f.arguments, isName a.1 ∧ ∀ c ∈ a.2, c.Proper
  /-- So is the return type. -/
  type : f.type.isProper = true
  /-- So are the uses of directives. -/
  directives : ∀ d ∈ f.directives, d.Proper

end FieldSketch

/-- What a type has, by its kind. -/
inductive BodySketch where
  /-- Nothing. -/
  | scalar
  /-- Fields. -/
  | object (fields : Table FieldSketch)
  /-- Fields. -/
  | interface (fields : Table FieldSketch)
  /-- Names of types. -/
  | union (members : List String)
  /-- Words. -/
  | enum (words : List String)
  /-- Fields without arguments. -/
  | input (fields : Table FieldSketch)

namespace BodySketch

/-- The kind of the type. -/
def kind : BodySketch → TypeKind
  | scalar => .scalar
  | object _ => .object
  | interface _ => .interface
  | union _ => .union
  | enum _ => .enum
  | input _ => .input

/-- The lines that are written from it. -/
def lines : BodySketch → Table FieldLine
  | scalar => []
  | object fields | interface fields | input fields => fields.map fun f => (f.1, f.2.line)
  | union names | enum names => names.map fun n => (n, {})

/-- What is read. -/
def node : BodySketch → TypeBody
  | scalar => .scalar
  | object fields => .object [] (fields.map fun f => f.2.node f.1)
  | interface fields => .interface [] (fields.map fun f => f.2.node f.1)
  | union members => .union members
  | enum words => .enum (words.map fun w => ⟨none, w, []⟩)
  | input fields => .input (fields.map fun f => f.2.member f.1)

/-- The names are names, the words of an enum are free, the fields are of the grammar. -/
def Proper : BodySketch → Prop
  | scalar => True
  | object fields | interface fields => ∀ f ∈ fields, isName f.1 ∧ f.2.Proper
  | union members => ∀ m ∈ members, isName m
  | enum words => ∀ w ∈ words, isName w ∧ isReserved w = false
  | input fields => ∀ f ∈ fields, isName f.1 ∧ f.2.Proper ∧ f.2.arguments = []

end BodySketch

/-- A type: its uses of directives and what it has. -/
structure TypeSketch where
  /-- The uses of directives. -/
  directives : List DirectiveCall := []
  /-- What the type has. -/
  body : BodySketch

namespace TypeSketch

/-- The entry that is written from a type. -/
def entry (t : TypeSketch) : TypeEntry :=
  { kind := t.body.kind, directives := t.directives.map DirectiveCall.text, lines := t.body.lines }

/-- The definition of a type, or its extension. -/
def definition (extends? : Bool) (name : String) (t : TypeSketch) : Definition :=
  .type { description := none, extends?, name, directives := t.directives.map DirectiveCall.use
          body := t.body.node }

/-- Whether a type is absent from the text: one that is empty, or a scalar that is known and
has no directives. -/
def isAbsent (known : Bool) (t : TypeSketch) : Bool :=
  match t.body with
  | .scalar => known && t.directives.isEmpty
  | body => body.lines.isEmpty

/-- The parts are of the grammar, and a union has no directives. -/
structure Proper (t : TypeSketch) : Prop where
  /-- The uses of directives are of the grammar. -/
  directives : ∀ d ∈ t.directives, d.Proper
  /-- So is what the type has. -/
  body : t.body.Proper
  /-- A union has no directives. -/
  union : t.body.kind = .union → t.directives = []

end TypeSketch

/-- A registry before its texts are written. -/
abbrev Sketch := Table TypeSketch

namespace Sketch

/-- The registry that is written from a sketch. -/
def registry (t : Sketch) : Registry := t.map fun e => (e.1, e.2.entry)

/-- The query root first, the others in order. -/
def ordered (t : Sketch) : Sketch := t.filter (·.1 == queryRoot) ++ t.filter (·.1 != queryRoot)

/-- The definitions of directives that are not there yet, and then of the types that are not
absent, each as an extension if its name is there already. -/
def document (t : Sketch) (records : DirectiveRecords)
    (existingTypes existingDirectives : List String) : Document :=
  directivesOf records existingDirectives
    ++ (t.ordered.filter fun e => !e.2.isAbsent (existingTypes.contains e.1)).map fun e =>
      e.2.definition (existingTypes.contains e.1) e.1

/-- The names are names, and the types are of the grammar. -/
def Proper (t : Sketch) : Prop := ∀ e ∈ t, isName e.1 ∧ e.2.Proper

end Sketch

/-! ### Reading what is written -/

theorem DirectiveCall.Proper.reads {d : DirectiveCall} (h : d.Proper) :
    Parser.use.Reads d.text d.use :=
  reads_call h.named (isLiteral_of_isAccepted h.accepted h.finite)

/-- Calls are written as texts that read. -/
theorem Registry.reads_calls {ds : List DirectiveCall} (h : ∀ d ∈ ds, d.Proper) :
    ∀ u ∈ ds.map DirectiveCall.text, ∃ x, use.Reads u x := by
  intro u hu
  obtain ⟨d, hd, rfl⟩ := List.mem_map.mp hu
  exact ⟨d.use, (h d hd).reads⟩

/-- Items that are all there, one by one. -/
theorem Registry.mapM_eq_filterMap {ξ β : Type} {g : ξ → Option β} {xs : List ξ}
    (h : ∀ x ∈ xs, (g x).isSome) : xs.mapM g = some (xs.filterMap g) := by
  induction xs with
  | nil => rfl
  | cons x xs ih =>
    obtain ⟨y, hy⟩ := Option.isSome_iff_exists.mp (h x (List.mem_cons_self ..))
    rw [List.mapM_cons, hy, ih fun z hz => h z (List.mem_cons_of_mem _ hz),
      List.filterMap_cons_some hy]
    rfl

theorem Registry.mapM_eq_map {ξ β : Type} {f : ξ → Option β} {g : ξ → β} {xs : List ξ}
    (h : ∀ x ∈ xs, f x = some (g x)) : xs.mapM f = some (xs.map g) := by
  rw [← mapM_id_map, List.map_congr_left h, ← mapM_id_map_some (xs.map g), List.map_map]
  rfl

theorem Registry.usesOf_calls {ds : List DirectiveCall} (h : ∀ d ∈ ds, d.Proper) :
    usesOf (ds.map DirectiveCall.text) = some (ds.map DirectiveCall.use) := by
  unfold usesOf
  rw [List.mapM_map]
  refine mapM_eq_map fun d hd => ?_
  rw [Function.comp_apply, (h d hd).reads.run_eq]
  rfl

namespace FieldSketch

variable {f : FieldSketch} {type name text : String}

/-- The line of a field reads alone, wherever it may stand. -/
theorem Proper.readable (h : f.Proper) (hname : isName name) {kind : TypeKind}
    (hkind : kind ≠ .enum ∧ kind ≠ .union) (hplain : kind = .input → f.arguments = []) :
    f.line.Readable kind type name := by
  refine ⟨hname, fun a ha => ?_, fun _ => ⟨_, reads_print h.type⟩, reads_calls h.directives,
    fun hbare => ?_, fun henum => absurd henum hkind.1, fun hinput => ?_⟩
  · obtain ⟨b, hb, rfl⟩ := List.mem_map.mp ha
    obtain ⟨haname, hcandidates⟩ := h.arguments b hb
    refine ⟨haname, fun s hs => ?_⟩
    obtain ⟨c, hc, rfl⟩ := Candidate.reconcile_eq_ok hcandidates hs
    exact ⟨_, (Candidate.Proper.reconciled hcandidates hc).typed⟩
  · rcases hbare with henum | hunion
    · exact absurd henum hkind.1
    · exact absurd hunion hkind.2
  · rw [line, hplain hinput]
    rfl

/-- The argument whose signatures agree is the reconciled candidate. -/
theorem inputOf_eq {a : String × List Candidate} (h : ∀ c ∈ a.2, c.Proper) {s : String}
    (hs : argumentText type name (a.1, a.2.map Candidate.text) = .ok s) :
    ∃ c, Candidate.reconciled a.2 = some c
      ∧ inputOf type name (a.1, a.2.map Candidate.text) = some (c.node a.1) := by
  obtain ⟨signature, hsignature, -⟩ := Outcome.map_eq_ok.mp hs
  obtain ⟨c, hc, rfl⟩ := Candidate.reconcile_eq_ok h hsignature
  refine ⟨c, hc, ?_⟩
  unfold inputOf
  rw [hsignature]
  change ((typed.run c.text).toOption >>= _) = _
  rw [(Candidate.Proper.reconciled h hc).typed.run_eq]
  rfl

theorem inputsOf_line (h : f.Proper) {texts : List String}
    (htexts : f.line.arguments.mapM (argumentText type name) = .ok texts) :
    f.line.arguments.mapM (inputOf type name) = some f.inputs := by
  have hsome := exists_of_mapM htexts
  have hinput : ∀ a ∈ f.arguments, ∃ c, Candidate.reconciled a.2 = some c
      ∧ inputOf type name (a.1, a.2.map Candidate.text) = some (c.node a.1) := by
    intro a ha
    obtain ⟨s, hs⟩ := hsome _ (List.mem_map_of_mem ha)
    exact inputOf_eq (h.arguments a ha).2 hs
  unfold line inputs
  rw [List.mapM_map, mapM_eq_filterMap fun a ha => ?_]
  · refine congrArg some (List.filterMap_congr fun a ha => ?_)
    obtain ⟨c, hc, hnode⟩ := hinput a ha
    rw [hc]
    exact hnode
  · obtain ⟨c, -, hnode⟩ := hinput a ha
    exact Option.isSome_of_eq_some hnode

/-- **The line of a field is the field.** -/
theorem Proper.fieldOf_line (h : f.Proper) (htext : lineText type name f.line = .ok text) :
    fieldOf type (name, f.line) = some (f.node name) := by
  obtain ⟨texts, htexts, -⟩ := lineText_eq_inputs htext
  unfold fieldOf
  dsimp only
  rw [inputsOf_line h htexts, show f.line.directives = f.directives.map DirectiveCall.text from rfl,
    usesOf_calls h.directives, show TypeRef.ofText? f.line.type = .ok f.type from
      (reads_print h.type).run_eq]
  rfl

theorem Proper.memberOf_line (h : f.Proper) : memberOf (name, f.line) = some (f.member name) := by
  unfold memberOf
  dsimp only
  rw [show f.line.directives = f.directives.map DirectiveCall.text from rfl,
    usesOf_calls h.directives, show TypeRef.ofText? f.line.type = .ok f.type from
      (reads_print h.type).run_eq]
  rfl

end FieldSketch

namespace TypeSketch

variable {t : TypeSketch} {name text : String}

/-- A name alone is readable as a member of a union, and as a word if it is free. -/
theorem readable_bare {kind : TypeKind} {type : String} (hname : isName name)
    (hfree : kind = .enum → isReserved name = false) : ({} : FieldLine).Readable kind type name :=
  ⟨hname, fun _ ha => (List.not_mem_nil ha).elim, fun hsome => absurd rfl hsome,
    fun _ hu => (List.not_mem_nil hu).elim, fun _ => ⟨rfl, rfl⟩, hfree, fun _ => rfl⟩

theorem Proper.lines (h : t.body.Proper) :
    ∀ l ∈ t.body.lines, l.2.Readable t.body.kind name l.1 := by
  intro l hl
  cases hbody : t.body with
  | scalar =>
    rw [hbody] at hl
    cases hl
  | object fields | interface fields =>
    rw [hbody] at hl h
    obtain ⟨f, hf, rfl⟩ := List.mem_map.mp hl
    exact (h f hf).2.readable (h f hf).1 (by simp [BodySketch.kind]) (by simp [BodySketch.kind])
  | union names =>
    rw [hbody] at hl h
    obtain ⟨n, hn, rfl⟩ := List.mem_map.mp hl
    exact readable_bare (h n hn) (by simp [BodySketch.kind])
  | enum names =>
    rw [hbody] at hl h
    obtain ⟨n, hn, rfl⟩ := List.mem_map.mp hl
    exact readable_bare (h n hn).1 fun _ => (h n hn).2
  | input fields =>
    rw [hbody] at hl h
    obtain ⟨f, hf, rfl⟩ := List.mem_map.mp hl
    obtain ⟨hname, hf, hplain⟩ := h f hf
    exact hf.readable hname (by simp [BodySketch.kind]) fun _ => hplain

theorem Proper.readable (h : t.Proper) (hname : isName name) : t.entry.Readable name :=
  ⟨hname, reads_calls h.directives, fun _ => Proper.lines h.body⟩

/-- Fields whose lines are written are the fields. -/
theorem fieldsOf_lines {fields : Table FieldSketch} (h : ∀ f ∈ fields, isName f.1 ∧ f.2.Proper)
    (htexts : ∀ l ∈ fields.map (fun f => (f.1, f.2.line)), ∃ s, lineText name l.1 l.2 = .ok s) :
    (fields.map fun f => (f.1, f.2.line)).mapM (fieldOf name)
      = some (fields.map fun f => f.2.node f.1) := by
  rw [List.mapM_map]
  refine mapM_eq_map fun f hf => ?_
  obtain ⟨s, hs⟩ := htexts _ (List.mem_map_of_mem hf)
  exact (h f hf).2.fieldOf_line hs

theorem membersOf_lines {fields : Table FieldSketch} (h : ∀ f ∈ fields, f.2.Proper) :
    (fields.map fun f => (f.1, f.2.line)).mapM memberOf
      = some (fields.map fun f => f.2.member f.1) := by
  rw [List.mapM_map]
  exact mapM_eq_map fun f hf => (h f hf).memberOf_line

/-- What is read of a type whose lines are written is what the type has. -/
theorem bodyOf_entry (h : t.Proper)
    (htexts : ∀ l ∈ t.body.lines, ∃ s, lineText name l.1 l.2 = .ok s) :
    bodyOf name t.entry = some t.body.node := by
  have hbody := h.body
  unfold bodyOf entry
  dsimp only
  cases ht : t.body with
  | scalar => rfl
  | object fields | interface fields =>
    rw [ht] at hbody htexts
    dsimp only [BodySketch.kind, BodySketch.lines, BodySketch.node]
    rw [fieldsOf_lines hbody htexts]
    rfl
  | union names =>
    dsimp only [BodySketch.kind, BodySketch.lines, BodySketch.node]
    rw [Table.keys, List.map_map]
    exact congrArg (some ∘ TypeBody.union) (List.map_id _)
  | enum names =>
    dsimp only [BodySketch.kind, BodySketch.lines, BodySketch.node]
    rw [List.map_map]
    rfl
  | input fields =>
    rw [ht] at hbody
    dsimp only [BodySketch.kind, BodySketch.lines, BodySketch.node]
    rw [membersOf_lines fun f hf => (hbody f hf).2.1]
    rfl

/-- Whether a type is absent can be seen on its entry. -/
theorem isWritten_entry (existing : List String) (name : String) (t : TypeSketch) :
    isWritten existing (name, t.entry) = !t.isAbsent (existing.contains name) := by
  unfold isWritten isAbsent entry
  dsimp only
  rw [List.isEmpty_map]
  cases t.body with
  | scalar => exact if_pos rfl
  | _ => exact if_neg (by simp [BodySketch.kind])

/-- **A type that is written is read as its definition.** -/
theorem contentOf_entry (h : t.Proper) {existing : List String}
    (hwritten : isWritten existing (name, t.entry) = true)
    (htext : typeTextIn existing (name, t.entry) = .ok text) :
    (contentOf name t.entry).map (definitionOf (existing.contains name) name)
      = some (t.definition (existing.contains name) name) := by
  have htexts : ∀ l ∈ t.body.lines, ∃ s, lineText name l.1 l.2 = .ok s := by
    by_cases hscalar : t.entry.kind = .scalar
    · cases hbody : t.body with
      | scalar => exact fun l hl => (List.not_mem_nil hl).elim
      | _ => simp [entry, hbody, BodySketch.kind] at hscalar
    · have hkind : (t.entry.kind == .scalar) = false := beq_eq_false_iff_ne.mpr hscalar
      unfold typeTextIn at htext
      dsimp only at htext
      rw [hkind, Bool.and_false, Bool.false_and, if_neg Bool.false_ne_true] at htext
      unfold typeText at htext
      dsimp only at htext
      rw [if_neg hscalar] at htext
      obtain ⟨lines, hlines, -⟩ := Outcome.bind_eq_ok.mp htext
      exact exists_of_mapM hlines
  have hlines : t.entry.kind ≠ .scalar → t.entry.lines ≠ [] := by
    intro hscalar hnone
    unfold isWritten at hwritten
    rw [if_neg hscalar, hnone] at hwritten
    cases hwritten
  have huses : usesOf t.entry.shown = some (t.directives.map DirectiveCall.use) := by
    by_cases hunion : t.entry.kind = .union
    · rw [h.union hunion, TypeEntry.shown, TypeEntry.isShown, hunion]
      rfl
    · rw [shown_eq hunion hlines]
      exact usesOf_calls h.directives
  rw [contentOf_eq huses (bodyOf_entry h htexts)]
  rfl

end TypeSketch

namespace Sketch

variable {t : Sketch} {records : DirectiveRecords} {existingTypes existingDirectives : List String}
  {s : String}

theorem Proper.readable (h : t.Proper) : t.registry.Readable := by
  intro e he
  obtain ⟨a, ha, rfl⟩ := List.mem_map.mp he
  exact (h a ha).2.readable (h a ha).1

theorem ordered_registry (t : Sketch) :
    t.registry.ordered = t.ordered.map fun e => (e.1, e.2.entry) := by
  unfold Registry.ordered ordered registry
  rw [List.filter_map, List.filter_map, List.map_append]
  rfl

/-- A registry that can be written stands for the document of its sketch. -/
theorem documentOf_registry (h : t.Proper)
    (hs : t.registry.text records existingTypes existingDirectives = .ok s) :
    t.registry.documentOf records existingTypes existingDirectives
      = some (t.document records existingTypes existingDirectives) := by
  obtain ⟨_, -, hs⟩ := Outcome.bind_eq_ok.mp hs
  obtain ⟨types, htypes, -⟩ := Outcome.bind_eq_ok.mp hs
  rw [ordered_registry] at htypes
  have htexts := exists_of_mapM htypes
  have hproper : ∀ e ∈ t.ordered, e.2.Proper := by
    intro e he
    rcases List.mem_append.mp he with he | he <;> exact (h e (List.mem_filter.mp he).1).2
  have hwritten : (isWritten existingTypes ∘ fun e : String × TypeSketch => (e.1, e.2.entry))
      = fun e => !e.2.isAbsent (existingTypes.contains e.1) :=
    funext fun e => e.2.isWritten_entry existingTypes e.1
  unfold documentOf typesOf document
  rw [ordered_registry, List.filter_map, List.mapM_map, mapM_eq_map fun e he => ?_]
  · rw [hwritten]
    rfl
  · obtain ⟨he, hshown⟩ := List.mem_filter.mp he
    obtain ⟨text, htext⟩ := htexts _ (List.mem_map_of_mem he)
    exact TypeSketch.contentOf_entry (hproper e he) hshown htext

/-- **The text of a registry written from a sketch reads as the document of the sketch**: first
the definitions of the directives that are not there yet, then a definition or extension of each
type that is not absent, the query root first. -/
theorem document_of_registry_text (h : t.Proper) (hrecords : records.Readable)
    (hs : t.registry.text records existingTypes existingDirectives = .ok s) (hsome : s ≠ "") :
    Document.ofText? s = .ok (t.document records existingTypes existingDirectives) := by
  have hread := Registry.ofText?_text h.readable hrecords hs hsome
  rw [documentOf_registry h hs] at hread
  cases hdocument : Document.ofText? s with
  | error e =>
    rw [hdocument] at hread
    cases hread
  | ok document =>
    rw [hdocument] at hread
    exact congrArg Except.ok (Option.some.inj hread)

/-- A list of items by page, declared twice with one default, and an enum. -/
def catalog : Sketch :=
  [("State", { body := .enum ["OPEN"] }),
    ("Query", { body := .object [("items",
      { arguments := [("page", [⟨.named "Int", some ("1", .int "1")⟩, ⟨.nonNull (.named "Int"), none⟩])]
        type := .list (.named "State")
        directives := [⟨"auth", [("role", .text "admin")]⟩] })] })]

theorem document_of_registry_text_catalog :
    catalog.registry.text [] ["Query"] ["auth"] = .ok ("extend type Query \x7b\n"
      ++ "  items(page: Int = 1): [State] @auth(role: \"admin\")\n\x7d\n\nenum State \x7b\n  OPEN\n\x7d")
    ∧ Document.ofText? ("extend type Query \x7b\n"
      ++ "  items(page: Int = 1): [State] @auth(role: \"admin\")\n\x7d\n\nenum State \x7b\n  OPEN\n\x7d")
      = .ok [
        .type
          { description := none, extends? := true, name := "Query", directives := []
            body := .object [] [
              { description := none, name := "items"
                arguments := [
                  { description := none, name := "page", type := .named "Int"
                    default? := some (.int "1"), directives := [] }]
                type := .list (.named "State")
                directives := [⟨"auth", [("role", .string "admin" false)]⟩] }] },
        .type
          { description := none, extends? := false, name := "State", directives := []
            body := .enum [⟨none, "OPEN", []⟩] }] := by
  have hdefault : (value true).Reads "1" (.int "1") :=
    ⟨_, .of_read (n := 2) (by decide +kernel : _ = some [.int "1"]), rfl⟩
  have hpages : ∀ c ∈ [(⟨.named "Int", some ("1", .int "1")⟩ : Candidate),
      ⟨.nonNull (.named "Int"), none⟩], c.Proper := by
    intro c hc
    rcases List.mem_cons.mp hc with rfl | hc
    · exact ⟨by decide, fun d hd => Option.some.inj hd ▸ hdefault, fun d hd => Option.some.inj hd ▸ rfl⟩
    · rw [List.mem_singleton.mp hc]
      exact ⟨by decide, nofun, nofun⟩
  have hcall : DirectiveCall.Proper ⟨"auth", [("role", .text "admin")]⟩ :=
    ⟨by simp only [DirectiveCall.Named]; decide, rfl, by simp [DirectiveCall.Finite, Value.isFinite]⟩
  have hproper : catalog.Proper := by
    intro e he
    rcases List.mem_cons.mp he with rfl | he
    · refine ⟨by decide, nofun, fun w hw => ?_, fun _ => rfl⟩
      rw [List.mem_singleton.mp hw]
      decide
    · rw [List.mem_singleton.mp he]
      refine ⟨by decide, nofun, fun f hf => ?_, fun _ => rfl⟩
      rw [List.mem_singleton.mp hf]
      refine ⟨by decide, fun a ha => ?_, by decide, fun d hd => ?_⟩
      · rw [List.mem_singleton.mp ha]
        exact ⟨by decide, hpages⟩
      · rw [List.mem_singleton.mp hd]
        exact hcall
  have htext : catalog.registry.text [] ["Query"] ["auth"] = .ok ("extend type Query \x7b\n"
      ++ "  items(page: Int = 1): [State] @auth(role: \"admin\")\n\x7d\n\nenum State \x7b\n  OPEN\n\x7d") :=
    by rfl
  exact ⟨htext, document_of_registry_text hproper (List.forall_mem_nil _) htext (by decide)⟩

/-- An enum with a word that is a literal of its own. -/
def reservedWord : Sketch := [("Flag", { body := .enum ["true"] })]

/-- **A word that is a literal of its own is written, but cannot be read**, and neither can the
text of a registry of which nothing is written. -/
theorem not_document_of_registry_text :
    isName "true" ∧ reservedWord.registry.text [] [] [] = .ok "enum Flag \x7b\n  true\n\x7d"
    ∧ Document.ofText? "enum Flag \x7b\n  true\n\x7d" ≠ .ok (reservedWord.document [] [] [])
    ∧ Registry.text (registry []) [] [] [] = .ok "" ∧ Document.ofText? "" ≠ .ok (document [] [] [] []) := by
  have hspells : Spells "enum Flag \x7b\n  true\n\x7d".toList
      [.name "enum", .name "Flag", .mark .braceL, .name "true", .mark .braceR] :=
    .of_read (n := 12) (by decide +kernel)
  refine ⟨by decide, rfl, ?_, rfl, ?_⟩
  · unfold Document.ofText? Parser.run
    rw [Token.ofText?_of_spells hspells]
    nofun
  · nofun

end Sketch
end SchemaForge

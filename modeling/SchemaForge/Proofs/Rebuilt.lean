import SchemaForge.Proofs.Evaluation
import SchemaForge.Proofs.Schema.Printing

/-!
# Building a generated schema again from its text

The text of a generated schema is read as the nodes that it was built from, in the order in which
they are written, and those can be built again. So the text gives a schema with the same types and
directives, and that has the same text. The roots are in it when they have the usual names, which
those of a generated schema do.
-/
namespace SchemaForge

open Language

namespace Schema

/-- Nothing of a schema is left out when it is written. -/
structure Shown (s : Schema) : Prop where
  /-- No type has a name as in introspection. -/
  types : ∀ t ∈ s.types, isHidden t.1 = false
  /-- No directive has the name of one of every schema. -/
  directives : ∀ d ∈ s.directives, isStandardDirective d.name = false

/-- The nodes of a schema are read as they are written. -/
def ReadsBack (s : Schema) : Prop := Document.ofText? s.layout = .ok s.whole.document

/-- How a schema is written, if nothing is left out. -/
structure WrittenOut (s : Schema) : Prop where
  /-- The text is that of the nodes, in the order in which they are written. -/
  text : s.text = s.written.layout
  /-- All types are written. -/
  types : s.written.types.Perm s.types
  /-- So are all directives. -/
  directives : s.written.directives = s.directives
  /-- Every type is written once. -/
  typesOnce : (Table.keys s.written.types).Nodup
  /-- So is every directive. -/
  directivesOnce : (s.written.directives.map (·.name)).Nodup
  /-- The nodes of a type are its definition and its extensions after it. -/
  nodes : ∀ t ∈ s.types, s.written.nodes.filter (·.name == t.1) = t.2.node :: t.2.extensions
    ∧ t.2.node.extends? = false ∧ ∀ e ∈ t.2.extensions, e.extends? = true
  /-- Roots come first, all others by name. -/
  order : ∃ rest : List String, Table.keys s.written.types = OperationKind.query.rootName ::
      ((if s.types.has OperationKind.mutation.rootName then [OperationKind.mutation.rootName]
        else []) ++ rest)
    ∧ rest.Pairwise (· < ·)

variable {s : Schema}

theorem Shown.writtenTypes_perm (h : s.Shown) : s.writtenTypes.Perm s.types := by
  have hall : s.types.filter (fun t => !isHidden t.1) = s.types :=
    List.filter_eq_self.mpr fun t ht => by rw [h.types t ht]; rfl
  rw [writtenTypes, hall]
  exact List.mergeSort_perm _ _

theorem Shown.writtenDirectives_eq (h : s.Shown) : s.writtenDirectives = s.directives :=
  List.filter_eq_self.mpr fun d hd => by rw [h.directives d hd]; rfl

/-- What is written of a schema that was built was as if built. -/
theorem Built.written (h : s.Built) (hshown : s.Shown) : s.written.Built := by
  rw [Schema.written, hshown.writtenDirectives_eq]
  exact h.perm hshown.writtenTypes_perm.symm _

theorem UsesOnce.written (h : s.UsesOnce) (hshown : s.Shown) : s.written.UsesOnce := by
  intro t ht
  have hsame : ∀ n, s.whole.directive? n = s.written.whole.directive? n := by
    intro n
    rw [directive?_whole, directive?_whole, ← hshown.writtenDirectives_eq]
    rfl
  rw [← Addition.singleUses_congr fun u _ => hsame u.name]
  exact h t (hshown.writtenTypes_perm.mem_iff.mp ht)

/-- **A built schema is written out**, type by type. -/
theorem Built.writtenOut (h : s.Built) (hshown : s.Shown)
    (hquery : s.types.has OperationKind.query.rootName = true) : s.WrittenOut := by
  have hperm := hshown.writtenTypes_perm
  have hwritten := h.written hshown
  have hkeys : ∀ n, n ∈ Table.keys s.writtenTypes ↔ s.types.has n = true := by
    intro n
    rw [← Table.mem_keys_iff]
    exact (hperm.map Prod.fst).mem_iff
  refine
    { text := text_eq_layout fun t ht => (h.defined t ht).1
      types := hperm
      directives := hshown.writtenDirectives_eq
      typesOnce := hwritten.names
      directivesOnce := hwritten.directives
      nodes := fun t ht => ⟨?_, (h.defined t ht).2.2, fun e he => (h.extended t ht e he).2.1⟩
      order := ?_ }
  · have hnodes := hwritten.nodesOf_whole (hperm.mem_iff.mpr ht)
    rwa [Addition.nodesOf, typeNodes_whole] at hnodes
  · obtain ⟨rest, hrest, hsorted⟩ := roots_first (precedes_written h.names) ((hkeys _).mpr hquery)
    refine ⟨rest, hrest.trans ?_, hsorted⟩
    simp only [hkeys]

/-- **A schema that is read back is built again from its text**, as it is written. -/
theorem Built.ofText_text (h : s.Built) (hshown : s.Shown) (huses : s.UsesOnce)
    (hread : s.written.ReadsBack) : ofText s.text = .ok s.written := by
  rw [text_eq_layout fun t ht => (h.defined t ht).1, ofText, hread]
  exact (h.written hshown).ofAddition_whole (huses.written hshown)

/-- Writing it again gives the same text. -/
theorem Built.text_written (h : s.Built) : s.written.text = s.text := by
  have htypes : ∀ t ∈ s.types, t.2.written = true := fun t ht => (h.defined t ht).1
  have hwritten : ∀ t ∈ s.written.types, t.2.written = true := fun t ht =>
    htypes t (List.mem_filter.mp ((List.mergeSort_perm _ _).mem_iff.mp ht)).1
  rw [text_eq_layout hwritten, written_written, text_eq_layout htypes]

theorem built_empty : Schema.empty.Built where
  names := List.nodup_nil
  own := fun t ht => by cases ht
  defined := fun t ht => by cases ht
  extended := fun t ht => by cases ht
  members := fun t ht => by cases ht
  words := fun t ht => by cases ht
  directives := List.nodup_nil
  known := fun m hm => by cases hm
  kinds := rfl
  texts := fun n hn => by cases hn
  nodes := fun n hn => by cases hn
  directiveNodes := fun d hd => by cases hd

theorem invariant_built : Schema.Invariant Schema.Built where
  empty := built_empty
  built _ hb _ h := built_ofAddition hb h

end Schema

/-- A schema to start from was built from documents. -/
def BaseOption.Built : BaseOption → Prop
  | .given s _ => s.Built
  | _ => True

namespace Generate

variable {b : Blueprint} {d d' : Draft} {g : Generated}

/-- A schema to start from is as built, whether it is read or given. -/
theorem built_base (hb : b.base.Built) {base : Option Schema} (h : b.base.schema? = .ok base) :
    ∀ s ∈ base, s.Built := by
  refine Schema.invariant_built.of_base (fun s hs hgiven => ?_) h
  rw [hgiven] at hb
  exact hb

/-- A generated schema is as built, and has a query root. -/
theorem built_generated (hb : b.base.Built) (h : generate b d = (.ok g, d')) :
    g.schema.Built ∧ g.schema.types.has OperationKind.query.rootName = true := by
  obtain ⟨base, _, hbase, -, -, hschema, -⟩ := generate_eq_ok h
  obtain ⟨s, hs, hrooted⟩ := Outcome.bind_eq_ok.mp hschema
  obtain ⟨hquery, heq⟩ := rooted_eq_ok hrooted
  rw [heq]
  exact ⟨(Schema.invariant_built.of_build (built_base hb hbase) hs).perm (List.Perm.refl _) _, hquery⟩

/-- The roots of types with the usual names. -/
theorem lookup_usual (types : Table SchemaType) (ks : List OperationKind) (k : OperationKind) :
    (ks.filterMap fun k => if types.has k.rootName then some (k, k.rootName) else none).lookup k
      = if k ∈ ks ∧ types.has k.rootName = true then some k.rootName else none := by
  induction ks with
  | nil => rfl
  | cons k' ks ih =>
    by_cases hhas : types.has k'.rootName = true
    · rw [List.filterMap_cons_some (by rw [if_pos hhas]), List.lookup_cons, ih]
      by_cases hk : k = k'
      · subst hk
        simp [hhas]
      · simp [hk, beq_eq_false_iff_ne.mpr hk]
    · rw [List.filterMap_cons_none (by rw [if_neg hhas]), ih]
      by_cases hk : k = k'
      · subst hk
        simp [hhas]
      · simp [hk]

/-- The query and the mutation root of a generated schema are those of its text. -/
theorem root?_generated (h : generate b d = (.ok g, d')) {k : OperationKind}
    (hk : k ≠ .subscription) (hperm : g.schema.written.types.Perm g.schema.types) :
    g.schema.written.root? k = g.schema.root? k := by
  obtain ⟨base, _, -, -, -, hschema, -⟩ := generate_eq_ok h
  obtain ⟨s, -, hrooted⟩ := Outcome.bind_eq_ok.mp hschema
  have heq := (rooted_eq_ok hrooted).2
  have hother : (s.roots.filter (·.1 == .subscription)).lookup k = none := by
    rw [List.lookup_eq_none_iff]
    intro r hr
    have hr := beq_iff_eq.mp (List.mem_filter.mp hr).2
    rw [hr]
    exact bne_iff_ne.mpr hk
  have hhas : Table.has g.schema.writtenTypes k.rootName = g.schema.types.has k.rootName := by
    rw [Bool.eq_iff_iff, ← Table.mem_keys_iff, ← Table.mem_keys_iff]
    exact (hperm.map Prod.fst).mem_iff
  have hwritten : g.schema.written.root? k
      = if g.schema.types.has k.rootName = true then some k.rootName else none := by
    show (Schema.rootsByName g.schema.writtenTypes).lookup k = _
    rw [Schema.rootsByName, lookup_usual, hhas]
    cases k <;> simp
  rw [hwritten, heq, Schema.root?, List.lookup_append, hother, Option.or_none, lookup_usual]
  cases k with
  | subscription => exact absurd rfl hk
  | _ => simp

/-! ### Whole generations -/

/-- **A generated schema is written out, and built again from its text**, if nothing of it is left
out, no directive is used twice on a type, and its nodes are read as they are written. -/
theorem rebuilt_from_text (hb : b.base.Built) (h : generate b d = (.ok g, d'))
    (hshown : g.schema.Shown) (huses : g.schema.UsesOnce) (hread : g.schema.written.ReadsBack) :
    g.schema.WrittenOut ∧ ∃ s, Schema.ofText g.schema.text = .ok s
      ∧ s.types.Perm g.schema.types ∧ (∀ n, s.types.get? n = g.schema.types.get? n)
      ∧ s.directives = g.schema.directives
      ∧ (∀ k, k ≠ OperationKind.subscription → s.root? k = g.schema.root? k)
      ∧ s.text = g.schema.text := by
  obtain ⟨hbuilt, hquery⟩ := built_generated hb h
  have hout := hbuilt.writtenOut hshown hquery
  exact ⟨hout, g.schema.written, hbuilt.ofText_text hshown huses hread, hout.types,
    Table.get?_perm hout.typesOnce hout.types, hout.directives,
    fun k hk => root?_generated h hk hout.types, hbuilt.text_written⟩

/-- A field without arguments. -/
def plainField (name type : String) : FieldNode :=
  { description := none, name, arguments := [], type := .named type, directives := [] }

/-- An object type with such fields. -/
def objectNode (extends? : Bool) (name : String) (directives : List DirectiveUse)
    (fields : List (String × String)) : TypeNode :=
  { description := none, extends?, name, directives
    body := .object [] (fields.map fun f => plainField f.1 f.2) }

/-- A directive for object types. -/
def tagNode : DirectiveNode :=
  { description := none, name := "tag", arguments := [], repeatable := false
    locations := ["OBJECT"] }

/-- A query root with it. -/
def taggedNode : TypeNode := objectNode false "Query" [⟨"tag", []⟩] [("ping", "String")]

/-- A schema to start from, with that query root. -/
def tagged : Schema := ⟨[("Query", .ofNode taggedNode)], [tagNode], [(.query, "Query")]⟩

theorem built_tagged : tagged.Built :=
  Schema.built_ofAddition (a := tagged.whole) (fun b hb => by cases hb) (by rfl)

/-- Object types with fields of such types and directives, over the schema to start from. -/
def declared (base : BaseOption) (types : Table TypeDeclaration) : Blueprint where
  base := base
  types := types
  models := []
  policies := []
  plugins := []
  columnTypes := []
  implementations := []

/-- A field of the query root that returns a type of its own. -/
def noted : Blueprint := declared (.given tagged [])
  [("Query", .inline (.fields [("note", .field (.value (.text "Note")))])),
    ("Note", .inline (.fields [("text", .field (.value (.text "String")))]))]

/-- What is declared, as nodes. -/
def notedNodes : List TypeNode :=
  [objectNode true "Query" [] [("note", "Note")], objectNode false "Note" [] [("text", "String")]]

/-- What is generated. -/
def notedSchema : Schema := Schema.after ⟨some tagged, notedNodes.map .type⟩

/-- What is declared, as text. -/
def notedText : String :=
  "extend type Query \x7b\n  note: Note\n\x7d\n\ntype Note \x7b\n  text: String\n\x7d"

theorem schema_noted (h : generate noted {} = (.ok g, d')) (htext : g.text = notedText) :
    g.schema = notedSchema := by
  obtain ⟨base, _, hbase, -, -, hschema, -⟩ := generate_eq_ok h
  cases hbase
  rw [htext] at hschema
  have hread : Document.ofText? notedText = .ok (notedNodes.map .type) :=
    Parser.Reads.run_eq ⟨_, .of_read (n := 16) (by decide +kernel : _ = some
      [.name "extend", .name "type", .name "Query", .mark .braceL, .name "note", .mark .colon,
        .name "Note", .mark .braceR, .name "type", .name "Note", .mark .braceL, .name "text",
        .mark .colon, .name "String", .mark .braceR]), rfl⟩
  have hbuilt : (build (some tagged) notedText >>= rooted) = .ok notedSchema := by
    unfold build
    rw [if_neg (by decide)]
    dsimp only
    rw [hread]
    rfl
  exact Except.ok.inj (hschema.symm.trans hbuilt)

theorem readsBack_noted : notedSchema.written.ReadsBack := by
  have htypes : notedSchema.writtenTypes = notedSchema.types :=
    Schema.writtenTypes_of_pairwise (by decide +kernel) (by decide +kernel)
  unfold Schema.written
  rw [htypes]
  exact Parser.Reads.run_eq ⟨_, .of_read (n := 40) (by decide +kernel : _ = some
    [.name "directive", .mark .at, .name "tag", .name "on", .name "OBJECT", .name "type",
      .name "Query", .mark .at, .name "tag", .mark .braceL, .name "ping", .mark .colon,
      .name "String", .mark .braceR, .name "extend", .name "type", .name "Query", .mark .braceL,
      .name "note", .mark .colon, .name "Note", .mark .braceR, .name "type", .name "Note",
      .mark .braceL, .name "text", .mark .colon, .name "String", .mark .braceR]), rfl⟩

/-- A query root that is defined in a base with a directive and then extended is written out. -/
theorem rebuilt_from_text_noted : ∃ g d', generate noted {} = (.ok g, d') ∧ noted.base.Built
    ∧ g.schema.Shown ∧ g.schema.UsesOnce ∧ g.schema.written.ReadsBack ∧ g.schema.WrittenOut
    ∧ ∃ s, Schema.ofText g.schema.text = .ok s ∧ s.types.Perm g.schema.types
      ∧ (∀ n, s.types.get? n = g.schema.types.get? n) ∧ s.directives = g.schema.directives
      ∧ (∀ k, k ≠ OperationKind.subscription → s.root? k = g.schema.root? k)
      ∧ s.text = g.schema.text := by
  have hgives : gives (fun g _ => g.text == notedText) noted {} = true := by
    unfold gives viaDocument Generate.wire Schema.walk Schema.entered
    simp only [Schema.enter_eq_enterN]
    decide +kernel
  obtain ⟨g, d', h, -, -, htext⟩ := eq_of_gives hgives
  have hb : noted.base.Built := built_tagged
  have hschema := schema_noted h (beq_iff_eq.mp htext)
  have hshown : g.schema.Shown := by
    rw [hschema]
    exact ⟨by decide +kernel, by decide +kernel⟩
  have huses : g.schema.UsesOnce := by
    rw [hschema]
    unfold Schema.UsesOnce
    decide +kernel
  have hread : g.schema.written.ReadsBack := by
    rw [hschema]
    exact readsBack_noted
  exact ⟨g, d', h, hb, hshown, huses, hread, rebuilt_from_text hb h hshown huses hread⟩

/-- Whether a text is read, but as a document of which no schema is built. -/
def readsUnbuildable (text : String) : Bool :=
  match Spells.read (text.toList.length + 1) text.toList with
  | some ts =>
    match (do Parser.definitions (← Parser.fuel) : Parser Document) ts with
    | some (doc, []) => !(Schema.ofDocument doc).isOk
    | _ => false
  | none => false

theorem ofText_of_readsUnbuildable {text : String} (h : readsUnbuildable text) :
    (∃ doc, Document.ofText? text = .ok doc) ∧ ∀ s, Schema.ofText text ≠ .ok s := by
  unfold readsUnbuildable at h
  split at h
  · rename_i ts hspells
    split at h
    · rename_i doc hdoc
      have hread : Document.ofText? text = .ok doc :=
        Parser.Reads.run_eq ⟨ts, .of_read hspells, hdoc⟩
      refine ⟨⟨doc, hread⟩, fun s hs => ?_⟩
      obtain ⟨doc', hread', hs⟩ := Outcome.bind_eq_ok.mp hs
      rw [hread] at hread'
      cases hread'
      rw [hs] at h
      cases h
    · cases h
  · cases h

/-- A generation succeeds, but from the text of its schema, which is read, no schema is built. -/
def Unbuildable (b : Blueprint) (text : String) : Prop :=
  b.base.Built ∧ ∃ g d', generate b {} = (.ok g, d') ∧ g.schema.text = text
    ∧ (∃ doc, Document.ofText? text = .ok doc) ∧ ∀ s, Schema.ofText text ≠ .ok s

theorem unbuildable_of_gives {b : Blueprint} {text : String} (hb : b.base.Built)
    (h : gives (fun g _ => g.schema.text == text && readsUnbuildable text) b {} = true) :
    Unbuildable b text := by
  obtain ⟨g, d', h, -, -, htext⟩ := eq_of_gives h
  obtain ⟨htext, hread⟩ := Bool.and_eq_true_iff.mp htext
  exact ⟨hb, g, d', h, beq_iff_eq.mp htext, ofText_of_readsUnbuildable hread⟩

/-- A query root with a field of a type that is named as in introspection. -/
def hidden : Blueprint := declared .absent
  [("Query", .inline (.fields [("meta", .field (.value (.text "__Meta")))])),
    ("__Meta", .inline (.fields [("name", .field (.value (.text "String")))]))]

/-- A directive that does nothing. -/
def idle (name : String) (arguments : Fields) : Directive := ⟨name, arguments, [], false⟩

/-- A field with a directive that is named as one of every schema. -/
def renamed : Blueprint := declared .absent
  [("Query", .inline (.fields [("note", .field (.config
    { returnType := .text "String"
      directives := .list [.directive (idle "deprecated" [("level", .int 1)])] }))]))]

/-- The query root with the directive that it has in the schema to start from. -/
def retagged : Blueprint := declared (.given tagged [])
  [("Query", .inline (.fields [("note", .field (.value (.text "String"))),
    (policyKey, .policy (.policy { Policy.plain with
      directives := .list [.directive (idle "tag" [])] }))]))]

/-- **A type with a name as in introspection is not written**, although others mention it, and
neither is a directive with the name of one of every schema. A directive that a type has in its
definition may stand on an extension again, but not in one document. -/
theorem not_rebuilt_from_text :
    Unbuildable hidden "type Query \x7b\n  meta: __Meta\n\x7d"
    ∧ Unbuildable renamed "type Query \x7b\n  note: String @deprecated(level: 1)\n\x7d"
    ∧ Unbuildable retagged ("directive @tag on OBJECT\n\ntype Query @tag \x7b\n  ping: String\n\x7d"
      ++ "\n\nextend type Query @tag \x7b\n  note: String\n\x7d") := by
  refine ⟨unbuildable_of_gives trivial ?_, unbuildable_of_gives trivial ?_,
    unbuildable_of_gives built_tagged ?_⟩
  all_goals
    unfold gives viaDocument Generate.wire Schema.walk Schema.entered
    simp only [Schema.enter_eq_enterN]
    decide +kernel

end Generate
end SchemaForge

import SchemaForge.Proofs.Registry.Written
import SchemaForge.Proofs.Schema.Building

/-!
# Fields of built schemas and lines of the registry

The nodes of the document that a registry stands for are those of its types. So a field of
the schema that is built from the document has the type of its line, if it has one, and else
the type that it had before.
-/
namespace SchemaForge

open Language

/-- Whether the lines of a type are fields. -/
def TypeEntry.hasFields (entry : TypeEntry) : Bool :=
  entry.kind == .object || entry.kind == .interface

namespace Registry

/-- The type of a field: that of its line, or else the one that it had before. -/
def typeOf? (r : Registry) (base : Option Schema) (type field : String) : Option TypeRef :=
  if (r.entry type).hasFields && (r.entry type).lines.has field then
    (TypeRef.ofText? (r.line type field).type).toOption
  else (base.bind (·.field? type field)).map (·.type)

variable {r : Registry} {records : DirectiveRecords} {existingTypes existingDirectives : List String}
  {doc : Document} {base : Option Schema}

/-- What is said of a type are its uses of directives and its body. -/
theorem contentOf_eq_some {name : String} {entry : TypeEntry} {x : List DirectiveUse × TypeBody}
    (h : contentOf name entry = some x) :
    usesOf entry.shown = some x.1 ∧ bodyOf name entry = some x.2 := by
  obtain ⟨uses, huses, h⟩ := Option.bind_eq_some_iff.mp h
  obtain ⟨body, hbody, h⟩ := Option.bind_eq_some_iff.mp h
  cases h
  exact ⟨huses, hbody⟩

/-! ### Nodes of types -/

theorem mapM_eq_some_iff {α β : Type} {f : α → Option β} {xs : List α} {ys : List β} :
    xs.mapM f = some ys ↔ xs.map f = ys.map some := by
  induction xs generalizing ys with
  | nil => cases ys <;> simp
  | cons x xs ih =>
    rw [List.mapM_cons]
    cases hx : f x with
    | none => cases ys <;> simp [hx]
    | some y =>
      cases hxs : xs.mapM f with
      | none =>
        have hnot : ∀ zs : List β, xs.map f ≠ zs.map some := fun zs hzs => by
          rw [ih.mpr hzs] at hxs
          cases hxs
        cases ys with
        | nil => simp
        | cons z zs => simp [hnot zs]
      | some zs =>
        have hzs := ih.mp hxs
        cases ys <;> simp [hx, hzs, List.map_inj_right]

theorem mem_ordered {e : String × TypeEntry} : e ∈ r.ordered ↔ e ∈ r := by
  unfold ordered
  rw [List.mem_append, List.mem_filter, List.mem_filter, ← and_or_left]
  refine and_iff_left_of_imp fun _ => ?_
  cases hq : e.1 == queryRoot <;> simp [bne, hq]

/-- The node of a type. -/
def nodeOf (existing : List String) (name : String) (x : List DirectiveUse × TypeBody) : TypeNode :=
  { description := none, extends? := existing.contains name, name, directives := x.1, body := x.2 }

/-- The document has its own directives, and then a node of each type of which something is
written. -/
theorem documentOf_eq_some (h : r.documentOf records existingTypes existingDirectives = some doc) :
    ∃ nodes : List TypeNode, doc = directivesOf records existingDirectives ++ nodes.map .type
      ∧ (r.ordered.filter (isWritten existingTypes)).map
        (fun e => (contentOf e.1 e.2).map (nodeOf existingTypes e.1)) = nodes.map some := by
  obtain ⟨definitions, hdefinitions, rfl⟩ := Option.map_eq_some_iff.mp h
  have hnodes : ∀ (es : List (String × TypeEntry)) (ds : Document),
      es.map (fun e => (contentOf e.1 e.2).map (definitionOf (existingTypes.contains e.1) e.1))
        = ds.map some → ∃ nodes : List TypeNode, ds = nodes.map .type
        ∧ es.map (fun e => (contentOf e.1 e.2).map (nodeOf existingTypes e.1)) = nodes.map some := by
    intro es
    induction es with
    | nil => exact fun ds hds => ⟨[], by simpa using hds.symm, rfl⟩
    | cons e es ih =>
      intro ds hds
      cases ds with
      | nil => cases hds
      | cons d ds =>
        obtain ⟨hd, hds⟩ := List.cons.inj hds
        obtain ⟨nodes, rfl, hnodes⟩ := ih ds hds
        obtain ⟨x, hx, rfl⟩ := Option.map_eq_some_iff.mp hd
        exact ⟨nodeOf existingTypes e.1 x :: nodes, rfl, by rw [List.map_cons, hx, hnodes]; rfl⟩
  obtain ⟨nodes, rfl, hmap⟩ := hnodes _ _ (mapM_eq_some_iff.mp hdefinitions)
  exact ⟨nodes, rfl, hmap⟩

/-- Such a document says nothing of the schema itself. -/
theorem parts_documentOf (base : Option Schema) {nodes : List TypeNode}
    (h : doc = directivesOf records existingDirectives ++ nodes.map .type) :
    (⟨base, doc⟩ : Addition).typeNodes = nodes ∧ (⟨base, doc⟩ : Addition).rootNodes = []
      ∧ (⟨base, doc⟩ : Addition).directives
        = (records.filter fun d => !existingDirectives.contains d.1).map fun d => d.2.node d.1 := by
  subst h
  unfold Addition.typeNodes Addition.rootNodes Addition.directives directivesOf
  simp [List.filterMap_append, List.filterMap_map]

/-- The type nodes of the document are those of the types of which something is written. -/
theorem mem_typeNodes_documentOf (h : r.documentOf records existingTypes existingDirectives
    = some doc) {n : TypeNode} : n ∈ (⟨base, doc⟩ : Addition).typeNodes
      ↔ ∃ e ∈ r, isWritten existingTypes e ∧
        (contentOf e.1 e.2).map (nodeOf existingTypes e.1) = some n := by
  obtain ⟨nodes, hdoc, hnodes⟩ := documentOf_eq_some h
  have hmem : n ∈ nodes ↔ some n ∈ nodes.map some := by simp
  rw [(parts_documentOf base hdoc).1, hmem, ← hnodes]
  simp only [List.mem_map, List.mem_filter, mem_ordered, and_assoc]

/-- Everything that is written has its node. -/
theorem exists_node_of_isWritten (h : r.documentOf records existingTypes existingDirectives
    = some doc) {e : String × TypeEntry} (he : e ∈ r) (hwritten : isWritten existingTypes e) :
    ∃ n ∈ (⟨base, doc⟩ : Addition).typeNodes, n.name = e.1 ∧ bodyOf e.1 e.2 = some n.body := by
  obtain ⟨definitions, hdefinitions, -⟩ := Option.map_eq_some_iff.mp h
  have hitems := mapM_eq_some_iff.mp hdefinitions
  have hmem : (contentOf e.1 e.2).map (definitionOf (existingTypes.contains e.1) e.1)
      ∈ definitions.map some :=
    hitems ▸ List.mem_map.mpr ⟨e, List.mem_filter.mpr ⟨mem_ordered.mpr he, hwritten⟩, rfl⟩
  obtain ⟨d, -, hd⟩ := List.mem_map.mp hmem
  obtain ⟨x, hx, -⟩ := Option.map_eq_some_iff.mp hd.symm
  refine ⟨nodeOf existingTypes e.1 x, (mem_typeNodes_documentOf h).mpr ⟨e, he, hwritten, ?_⟩,
    rfl, (contentOf_eq_some hx).2⟩
  rw [hx]
  rfl

/-! ### Fields of nodes -/

/-- A field keeps the name and the signature of its line. -/
theorem fieldOf_eq_some {type : String} {named : String × FieldLine} {f : FieldNode}
    (h : fieldOf type named = some f) :
    f.name = named.1 ∧ (TypeRef.ofText? named.2.type).toOption = some f.type := by
  unfold fieldOf at h
  obtain ⟨arguments, -, h⟩ := Option.bind_eq_some_iff.mp h
  obtain ⟨t, ht, h⟩ := Option.bind_eq_some_iff.mp h
  obtain ⟨directives, -, h⟩ := Option.bind_eq_some_iff.mp h
  cases h
  exact ⟨rfl, ht⟩

/-- What a type with fields says are the fields of its lines. -/
theorem bodyOf_of_hasFields {name : String} {entry : TypeEntry} {body : TypeBody}
    (h : entry.hasFields) (hbody : bodyOf name entry = some body) :
    entry.lines.map (fieldOf name) = body.fields.map some
      ∧ Addition.memberNames body = body.fields.map (·.name) := by
  unfold TypeEntry.hasFields at h
  unfold bodyOf at hbody
  cases hkind : entry.kind with
  | object =>
    rw [hkind] at hbody
    obtain ⟨fs, hfs, rfl⟩ := Option.map_eq_some_iff.mp hbody
    exact ⟨mapM_eq_some_iff.mp hfs, rfl⟩
  | interface =>
    rw [hkind] at hbody
    obtain ⟨fs, hfs, rfl⟩ := Option.map_eq_some_iff.mp hbody
    exact ⟨mapM_eq_some_iff.mp hfs, rfl⟩
  | scalar | union | enum | input =>
    rw [hkind] at h
    cases h

theorem keys_lines_of_fields {name : String} {lines : Table FieldLine} {fs : List FieldNode}
    (h : lines.map (fieldOf name) = fs.map some) : Table.keys lines = fs.map (·.name) := by
  induction lines generalizing fs with
  | nil =>
    rw [List.map_eq_nil_iff.mp h.symm]
    rfl
  | cons l lines ih =>
    cases fs with
    | nil => cases h
    | cons f fs =>
      obtain ⟨hl, hlines⟩ := List.cons.inj h
      rw [List.map_cons, (fieldOf_eq_some hl).1, ← ih hlines]
      rfl

/-- Other types have no fields. -/
theorem hasFields_of_mem {name : String} {entry : TypeEntry} {body : TypeBody} {f : FieldNode}
    (hbody : bodyOf name entry = some body) (hf : f ∈ body.fields) : entry.hasFields := by
  unfold TypeEntry.hasFields
  unfold bodyOf at hbody
  cases hkind : entry.kind with
  | object | interface => rfl
  | scalar | union | enum =>
    rw [hkind] at hbody
    cases hbody
    cases hf
  | input =>
    rw [hkind] at hbody
    obtain ⟨fs, -, rfl⟩ := Option.map_eq_some_iff.mp hbody
    cases hf

/-- A type with lines is in the registry. -/
theorem mem_of_lines {name : String} (h : (r.entry name).lines ≠ []) : (name, r.entry name) ∈ r := by
  unfold entry at h ⊢
  cases hget : Table.get? r name with
  | none =>
    rw [hget] at h
    exact absurd rfl h
  | some e => exact Table.mem_of_get? hget

/-- A type with a line for a field has a node with its lines. -/
theorem exists_node_of_line (hdoc : r.documentOf records existingTypes existingDirectives
    = some doc) {type field : String} (hfields : (r.entry type).hasFields)
    (hhas : (r.entry type).lines.has field) :
    ∃ n ∈ (⟨base, doc⟩ : Addition).typeNodes, n.name = type
      ∧ bodyOf type (r.entry type) = some n.body := by
  have hlines : (r.entry type).lines ≠ [] := by
    intro hnil
    rw [hnil] at hhas
    cases hhas
  refine exists_node_of_isWritten hdoc (mem_of_lines hlines) ?_
  unfold isWritten
  split
  · rename_i hscalar
    rw [TypeEntry.hasFields, show (r.entry type).kind = .scalar from hscalar] at hfields
    cases hfields
  · simpa using hlines

/-- A field of a node has the type of its line. -/
theorem typeOf?_of_body {name : String} {body : TypeBody} {f : FieldNode}
    (hbody : bodyOf name (r.entry name) = some body)
    (honce : (Addition.memberNames body).Nodup) (hf : f ∈ body.fields) :
    r.typeOf? base name f.name = some f.type := by
  have hfields := hasFields_of_mem hbody hf
  obtain ⟨hlines, hnames⟩ := bodyOf_of_hasFields hfields hbody
  obtain ⟨l, hl, hline⟩ := List.mem_map.mp (hlines ▸ List.mem_map_of_mem hf)
  obtain ⟨hname, htype⟩ := fieldOf_eq_some hline
  have hkeys := keys_lines_of_fields hlines
  have hget : (r.entry name).lines.get? l.1 = some l.2 := by
    refine Table.get?_of_mem ?_ hl
    rw [hkeys, ← hnames]
    exact honce
  have hhas : (r.entry name).lines.has l.1 = true := by
    rw [Table.has_eq_isSome, hget]
    rfl
  rw [typeOf?, hname, hfields, hhas, Bool.and_self, if_pos rfl, line, hget]
  exact htype

/-- A field that was there before keeps its type, if no node has it. -/
theorem typeOf?_of_old {b : Schema} {type : String} {f : FieldNode} (hb : b.Distinct)
    (hdoc : r.documentOf records existingTypes existingDirectives = some doc)
    (hold : f ∈ b.fields type) (hapart : ∀ n ∈ (⟨some b, doc⟩ : Addition).typeNodes,
      n.name = type → f.name ∉ Addition.memberNames n.body) :
    r.typeOf? (some b) type f.name = some f.type := by
  have hnone : ((r.entry type).hasFields && (r.entry type).lines.has f.name) = false := by
    rw [Bool.eq_false_iff]
    intro hline
    obtain ⟨hfields, hhas⟩ := Bool.and_eq_true_iff.mp hline
    obtain ⟨n, hn, hname, hbody⟩ := exists_node_of_line hdoc hfields hhas
    refine hapart n hn hname ?_
    obtain ⟨hlines, hnames⟩ := bodyOf_of_hasFields hfields hbody
    rw [hnames, ← keys_lines_of_fields hlines, Table.mem_keys_iff]
    exact hhas
  rw [typeOf?, hnone, if_neg Bool.false_ne_true, Option.bind_some, hb.field?_of_mem hold]
  rfl

/-- **A field of the schema that is built has the type of its line, or else the one that it
had before.** -/
theorem typeOf?_of_mem {s : Schema} {type : String} {f : FieldNode}
    (hnodup : (Table.keys r).Nodup) (hbase : ∀ b ∈ base, b.Distinct)
    (hdoc : r.documentOf records existingTypes existingDirectives = some doc)
    (h : Schema.ofAddition ⟨base, doc⟩ = .ok s) (hf : f ∈ s.fields type) :
    r.typeOf? base type f.name = some f.type := by
  have hfieldsOnce := (Addition.once_of_fits (Schema.ofAddition_eq_ok h).1).2
  rcases Schema.field_ofAddition h hf with ⟨n, hn, rfl, hown⟩ | ⟨b, hb, hold, hapart⟩
  · obtain ⟨e, he, -, hnode⟩ := (mem_typeNodes_documentOf hdoc).mp hn
    obtain ⟨x, hx, rfl⟩ := Option.map_eq_some_iff.mp hnode
    have hentry : r.entry e.1 = e.2 := by
      rw [entry, Table.get?_of_mem hnodup he]
      rfl
    refine typeOf?_of_body ?_ (Schema.nodup_memberNames hfieldsOnce hn) hown
    exact hentry ▸ (contentOf_eq_some hx).2
  · obtain rfl : base = some b := hb
    exact typeOf?_of_old (hbase b rfl) hdoc hold hapart

end Registry
end SchemaForge

import SchemaForge.Proofs.Registry.Edits
import SchemaForge.Proofs.Registry.Conforming
import SchemaForge.Proofs.Registry.Inputs
import SchemaForge.Proofs.Schema.Uses

/-!
# Uses of directives in written registries

The document that a registry stands for describes every type once, and its uses of directives are
those that the registry bears on types, on their fields and on fields of inputs. Its own
directives are the recorded ones that were not there before.
-/
namespace SchemaForge

open Language

/-! ### Arguments of uses -/

/-- A literal of the type of an argument is no input object. -/
theorem Addition.literalOnce_of_admits {t : TypeRef} {x : Literal} (h : t.admits x = true) :
    literalOnce x = true := by
  induction t generalizing x with
  | named n => cases x <;> first | rfl | cases h
  | nonNull t ih =>
    cases x with
    | null => rfl
    | _ => exact ih h
  | list t ih =>
    cases x with
    | null => rfl
    | list xs =>
      have hxs : ∀ xs : List Literal, (∀ x ∈ xs, t.admits x = true) → literalsOnce xs = true := by
        intro xs
        induction xs with
        | nil => exact fun _ => rfl
        | cons x xs ihxs =>
          intro hall
          obtain ⟨hx, hxs⟩ := List.forall_mem_cons.mp hall
          rw [literalsOnce, ih hx, ihxs hxs, Bool.and_self]
      exact hxs xs (List.all_eq_true.mp h)
    | _ => cases h

/-- A use that conforms to its directive has the arguments that it needs. -/
theorem Addition.argumentsFit_of_conforms {a : Addition} {u : DirectiveUse} {d : DirectiveNode}
    (hd : a.directive? u.name = some d) (h : u.Conforms d)
    (honce : (u.arguments.map Prod.fst).Nodup) : a.argumentsFit u = true := by
  unfold argumentsFit
  rw [hd]
  simp only [Bool.and_eq_true, List.all_eq_true, distinct_iff_nodup, Bool.or_eq_true,
    List.any_eq_true, List.contains_iff_mem, List.mem_map, beq_iff_eq]
  refine ⟨⟨honce, fun x hx => ?_⟩, fun n hx => ?_, fun i hi => ?_⟩
  · obtain ⟨i, -, -, hadmits⟩ := h.declared x hx
    exact literalOnce_of_admits hadmits
  · obtain ⟨y, hy, rfl⟩ := hx
    obtain ⟨i, hi, hname, -⟩ := h.declared y hy
    exact ⟨i, hi, hname⟩
  · cases hnonNull : i.type.isNonNull with
    | false => exact .inl (by simp [InputNode.isRequired, hnonNull])
    | true =>
      obtain ⟨x, hx, hname⟩ := h.given i hi hnonNull
      exact .inr ⟨x, hx, hname⟩

namespace Registry

variable {r : Registry} {records : DirectiveRecords} {existingTypes existingDirectives : List String}
  {doc : Document} {base : Option Schema}

/-! ### Nodes of types -/

theorem nodup_keys_ordered (hr : (Table.keys r).Nodup) : (Table.keys r.ordered).Nodup := by
  have hperm : r.ordered.Perm r := 
    List.filter_append_perm (fun e : String × TypeEntry => e.1 == queryRoot) r
  exact (hperm.map Prod.fst).nodup_iff.mpr hr

/-- What a field of a node is of its line. -/
theorem exists_line_of_field {existing : List String} {e : String × TypeEntry} {n : TypeNode}
    (h : (contentOf e.1 e.2).map (nodeOf existing e.1) = some n) {f : FieldNode} (hf : f ∈ n.body.fields) :
    ∃ l ∈ e.2.lines, fieldOf e.1 l = some f := by
  obtain ⟨x, hx, rfl⟩ := Option.map_eq_some_iff.mp h
  have hbody := (contentOf_eq_some hx).2
  obtain ⟨hlines, -⟩ := bodyOf_of_hasFields (hasFields_of_mem hbody hf) hbody
  exact List.mem_map.mp (hlines ▸ List.mem_map_of_mem hf)

/-- A field of an input type is that of a line. -/
theorem exists_line_of_input {existing : List String} {e : String × TypeEntry} {n : TypeNode}
    (h : (contentOf e.1 e.2).map (nodeOf existing e.1) = some n) {i : InputNode} (hi : i ∈ n.body.inputs) :
    ∃ l ∈ e.2.lines, memberOf l = some i := by
  obtain ⟨x, hx, rfl⟩ := Option.map_eq_some_iff.mp h
  have hbody := (contentOf_eq_some hx).2
  have hkind : e.2.kind = .input := by
    rw [← kind_of_bodyOf hbody]
    revert hi
    change i ∈ x.2.inputs → _
    cases x.2 <;> simp [TypeBody.inputs, TypeBody.kind]
  have hlines := map_memberOf_of_bodyOf hbody hkind
  exact List.mem_map.mp (hlines ▸ List.mem_map_of_mem hi)

/-- Words of an enum have no directives. -/
theorem directives_of_word {existing : List String} {e : String × TypeEntry} {n : TypeNode}
    (h : (contentOf e.1 e.2).map (nodeOf existing e.1) = some n) {vs : List EnumNode} (hbody : n.body = .enum vs) :
    ∀ v ∈ vs, v.directives = [] := by
  obtain ⟨x, hx, rfl⟩ := Option.map_eq_some_iff.mp h
  have hcontent := (contentOf_eq_some hx).2
  change x.2 = .enum vs at hbody
  have hkind : e.2.kind = .enum := by
    rw [← kind_of_bodyOf hcontent, hbody]
    rfl
  unfold bodyOf at hcontent
  rw [hkind, hbody] at hcontent
  cases hcontent
  exact List.forall_mem_map.mpr fun _ _ => rfl

/-- A field has the arguments and the directives of its line. -/
theorem parts_of_fieldOf {type : String} {l : String × FieldLine} {f : FieldNode}
    (h : fieldOf type l = some f) : l.2.arguments.map (inputOf type l.1) = f.arguments.map some
      ∧ usesOf l.2.directives = some f.directives := by
  obtain ⟨arguments, harguments, h⟩ := Option.bind_eq_some_iff.mp h
  obtain ⟨t, -, h⟩ := Option.bind_eq_some_iff.mp h
  obtain ⟨directives, hdirectives, h⟩ := Option.bind_eq_some_iff.mp h
  cases h
  exact ⟨mapM_eq_some_iff.mp harguments, hdirectives⟩

theorem directives_of_memberOf {l : String × FieldLine} {i : InputNode}
    (h : memberOf l = some i) : usesOf l.2.directives = some i.directives := by
  obtain ⟨t, -, h⟩ := Option.bind_eq_some_iff.mp h
  obtain ⟨directives, hdirectives, h⟩ := Option.bind_eq_some_iff.mp h
  cases h
  exact hdirectives

/-- Arguments of a field have no directives. -/
theorem directives_of_argument {type : String} {l : String × FieldLine} {f : FieldNode}
    (h : fieldOf type l = some f) : ∀ i ∈ f.arguments, i.directives = [] := by
  intro i hi
  obtain ⟨argument, -, hargument⟩ :=
    List.mem_map.mp ((parts_of_fieldOf h).1 ▸ List.mem_map_of_mem hi)
  obtain ⟨signature, -, hargument⟩ := Option.bind_eq_some_iff.mp hargument
  obtain ⟨parts, -, hargument⟩ := Option.bind_eq_some_iff.mp hargument
  cases hargument
  rfl

/-- The document of a registry describes types once each. -/
theorem plain_documentOf (hr : (Table.keys r).Nodup)
    (h : r.documentOf records existingTypes existingDirectives = some doc) :
    (⟨base, doc⟩ : Addition).Plain := by
  obtain ⟨nodes, hdoc, hnodes⟩ := documentOf_eq_some h
  obtain ⟨htypes, hroots, hdirectives⟩ := parts_documentOf base hdoc
  have hdescribed : ∀ n ∈ nodes, ∃ e : String × TypeEntry,
      (contentOf e.1 e.2).map (nodeOf existingTypes e.1) = some n := by
    intro n hn
    obtain ⟨e, -, he⟩ := List.mem_map.mp (hnodes ▸ List.mem_map_of_mem hn)
    exact ⟨e, he⟩
  refine ⟨hroots, ?_, ?_, ?_, ?_⟩
  · have hnames : nodes.map (·.name) = Table.keys (r.ordered.filter (isWritten existingTypes)) := by
      rw [← List.forall₂_eq_eq_eq, List.forall₂_map_left_iff, List.forall₂_map_right_iff] at hnodes
      refine (List.forall₂_eq_eq_eq ▸ ?_ : _ = _).symm
      refine List.forall₂_map_left_iff.mpr (List.forall₂_map_right_iff.mpr ?_)
      refine hnodes.imp fun e n hn => ?_
      obtain ⟨x, -, rfl⟩ := Option.map_eq_some_iff.mp hn
      rfl
    rw [htypes, hnames]
    exact (nodup_keys_ordered hr).sublist (List.filter_sublist.map _)
  · unfold Addition.inputLists
    rw [htypes, hdirectives]
    intro is his
    rcases List.mem_append.mp his with his | his
    · obtain ⟨n, hn, his⟩ := List.mem_flatMap.mp his
      obtain ⟨f, hf, rfl⟩ := List.mem_map.mp his
      obtain ⟨e, he⟩ := hdescribed n hn
      obtain ⟨l, -, hl⟩ := exists_line_of_field he hf
      exact directives_of_argument hl
    · obtain ⟨d, hd, rfl⟩ := List.mem_map.mp his
      obtain ⟨e, -, rfl⟩ := List.mem_map.mp hd
      intro i hi
      obtain ⟨argument, -, hi⟩ := List.mem_filterMap.mp hi
      obtain ⟨k, -, rfl⟩ := Option.map_eq_some_iff.mp hi
      rfl
  · rw [htypes]
    intro n hn vs hbody
    obtain ⟨e, he⟩ := hdescribed n hn
    exact directives_of_word he hbody
  · rw [hdirectives]
    intro d hd
    obtain ⟨e, -, rfl⟩ := List.mem_map.mp hd
    exact ⟨rfl, rfl⟩

/-! ### Uses -/

/-- A use is that of a text. -/
theorem exists_text_of_use {texts : List String} {uses : List DirectiveUse}
    (h : usesOf texts = some uses) {u : DirectiveUse} (hu : u ∈ uses) :
    ∃ text ∈ texts, (Parser.use.run text).toOption = some u :=
  List.mem_map.mp (mapM_eq_some_iff.mp h ▸ List.mem_map_of_mem hu)

/-- The uses in the document are those that the registry bears. -/
theorem uses_documentOf {Q : String → Prop} (hr : (Table.keys r).Nodup) (hbears : r.Bears Q)
    (h : r.documentOf records existingTypes existingDirectives = some doc) :
    ∀ u ∈ (⟨base, doc⟩ : Addition).uses, ∃ text, Q text ∧ (Parser.use.run text).toOption = some u := by
  have hborne : ∀ {texts uses}, (∀ t ∈ texts, Q t) → usesOf texts = some uses →
      ∀ u ∈ uses, ∃ text, Q text ∧ (Parser.use.run text).toOption = some u := by
    intro texts uses hQ huses u hu
    obtain ⟨text, htext, hread⟩ := exists_text_of_use huses hu
    exact ⟨text, hQ text htext, hread⟩
  unfold Addition.uses
  rw [List.forall_mem_flatMap, (plain_documentOf hr h).forall_places fun _ u hu => by cases hu]
  intro n hn
  obtain ⟨e, he, -, hnode⟩ := (mem_typeNodes_documentOf h).mp hn
  obtain ⟨x, hx, rfl⟩ := Option.map_eq_some_iff.mp hnode
  have hentry := hbears e he
  refine ⟨hborne (fun t ht => ?_) (contentOf_eq_some hx).1, fun f hf => ?_, fun i hi => ?_⟩
  · unfold TypeEntry.shown at ht
    split at ht
    · exact hentry.type t ht
    · cases ht
  · obtain ⟨l, hl, hline⟩ := exists_line_of_field hnode hf
    exact hborne (hentry.lines l hl) (parts_of_fieldOf hline).2
  · obtain ⟨l, hl, hline⟩ := exists_line_of_input hnode hi
    exact hborne (hentry.lines l hl) (directives_of_memberOf hline)

end Registry
end SchemaForge

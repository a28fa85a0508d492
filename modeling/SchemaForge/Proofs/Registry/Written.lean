import SchemaForge.Proofs.Registry.Document
import SchemaForge.Proofs.Registry.Records

/-!
# Written registries

**`ofText?_text`**: the text of a readable registry is read as the document that its parts
stand for: the definitions of its directives, and then of its types with the query root first,
each as an extension where the type is there already. What cannot be read is a line without a
return type, and then nothing is.

Whether a registry is readable can be found out on each of its texts alone. This is what lets
a schema be computed from given declarations without reading the whole text again.
-/
namespace SchemaForge

open Language Parser

/-- A registry is readable if all of its types are. -/
def Registry.Readable (r : Registry) : Prop := ∀ e ∈ r, e.2.Readable e.1

/-- Records of directives are readable if the directives and their arguments have names. -/
def DirectiveRecords.Readable (records : DirectiveRecords) : Prop :=
  ∀ d ∈ records, isName d.1 ∧ ∀ a ∈ d.2.arguments, isName a.1

namespace Registry

variable {r : Registry} {records : DirectiveRecords} {existingTypes existingDirectives : List String}
  {s : String}

/-- The definitions of types, in writing order. -/
def typesOf (r : Registry) (existing : List String) : Option Document :=
  (r.ordered.filter (isWritten existing)).mapM fun e =>
    (contentOf e.1 e.2).map (definitionOf (existing.contains e.1) e.1)

/-- The definitions of directives that are not there yet. -/
def directivesOf (records : DirectiveRecords) (existing : List String) : Document :=
  (records.filter fun d => !existing.contains d.1).map fun d => .directive (d.2.node d.1)

/-- The document that a registry stands for, if all of its lines can be read. -/
def documentOf (r : Registry) (records : DirectiveRecords)
    (existingTypes existingDirectives : List String) : Option Document :=
  (r.typesOf existingTypes).map (directivesOf records existingDirectives ++ ·)

/-- A type of which nothing is written has no text. -/
theorem typeTextIn_eq_empty {e : String × TypeEntry} (h : isWritten existingTypes e = false)
    (htext : typeTextIn existingTypes e = .ok s) : s = "" := by
  unfold isWritten at h
  unfold typeTextIn at htext
  dsimp only at htext
  split at h
  · rename_i hkind
    rw [Bool.not_eq_false'] at h
    obtain ⟨hknown, hnone⟩ := Bool.and_eq_true_iff.mp h
    rw [hknown, hnone, beq_iff_eq.mpr hkind, Bool.and_self, Bool.and_self, if_pos rfl] at htext
    cases htext
    rfl
  · rename_i hkind
    rw [Bool.not_eq_false'] at h
    have hnone := List.isEmpty_iff.mp h
    rw [beq_eq_false_iff_ne.mpr hkind, Bool.and_false, Bool.false_and,
      if_neg Bool.false_ne_true] at htext
    unfold typeText at htext
    dsimp only at htext
    rw [if_neg hkind, hnone] at htext
    cases htext
    rfl

/-- The text of a type of which something is written stands for what it says. -/
theorem stands_typeIn {e : String × TypeEntry} (h : e.2.Readable e.1)
    (hwritten : isWritten existingTypes e = true) (htext : typeTextIn existingTypes e = .ok s) :
    Stands definition s ((contentOf e.1 e.2).map
      (definitionOf (existingTypes.contains e.1) e.1)) := by
  unfold isWritten at hwritten
  unfold typeTextIn at htext
  dsimp only at htext
  split at hwritten
  · rename_i hkind
    have hnot : (existingTypes.contains e.1 && e.2.directives.isEmpty) = false := by
      rw [Bool.not_eq_true'] at hwritten
      exact hwritten
    have hbranch : (existingTypes.contains e.1 && e.2.kind == .scalar && e.2.directives.isEmpty)
        = false := by
      rw [beq_iff_eq.mpr hkind, Bool.and_true]
      exact hnot
    rw [hbranch, if_neg Bool.false_ne_true] at htext
    refine stands_type h htext (fun _ hknown hnone => ?_) fun hother => absurd hkind hother
    rw [hknown, hnone] at hnot
    cases hnot
  · rename_i hkind
    rw [beq_eq_false_iff_ne.mpr hkind, Bool.and_false, Bool.false_and,
      if_neg Bool.false_ne_true] at htext
    refine stands_type h htext (fun hscalar => absurd hscalar hkind) fun _ hnone => ?_
    rw [hnone] at hwritten
    cases hwritten

/-- The texts of types stand for their definitions; those without text have none. -/
theorem stands_types {xs : List (String × TypeEntry)} (h : ∀ e ∈ xs, e.2.Readable e.1)
    {texts : List String} (htexts : xs.mapM (typeTextIn existingTypes) = .ok texts) :
    List.Forall₂ (Stands definition) (texts.filter (· != ""))
      ((xs.filter (isWritten existingTypes)).map fun e =>
        (contentOf e.1 e.2).map (definitionOf (existingTypes.contains e.1) e.1)) := by
  induction xs generalizing texts with
  | nil =>
    cases htexts
    exact .nil
  | cons e xs ih =>
    rw [List.mapM_cons] at htexts
    obtain ⟨s, hs, htexts⟩ := Outcome.bind_eq_ok.mp htexts
    obtain ⟨texts', htexts', hcons⟩ := Outcome.bind_eq_ok.mp htexts
    cases hcons
    have hrest := ih (fun e he => h e (List.mem_cons_of_mem _ he)) htexts'
    cases hwritten : isWritten existingTypes e with
    | false =>
      rw [typeTextIn_eq_empty hwritten hs, List.filter_cons_of_neg (by simp),
        List.filter_cons_of_neg (by simp [hwritten])]
      exact hrest
    | true =>
      have hstands := stands_typeIn (h e (List.mem_cons_self ..)) hwritten hs
      have hsome : s ≠ "" := by
        rintro rfl
        obtain ⟨w, tail, hhead⟩ := hstands.head
        cases hhead
      rw [List.filter_cons_of_pos (by simpa using hsome),
        List.filter_cons_of_pos (by simp [hwritten])]
      exact .cons hstands hrest

/-- The texts of directives stand for their definitions. -/
theorem stands_directives {fresh : DirectiveRecords} (h : fresh.Readable) {texts : List String}
    (htexts : fresh.mapM (fun d => DirectiveRecord.definition d.1 d.2) = .ok texts) :
    List.Forall₂ (Stands definition) texts
      ((fresh.map fun d => Definition.directive (d.2.node d.1)).map some) := by
  rw [List.map_map]
  refine forall₂_of_mapM htexts fun d hd s hs => ?_
  exact stands_directive (h d hd).1 (h d hd).2 hs

/-- What is written, part by part. -/
theorem text_eq_ok (hr : r.Readable) (hrecords : records.Readable)
    (h : r.text records existingTypes existingDirectives = .ok s) :
    ∃ texts results, s = String.intercalate "\n\n" texts
      ∧ List.Forall₂ (Stands definition) texts results
      ∧ results.mapM id = r.documentOf records existingTypes existingDirectives := by
  obtain ⟨directives, hdirectives, h⟩ := Outcome.bind_eq_ok.mp h
  obtain ⟨types, htypes, h⟩ := Outcome.bind_eq_ok.mp h
  cases h
  have hfresh : DirectiveRecords.Readable (records.filter fun d =>
      !existingDirectives.contains d.1) := fun d hd => hrecords d (List.mem_filter.mp hd).1
  have hordered : ∀ e ∈ r.ordered, e.2.Readable e.1 := by
    intro e he
    rcases List.mem_append.mp he with he | he <;> exact hr e (List.mem_filter.mp he).1
  refine ⟨_, _, rfl, List.rel_append (stands_directives hfresh hdirectives)
    (stands_types hordered htypes), ?_⟩
  unfold documentOf typesOf directivesOf
  rw [List.mapM_append, mapM_id_map_some, mapM_id_map]
  cases (r.ordered.filter (isWritten existingTypes)).mapM fun e =>
    (contentOf e.1 e.2).map (definitionOf (existingTypes.contains e.1) e.1) <;> rfl

/-- Definitions in a row spell their tokens. -/
theorem spells_definitions {texts : List String} {results : List (Option Definition)}
    (h : List.Forall₂ (Stands definition) texts results) :
    Spells (String.intercalate "\n\n" texts).toList (texts.flatMap tokens) :=
  .intercalate rfl rfl (forall_of_forall₂ h fun _ _ hs => hs.spells)

/-- **The text of a readable registry reads as the document that the registry stands for.** -/
theorem ofText?_text (hr : r.Readable) (hrecords : records.Readable)
    (h : r.text records existingTypes existingDirectives = .ok s) (hs : s ≠ "") :
    (Document.ofText? s).toOption
      = r.documentOf records existingTypes existingDirectives := by
  obtain ⟨texts, results, rfl, hstands, hdocument⟩ := text_eq_ok hr hrecords h
  have hsome : texts ≠ [] := by
    rintro rfl
    exact hs rfl
  have hfuel : texts.length ≤ (texts.flatMap tokens).length + 1 :=
    Nat.le_succ_of_le (length_le_flatMap hstands)
  have hread := definitions_texts hstands hsome hfuel
  have hrun : StateT.run (do definitions (← fuel) : Parser Document) (texts.flatMap tokens)
      = (results.mapM id).map (·, []) := (bind_of_some (fuel_apply _)).trans hread
  unfold Document.ofText? Parser.run
  rw [Token.ofText?_of_spells (spells_definitions hstands), Option.bind_some, ← hdocument, hrun]
  cases results.mapM id <;> rfl

/-- An empty text stands for nothing. -/
theorem documentOf_of_text_empty (hr : r.Readable) (hrecords : records.Readable)
    (h : r.text records existingTypes existingDirectives = .ok "") :
    r.documentOf records existingTypes existingDirectives = some [] := by
  obtain ⟨texts, results, hempty, hstands, hdocument⟩ := text_eq_ok hr hrecords h
  rw [← hdocument]
  cases hstands with
  | nil => rfl
  | cons hfirst hrest =>
    obtain ⟨w, tail, hhead⟩ := hfirst.head
    have htokens := Token.ofText?_of_spells (spells_definitions (.cons hfirst hrest))
    rw [← hempty, List.flatMap_cons, hhead] at htokens
    cases htokens

end Registry

/-! ### Readability, computed -/

/-- Whether a text without comments reads as something. -/
def Language.Parser.readsText {α : Type} (p : Parser α) (s : String) : Bool :=
  match Spells.read (s.toList.length + 1) s.toList with
  | some ts =>
    match p ts with
    | some (_, []) => true
    | _ => false
  | none => false

theorem Language.Parser.reads_of_readsText {α : Type} {p : Parser α} {s : String}
    (h : p.readsText s) : ∃ x, p.Reads s x := by
  unfold readsText at h
  split at h
  · rename_i ts hspells
    split at h
    · rename_i x hp
      exact ⟨x, ts, .of_read hspells, hp⟩
    · cases h
  · cases h

/-- Whether a declared argument is readable. -/
def Registry.readsArgument (type field : String) (a : String × List String) : Bool :=
  isName a.1 && match reconcile type field a.1 a.2 with
    | .ok s => typed.readsText s
    | .error _ => true

/-- Whether a line is readable. -/
def FieldLine.isReadable (kind : TypeKind) (type field : String) (line : FieldLine) : Bool :=
  isName field && line.arguments.all (Registry.readsArgument type field)
    && (line.type == "" || Parser.type.readsText line.type) && line.directives.all use.readsText
    && (if kind = .enum ∨ kind = .union then line.type == "" && line.arguments.isEmpty else true)
    && (if kind = .enum then !isReserved field else true)
    && (if kind = .input then line.arguments.isEmpty else true)

theorem FieldLine.readable_of_isReadable {kind : TypeKind} {type field : String} {line : FieldLine}
    (h : line.isReadable kind type field) : line.Readable kind type field := by
  unfold isReadable at h
  simp only [Bool.and_eq_true, List.all_eq_true, Bool.or_eq_true, beq_iff_eq] at h
  obtain ⟨⟨⟨⟨⟨⟨hname, harguments⟩, htype⟩, huses⟩, hbare⟩, hfree⟩, hplain⟩ := h
  refine ⟨hname, fun a ha => ?_, fun hsome => ?_, fun u hu => reads_of_readsText (huses u hu),
    fun hkind => ?_, fun hkind => ?_, fun hkind => ?_⟩
  · obtain ⟨hargument, hreads⟩ := Bool.and_eq_true_iff.mp (harguments a ha)
    refine ⟨hargument, fun s hs => reads_of_readsText ?_⟩
    rw [hs] at hreads
    exact hreads
  · exact reads_of_readsText (htype.resolve_left hsome)
  · rw [if_pos hkind, Bool.and_eq_true, beq_iff_eq, List.isEmpty_iff] at hbare
    exact hbare
  · rw [if_pos hkind, Bool.not_eq_true'] at hfree
    exact hfree
  · rw [if_pos hkind, List.isEmpty_iff] at hplain
    exact hplain

/-- Whether a type is readable. -/
def TypeEntry.isReadable (name : String) (entry : TypeEntry) : Bool :=
  isName name && entry.directives.all use.readsText
    && (entry.kind == .scalar || entry.lines.all fun l => l.2.isReadable entry.kind name l.1)

theorem TypeEntry.readable_of_isReadable {name : String} {entry : TypeEntry}
    (h : entry.isReadable name) : entry.Readable name := by
  unfold isReadable at h
  simp only [Bool.and_eq_true, List.all_eq_true, Bool.or_eq_true, beq_iff_eq] at h
  obtain ⟨⟨hname, huses⟩, hlines⟩ := h
  refine ⟨hname, fun u hu => reads_of_readsText (huses u hu), fun hkind l hl => ?_⟩
  exact FieldLine.readable_of_isReadable (hlines.resolve_left hkind l hl)

/-- Whether a registry is readable. -/
def Registry.isReadable (r : Registry) : Bool := r.all fun e => e.2.isReadable e.1

theorem Registry.readable_of_isReadable {r : Registry} (h : r.isReadable) : r.Readable :=
  fun e he => TypeEntry.readable_of_isReadable (List.all_eq_true.mp h e he)

/-- Whether records of directives are readable. -/
def DirectiveRecords.isReadable (records : DirectiveRecords) : Bool :=
  records.all fun d => isName d.1 && d.2.arguments.all fun a => isName a.1

theorem DirectiveRecords.readable_of_isReadable {records : DirectiveRecords}
    (h : records.isReadable) : records.Readable := by
  intro d hd
  obtain ⟨hname, harguments⟩ := Bool.and_eq_true_iff.mp (List.all_eq_true.mp h d hd)
  exact ⟨hname, List.all_eq_true.mp harguments⟩

end SchemaForge

import Mathlib.Data.List.Induction
import Mathlib.Data.List.Nodup
import SchemaForge.Proofs.Registry.Covering

/-!
# Uses conform to the definition of their directive

The definition that is printed for a directive declares every argument that a use gives, with a
type that admits the literal, and excludes null only where every use gives a value. Where no
registration of the directive failed it declares nothing else, and it cannot be printed only if
two values of one argument have kinds that do not merge.
-/
namespace SchemaForge

open Language Parser

/-- A use of a directive conforms to a definition: it gives declared arguments only, each a
literal that the type admits, and it gives every argument that cannot be null. -/
structure Language.DirectiveUse.Conforms (u : DirectiveUse) (d : DirectiveNode) : Prop where
  /-- It is a use of this directive. -/
  name : u.name = d.name
  /-- What it gives is declared and of the type. -/
  declared : ∀ a ∈ u.arguments, ∃ i ∈ d.arguments, i.name = a.1 ∧ i.type.admits a.2 = true
  /-- What cannot be null is given. -/
  given : ∀ i ∈ d.arguments, i.type.isNonNull = true → ∃ a ∈ u.arguments, a.1 = i.name

/-- The text of a definition with its arguments on lines of their own. -/
def Language.DirectiveNode.laidOut (d : DirectiveNode) : String :=
  "directive @" ++ d.name
    ++ Registry.inputLinesText (d.arguments.map fun i => "  " ++ (i.name ++ ": " ++ i.type.print))
    ++ " on " ++ String.intercalate " | " d.locations

namespace DirectiveRecord

variable {r : DirectiveRecord} {given : List Fields} {name text key : String}
  {argument : String × List (Option LiteralKind)}

/-! ### The arguments of a definition -/

theorem mem_filterMap_id {kinds : List (Option LiteralKind)} {k : LiteralKind} :
    k ∈ kinds.filterMap id ↔ some k ∈ kinds := by
  rw [List.mem_filterMap]
  constructor
  · rintro ⟨j, hj, rfl⟩
    exact hj
  · exact fun h => ⟨_, h, rfl⟩

theorem nodup_filterMap_id {kinds : List (Option LiteralKind)} (h : kinds.Nodup) :
    (kinds.filterMap id).Nodup := by
  refine List.Nodup.filterMap (fun a b c hb hc => ?_) h
  rw [Option.mem_def, id] at hb hc
  rw [hb, hc]

/-- An argument whose kinds do not merge has no line. -/
theorem argumentLine_eq_error : (∃ e, argumentLine name argument = .error e)
    ↔ argument.2.filterMap id ≠ [] ∧ LiteralKind.merge? (argument.2.filterMap id) = none := by
  unfold argumentLine
  dsimp only
  cases hkinds : argument.2.filterMap id with
  | nil => simp
  | cons k ks =>
    rw [List.isEmpty_cons, if_neg Bool.false_ne_true]
    cases LiteralKind.merge? (k :: ks) with
    | some m => simp
    | none => exact ⟨fun _ => ⟨List.cons_ne_nil _ _, rfl⟩, fun _ => ⟨_, rfl⟩⟩

/-- The line of an argument is that of the input. -/
theorem argumentLine_eq_ok {line : Option String} (h : argumentLine name argument = .ok line) :
    line = (inputOf argument).map fun i => "  " ++ (i.name ++ ": " ++ i.type.print) := by
  unfold argumentLine at h
  unfold inputOf
  dsimp only at h
  cases hkinds : argument.2.filterMap id with
  | nil =>
    rw [hkinds] at h
    cases h
    rfl
  | cons k ks =>
    rw [hkinds, List.isEmpty_cons, if_neg Bool.false_ne_true] at h
    cases hmerge : LiteralKind.merge? (k :: ks) with
    | none =>
      rw [hmerge] at h
      cases h
    | some m =>
      rw [hmerge] at h
      cases h
      rw [Option.map_some, Option.map_some, Option.some.injEq]
      split <;> simp only [TypeRef.print, LiteralKind.print_ref, String.append_assoc,
        String.append_empty]

theorem lines_eq {arguments : Table (List (Option LiteralKind))} {lines : List (Option String)}
    (h : arguments.mapM (argumentLine name) = .ok lines) :
    lines.filterMap id = (arguments.filterMap inputOf).map fun i =>
      "  " ++ (i.name ++ ": " ++ i.type.print) := by
  induction arguments generalizing lines with
  | nil =>
    cases h
    rfl
  | cons a arguments ih =>
    rw [List.mapM_cons] at h
    obtain ⟨line, hline, h⟩ := Outcome.bind_eq_ok.mp h
    obtain ⟨lines, hlines, h⟩ := Outcome.bind_eq_ok.mp h
    cases h
    rw [List.filterMap_cons, argumentLine_eq_ok hline, List.filterMap_cons]
    cases inputOf a with
    | none => exact ih hlines
    | some i => exact congrArg (_ :: ·) (ih hlines)

/-- **What is printed is the definition of the record.** -/
theorem definition_eq (h : r.definition name = .ok text) : text = (r.node name).laidOut := by
  obtain ⟨lines, hlines, h⟩ := Outcome.bind_eq_ok.mp h
  cases h
  have hplaces : " on " ++ String.intercalate " | " ["OBJECT", "FIELD_DEFINITION"]
      = " on OBJECT | FIELD_DEFINITION" := by decide +kernel
  rw [lines_eq hlines, ← hplaces, ← String.append_assoc]
  rfl

/-- What is printed reads as the definition of the record. -/
theorem reads_definition (hname : isName name) (hnames : ∀ a ∈ r.arguments, isName a.1)
    (h : r.definition name = .ok text) : Parser.definition.Reads text (.directive (r.node name)) := by
  have hstands := Registry.stands_directive hname hnames h
  have hread := hstands.read [] (by rintro t ⟨⟩)
  rw [List.append_nil] at hread
  exact ⟨_, hstands.spells, hread⟩

theorem exists_error_mapM {ε α β : Type} {f : α → Except ε β} {xs : List α} :
    (∃ e, xs.mapM f = .error e) ↔ ∃ x ∈ xs, ∃ e, f x = .error e := by
  induction xs with
  | nil => exact ⟨fun ⟨e, h⟩ => (by cases h), fun ⟨x, hx, _⟩ => (by cases hx)⟩
  | cons x xs ih =>
    rw [List.mapM_cons]
    cases hx : f x with
    | error e => exact ⟨fun _ => ⟨x, List.mem_cons_self .., e, hx⟩, fun _ => ⟨e, rfl⟩⟩
    | ok y =>
      have htail : (∃ e, (do let ys ← xs.mapM f; pure (y :: ys) : Except ε (List β)) = .error e)
          ↔ ∃ e, xs.mapM f = .error e := by
        cases xs.mapM f with
        | error e => exact ⟨fun _ => ⟨e, rfl⟩, fun _ => ⟨e, rfl⟩⟩
        | ok ys => exact ⟨fun ⟨e, h⟩ => (by cases h), fun ⟨e, h⟩ => (by cases h)⟩
      refine htail.trans (ih.trans ⟨fun ⟨z, hz, he⟩ => ⟨z, List.mem_cons_of_mem _ hz, he⟩, ?_⟩)
      rintro ⟨z, hz, e, he⟩
      rcases List.mem_cons.mp hz with rfl | hz
      · rw [hx] at he
        cases he
      · exact ⟨z, hz, e, he⟩

/-- A definition cannot be printed if and only if the kinds of some argument do not merge. -/
theorem definition_eq_error : (∃ e, r.definition name = .error e)
    ↔ ∃ a ∈ r.arguments, ∃ e, argumentLine name a = .error e := by
  rw [← exists_error_mapM]
  unfold definition
  cases r.arguments.mapM (argumentLine name) with
  | error e => exact ⟨fun _ => ⟨e, rfl⟩, fun _ => ⟨e, rfl⟩⟩
  | ok lines => exact ⟨fun ⟨e, h⟩ => (by cases h), fun ⟨e, h⟩ => (by cases h)⟩

/-- An argument with a kind is declared with a type that covers the kind. -/
theorem exists_input {kinds : List (Option LiteralKind)} {k : LiteralKind}
    (h : r.definition name = .ok text) (ha : (key, kinds) ∈ r.arguments) (hk : some k ∈ kinds) :
    ∃ i ∈ (r.node name).arguments, i.name = key ∧ ∃ m, LiteralKind.merge? (kinds.filterMap id) = some m
      ∧ i.type = if kinds.contains none then m.ref else .nonNull m.ref := by
  have hk := mem_filterMap_id.mpr hk
  cases hmerge : LiteralKind.merge? (kinds.filterMap id) with
  | none =>
    have hline : ∃ e, argumentLine name (key, kinds) = .error e :=
      argumentLine_eq_error.mpr ⟨List.ne_nil_of_mem hk, hmerge⟩
    obtain ⟨e, he⟩ := definition_eq_error.mpr ⟨_, ha, hline⟩
    rw [h] at he
    cases he
  | some m =>
    have hinput : inputOf (key, kinds) = some
        { description := none, name := key, default? := none, directives := []
          type := if kinds.contains none then m.ref else .nonNull m.ref } := by
      unfold inputOf
      rw [hmerge]
      rfl
    exact ⟨_, List.mem_filterMap.mpr ⟨_, ha, hinput⟩, rfl, m, rfl, rfl⟩

/-- A declared argument has a kind, and it excludes null if and only if null is not among its
kinds. -/
theorem exists_kinds {i : InputNode} (hi : i ∈ (r.node name).arguments) :
    ∃ kinds, (i.name, kinds) ∈ r.arguments ∧ (∃ k, some k ∈ kinds)
      ∧ (i.type.isNonNull = true ↔ none ∉ kinds) := by
  obtain ⟨⟨key, kinds⟩, ha, hinput⟩ := List.mem_filterMap.mp hi
  obtain ⟨m, hmerge, rfl⟩ := Option.map_eq_some_iff.mp hinput
  refine ⟨kinds, ha, ?_, ?_⟩
  · cases hkinds : kinds.filterMap id with
    | nil =>
      rw [hkinds] at hmerge
      cases hmerge
    | cons k ks => exact ⟨k, mem_filterMap_id.mp (hkinds ▸ List.mem_cons_self ..)⟩
  · rw [← List.contains_iff_mem]
    dsimp only
    split
    · rename_i hnone
      rw [LiteralKind.isNonNull_ref]
      exact ⟨fun h => (by cases h), fun h => absurd hnone h⟩
    · rename_i hnone
      exact ⟨fun _ => hnone, fun _ => rfl⟩

/-- **A use that the record covers conforms to the definition.** -/
theorem Covers.conforms (h : Covers r given) (htidy : Tidy r) (htext : r.definition name = .ok text)
    {d : DirectiveCall} (hd : d.arguments ∈ given) (hname : d.name = name) :
    d.use.Conforms (r.node name) := by
  refine ⟨hname, fun a ha => ?_, fun i hi hnonNull => ?_⟩
  · obtain ⟨b, hb, rfl⟩ := List.mem_map.mp ha
    obtain ⟨hmem, hnull⟩ := List.mem_filter.mp hb
    obtain ⟨k, kinds, hk, hkinds, hin⟩ := h.kinds _ hd b hmem
    obtain ⟨k, rfl, hvalue⟩ := LiteralKind.ofValue_of_ofArgument (by simpa using hnull) hk
    obtain ⟨i, hi, hiname, m, hmerge, htype⟩ := exists_input htext (Table.mem_of_get? hkinds) hin
    have hadmits := LiteralKind.admits_of_merge? hmerge (mem_filterMap_id.mpr hin)
      (LiteralKind.admits_literal b.2 hvalue)
    refine ⟨i, hi, hiname, ?_⟩
    rw [htype]
    split
    · exact hadmits
    · have hsome := LiteralKind.literal_ne_null hvalue
      cases hliteral : b.2.literal with
      | null => exact absurd hliteral hsome
      | _ =>
        rw [hliteral] at hadmits
        exact hadmits
  · obtain ⟨kinds, hmem, -, hiff⟩ := exists_kinds hi
    have hkinds := Table.get?_of_mem htidy.keys hmem
    have hnone := hiff.mp hnonNull
    cases hget : Table.get? d.arguments i.name with
    | none => exact absurd (h.absent _ hd hkinds hget) hnone
    | some v =>
      have hv := Table.mem_of_get? hget
      obtain ⟨k, kinds', hk, hkinds', hin⟩ := h.kinds _ hd _ hv
      rw [hkinds] at hkinds'
      cases hkinds'
      have hnull : v.isNull = false := by
        cases hnull : v.isNull with
        | false => rfl
        | true =>
          unfold LiteralKind.ofArgument at hk
          rw [hnull] at hk
          cases hk
          exact absurd hin hnone
      exact ⟨(i.name, v.literal), List.mem_map.mpr
        ⟨(i.name, v), List.mem_filter.mpr ⟨hv, by simpa using hnull⟩, rfl⟩, rfl⟩

end DirectiveRecord

/-! ### Sequences of registrations -/

namespace DirectiveCall

/-- A use gives an argument a value of a kind. -/
def Gives (d : DirectiveCall) (key : String) (k : LiteralKind) : Prop :=
  ∃ v, Table.get? d.arguments key = some v ∧ LiteralKind.ofArgument v = .ok (some k)

end DirectiveCall

namespace DirectiveRecords

variable {calls : List DirectiveCall} {records : DirectiveRecords} {d : DirectiveCall}
  {r : DirectiveRecord} {name : String}

/-- The records after some registrations. -/
def after (calls : List DirectiveCall) : DirectiveRecords :=
  calls.foldl (fun records d => (records.register d).2) []

theorem after_append (calls : List DirectiveCall) (d : DirectiveCall) :
    after (calls ++ [d]) = ((after calls).register d).2 := by
  unfold after
  rw [List.foldl_append]
  rfl

/-- A registration succeeds if and only if every argument is null or of a literal kind. -/
theorem register_eq_ok {invocation : String} :
    (records.register d).1 = .ok invocation ↔ d.isAccepted = true ∧ invocation = d.text := by
  have hfst : (records.register d).1 = (((Table.get? (Table.ensure records d.name {}) d.name).getD
      {}).record d.arguments).1.map fun _ => d.text := rfl
  rw [hfst, Outcome.map_eq_ok]
  by_cases h : d.isAccepted = true
  · rw [DirectiveRecord.record_of_ok h]
    exact ⟨fun ⟨_, _, ht⟩ => ⟨h, ht.symm⟩, fun ⟨_, ht⟩ => ⟨(), rfl, ht.symm⟩⟩
  · obtain ⟨⟨e, he⟩, -⟩ := DirectiveRecord.record_of_error
      (r := (Table.get? (Table.ensure records d.name {}) d.name).getD {}) h
    rw [he]
    exact ⟨fun ⟨_, hu, _⟩ => (by cases hu), fun ⟨h', _⟩ => absurd h' h⟩

/-- The record of a directive, empty before its first use. -/
def recordOf (records : DirectiveRecords) (name : String) : DirectiveRecord :=
  (Table.get? records name).getD {}

/-- A registration changes the record of its directive only. -/
theorem recordOf_register (name : String) : recordOf (records.register d).2 name
    = if name == d.name then ((recordOf records name).record d.arguments).2
      else recordOf records name := by
  have hsnd : (records.register d).2 = Table.put (Table.ensure records d.name {}) d.name
      (((Table.get? (Table.ensure records d.name {}) d.name).getD {}).record d.arguments).2 := rfl
  unfold recordOf
  rw [hsnd, Table.get?_put]
  by_cases hname : name = d.name
  · rw [hname, if_pos (beq_self_eq_true _), if_pos (beq_self_eq_true _), Option.getD_some,
      Table.get?_ensure, if_pos (beq_self_eq_true _)]
    cases Table.get? records d.name <;> rfl
  · rw [if_neg (by simpa using hname), if_neg (by simpa using hname), Table.get?_ensure,
      if_neg (by simpa using hname), Option.or_none]

theorem nodup_keys_register (h : (Table.keys records).Nodup) :
    (Table.keys (records.register d).2).Nodup :=
  Table.nodup_keys_put (Table.nodup_keys_ensure h _ _) _ _

theorem has_register (name : String) : Table.has (records.register d).2 name
    = (name == d.name || Table.has records name) := by
  have hsnd : (records.register d).2 = Table.put (Table.ensure records d.name {}) d.name
      (((Table.get? (Table.ensure records d.name {}) d.name).getD {}).record d.arguments).2 := rfl
  rw [hsnd, Table.has_eq_isSome, Table.get?_put, Table.get?_ensure records d.name name,
    Table.has_eq_isSome]
  cases name == d.name <;> simp

theorem nodup_keys_after (calls : List DirectiveCall) : (Table.keys (after calls)).Nodup := by
  induction calls using List.reverseRecOn with
  | nil => exact List.nodup_nil
  | append_singleton calls d ih =>
    rw [after_append]
    exact nodup_keys_register ih

/-- A directive is recorded from its first registration on. -/
theorem has_after (calls : List DirectiveCall) (name : String) :
    Table.has (after calls) name = true ↔ ∃ d ∈ calls, d.name = name := by
  induction calls using List.reverseRecOn with
  | nil => simp [after]
  | append_singleton calls d ih =>
    rw [after_append, has_register, Bool.or_eq_true, ih]
    simp only [List.mem_append, List.mem_singleton, beq_iff_eq]
    constructor
    · rintro (rfl | ⟨c, hc, rfl⟩)
      · exact ⟨d, .inr rfl, rfl⟩
      · exact ⟨c, .inl hc, rfl⟩
    · rintro ⟨c, hc | rfl, rfl⟩
      · exact .inr ⟨c, hc, rfl⟩
      · exact .inl rfl

/-- What the uses of a directive gave that were registered without failure. -/
def succeeded (calls : List DirectiveCall) (name : String) : List Fields :=
  (calls.filter fun d => d.name == name && d.isAccepted).map (·.arguments)

theorem succeeded_append (calls : List DirectiveCall) (d : DirectiveCall) (name : String) :
    succeeded (calls ++ [d]) name = succeeded calls name
      ++ if d.name == name && d.isAccepted then [d.arguments] else [] := by
  unfold succeeded
  rw [List.filter_append, List.map_append, List.filter_cons, List.filter_nil]
  split <;> rfl

/-- **After any registrations the record of a directive covers the uses that succeeded.** -/
theorem covers_after (hdistinct : ∀ d ∈ calls, (Table.keys d.arguments).Nodup) (name : String) :
    (recordOf (after calls) name).Covers (succeeded calls name)
      ∧ (recordOf (after calls) name).Tidy := by
  induction calls using List.reverseRecOn with
  | nil => exact ⟨.empty, .empty⟩
  | append_singleton calls d ih =>
    obtain ⟨hcovers, htidy⟩ := ih fun c hc => hdistinct c (List.mem_append_left _ hc)
    have hd := hdistinct d (List.mem_append_right _ (List.mem_singleton_self d))
    rw [after_append, recordOf_register, succeeded_append]
    by_cases hname : name = d.name
    · rw [if_pos (beq_iff_eq.mpr hname), beq_iff_eq.mpr hname.symm, Bool.true_and]
      refine ⟨?_, htidy.record _⟩
      split
      · rename_i hok
        exact hcovers.record hd hok
      · rename_i hfailed
        rw [List.append_nil]
        exact hcovers.grows (DirectiveRecord.record_of_error hfailed).2
    · have hne : (d.name == name) = false := beq_eq_false_iff_ne.mpr (Ne.symm hname)
      rw [if_neg (by simpa using hname), hne, Bool.false_and, if_neg Bool.false_ne_true,
        List.append_nil]
      exact ⟨hcovers, htidy⟩

/-- **If no registration failed, the record of a directive says nothing else.** -/
theorem stems_after (hdistinct : ∀ d ∈ calls, (Table.keys d.arguments).Nodup)
    (hok : ∀ d ∈ calls, d.name = name → d.isAccepted = true) :
    (recordOf (after calls) name).Stems (succeeded calls name) := by
  induction calls using List.reverseRecOn with
  | nil => exact .empty
  | append_singleton calls d ih =>
    have hmem : ∀ c ∈ calls, c ∈ calls ++ [d] := fun c hc => List.mem_append_left _ hc
    have hlast : d ∈ calls ++ [d] := List.mem_append_right _ (List.mem_singleton_self d)
    have hstems := ih (fun c hc => hdistinct c (hmem c hc)) fun c hc => hok c (hmem c hc)
    obtain ⟨hcovers, -⟩ := covers_after (fun c hc => hdistinct c (hmem c hc)) name
    rw [after_append, recordOf_register, succeeded_append]
    by_cases hname : name = d.name
    · have haccepted := hok d hlast hname.symm
      rw [if_pos (beq_iff_eq.mpr hname), beq_iff_eq.mpr hname.symm, Bool.true_and, haccepted,
        if_pos rfl]
      exact hstems.record hcovers (hdistinct d hlast) haccepted
    · have hne : (d.name == name) = false := beq_eq_false_iff_ne.mpr (Ne.symm hname)
      rw [if_neg (by simpa using hname), hne, Bool.false_and, if_neg Bool.false_ne_true,
        List.append_nil]
      exact hstems

theorem mem_succeeded {g : Fields} : g ∈ succeeded calls name
    ↔ ∃ d ∈ calls, d.name = name ∧ d.isAccepted = true ∧ d.arguments = g := by
  unfold succeeded
  rw [List.mem_map]
  constructor
  · rintro ⟨d, hd, rfl⟩
    obtain ⟨hmem, hd⟩ := List.mem_filter.mp hd
    rw [Bool.and_eq_true, beq_iff_eq] at hd
    exact ⟨d, hmem, hd.1, hd.2, rfl⟩
  · rintro ⟨d, hmem, hname, haccepted, rfl⟩
    exact ⟨d, List.mem_filter.mpr ⟨hmem, by simp [hname, haccepted]⟩, rfl⟩

theorem recordOf_of_get? (hr : Table.get? records name = some r) : recordOf records name = r := by
  rw [recordOf, hr, Option.getD_some]

section NoFailure

variable (hdistinct : ∀ d ∈ calls, (Table.keys d.arguments).Nodup)
  (hok : ∀ d ∈ calls, d.name = name → d.isAccepted = true)
  (hr : Table.get? (after calls) name = some r)

include hdistinct hok hr

/-- A kind is recorded for an argument if and only if a use gave such a value. -/
theorem mem_kinds_iff {key : String} {k : LiteralKind} :
    (∃ kinds, (key, kinds) ∈ r.arguments ∧ some k ∈ kinds)
      ↔ ∃ d ∈ calls, d.name = name ∧ d.Gives key k := by
  obtain ⟨hcovers, htidy⟩ := covers_after hdistinct name
  have hstems := stems_after hdistinct hok
  rw [recordOf_of_get? hr] at hcovers htidy hstems
  constructor
  · rintro ⟨kinds, hmem, hk⟩
    obtain ⟨g, hg, v, hv, hkind⟩ := hstems.kinds (Table.get?_of_mem htidy.keys hmem) hk
    obtain ⟨d, hd, hname, -, rfl⟩ := mem_succeeded.mp hg
    exact ⟨d, hd, hname, v, hv, hkind⟩
  · rintro ⟨d, hd, hname, v, hv, hkind⟩
    obtain ⟨k', kinds, hk', hkinds, hin⟩ := hcovers.kinds _
      (mem_succeeded.mpr ⟨d, hd, hname, hok d hd hname, rfl⟩) _ (Table.mem_of_get? hv)
    rw [hkind] at hk'
    cases hk'
    exact ⟨kinds, Table.mem_of_get? hkinds, hin⟩

/-- Null is recorded for an argument if and only if a use gave no value. -/
theorem none_mem_kinds_iff {key : String} {kinds : List (Option LiteralKind)}
    (h : (key, kinds) ∈ r.arguments) :
    none ∈ kinds ↔ ∃ d ∈ calls, d.name = name ∧ ∀ k, ¬ d.Gives key k := by
  obtain ⟨hcovers, htidy⟩ := covers_after hdistinct name
  have hstems := stems_after hdistinct hok
  rw [recordOf_of_get? hr] at hcovers htidy hstems
  have hkinds := Table.get?_of_mem htidy.keys h
  constructor
  · intro hnone
    obtain ⟨g, hg, hnull⟩ := hstems.absent hkinds hnone
    obtain ⟨d, hd, hname, -, rfl⟩ := mem_succeeded.mp hg
    refine ⟨d, hd, hname, ?_⟩
    rintro k ⟨v, hv, hk⟩
    rw [hnull v hv] at hk
    cases hk
  · rintro ⟨d, hd, hname, hgives⟩
    have hg := mem_succeeded.mpr ⟨d, hd, hname, hok d hd hname, rfl⟩
    cases hget : Table.get? d.arguments key with
    | none => exact hcovers.absent _ hg hkinds hget
    | some v =>
      obtain ⟨k, kinds', hk, hkinds', hin⟩ := hcovers.kinds _ hg _ (Table.mem_of_get? hget)
      rw [hkinds] at hkinds'
      cases hkinds'
      cases k with
      | none => exact hin
      | some k => exact absurd ⟨v, hget, hk⟩ (hgives k)

/-- An argument is declared if and only if a use gave it a value. -/
theorem declared_iff {text : String} (htext : r.definition name = .ok text) (key : String) :
    (∃ i ∈ (r.node name).arguments, i.name = key)
      ↔ ∃ d ∈ calls, d.name = name ∧ ∃ k, d.Gives key k := by
  constructor
  · rintro ⟨i, hi, rfl⟩
    obtain ⟨kinds, hmem, ⟨k, hk⟩, -⟩ := DirectiveRecord.exists_kinds hi
    obtain ⟨d, hd, hname, hgives⟩ := (mem_kinds_iff hdistinct hok hr).mp ⟨kinds, hmem, hk⟩
    exact ⟨d, hd, hname, k, hgives⟩
  · rintro ⟨d, hd, hname, k, hgives⟩
    obtain ⟨kinds, hmem, hk⟩ := (mem_kinds_iff hdistinct hok hr).mpr ⟨d, hd, hname, hgives⟩
    obtain ⟨i, hi, hiname, -⟩ := DirectiveRecord.exists_input htext hmem hk
    exact ⟨i, hi, hiname⟩

/-- A declared argument excludes null if and only if every use gave it a value. -/
theorem isNonNull_iff {i : InputNode} (hi : i ∈ (r.node name).arguments) :
    i.type.isNonNull = true ↔ ∀ d ∈ calls, d.name = name → ∃ k, d.Gives i.name k := by
  obtain ⟨kinds, hmem, -, hiff⟩ := DirectiveRecord.exists_kinds hi
  rw [hiff, none_mem_kinds_iff hdistinct hok hr hmem]
  push Not
  exact Iff.rfl

/-- The definition cannot be printed if and only if two values of one argument have kinds that
do not merge. -/
theorem definition_eq_error_iff : (∃ e, r.definition name = .error e)
    ↔ ∃ key, ∃ d ∈ calls, ∃ d' ∈ calls, d.name = name ∧ d'.name = name
      ∧ ∃ k l, d.Gives key k ∧ d'.Gives key l ∧ ¬ k.Merges l := by
  obtain ⟨-, htidy⟩ := covers_after hdistinct name
  rw [recordOf_of_get? hr] at htidy
  rw [DirectiveRecord.definition_eq_error]
  constructor
  · rintro ⟨⟨key, kinds⟩, ha, hline⟩
    obtain ⟨hne, hmerge⟩ := DirectiveRecord.argumentLine_eq_error.mp hline
    have hnodup := DirectiveRecord.nodup_filterMap_id (htidy.kinds _ ha)
    obtain ⟨k, hk, l, hl, hkl⟩ := (LiteralKind.merge?_eq_none_iff hnodup hne).mp hmerge
    obtain ⟨d, hd, hname, hgives⟩ := (mem_kinds_iff hdistinct hok hr).mp
      ⟨kinds, ha, DirectiveRecord.mem_filterMap_id.mp hk⟩
    obtain ⟨d', hd', hname', hgives'⟩ := (mem_kinds_iff hdistinct hok hr).mp
      ⟨kinds, ha, DirectiveRecord.mem_filterMap_id.mp hl⟩
    exact ⟨key, d, hd, d', hd', hname, hname', k, l, hgives, hgives', hkl⟩
  · rintro ⟨key, d, hd, d', hd', hname, hname', k, l, hgives, hgives', hkl⟩
    obtain ⟨kinds, ha, hk⟩ := (mem_kinds_iff hdistinct hok hr).mpr ⟨d, hd, hname, hgives⟩
    obtain ⟨kinds', ha', hl⟩ := (mem_kinds_iff hdistinct hok hr).mpr ⟨d', hd', hname', hgives'⟩
    have hget : Table.get? r.arguments key = some kinds := Table.get?_of_mem htidy.keys ha
    have hget' : Table.get? r.arguments key = some kinds' := Table.get?_of_mem htidy.keys ha'
    obtain rfl := Option.some.inj (hget.symm.trans hget')
    have hk := DirectiveRecord.mem_filterMap_id.mpr hk
    have hl := DirectiveRecord.mem_filterMap_id.mpr hl
    have hne := List.ne_nil_of_mem hk
    have hnodup := DirectiveRecord.nodup_filterMap_id (htidy.kinds _ ha)
    exact ⟨_, ha, DirectiveRecord.argumentLine_eq_error.mpr
      ⟨hne, (LiteralKind.merge?_eq_none_iff hnodup hne).mpr ⟨k, hk, l, hl, hkl⟩⟩⟩

end NoFailure

/-- **Every use that was registered conforms to the definition that is printed in the end**,
whatever was registered before and after it and whether or not that failed: as long as its numbers
are finite its text is the use, and the definition declares what it gives with types that admit
the literals, and excludes null for nothing that it leaves out. If no registration of the directive
failed, the arguments are those that some use gave a value, those without null are those that every
use did, and only values of one argument whose kinds do not merge leave the directive without a
definition. -/
theorem uses_conform (hdistinct : ∀ d ∈ calls, (Table.keys d.arguments).Nodup)
    (hr : Table.get? (after calls) name = some r) :
    (∀ text, r.definition name = .ok text →
      text = (r.node name).laidOut
      ∧ (isName name → (∀ a ∈ r.arguments, isName a.1) →
        definition.Reads text (.directive (r.node name)))
      ∧ ∀ earlier d later invocation, calls = earlier ++ d :: later → d.name = name →
        ((after earlier).register d).1 = .ok invocation → d.Finite →
        d.use.WrittenAs invocation ∧ (d.Named → use.Reads invocation d.use)
          ∧ d.use.Conforms (r.node name))
    ∧ ((∀ earlier d later, calls = earlier ++ d :: later → d.name = name →
        ∃ invocation, ((after earlier).register d).1 = .ok invocation) →
      (∀ text, r.definition name = .ok text →
        (∀ key, (∃ i ∈ (r.node name).arguments, i.name = key)
          ↔ ∃ d ∈ calls, d.name = name ∧ ∃ k, d.Gives key k)
        ∧ ∀ i ∈ (r.node name).arguments, (i.type.isNonNull = true
          ↔ ∀ d ∈ calls, d.name = name → ∃ k, d.Gives i.name k))
      ∧ ((∃ e, r.definition name = .error e)
        ↔ ∃ key, ∃ d ∈ calls, ∃ d' ∈ calls, d.name = name ∧ d'.name = name
          ∧ ∃ k l, d.Gives key k ∧ d'.Gives key l ∧ ¬ k.Merges l)) := by
  constructor
  · intro text htext
    obtain ⟨hcovers, htidy⟩ := covers_after hdistinct name
    rw [recordOf_of_get? hr] at hcovers htidy
    refine ⟨DirectiveRecord.definition_eq htext,
      fun hname hnames => DirectiveRecord.reads_definition hname hnames htext, ?_⟩
    rintro earlier d later invocation rfl hname hregister hfinite
    obtain ⟨haccepted, rfl⟩ := register_eq_ok.mp hregister
    have hd : d.arguments ∈ succeeded (earlier ++ d :: later) name :=
      mem_succeeded.mpr ⟨d, by simp, hname, haccepted, rfl⟩
    have hliteral := DirectiveCall.isLiteral_of_isAccepted haccepted hfinite
    exact ⟨Registry.writtenAs_call hliteral, fun hnamed => Registry.reads_call hnamed hliteral,
      hcovers.conforms htidy htext hd hname⟩
  · intro hall
    have hok : ∀ d ∈ calls, d.name = name → d.isAccepted = true := by
      intro d hd hname
      obtain ⟨earlier, later, hcalls⟩ := List.append_of_mem hd
      obtain ⟨invocation, hregister⟩ := hall earlier d later hcalls hname
      exact (register_eq_ok.mp hregister).1
    exact ⟨fun text htext => ⟨declared_iff hdistinct hok hr htext,
      fun i hi => isNonNull_iff hdistinct hok hr hi⟩, definition_eq_error_iff hdistinct hok hr⟩

/-- Two uses of one directive, and one of another that fails. -/
def guarded : List DirectiveCall :=
  [⟨"auth", [("role", .text "admin")]⟩, ⟨"rate", [("limit", .record [])]⟩,
    ⟨"auth", [("role", .null), ("strict", .bool true)]⟩]

/-- What is recorded of the first of them. -/
def guardedRecord : DirectiveRecord :=
  ⟨2, [("role", [some .string, none]), ("strict", [none, some .boolean])]⟩

theorem uses_conform_guarded : guardedRecord.definition "auth"
      = .ok "directive @auth(\n  role: String\n  strict: Boolean\n) on OBJECT | FIELD_DEFINITION"
    ∧ use.Reads "@auth(strict: true)" ⟨"auth", [("strict", .bool true)]⟩
    ∧ DirectiveUse.Conforms ⟨"auth", [("strict", .bool true)]⟩ (guardedRecord.node "auth")
    ∧ ∀ key, (∃ i ∈ (guardedRecord.node "auth").arguments, i.name = key)
      ↔ ∃ d ∈ guarded, d.name = "auth" ∧ ∃ k, d.Gives key k := by
  have hdistinct : ∀ d ∈ guarded, (Table.keys d.arguments).Nodup := by decide
  have hrecord : Table.get? (after guarded) "auth" = some guardedRecord := rfl
  have hcall : guarded = [⟨"auth", [("role", .text "admin")]⟩, ⟨"rate", [("limit", .record [])]⟩]
      ++ ⟨"auth", [("role", .null), ("strict", .bool true)]⟩ :: [] := rfl
  have hfinite : DirectiveCall.Finite ⟨"auth", [("role", .null), ("strict", .bool true)]⟩ := by
    simp [DirectiveCall.Finite, Value.isFinite]
  have hnamed : DirectiveCall.Named ⟨"auth", [("role", .null), ("strict", .bool true)]⟩ := by
    simp only [DirectiveCall.Named]
    decide
  obtain ⟨hconforms, hexact⟩ := uses_conform hdistinct hrecord
  obtain ⟨-, -, huses⟩ := hconforms _ rfl
  obtain ⟨-, hreads, hlast⟩ := huses _ _ _ _ hcall rfl rfl hfinite
  refine ⟨rfl, hreads hnamed, hlast, ((hexact fun earlier d later heq hname => ?_).1 _ rfl).1⟩
  have hd : d ∈ guarded := heq ▸ by simp
  have haccepted : ∀ d ∈ guarded, d.name = "auth" → d.isAccepted = true := by decide
  exact ⟨_, register_eq_ok.mpr ⟨haccepted d hd hname, rfl⟩⟩

/-- **An infinite number is registered without failure, but its use is no use of the definition**:
it is written as a word, which is not of the type that is declared. -/
theorem not_conforms_infinite :
    ∃ (d : DirectiveCall) (invocation text : String) (r : DirectiveRecord),
      (Table.keys d.arguments).Nodup ∧ ((after []).register d).1 = .ok invocation
      ∧ Table.get? (after [d]) d.name = some r ∧ r.definition d.name = .ok text
      ∧ ∀ (u : DirectiveUse) (node : DirectiveNode), use.Reads invocation u →
        definition.Reads text (.directive node) → ¬ u.Conforms node := by
  have huse : use.Reads "@rate(value: Infinity)" ⟨"rate", [("value", .enum "Infinity")]⟩ :=
    ⟨_, .of_read (n := 8) (by decide +kernel : _ = some [.mark .at, .name "rate", .mark .parenL,
      .name "value", .mark .colon, .name "Infinity", .mark .parenR]), rfl⟩
  have hcall : DirectiveCall.text ⟨"rate", [("value", .real (Real64.infinity false))]⟩
      = "@rate(value: Infinity)" := by decide +kernel
  have htext : DirectiveRecord.definition "rate" ⟨1, [("value", [some .float])]⟩
      = .ok "directive @rate(\n  value: Float!\n) on OBJECT | FIELD_DEFINITION" := rfl
  refine ⟨⟨"rate", [("value", .real (Real64.infinity false))]⟩, "@rate(value: Infinity)", _,
    ⟨1, [("value", [some .float])]⟩, by decide, register_eq_ok.mpr ⟨rfl, hcall.symm⟩, rfl, htext, ?_⟩
  intro u node hu hnode hconforms
  obtain rfl := hu.unique huse
  have hread := DirectiveRecord.reads_definition (by decide) (by decide) htext
  have hnode := Definition.directive.inj (hnode.unique hread)
  obtain ⟨i, hi, -, hadmits⟩ := hconforms.declared _ (List.mem_cons_self ..)
  rw [hnode] at hi
  rw [List.mem_singleton.mp hi] at hadmits
  cases hadmits

end DirectiveRecords
end SchemaForge

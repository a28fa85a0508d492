import SchemaForge.Proofs.Outcome
import SchemaForge.Registry.Basic
import SchemaForge.Registry.Printer

/-!
# Entries and lines of a registry

What a registry says of a type and of a line, where a missing one counts as empty, and
what each change of a registry does to that. Every change is one of a single entry or of
a single line, so two equations cover them all.
-/
namespace SchemaForge
namespace Registry

/-- Lines with nothing but signatures. -/
def plainLines (signatures : Table String) : Table FieldLine :=
  signatures.map fun e => (e.1, { type := e.2 })

theorem plainLines_put (signatures : Table String) (field signature : String) :
    Table.put (plainLines signatures) field { type := signature }
      = plainLines (Table.put signatures field signature) := by
  have hhas : Table.has (plainLines signatures) field = Table.has signatures field := by
    simp only [Table.has, plainLines, List.any_map]
    rfl
  unfold Table.put
  rw [hhas]
  split
  · simp only [plainLines, List.map_map]
    refine List.map_congr_left fun e _ => ?_
    simp only [Function.comp]
    split <;> rfl
  · simp [plainLines]

theorem get?_plainLines (signatures : Table String) (field : String) :
    ((plainLines signatures).get? field).getD {} = { type := (signatures.get? field).getD "" } := by
  induction signatures with
  | nil => rfl
  | cons e signatures ih =>
    rw [plainLines, List.map_cons, Table.get?_cons, Table.get?_cons]
    split
    · rfl
    · exact ih

theorem mem_modify {α : Type} {t : Table α} {key : String} {f : α → α} {e : String × α}
    (h : e ∈ Table.modify t key f) : (e ∈ t ∧ e.1 ≠ key) ∨ ∃ x, (key, x) ∈ t ∧ e = (key, f x) := by
  obtain ⟨e', he', rfl⟩ := List.mem_map.mp h
  split
  · rename_i hkey
    obtain rfl := beq_iff_eq.mp hkey
    exact .inr ⟨e'.2, he', rfl⟩
  · rename_i hkey
    exact .inl ⟨he', fun heq => hkey (beq_iff_eq.mpr heq)⟩

theorem mem_update {α : Type} {t : Table α} {key : String} {start : α} {f : α → α}
    {e : String × α} (h : e ∈ Table.update t key start f) :
    e ∈ t ∨ ∃ x, ((key, x) ∈ t ∨ x = start) ∧ e = (key, f x) := by
  have hensure : ∀ {e}, e ∈ Table.ensure t key start → e ∈ t ∨ e = (key, start) := by
    intro e he
    unfold Table.ensure at he
    split at he
    · exact .inl he
    · simpa using he
  rcases mem_modify h with ⟨he, hne⟩ | ⟨x, hx, rfl⟩
  · exact .inl ((hensure he).resolve_right fun heq => hne (heq ▸ rfl))
  · refine .inr ⟨x, (hensure hx).imp id fun heq => ?_, rfl⟩
    cases heq
    rfl

variable (r : Registry)

/-- The entry of a type, an empty one if there is none. -/
def entry (type : String) : TypeEntry := (Table.get? r type).getD {}

/-- A line of a type, an empty one if there is none. -/
def line (type field : String) : FieldLine := ((r.entry type).lines.get? field).getD {}

theorem line_eq_getD_line? (type field : String) :
    r.line type field = (r.line? type field).getD {} := by
  rw [line, line?, entry]
  cases Table.get? r type <;> rfl

theorem entry_updateType (type other : String) (f : TypeEntry → TypeEntry) :
    (updateType r type f).entry other = if other = type then f (r.entry type) else r.entry other := by
  rw [entry, updateType, Table.get?_update]
  by_cases h : other = type
  · simp [h, entry]
  · simp [h, entry]

theorem entry_ensureType (type other : String) : (ensureType r type).entry other = r.entry other := by
  rw [entry, ensureType, Table.get?_ensure, entry]
  cases Table.get? r other with
  | some e => rfl
  | none => by_cases h : other = type <;> simp [h]

theorem entry_put (type other : String) (e : TypeEntry) :
    entry (Table.put r type e) other = if other = type then e else r.entry other := by
  rw [entry, Table.get?_put]
  by_cases h : other = type <;> simp [h, entry]

theorem line_updateField (type field t g : String) (f : FieldLine → FieldLine) :
    (updateField r type field f).line t g
      = if t = type ∧ g = field then f (r.line type field) else r.line t g := by
  rw [line, updateField, entry_updateType]
  by_cases ht : t = type
  · subst ht
    rw [if_pos rfl, TypeEntry.updateLine, Table.get?_update]
    by_cases hg : g = field
    · subst hg
      simp [line]
    · simp [hg, line]
  · simp [ht, line]

theorem kind_updateField (type field t : String) (f : FieldLine → FieldLine) :
    ((updateField r type field f).entry t).kind = (r.entry t).kind := by
  rw [updateField, entry_updateType]
  split
  · rename_i h
    rw [h]
    rfl
  · rfl

theorem directives_updateField (type field t : String) (f : FieldLine → FieldLine) :
    ((updateField r type field f).entry t).directives = (r.entry t).directives := by
  rw [updateField, entry_updateType]
  split
  · rename_i h
    rw [h]
    rfl
  · rfl

theorem line_updateType (type t g : String) (f : TypeEntry → TypeEntry)
    (hf : ∀ e, (f e).lines = e.lines) : (updateType r type f).line t g = r.line t g := by
  rw [line, entry_updateType]
  by_cases ht : t = type
  · rw [if_pos ht, hf, ht, line]
  · rw [if_neg ht, line]

/-- A change of a type removes none. -/
theorem has_updateType {r : Registry} (type other : String) (f : TypeEntry → TypeEntry)
    (h : Table.has r other = true) : Table.has (updateType r type f) other = true := by
  rw [Table.has_eq_isSome] at h ⊢
  rw [updateType, Table.get?_update]
  split
  · rfl
  · exact h

/-- A type that is changed is declared once, if it was. -/
theorem nodup_updateType {r : Registry} (h : (Table.keys r).Nodup) (type : String)
    (f : TypeEntry → TypeEntry) : (Table.keys (updateType r type f)).Nodup :=
  Table.nodup_keys_update h type {} f

end Registry

/-! ### Which directives a text shows

A registry keeps all uses of directives, but a line without a return type, a union and a
type without lines are written without them. What is shown is what follows a line or the
head of a type in the text.
-/

/-- The uses of directives that are written after a line. -/
def FieldLine.shown (line : FieldLine) : List String :=
  if line.type == "" then [] else line.directives

/-- Whether the head of a type is written with directives. -/
def TypeEntry.isShown (entry : TypeEntry) : Bool :=
  entry.kind == .scalar || (entry.kind != .union && !entry.lines.isEmpty)

/-- The uses of directives that are written after the head of a type. -/
def TypeEntry.shown (entry : TypeEntry) : List String :=
  if entry.isShown then entry.directives else []

namespace Registry

/-- The uses of directives that are written on a field. -/
def shownOn (r : Registry) (type field : String) : List String :=
  if (r.entry type).kind = .scalar then [] else (r.line type field).shown

/-- The uses of directives that are written on a type. -/
def shownAt (r : Registry) (type : String) : List String := (r.entry type).shown

/-- The text of a line before its directives. -/
def lineHead (field : String) (line : FieldLine) (arguments : List String) : String :=
  field ++ (if arguments.isEmpty then "" else "(" ++ String.intercalate ", " arguments ++ ")")
    ++ if line.type == "" then "" else ": " ++ line.type

/-- A line is written as its head and the uses that it shows. -/
theorem lineText_eq_ok {type field text : String} {line : FieldLine}
    (h : lineText type field line = .ok text) :
    ∃ arguments, line.arguments.mapM (argumentText type field) = .ok arguments
      ∧ text = lineHead field line arguments ++ usesText line.shown := by
  obtain ⟨arguments, harguments, hrest⟩ := Outcome.bind_eq_ok.mp h
  cases hrest
  refine ⟨arguments, harguments, ?_⟩
  unfold lineHead FieldLine.shown
  cases hs : line.type == "" with
  | true => simp [usesText]
  | false => simp [String.append_assoc]

/-- A type that is written with directives shows them after its head and before its
lines. -/
theorem typeText_eq_ok {name text : String} {entry : TypeEntry} {extends? : Bool}
    (h : typeText name entry extends? = .ok text) (hshown : entry.isShown) :
    ∃ lines, text = (if extends? then "extend " else "") ++ entry.kind.word ++ " " ++ name
      ++ usesText entry.shown ++ lines := by
  rw [TypeEntry.shown, if_pos hshown]
  unfold typeText at h
  dsimp only at h
  by_cases hscalar : entry.kind = .scalar
  · rw [if_pos hscalar] at h
    cases h
    refine ⟨"", ?_⟩
    have hword : Language.TypeKind.word .scalar ++ " " = "scalar " := rfl
    rw [hscalar, String.append_empty, ← hword]
    simp only [String.append_assoc]
  · rw [if_neg hscalar] at h
    obtain ⟨lines, hlines, hrest⟩ := Outcome.bind_eq_ok.mp h
    have hkind : entry.kind ≠ .union ∧ entry.lines ≠ [] := by
      simpa [TypeEntry.isShown, hscalar] using hshown
    have hsome : lines.isEmpty = false := by
      cases hl : entry.lines with
      | nil => exact absurd hl hkind.2
      | cons e es =>
        rw [hl, List.mapM_cons] at hlines
        obtain ⟨x, -, hxs⟩ := Outcome.bind_eq_ok.mp hlines
        obtain ⟨xs, -, hcons⟩ := Outcome.bind_eq_ok.mp hxs
        cases hcons
        rfl
    rw [hsome, if_neg Bool.false_ne_true, if_neg hkind.1] at hrest
    cases hrest
    exact ⟨" \x7b\n" ++ String.intercalate "\n" (lines.map ("  " ++ ·)) ++ "\n\x7d",
      by simp only [String.append_assoc]⟩

end Registry
end SchemaForge

import SchemaForge.Proofs.Language.References
import SchemaForge.Proofs.Registry.Definitions

/-!
# Texts of directives

The definition that covers all recorded uses of a directive is written as a text that stands
for it: its arguments are those with a kind, and an argument that some use leaves out may be
null.
-/
namespace SchemaForge

open Language Parser

/-- The type of a kind. -/
def LiteralKind.ref : LiteralKind → TypeRef
  | boolean => .named "Boolean"
  | int => .named "Int"
  | float => .named "Float"
  | string => .named "String"
  | list k => .list k.ref

namespace LiteralKind

theorem print_ref (k : LiteralKind) : k.ref.print = k.text := by
  induction k with
  | list k ih => rw [ref, TypeRef.print, ih, text]
  | _ => rfl

theorem isNonNull_ref (k : LiteralKind) : k.ref.isNonNull = false := by
  cases k <;> rfl

theorem isProper_ref (k : LiteralKind) : k.ref.isProper = true := by
  induction k with
  | list k ih => exact ih
  | _ => decide

/-- A kind, with null excluded or not, reads as its type. -/
theorem reads_typed (k : LiteralKind) (nullable : Bool) :
    typed.Reads (k.text ++ (if nullable then "" else "!"))
      (if nullable then k.ref else .nonNull k.ref, none) := by
  rw [← k.print_ref]
  cases nullable with
  | true =>
    rw [if_pos rfl, if_pos rfl, String.append_empty]
    exact Parser.reads_typed k.isProper_ref
  | false =>
    have hproper : (TypeRef.nonNull k.ref).isProper = true := by
      rw [TypeRef.isProper, k.isNonNull_ref, k.isProper_ref]
      rfl
    exact Parser.reads_typed hproper

end LiteralKind

namespace DirectiveRecord

/-- The argument that the kinds of its values make, if there are any. -/
def inputOf (argument : String × List (Option LiteralKind)) : Option InputNode :=
  (LiteralKind.merge? (argument.2.filterMap id)).map fun k =>
    { description := none, name := argument.1, default? := none, directives := []
      type := if argument.2.contains none then k.ref else .nonNull k.ref }

/-- The definition of a directive. -/
def node (name : String) (r : DirectiveRecord) : DirectiveNode :=
  { description := none, name, arguments := r.arguments.filterMap inputOf, repeatable := false
    locations := ["OBJECT", "FIELD_DEFINITION"] }

end DirectiveRecord

namespace Registry

variable {rest ts : List Token} {name text : String}

/-- The lines of the arguments stand for the arguments. -/
theorem stands_arguments {arguments : Table (List (Option LiteralKind))}
    (hnames : ∀ a ∈ arguments, isName a.1) {lines : List (Option String)}
    (h : arguments.mapM (DirectiveRecord.argumentLine name) = .ok lines) :
    ∃ texts, lines.filterMap id = texts.map ("  " ++ ·)
      ∧ List.Forall₂ (Stands inputNode) texts
        ((arguments.filterMap DirectiveRecord.inputOf).map some) := by
  induction arguments generalizing lines with
  | nil =>
    cases h
    exact ⟨[], rfl, .nil⟩
  | cons a arguments ih =>
    rw [List.mapM_cons] at h
    obtain ⟨line, hline, h⟩ := Outcome.bind_eq_ok.mp h
    obtain ⟨lines', hlines, h⟩ := Outcome.bind_eq_ok.mp h
    cases h
    obtain ⟨texts, htexts, hstands⟩ := ih (fun b hb => hnames b (List.mem_cons_of_mem _ hb)) hlines
    unfold DirectiveRecord.argumentLine at hline
    dsimp only at hline
    split at hline
    · rename_i hempty
      cases hline
      have hnone : DirectiveRecord.inputOf a = none := by
        unfold DirectiveRecord.inputOf
        rw [List.isEmpty_iff.mp hempty]
        rfl
      refine ⟨texts, ?_, ?_⟩
      · rw [List.filterMap_cons_none rfl, htexts]
      · rw [List.filterMap_cons_none hnone]
        exact hstands
    · cases hmerge : LiteralKind.merge? (a.2.filterMap id) with
      | none => rw [hmerge] at hline; cases hline
      | some k =>
        rw [hmerge] at hline
        cases hline
        have hsome : DirectiveRecord.inputOf a = some
            { description := none, name := a.1, default? := none, directives := []
              type := if a.2.contains none then k.ref else .nonNull k.ref } := by
          unfold DirectiveRecord.inputOf
          rw [hmerge]
          rfl
        have hreads := k.reads_typed (a.2.contains none)
        have hstands' := stands_argument (hnames a (List.mem_cons_self ..)) hreads
        refine ⟨(a.1 ++ ": " ++ (k.text ++ if a.2.contains none then "" else "!")) :: texts, ?_, ?_⟩
        · change _ :: lines'.filterMap id = _
          rw [htexts]
          simp only [List.map_cons, String.append_assoc]
        · rw [List.filterMap_cons_some hsome]
          exact .cons hstands' hstands

/-- The places of a definition are read. -/
theorem read_locations (hrest : ∀ t ∈ rest.head?, t ≠ .mark .pipe) :
    separated .pipe location (.name "OBJECT" :: .mark .pipe :: .name "FIELD_DEFINITION" :: rest)
      = some (["OBJECT", "FIELD_DEFINITION"], rest) := by
  have hlocation : ∀ (w : String) (ts : List Token), directiveLocations.contains w = true →
      location (.name w :: ts) = some (w, ts) := by
    intro w ts hw
    unfold location
    rw [bind_of_some (name_cons _ _), if_pos hw]
    rfl
  have hfirst : (discard (accept .pipe) : Parser Unit)
      (.name "OBJECT" :: .mark .pipe :: .name "FIELD_DEFINITION" :: rest)
      = some ((), .name "OBJECT" :: .mark .pipe :: .name "FIELD_DEFINITION" :: rest) := rfl
  have hpipe : rest.head? ≠ some (.mark .pipe) := fun heq => hrest _ heq rfl
  have hlast : following .pipe location (rest.length + 2) rest = some ([], rest) := by
    unfold following
    rw [bind_of_some (accept_of_ne hpipe)]
    rfl
  unfold separated
  rw [bind_of_some hfirst, bind_of_some (hlocation _ _ (by decide)), bind_of_some (fuel_apply _)]
  have hmore : following .pipe location (rest.length + 3)
      (.mark .pipe :: .name "FIELD_DEFINITION" :: rest) = some (["FIELD_DEFINITION"], rest) := by
    unfold following
    rw [bind_of_some (accept_cons _ _), if_pos rfl, bind_of_some (hlocation _ _ (by decide)),
      bind_of_some hlast]
    rfl
  exact bind_of_some hmore

/-- Inputs on lines of their own. -/
def inputLinesText (lines : List String) : String :=
  if lines.isEmpty then "" else "(\n" ++ String.intercalate "\n" lines ++ "\n)"

theorem spells_inputLines {texts : List String} (h : ∀ s ∈ texts, Spells s.toList (tokens s)) :
    Spells (inputLinesText (texts.map ("  " ++ ·))).toList (inputsTokens texts) := by
  unfold inputLinesText inputsTokens
  rw [List.isEmpty_map]
  split
  · exact .done rfl
  · rw [String.append_assoc, String.toList_append, List.cons_append]
    refine .mark rfl (.separator rfl ((spells_lines h).concat ?_ ?_))
    · exact .separator rfl (.mark rfl (.done rfl))
    · rintro c ⟨⟩
      rfl

/-- Where a directive may stand. -/
def placesText : String := " on OBJECT | FIELD_DEFINITION"

/-- The tokens of where a directive may stand. -/
def placesTokens : List Token :=
  [.name "on", .name "OBJECT", .mark .pipe, .name "FIELD_DEFINITION"]

theorem spells_places : Spells placesText.toList placesTokens := .of_read (n := 6) (by decide +kernel)

/-- The places and what is before them are read as a directive. -/
theorem read_directive {inputs : List String} {arguments : List InputNode}
    (h : List.Forall₂ (Stands inputNode) inputs (arguments.map some)) (hrest : Fresh rest) :
    definition (.name "directive" :: .mark .at :: .name name
        :: (inputsTokens inputs ++ (placesTokens ++ rest)))
      = some (.directive { description := none, name, arguments, repeatable := false
                           locations := ["OBJECT", "FIELD_DEFINITION"] }, rest) := by
  have hstart : ∀ ts : List Token, definition (.name "directive" :: ts)
      = (Definition.directive <$> directiveNode none) ts := fun _ => rfl
  have hargs := read_inputs h (placesTokens ++ rest) (by simp [placesTokens])
  rw [mapM_id_map_some] at hargs
  have hrepeatable : acceptWord "repeatable" (placesTokens ++ rest)
      = some (false, placesTokens ++ rest) := acceptWord_of_ne (by simp [placesTokens])
  have hon : word "on" (placesTokens ++ rest) = some ((), .name "OBJECT" :: .mark .pipe
      :: .name "FIELD_DEFINITION" :: rest) := rfl
  have hplaces := read_locations fun t ht heq => hrest.head_ne (m := .pipe) rfl (heq ▸ ht)
  rw [hstart, map_apply]
  unfold directiveNode
  rw [bind_of_some (expect_cons _ _), bind_of_some (name_cons _ _), bind_of_some hargs,
    bind_of_some hrepeatable, bind_of_some hon, bind_of_some hplaces]
  rfl

/-- **The text of a directive stands for its definition.** -/
theorem stands_directive {r : DirectiveRecord} (hname : isName name)
    (hnames : ∀ a ∈ r.arguments, isName a.1) (h : r.definition name = .ok text) :
    Stands definition text (some (.directive (r.node name))) := by
  obtain ⟨lines, hlines, hrest⟩ := Outcome.bind_eq_ok.mp h
  cases hrest
  obtain ⟨texts, htexts, hstands⟩ := stands_arguments hnames hlines
  have hinputs := spells_inputLines (forall_of_forall₂ hstands fun _ _ hs => hs.spells)
  have hplaces := hinputs.concat spells_places (Spells.stops_of_separator rfl)
  have hstops : Stops (inputLinesText (texts.map ("  " ++ ·)) ++ placesText).toList := by
    unfold inputLinesText
    split
    · rw [String.empty_append]
      exact Spells.stops_of_separator rfl
    · simp only [String.append_assoc]
      exact stops_of_toList rfl (by decide) _
  have hat : Spells (" @" ++ (name ++ (inputLinesText (texts.map ("  " ++ ·)) ++ placesText))).toList
      (.mark .at :: .name name :: (inputsTokens texts ++ placesTokens)) := by
    rw [String.toList_append]
    exact .separator rfl (.mark rfl ((Spells.name hname).concat hplaces hstops))
  have hspells := (Spells.name (s := "directive") (by decide)).concat hat
    (stops_of_toList rfl (by decide) _)
  have htext : "directive" ++ (" @" ++ (name ++ (inputLinesText (texts.map ("  " ++ ·)) ++ placesText)))
      = "directive @" ++ name ++ inputLinesText (lines.filterMap id) ++ placesText := by
    rw [htexts, show "directive @" = "directive" ++ " @" from rfl]
    simp only [String.append_assoc]
  rw [htext] at hspells
  have htokens := tokens_of_spells hspells
  refine ⟨htokens ▸ hspells, ⟨_, _, htokens⟩, fun rest hrest => ?_⟩
  change definition (tokens ("directive @" ++ name ++ inputLinesText (lines.filterMap id)
    ++ placesText) ++ rest) = _
  rw [htokens]
  simp only [List.cons_append, List.append_assoc, List.nil_append]
  exact read_directive hstands hrest

end Registry
end SchemaForge

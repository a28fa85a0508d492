import SchemaForge.Proofs.Language.Items
import SchemaForge.Registry.Printer

/-!
# Texts of inputs, fields and words

A text that is put together from a name, arguments, a type and uses of directives, with the
marks of the grammar between them, stands for the field with these parts.
-/
namespace SchemaForge

open Language Parser

variable {ts us rest : List Token} {s u : String}

namespace Registry

/-- Inputs after something. -/
def inputsText (inputs : List String) : String :=
  if inputs.isEmpty then "" else "(" ++ String.intercalate ", " inputs ++ ")"

/-- The tokens of inputs after something. -/
def inputsTokens (inputs : List String) : List Token :=
  if inputs.isEmpty then []
  else .mark .parenL :: inputs.flatMap tokens ++ [.mark .parenR]

theorem spells_colon (h : Spells u.toList us) : Spells (": " ++ u).toList (.mark .colon :: us) := by
  rw [String.toList_append]
  exact .mark rfl (.separator rfl h)

theorem stops_of_toList {c : Char} {cs : List Char} (h : s.toList = c :: cs)
    (hc : goesOn c = false) (u : String) : Stops (s ++ u).toList := by
  rw [String.toList_append, h]
  rintro d ⟨⟩
  exact hc

theorem stops_colon (u : String) : Stops (": " ++ u).toList := stops_of_toList rfl rfl u

theorem spells_uses {uses : List String} (h : ∀ u ∈ uses, Spells u.toList (tokens u)) :
    Spells (usesText uses).toList (uses.flatMap tokens) := by
  unfold usesText
  split
  · rename_i hempty
    rw [List.isEmpty_iff.mp hempty]
    exact .done rfl
  · rw [String.toList_append]
    exact .separator rfl (.intercalate rfl rfl h)

theorem stops_uses (uses : List String) : Stops (usesText uses).toList := by
  unfold usesText
  split
  · rintro c ⟨⟩
  · exact stops_of_toList rfl (by decide) _

theorem spells_inputs {inputs : List String} (h : ∀ s ∈ inputs, Spells s.toList (tokens s)) :
    Spells (inputsText inputs).toList (inputsTokens inputs) := by
  unfold inputsText inputsTokens
  split
  · exact .done rfl
  · rw [String.append_assoc, String.toList_append, List.cons_append]
    refine .mark rfl (Spells.concat (.intercalate rfl rfl h) (.mark rfl (.done rfl)) ?_)
    rintro c ⟨⟩
    rfl

theorem stops_inputs (inputs : List String) (h : Stops u.toList) :
    Stops (inputsText inputs ++ u).toList := by
  unfold inputsText
  split
  · rw [String.empty_append]
    exact h
  · simp only [String.append_assoc]
    exact stops_of_toList rfl (by decide) _

end Registry

namespace Language.Parser

theorem description_name (w : String) (ts : List Token) :
    description (.name w :: ts) = some (none, .name w :: ts) := rfl

theorem expect_of_ne {m : Mark} (h : rest.head? ≠ some (.mark m)) : expect m rest = none := by
  cases rest with
  | nil => rfl
  | cons t rest =>
    unfold expect
    rw [bind_of_some (next_cons _ _), if_neg (by simpa using h)]
    rfl

theorem eq_of_expect {m : Mark} {x : Unit} (h : expect m ts = some (x, rest)) :
    ts = .mark m :: rest := by
  by_cases hm : ts.head? = some (.mark m)
  · cases ts with
    | nil => cases hm
    | cons t ts =>
      obtain rfl := Option.some.inj hm
      rw [expect_cons] at h
      cases h
      rfl
  · rw [expect_of_ne hm] at h
    cases h

/-! ### Uses of directives -/

/-- A use of a directive starts with its mark. -/
theorem tokens_use {x : DirectiveUse} (h : use.Reads u x) :
    ∃ tail, tokens u = .mark .at :: tail := by
  obtain ⟨ts, hs, hx⟩ := h
  obtain ⟨_, tail, hmark, -⟩ := bind_eq_some.mp hx
  exact ⟨tail, (tokens_of_spells hs).trans (eq_of_expect hmark)⟩

/-- Uses one after another are read, if each reads alone. -/
theorem following_uses {uses : List String} {nodes : List DirectiveUse}
    (h : List.Forall₂ use.Reads uses nodes) (hends : Ends rest)
    (hat : rest.head? ≠ some (.mark .at)) {n : Nat} (hn : uses.length < n) :
    following .at (do let key ← name; return (⟨key, ← arguments true⟩ : DirectiveUse)) n
      (uses.flatMap tokens ++ rest) = some (nodes, rest) := by
  induction h generalizing n with
  | nil =>
    obtain ⟨n, rfl⟩ : ∃ k, n = k + 1 := ⟨n - 1, by omega⟩
    unfold following
    rw [List.flatMap_nil, List.nil_append, bind_of_some (accept_of_ne hat)]
    rfl
  | @cons u x uses nodes hu huses ih =>
    obtain ⟨n, rfl⟩ : ∃ k, n = k + 1 := ⟨n - 1, by omega⟩
    have hrest := ih (Nat.lt_of_succ_lt_succ hn)
    have hnext : Ends (uses.flatMap tokens ++ rest) := by
      cases huses with
      | nil => exact hends
      | cons hu' _ =>
        obtain ⟨tail, htail⟩ := tokens_use hu'
        rw [List.flatMap_cons, htail]
        rintro t ⟨⟩
        rfl
    have hread := hu.append Carries.use hnext
    obtain ⟨_, ts', hmark, hbody⟩ := bind_eq_some.mp hread
    unfold following
    rw [List.flatMap_cons, List.append_assoc, eq_of_expect hmark, bind_of_some (accept_cons _ _),
      if_pos rfl, bind_of_some hbody, bind_of_some hrest]
    rfl

theorem directives_uses {uses : List String} {nodes : List DirectiveUse}
    (h : List.Forall₂ use.Reads uses nodes) (hends : Ends rest)
    (hat : rest.head? ≠ some (.mark .at)) :
    directives true (uses.flatMap tokens ++ rest) = some (nodes, rest) := by
  unfold directives
  rw [bind_of_some (fuel_apply _)]
  refine following_uses h hends hat (Nat.lt_succ_of_le ?_)
  have hlength : uses.length ≤ (uses.flatMap tokens).length := by
    induction h with
    | nil => exact Nat.le_refl _
    | cons hu _ ih =>
      obtain ⟨tail, htail⟩ := tokens_use hu
      rw [List.flatMap_cons, htail, List.length_append, List.length_cons, List.length_cons]
      omega
  rw [List.length_append]
  omega

theorem directives_none (hat : rest.head? ≠ some (.mark .at)) :
    directives true rest = some ([], rest) := by
  unfold directives
  rw [bind_of_some (fuel_apply _)]
  unfold following
  rw [bind_of_some (accept_of_ne hat)]
  rfl

end Language.Parser

namespace Registry

/-- What holds of the texts of related items holds of all texts. -/
theorem forall_of_forall₂ {α β : Type} {R : α → β → Prop} {P : α → Prop} {xs : List α}
    {ys : List β} (h : List.Forall₂ R xs ys) (hR : ∀ x y, R x y → P x) : ∀ x ∈ xs, P x := by
  induction h with
  | nil => exact fun x hx => by cases hx
  | cons hxy _ ih =>
    intro z hz
    rcases List.mem_cons.mp hz with rfl | hz
    · exact hR _ _ hxy
    · exact ih z hz

theorem mapM_id_map_some {α : Type} (xs : List α) : (xs.map some).mapM id = some xs := by
  induction xs with
  | nil => rfl
  | cons x xs ih =>
    rw [List.map_cons, List.mapM_cons, ih]
    rfl

/-! ### Inputs, fields and words -/

variable {name signature : String} {t : TypeRef} {default? : Option Literal}

/-- An argument with a signature that reads stands for the argument. -/
theorem stands_argument (hname : isName name) (h : typed.Reads signature (t, default?)) :
    Stands inputNode (name ++ ": " ++ signature)
      (some { description := none, name, type := t, default?, directives := [] }) := by
  have hspells : Spells (name ++ ": " ++ signature).toList
      (.name name :: .mark .colon :: tokens signature) := by
    rw [String.append_assoc]
    exact (Spells.name hname).concat (spells_colon h.spells) (stops_colon _)
  have htokens := tokens_of_spells hspells
  refine ⟨htokens ▸ hspells, ⟨_, _, htokens⟩, fun rest hrest => ?_⟩
  have hread := h.append Carries.typed hrest.ends
  obtain ⟨t', r, htype, hdefault⟩ := bind_eq_some.mp hread
  obtain ⟨d', r', hdefault, hpair⟩ := bind_eq_some.mp hdefault
  cases hpair
  rw [htokens]
  unfold inputNode
  rw [List.cons_append, List.cons_append, bind_of_some (description_name _ _),
    bind_of_some (name_cons _ _), bind_of_some (expect_cons _ _), bind_of_some htype,
    bind_of_some hdefault, bind_of_some (directives_none (hrest.head_ne rfl))]
  rfl

section Fields

variable {inputs uses : List String} {results : List (Option InputNode)}
  {nodes : List DirectiveUse}

theorem spells_result (h : type.Reads signature t) (huses : List.Forall₂ use.Reads uses nodes) :
    Spells (": " ++ signature ++ usesText uses).toList
      (.mark .colon :: tokens signature ++ uses.flatMap tokens) := by
  have hspells := forall_of_forall₂ huses fun _ _ hu => hu.spells
  exact (spells_colon h.spells).concat (spells_uses hspells) (stops_uses uses)

/-- Nothing goes on with a type into uses of directives or a fresh item. -/
theorem ends_uses (huses : List.Forall₂ use.Reads uses nodes) (hrest : Ends rest) :
    Ends (uses.flatMap tokens ++ rest) := by
  cases huses with
  | nil => exact hrest
  | cons hu _ =>
    obtain ⟨tail, htail⟩ := tokens_use hu
    rw [List.flatMap_cons, htail]
    rintro t ⟨⟩
    rfl

/-- A field of an input type stands for itself. -/
theorem stands_input (hname : isName name) (h : type.Reads signature t)
    (huses : List.Forall₂ use.Reads uses nodes) :
    Stands inputNode (name ++ ": " ++ signature ++ usesText uses)
      (some { description := none, name, type := t, default? := none, directives := nodes }) := by
  have htext : name ++ ": " ++ signature ++ usesText uses
      = name ++ (": " ++ signature ++ usesText uses) := by simp only [String.append_assoc]
  have hspells : Spells (name ++ (": " ++ signature ++ usesText uses)).toList
      (.name name :: (.mark .colon :: tokens signature ++ uses.flatMap tokens)) := by
    refine (Spells.name hname).concat (spells_result h huses) ?_
    rw [String.append_assoc]
    exact stops_colon _
  have htokens := tokens_of_spells hspells
  rw [htext]
  refine ⟨htokens ▸ hspells, ⟨_, _, htokens⟩, fun rest hrest => ?_⟩
  have hends := ends_uses huses hrest.ends
  have hequals : (uses.flatMap tokens ++ rest).head? ≠ some (.mark .equals) :=
    fun heq => absurd (hends _ heq) (by decide)
  have hdefault : defaultValue (uses.flatMap tokens ++ rest)
      = some (none, uses.flatMap tokens ++ rest) := by
    unfold defaultValue
    rw [bind_of_some (accept_of_ne hequals)]
    rfl
  rw [htokens]
  unfold inputNode
  simp only [List.cons_append, List.append_assoc]
  rw [bind_of_some (description_name _ _), bind_of_some (name_cons _ _),
    bind_of_some (expect_cons _ _), bind_of_some (h.append Carries.type hends),
    bind_of_some hdefault, bind_of_some (directives_uses huses hrest.ends (hrest.head_ne rfl))]
  rfl

/-- The arguments of a field are read. -/
theorem read_inputs (hinputs : List.Forall₂ (Stands inputNode) inputs results) (rest : List Token)
    (hparen : rest.head? ≠ some (.mark .parenL)) :
    optionalMany .parenL inputNode .parenR (inputsTokens inputs ++ rest)
      = (results.mapM id).map (·, rest) := by
  unfold inputsTokens
  cases hinputs with
  | nil =>
    rw [List.isEmpty_nil, if_pos rfl]
    exact optionalMany_none hparen
  | @cons s x inputs results hs hinputs =>
    rw [List.isEmpty_cons, if_neg Bool.false_ne_true]
    have hread : optionalMany .parenL inputNode .parenR (.mark .parenL
        :: (s :: inputs).flatMap tokens ++ .mark .parenR :: rest) = _ :=
      optionalMany_texts rfl (List.Forall₂.cons hs hinputs) (List.cons_ne_nil _ _) rest
    simpa only [List.append_assoc, List.cons_append, List.nil_append] using hread

/-- A field with a return type stands for itself, if its arguments do. -/
theorem stands_field (hname : isName name)
    (hinputs : List.Forall₂ (Stands inputNode) inputs results) (h : type.Reads signature t)
    (huses : List.Forall₂ use.Reads uses nodes) :
    Stands fieldNode (name ++ inputsText inputs ++ (": " ++ signature ++ usesText uses))
      ((results.mapM id).map fun arguments =>
        { description := none, name, arguments, type := t, directives := nodes }) := by
  have hstops : Stops (": " ++ signature ++ usesText uses).toList := by
    rw [String.append_assoc]
    exact stops_colon _
  have hspells : Spells (name ++ inputsText inputs ++ (": " ++ signature ++ usesText uses)).toList
      (.name name :: (inputsTokens inputs
        ++ (.mark .colon :: tokens signature ++ uses.flatMap tokens))) := by
    have hargs := spells_inputs (forall_of_forall₂ hinputs fun _ _ hs => hs.spells)
    rw [String.append_assoc]
    exact (Spells.name hname).concat (hargs.concat (spells_result h huses) hstops)
      (stops_inputs inputs hstops)
  have htokens := tokens_of_spells hspells
  refine ⟨htokens ▸ hspells, ⟨_, _, htokens⟩, fun rest hrest => ?_⟩
  have hends := ends_uses huses hrest.ends
  rw [htokens]
  unfold fieldNode
  simp only [List.cons_append, List.append_assoc]
  rw [bind_of_some (description_name _ _), bind_of_some (name_cons _ _)]
  have hargs := read_inputs hinputs (.mark .colon :: (tokens signature
    ++ (uses.flatMap tokens ++ rest))) (by simp)
  cases hresults : results.mapM id with
  | none =>
    rw [hresults] at hargs
    exact bind_of_none hargs
  | some arguments =>
    rw [hresults] at hargs
    rw [bind_of_some hargs, bind_of_some (expect_cons _ _),
      bind_of_some (h.append Carries.type hends),
      bind_of_some (directives_uses huses hrest.ends (hrest.head_ne rfl))]
    rfl

/-- A field without a return type cannot be read. -/
theorem stands_untyped (hname : isName name)
    (hinputs : List.Forall₂ (Stands inputNode) inputs results) :
    Stands fieldNode (name ++ inputsText inputs) none
      ∧ (inputs = [] → Stands inputNode (name ++ inputsText inputs) none) := by
  have hspells : Spells (name ++ inputsText inputs).toList
      (.name name :: inputsTokens inputs) := by
    have hargs := spells_inputs (forall_of_forall₂ hinputs fun _ _ hs => hs.spells)
    refine (Spells.name hname).concat hargs ?_
    have hstops := stops_inputs inputs (u := "") (by rintro c ⟨⟩)
    rwa [String.append_empty] at hstops
  have htokens := tokens_of_spells hspells
  refine ⟨⟨htokens ▸ hspells, ⟨_, _, htokens⟩, fun rest hrest => ?_⟩,
    fun hnone => ⟨htokens ▸ hspells, ⟨_, _, htokens⟩, fun rest hrest => ?_⟩⟩
  · rw [htokens]
    unfold fieldNode
    rw [List.cons_append, bind_of_some (description_name _ _), bind_of_some (name_cons _ _)]
    have hargs := read_inputs hinputs rest (hrest.head_ne rfl)
    cases hresults : results.mapM id with
    | none =>
      rw [hresults] at hargs
      exact bind_of_none hargs
    | some arguments =>
      rw [hresults] at hargs
      rw [bind_of_some hargs]
      exact bind_of_none (expect_of_ne (hrest.head_ne rfl))
  · subst hnone
    rw [htokens]
    unfold inputNode
    rw [List.cons_append, bind_of_some (description_name _ _), bind_of_some (name_cons _ _)]
    exact bind_of_none (expect_of_ne (hrest.head_ne rfl))

/-- A word of an enum stands for itself. -/
theorem stands_word (hname : isName name) (hfree : isReserved name = false) :
    Stands enumNode name (some { description := none, name, directives := [] }) := by
  have hspells := Spells.name hname
  have htokens := tokens_of_spells hspells
  refine ⟨htokens ▸ hspells, ⟨_, _, htokens⟩, fun rest hrest => ?_⟩
  rw [htokens]
  unfold enumNode
  rw [List.cons_append, bind_of_some (description_name _ _), bind_of_some (name_cons _ _), hfree,
    if_neg Bool.false_ne_true]
  exact bind_of_some (directives_none (hrest.head_ne rfl))

end Fields

end Registry
end SchemaForge

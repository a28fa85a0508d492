import SchemaForge.Proofs.Registry.Nodes

/-!
# Texts of types

The text of a type stands for its definition, or for an extension, with what its lines stand
for.
-/
namespace SchemaForge

open Language Parser

variable {rest ts : List Token} {name : String}

namespace Language.Parser

theorem acceptWord_of_ne {w : String} (h : rest.head? ≠ some (.name w)) :
    acceptWord w rest = some (false, rest) := by
  have hpeek : peek rest = some (rest.head?, rest) := rfl
  unfold acceptWord
  rw [bind_of_some hpeek, beq_eq_false_iff_ne.mpr h, if_neg Bool.false_ne_true]
  rfl

/-- The word that starts an extension. -/
def startTokens (extends? : Bool) : List Token := if extends? then [.name "extend"] else []

/-- A definition or an extension of a type is read by its kind. -/
theorem definition_type (extends? : Bool) (k : TypeKind) (name : String) (ts : List Token) :
    definition (startTokens extends? ++ .name k.word :: .name name :: ts)
      = (typeBody k ts).bind fun x =>
        if extends? && !hasContent x.1.1 x.1.2 then none
        else some (.type { description := none, extends?, name, directives := x.1.1, body := x.1.2 }, x.2) := by
  have htype : ∀ ext : Bool, typeNode none ext k (.name name :: ts) = (typeBody k ts).bind fun x =>
      if ext && !hasContent x.1.1 x.1.2 then none
      else some ({ description := none, extends? := ext, name, directives := x.1.1, body := x.1.2 }, x.2) := by
    intro ext
    unfold typeNode
    rw [bind_of_some (name_cons _ _)]
    cases hbody : typeBody k ts with
    | none => exact bind_of_none hbody
    | some x =>
      rw [bind_of_some (x := x.1) (r := x.2) hbody, Option.bind_some]
      dsimp only
      split <;> rfl
  have hstart : definition (startTokens extends? ++ .name k.word :: .name name :: ts)
      = (Definition.type <$> typeNode none extends? k) (.name name :: ts) := by
    cases extends? <;> cases k <;> rfl
  rw [hstart, map_apply, htype, Option.map_bind]
  congr 1
  funext x
  dsimp only [Function.comp]
  split <;> rfl

end Language.Parser

namespace Registry

/-- The word before an extension. -/
def startText (extends? : Bool) : String := if extends? then "extend " else ""

/-- The definition of a type, or its extension. -/
def definitionOf (extends? : Bool) (name : String) (x : List DirectiveUse × TypeBody) : Definition :=
  .type { description := none, extends?, name, directives := x.1, body := x.2 }

variable {extends? : Bool} {k : TypeKind} {u : String} {us : List Token}

theorem isName_word (k : TypeKind) : isName k.word := by cases k <;> decide

/-- The head of a definition spells its words and the name. -/
theorem spells_head (hname : isName name) (h : Spells u.toList us) (hstops : Stops u.toList) :
    Spells (startText extends? ++ (k.word ++ (" " ++ (name ++ u)))).toList
      (startTokens extends? ++ .name k.word :: .name name :: us) := by
  have hblank : ∀ {s : String} {ts : List Token}, Spells s.toList ts →
      Spells (" " ++ s).toList ts := by
    intro s ts hs
    rw [String.toList_append]
    exact .separator rfl hs
  have hhead := (Spells.name (isName_word k)).concat
    (hblank ((Spells.name hname).concat h hstops)) (stops_of_toList rfl (by decide) _)
  cases extends? with
  | false =>
    rw [startText, startTokens, if_neg Bool.false_ne_true, String.empty_append,
      if_neg Bool.false_ne_true]
    exact hhead
  | true =>
    have hextend := (Spells.name (s := "extend") (by decide)).concat (hblank hhead)
      (stops_of_toList rfl (by decide) _)
    rw [← String.append_assoc] at hextend
    exact hextend

/-- A text of this form stands for a definition if what follows the name does. -/
theorem stands_definition {x : Option (List DirectiveUse × TypeBody)} (hname : isName name)
    (h : Spells u.toList us) (hstops : Stops u.toList)
    (hbody : ∀ rest, Fresh rest → typeBody k (us ++ rest) = x.map (·, rest))
    (hcontent : extends? = true → ∀ y ∈ x, hasContent y.1 y.2 = true) :
    Stands definition (startText extends? ++ (k.word ++ (" " ++ (name ++ u))))
      (x.map (definitionOf extends? name)) := by
  have hspells : Spells (startText extends? ++ (k.word ++ (" " ++ (name ++ u)))).toList _ :=
    spells_head hname h hstops
  have htokens := tokens_of_spells hspells
  refine ⟨htokens ▸ hspells, ?_, fun rest hrest => ?_⟩
  · rw [htokens]
    cases extends? <;> exact ⟨_, _, rfl⟩
  · rw [htokens, List.append_assoc, List.cons_append, List.cons_append, definition_type,
      hbody rest hrest]
    cases x with
    | none => rfl
    | some y =>
      have hfilled : ¬((extends? && !hasContent y.1 y.2) = true) := by
        intro hempty
        obtain ⟨hext, hno⟩ := Bool.and_eq_true_iff.mp hempty
        rw [hcontent hext y rfl] at hno
        cases hno
      rw [Option.map_some, Option.bind_some, if_neg hfilled]
      rfl

section Members

variable {α : Type} {p : Parser α} {uses texts : List String} {nodes : List DirectiveUse}
  {results : List (Option α)}

/-- Lines between braces. -/
def membersText (texts : List String) : String :=
  " \x7b\n" ++ (String.intercalate "\n" (texts.map ("  " ++ ·)) ++ "\n\x7d")

/-- The tokens of lines between braces. -/
def membersTokens (texts : List String) : List Token :=
  .mark .braceL :: (texts.flatMap tokens ++ [.mark .braceR])

/-- Indented lines spell what they spell. -/
theorem spells_lines (h : ∀ s ∈ texts, Spells s.toList (tokens s)) :
    Spells (String.intercalate "\n" (texts.map ("  " ++ ·))).toList (texts.flatMap tokens) := by
  have hindented : ∀ s ∈ texts, Spells ("  " ++ s).toList (tokens s) := by
    intro s hs
    rw [String.toList_append]
    exact .separator rfl (.separator rfl (h s hs))
  have htokens : ∀ s ∈ texts, tokens ("  " ++ s) = tokens s := fun s hs =>
    tokens_of_spells (hindented s hs)
  have hmap : (texts.map ("  " ++ ·)).flatMap tokens = texts.flatMap tokens := by
    rw [List.flatMap_map]
    exact List.flatMap_congr htokens
  rw [← hmap]
  refine .intercalate rfl rfl fun s hs => ?_
  obtain ⟨w, hw, rfl⟩ := List.mem_map.mp hs
  rw [htokens w hw]
  exact hindented w hw

theorem spells_members (h : ∀ s ∈ texts, Spells s.toList (tokens s)) :
    Spells (membersText texts).toList (membersTokens texts) := by
  unfold membersText membersTokens
  rw [String.toList_append]
  refine .separator rfl (.mark rfl (.separator rfl ((spells_lines h).concat ?_ ?_)))
  · exact .separator rfl (.mark rfl (.done rfl))
  · rintro c ⟨⟩
    decide

theorem stops_members (texts : List String) : Stops (membersText texts).toList :=
  stops_of_toList rfl (by decide) _

/-- Uses of directives and lines between braces are read. -/
theorem read_members (huses : List.Forall₂ use.Reads uses nodes)
    (htexts : List.Forall₂ (Stands p) texts results) (hsome : texts ≠ []) (rest : List Token) :
    directives true (uses.flatMap tokens ++ (membersTokens texts ++ rest))
        = some (nodes, membersTokens texts ++ rest)
      ∧ optionalMany .braceL p .braceR (membersTokens texts ++ rest)
        = (results.mapM id).map (·, rest) := by
  constructor
  · refine directives_uses huses ?_ ?_
    · rintro t ⟨⟩
      rfl
    · rintro ⟨⟩
  · have hread : optionalMany .braceL p .braceR
        (.mark .braceL :: texts.flatMap tokens ++ .mark .braceR :: rest) = _ :=
      optionalMany_texts rfl htexts hsome rest
    unfold membersTokens
    simpa only [List.append_assoc, List.cons_append, List.nil_append] using hread

/-- No interfaces stand before uses of directives and lines between braces. -/
theorem read_interfaces (huses : List.Forall₂ use.Reads uses nodes) (texts : List String)
    (rest : List Token) : interfaces (uses.flatMap tokens ++ (membersTokens texts ++ rest))
      = some ([], uses.flatMap tokens ++ (membersTokens texts ++ rest)) := by
  have hhead : (uses.flatMap tokens ++ (membersTokens texts ++ rest)).head?
      ≠ some (.name "implements") := by
    cases huses with
    | nil => rintro ⟨⟩
    | cons hu _ =>
      obtain ⟨tail, htail⟩ := tokens_use hu
      rw [List.flatMap_cons, htail]
      rintro ⟨⟩
  unfold interfaces
  rw [bind_of_some (acceptWord_of_ne hhead), if_neg Bool.false_ne_true]
  rfl

end Members

section Bodies

variable {uses texts : List String} {nodes : List DirectiveUse}

/-- Uses of directives and what lines between braces make. -/
theorem read_braced {α : Type} {p : Parser α} (make : List α → TypeBody)
    {results : List (Option α)} (huses : List.Forall₂ use.Reads uses nodes)
    (htexts : List.Forall₂ (Stands p) texts results) (hsome : texts ≠ []) (rest : List Token) :
    (directives true >>= fun us => optionalMany .braceL p .braceR >>= fun xs =>
        pure (us, make xs)) (uses.flatMap tokens ++ (membersTokens texts ++ rest))
      = ((results.mapM id).map fun xs => (nodes, make xs)).map (·, rest) := by
  obtain ⟨hdirectives, hmembers⟩ := read_members huses htexts hsome rest
  rw [bind_of_some hdirectives]
  cases hresults : results.mapM id with
  | none =>
    rw [hresults] at hmembers
    exact bind_of_none hmembers
  | some xs =>
    rw [hresults] at hmembers
    exact bind_of_some hmembers

/-- The body of a type with fields. -/
theorem read_fielded (make : List String → List FieldNode → TypeBody)
    {results : List (Option FieldNode)} (huses : List.Forall₂ use.Reads uses nodes)
    (htexts : List.Forall₂ (Stands fieldNode) texts results) (hsome : texts ≠ [])
    (rest : List Token) :
    fieldedBody make (uses.flatMap tokens ++ (membersTokens texts ++ rest))
      = ((results.mapM id).map fun fs => (nodes, make [] fs)).map (·, rest) := by
  unfold fieldedBody fields
  rw [bind_of_some (read_interfaces huses texts rest)]
  exact read_braced (make []) huses htexts hsome rest

/-- The body of a scalar. -/
theorem read_scalar (huses : List.Forall₂ use.Reads uses nodes) (hrest : Fresh rest) :
    typeBody .scalar (uses.flatMap tokens ++ rest) = some ((nodes, .scalar), rest) := by
  exact bind_of_some (directives_uses huses hrest.ends (hrest.head_ne rfl))

/-- The tokens of further members of a union. -/
def furtherTokens (names : List String) : List Token :=
  names.flatMap fun n => [.mark .pipe, .name n]

/-- Names with marks between them. -/
theorem following_names (names : List String) (hrest : Fresh rest) {n : Nat}
    (hn : names.length < n) :
    following .pipe Parser.name n (furtherTokens names ++ rest) = some (names, rest) := by
  induction names generalizing n with
  | nil =>
    obtain ⟨n, rfl⟩ : ∃ k, n = k + 1 := ⟨n - 1, by omega⟩
    unfold following furtherTokens
    rw [List.flatMap_nil, List.nil_append, bind_of_some (accept_of_ne (hrest.head_ne rfl))]
    rfl
  | cons m names ih =>
    obtain ⟨n, rfl⟩ : ∃ k, n = k + 1 := ⟨n - 1, by omega⟩
    have hcons : furtherTokens (m :: names) = .mark .pipe :: .name m :: furtherTokens names := rfl
    unfold following
    rw [hcons, List.cons_append, List.cons_append, bind_of_some (accept_cons _ _), if_pos rfl,
      bind_of_some (name_cons _ _),
      bind_of_some (ih (Nat.lt_of_succ_lt_succ hn))]
    rfl

/-- The body of a union. -/
theorem read_union (n : String) (names : List String) (hrest : Fresh rest) :
    typeBody .union (.mark .equals :: .name n :: furtherTokens names ++ rest)
      = some (([], .union (n :: names)), rest) := by
  have hlength : names.length ≤ (furtherTokens names).length := by
    unfold furtherTokens
    induction names with
    | nil => exact Nat.le_refl _
    | cons m names ih =>
      rw [List.flatMap_cons, List.length_append, List.length_cons]
      simp only [List.length_cons, List.length_nil]
      omega
  have hfuel : names.length < (furtherTokens names ++ rest).length + 1 := by
    rw [List.length_append]
    omega
  have hfollowing := following_names names hrest hfuel
  have hmembers : separated .pipe Parser.name (.name n :: furtherTokens names ++ rest)
      = some (n :: names, rest) := by
    unfold separated
    have hfirst : (discard (accept .pipe) : Parser Unit) (.name n :: furtherTokens names ++ rest)
        = some ((), .name n :: furtherTokens names ++ rest) := rfl
    rw [bind_of_some hfirst, List.cons_append, bind_of_some (name_cons _ _),
      bind_of_some (fuel_apply _), bind_of_some hfollowing]
    rfl
  have hnone : directives true (.mark .equals :: .name n :: furtherTokens names ++ rest)
      = some ([], .mark .equals :: .name n :: furtherTokens names ++ rest) :=
    directives_none (by simp)
  unfold typeBody
  dsimp only
  rw [bind_of_some hnone, List.cons_append, bind_of_some (accept_cons _ _), if_pos rfl,
    bind_of_some hmembers]
  rfl

/-- The text of the members of a union. -/
theorem spells_union (n : String) (names : List String) (hn : isName n)
    (hnames : ∀ m ∈ names, isName m) :
    Spells (" = " ++ String.intercalate " | " (n :: names)).toList
      (.mark .equals :: .name n :: furtherTokens names) := by
  have hlist : ∀ n : String, isName n → Spells (String.intercalate " | " (n :: names)).toList
      (.name n :: furtherTokens names) := by
    induction names with
    | nil =>
      intro n hn
      rw [String.intercalate_singleton]
      exact .name hn
    | cons m names ih =>
      intro n hn
      have hm := hnames m (List.mem_cons_self ..)
      have hrest := ih (fun l hl => hnames l (List.mem_cons_of_mem _ hl)) m hm
      rw [String.intercalate_cons_cons, String.append_assoc]
      refine (Spells.name hn).concat ?_ (stops_of_toList rfl (by decide) _)
      rw [String.toList_append]
      exact .separator rfl (.mark rfl (.separator rfl hrest))
  rw [String.toList_append]
  exact .separator rfl (.mark rfl (.separator rfl (hlist n hn)))

end Bodies

end Registry
end SchemaForge

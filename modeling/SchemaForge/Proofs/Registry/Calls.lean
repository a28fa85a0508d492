import SchemaForge.Proofs.Language.Literals
import SchemaForge.Proofs.Number.Notation
import SchemaForge.Proofs.Registry.Nodes

/-!
# Texts of uses of directives

A use of a directive whose arguments are literals is written as a text that reads as the use
with these literals, without the arguments that are null.
-/
namespace SchemaForge

open Language Parser

/-- A text is a use of a directive: its name and, between parentheses if there are any, each
argument with a text that is its literal. -/
def Language.DirectiveUse.WrittenAs (u : DirectiveUse) (text : String) : Prop :=
  ∃ texts, List.Forall₂ (fun s a => ∃ l, s = a.1 ++ ": " ++ l ∧ ReadsLiteral l a.2) texts u.arguments
    ∧ text = "@" ++ u.name ++ (if texts.isEmpty then "" else bracketed "(" ")" texts)

namespace DirectiveCall

/-- The use that a call is, without the arguments that are null. -/
def use (d : DirectiveCall) : DirectiveUse :=
  ⟨d.name, (d.arguments.filter fun a => !a.2.isNull).map fun a => (a.1, a.2.literal)⟩

/-- Whether every argument is null or of a literal kind. -/
def isAccepted (d : DirectiveCall) : Bool :=
  d.arguments.all fun a => (LiteralKind.ofArgument a.2).isOk

/-- Every floating-point number in the arguments is finite. -/
def Finite (d : DirectiveCall) : Prop := ∀ a ∈ d.arguments, a.2.isFinite = true

/-- Every argument is a literal. -/
def IsLiteral (d : DirectiveCall) : Prop := ∀ a ∈ d.arguments, a.2.isLiteral = true

/-- The directive and its arguments have names of the schema language. -/
def Named (d : DirectiveCall) : Prop := isName d.name ∧ ∀ a ∈ d.arguments, isName a.1

end DirectiveCall

theorem DirectiveCall.ofArgument_eq_ok {d : DirectiveCall} (h : d.isAccepted) {a : String × Value}
    (ha : a ∈ d.arguments) : ∃ k, LiteralKind.ofArgument a.2 = .ok k := by
  have hok := List.all_eq_true.mp h a ha
  cases hk : LiteralKind.ofArgument a.2 with
  | error e =>
    rw [hk] at hok
    cases hok
  | ok k => exact ⟨k, rfl⟩

/-- A kind of an argument that is not null is the kind of its value. -/
theorem LiteralKind.ofValue_of_ofArgument {v : Value} {k : Option LiteralKind}
    (hv : v.isNull = false) (h : ofArgument v = .ok k) : ∃ k', k = some k' ∧ ofValue v = .ok k' := by
  unfold ofArgument at h
  rw [hv, if_neg Bool.false_ne_true] at h
  obtain ⟨k', hk', rfl⟩ := Outcome.map_eq_ok.mp h
  exact ⟨k', rfl, hk'⟩

/-- Arguments that are accepted are literals, if their numbers are finite. -/
theorem DirectiveCall.isLiteral_of_isAccepted {d : DirectiveCall} (h : d.isAccepted)
    (hfinite : d.Finite) : d.IsLiteral := by
  intro a ha
  obtain ⟨k, hk⟩ := ofArgument_eq_ok h ha
  cases hnull : a.2.isNull with
  | true =>
    cases hv : a.2 with
    | null => rfl
    | _ =>
      rw [hv] at hnull
      cases hnull
  | false =>
    obtain ⟨k, -, hk⟩ := LiteralKind.ofValue_of_ofArgument hnull hk
    exact a.2.isLiteral_of_ofValue hk (hfinite a ha)

namespace Registry

variable {key s : String} {x : Literal}

/-- An argument with a literal stands for itself. -/
theorem stands_given (hkey : isName key) (h : ReadsLiteral s x) :
    Stands (argument true) (key ++ ": " ++ s) (some (key, x)) := by
  have hspells : Spells (key ++ ": " ++ s).toList (.name key :: .mark .colon :: tokens s) := by
    rw [String.append_assoc]
    exact (Spells.name hkey).concat (spells_colon h.spells) (stops_colon _)
  have htokens := tokens_of_spells hspells
  refine ⟨htokens ▸ hspells, ⟨_, _, htokens⟩, fun rest _ => ?_⟩
  rw [htokens]
  unfold argument
  rw [List.cons_append, List.cons_append, bind_of_some (name_cons _ _),
    bind_of_some (expect_cons _ _), bind_of_some (h.value rest)]
  rfl

/-- Arguments with literals between parentheses are read. -/
theorem read_given {texts : List String} {arguments : Arguments}
    (h : List.Forall₂ (Stands (argument true)) texts (arguments.map some)) (hsome : texts ≠ []) :
    Parser.arguments true (.mark .parenL :: texts.flatMap tokens ++ [.mark .parenR])
      = some (arguments, []) := by
  have hread : Parser.arguments true (.mark .parenL :: texts.flatMap tokens ++ [.mark .parenR])
      = ((arguments.map some).mapM id).map (·, []) := optionalMany_texts rfl h hsome []
  rw [mapM_id_map_some] at hread
  exact hread

/-- **What is written as a use reads as the use**, if its parts have names. -/
theorem reads_of_writtenAs {u : DirectiveUse} {text : String} (h : u.WrittenAs text)
    (hname : isName u.name) (hnames : ∀ a ∈ u.arguments, isName a.1) :
    Parser.use.Reads text u := by
  obtain ⟨texts, hparts, rfl⟩ := h
  have hstands : List.Forall₂ (Stands (argument true)) texts (u.arguments.map some) := by
    rw [List.forall₂_map_right_iff]
    refine List.forall₂_iff_get.mpr ⟨hparts.length_eq, fun i hi hi' => ?_⟩
    obtain ⟨l, hl, hread⟩ := hparts.get hi hi'
    rw [hl]
    exact stands_given (hnames _ (List.get_mem ..)) hread
  have hhead : Spells u.name.toList [.name u.name] := .name hname
  cases htexts : texts with
  | nil =>
    have hnone : u.arguments = [] := by
      rw [htexts] at hparts
      exact List.forall₂_nil_left_iff.mp hparts
    refine ⟨[.mark .at, .name u.name], ?_, ?_⟩
    · rw [List.isEmpty_nil, if_pos rfl, String.append_empty, String.toList_append]
      exact .mark rfl hhead
    · have hargs : Parser.arguments true ([] : List Token) = some ([], []) := rfl
      unfold Parser.use
      rw [bind_of_some (expect_cons _ _), bind_of_some (name_cons _ _), bind_of_some hargs, ← hnone]
      rfl
  | cons first more =>
    have hsome : texts ≠ [] := htexts ▸ List.cons_ne_nil _ _
    have hspells := forall_of_forall₂ hstands fun _ _ h => h.spells
    have hopen : Spells (bracketed "(" ")" texts).toList
        (.mark .parenL :: texts.flatMap tokens ++ [.mark .parenR]) := by
      unfold bracketed
      rw [String.append_assoc, String.toList_append, List.cons_append]
      refine .mark rfl ((Spells.intercalate rfl rfl hspells).concat (.mark rfl (.done rfl)) ?_)
      rintro c ⟨⟩
      rfl
    rw [← htexts, List.isEmpty_eq_false_iff.mpr hsome, if_neg Bool.false_ne_true]
    refine ⟨.mark .at :: .name u.name :: (.mark .parenL :: texts.flatMap tokens ++ [.mark .parenR]),
      ?_, ?_⟩
    · rw [String.append_assoc, String.toList_append]
      refine .mark rfl (hhead.concat hopen ?_)
      unfold bracketed
      rw [String.append_assoc]
      exact stops_of_toList rfl (by decide) _
    · unfold Parser.use
      rw [bind_of_some (expect_cons _ _), bind_of_some (name_cons _ _),
        bind_of_some (read_given hstands hsome)]
      rfl

/-- **A call is written as the use that it is.** -/
theorem writtenAs_call {d : DirectiveCall} (h : d.IsLiteral) : d.use.WrittenAs d.text := by
  refine ⟨(d.arguments.filter fun a => !a.2.isNull).map fun a => a.1 ++ ": " ++ a.2.json, ?_, ?_⟩
  · unfold DirectiveCall.use
    rw [List.forall₂_map_left_iff, List.forall₂_map_right_iff, List.forall₂_same]
    intro a ha
    exact ⟨_, rfl, a.2.reads_literal (h a (List.mem_filter.mp ha).1)⟩
  · unfold DirectiveCall.text
    rw [List.isEmpty_map]
    rfl

/-- The text of a call reads as the use that it is. -/
theorem reads_call {d : DirectiveCall} (hnamed : d.Named) (h : d.IsLiteral) :
    Parser.use.Reads d.text d.use := by
  refine reads_of_writtenAs (writtenAs_call h) hnamed.1 fun a ha => ?_
  obtain ⟨b, hb, rfl⟩ := List.mem_map.mp ha
  exact hnamed.2 b (List.mem_filter.mp hb).1

end Registry

/-! ### What the text of a use determines

The text of a use of a directive parses as one use, with the name and the arguments that it was
made of. Two uses with one text are therefore the same use, and a list that holds each text once
holds each use once.
-/

namespace Value

mutual

/-- A value is written as its tuples are lists. -/
theorem json_listed : (v : Value) → v.listed.json = v.json
  | .list xs => congrArg (fun ts => "[" ++ String.intercalate ", " ts ++ "]") (writeAll_listedAll xs)
  | .tuple xs => congrArg (fun ts => "[" ++ String.intercalate ", " ts ++ "]") (writeAll_listedAll xs)
  | .null | .bool _ | .int _ | .real _ | .text _ | .date _ | .moment _ | .record _ | .object _ _
  | .pattern _ | .entity _ _ | .cell _ => rfl

theorem writeAll_listedAll : (xs : List Value) → Json.writeAll (listedAll xs) = Json.writeAll xs
  | [] => rfl
  | x :: xs => by
    have hx : Json.write x.listed = Json.write x := json_listed x
    rw [listedAll, Json.writeAll, Json.writeAll, hx, writeAll_listedAll xs]

end

end Value

namespace DirectiveCall

/-- The arguments of a use that are not null, tuples as lists. -/
def given (d : DirectiveCall) : Fields :=
  (d.arguments.filter fun a => !a.2.isNull).map fun a => (a.1, a.2.listed)

/-- What two uses have in common if they are the same: a name and arguments that are not null. -/
def essence (d : DirectiveCall) : String × Fields := (d.name, d.given)

/-- A use can be written: its parts have names, and its arguments are literals. -/
structure Writable (d : DirectiveCall) : Prop where
  /-- The directive and its arguments have names. -/
  named : d.Named
  /-- The arguments are null, truth values, finite numbers, texts or lists of such. -/
  isLiteral : d.IsLiteral

variable {d e : DirectiveCall}

/-- The arguments that the text of a use spells are the arguments that it was given. -/
theorem data_use (h : d.IsLiteral) :
    d.use.arguments.map (fun a => (a.1, Scalar.untyped [] a.2)) = d.given := by
  unfold use given
  rw [List.map_map]
  refine List.map_congr_left fun a ha => ?_
  have hliteral := h a (List.mem_filter.mp ha).1
  exact congrArg (Prod.mk a.1) (a.2.untyped_literal [] hliteral)

/-- The text of a use is parsed as the use alone. -/
theorem run_text (h : d.Writable) : (Parser.directives true).run d.text = .ok [d.use] := by
  have hreads := Registry.reads_call h.named h.isLiteral
  have htokens : Parser.directives true ([d.text].flatMap Parser.tokens ++ []) = some ([d.use], []) :=
    Parser.directives_uses (.cons hreads .nil) (by rintro t ⟨⟩) (by simp)
  rw [List.flatMap_cons, List.flatMap_nil, List.append_nil, List.append_nil] at htokens
  exact Parser.Reads.run_eq ⟨_, hreads.spells, htokens⟩

/-- **Uses with one text are the same use.** -/
theorem essence_eq_of_text_eq (hd : d.Writable) (he : e.Writable) (h : d.text = e.text) :
    d.essence = e.essence := by
  have huse : d.use = e.use := by
    have hrun := (run_text hd).symm.trans ((congrArg _ h).trans (run_text he))
    exact (List.cons.inj (Except.ok.inj hrun)).1
  have hname : d.name = e.name := congrArg DirectiveUse.name huse
  have hgiven : d.given = e.given := by
    rw [← data_use hd.isLiteral, ← data_use he.isLiteral, huse]
  exact Prod.ext hname hgiven

/-- The text of a use is that of its name and the arguments that are not null. -/
theorem text_eq_of_essence_eq (h : d.essence = e.essence) : d.text = e.text := by
  have htexts : ∀ d : DirectiveCall, (d.arguments.filter fun a => !a.2.isNull).map
      (fun a => a.1 ++ ": " ++ a.2.json) = d.given.map fun a => a.1 ++ ": " ++ a.2.json := by
    intro d
    unfold given
    rw [List.map_map]
    refine List.map_congr_left fun a _ => ?_
    exact congrArg (a.1 ++ ": " ++ ·) (a.2.json_listed).symm
  have hempty : ∀ d : DirectiveCall, (d.arguments.filter fun a => !a.2.isNull).isEmpty
      = d.given.isEmpty := fun d => List.isEmpty_map.symm
  obtain ⟨hname, hgiven⟩ := Prod.ext_iff.mp h
  have hgiven : d.given = e.given := hgiven
  have hname : d.name = e.name := hname
  unfold text
  dsimp only
  rw [htexts, htexts, hempty, hempty, hname, hgiven]

end DirectiveCall

/-- The texts of some uses, added one after the other. -/
def textsOf (texts : List String) (ds : List DirectiveCall) : List String :=
  ds.foldl (fun texts d => addOnce texts d.text) texts

/-- **A list of texts has one text for each use.** What is kept of some uses are uses among them,
no two the same, and each use is the same as one that is kept. -/
theorem textsOf_eq {kept ds : List DirectiveCall} (h : ∀ d ∈ kept ++ ds, d.Writable)
    (hkept : kept.Pairwise fun d e => d.essence ≠ e.essence) :
    ∃ more, more.Sublist ds ∧ textsOf (kept.map DirectiveCall.text) ds
        = (kept ++ more).map DirectiveCall.text
      ∧ (kept ++ more).Pairwise (fun d e => d.essence ≠ e.essence)
      ∧ ∀ d ∈ ds, ∃ e ∈ kept ++ more, e.essence = d.essence := by
  induction ds generalizing kept with
  | nil => exact ⟨[], .slnil, by simp [textsOf], by simpa using hkept, by simp⟩
  | cons d ds ih =>
    have hd : d.Writable := h d (by simp)
    by_cases htext : d.text ∈ kept.map DirectiveCall.text
    · -- The text is there, so it is the text of a use that is the same.
      obtain ⟨e, he, heq⟩ := List.mem_map.mp htext
      have hsame := DirectiveCall.essence_eq_of_text_eq (h e (by simp [he])) hd heq
      have hadd : addOnce (kept.map DirectiveCall.text) d.text = kept.map DirectiveCall.text :=
        if_pos (List.contains_iff_mem.mpr htext)
      obtain ⟨more, hsub, htexts, hpairwise, hall⟩ := ih
        (fun e he => h e (by rw [List.append_cons]; simp only [List.mem_append] at he ⊢; tauto)) hkept
      refine ⟨more, hsub.cons d, ?_, hpairwise, ?_⟩
      · rw [← htexts, textsOf, List.foldl_cons, hadd]
        rfl
      · rintro e' (_ | ⟨_, he'⟩)
        · exact ⟨e, List.mem_append_left _ he, hsame⟩
        · exact hall e' he'
    · have hadd : addOnce (kept.map DirectiveCall.text) d.text
          = (kept ++ [d]).map DirectiveCall.text := by
        rw [List.map_append]
        exact if_neg fun hmem => htext (List.contains_iff_mem.mp hmem)
      have hnew : (kept ++ [d]).Pairwise fun d e => d.essence ≠ e.essence := by
        rw [List.pairwise_append]
        refine ⟨hkept, List.pairwise_singleton _ _, fun e he d' hd' heq => htext ?_⟩
        rw [List.mem_singleton.mp hd'] at heq
        exact List.mem_map.mpr ⟨e, he, DirectiveCall.text_eq_of_essence_eq heq⟩
      obtain ⟨more, hsub, htexts, hpairwise, hall⟩ := ih
        (fun e he => h e (by rwa [List.append_cons])) hnew
      rw [List.append_assoc, List.singleton_append] at htexts hpairwise hall
      refine ⟨d :: more, hsub.cons_cons d, ?_, hpairwise, ?_⟩
      · rw [← htexts, textsOf, List.foldl_cons, hadd]
        rfl
      · rintro e (_ | ⟨_, he⟩)
        · exact ⟨d, by simp, rfl⟩
        · exact hall e he

/-- What a line keeps of its uses of directives. -/
theorem directives_line (ds : List DirectiveCall) (line : FieldLine) :
    (ds.foldl (fun line d => line.addDirective d.text) line).directives
      = textsOf line.directives ds := by
  induction ds generalizing line with
  | nil => rfl
  | cons d ds ih => exact ih _

/-- What a type keeps of its uses of directives. -/
theorem directives_entry (ds : List DirectiveCall) (entry : TypeEntry) :
    (ds.foldl (fun entry d => entry.addDirective d.text) entry).directives
      = textsOf entry.directives ds := by
  induction ds generalizing entry with
  | nil => rfl
  | cons d ds ih => exact ih _

/-- **The text of a use determines the use.** It parses as one use, with its name and with its
arguments that are not null, in their order and with their values. Two uses have one text if and
only if they are the same, and what lines and types keep of some uses has one text for each. -/
theorem text_determines_use {ds : List DirectiveCall} (h : ∀ d ∈ ds, d.Writable) :
    (∀ d ∈ ds, ∃ u : DirectiveUse, (Parser.directives true).run d.text = .ok [u]
      ∧ u.name = d.name
      ∧ u.arguments.map (fun a => (a.1, Scalar.untyped [] a.2)) = d.given)
    ∧ (∀ d ∈ ds, ∀ e ∈ ds, d.text = e.text ↔ d.essence = e.essence)
    ∧ ∃ kept : List DirectiveCall, kept.Sublist ds
      ∧ (ds.foldl (fun line d => line.addDirective d.text) ({} : FieldLine)).directives
        = kept.map DirectiveCall.text
      ∧ (ds.foldl (fun entry d => entry.addDirective d.text) ({} : TypeEntry)).directives
        = kept.map DirectiveCall.text
      ∧ kept.Pairwise (fun d e => d.essence ≠ e.essence)
      ∧ ∀ d ∈ ds, ∃ e ∈ kept, e.essence = d.essence := by
  refine ⟨fun d hd => ?_, fun d hd e he => ⟨?_, DirectiveCall.text_eq_of_essence_eq⟩, ?_⟩
  · exact ⟨d.use, DirectiveCall.run_text (h d hd), rfl, DirectiveCall.data_use (h d hd).isLiteral⟩
  · exact DirectiveCall.essence_eq_of_text_eq (h d hd) (h e he)
  · obtain ⟨kept, hsub, htexts, hpairwise, hall⟩ := textsOf_eq (show ∀ d ∈ [] ++ ds, d.Writable from h) .nil
    rw [List.nil_append] at htexts hpairwise hall
    exact ⟨kept, hsub, (directives_line ds _).trans htexts, (directives_entry ds _).trans htexts,
      hpairwise, hall⟩

/-- A role that is a text and a list with this text are different uses. -/
theorem text_determines_use_of_roles :
    let text : DirectiveCall := ⟨"auth", [("role", .text "admin"), ("scope", .null)]⟩
    let list : DirectiveCall := ⟨"auth", [("role", .list [.text "admin", .null])]⟩
    (∀ d ∈ [text, list], d.Writable) ∧ ¬text.text = list.text := by
  have hwritable : ∀ d ∈ [(⟨"auth", [("role", .text "admin"), ("scope", .null)]⟩ : DirectiveCall),
      ⟨"auth", [("role", .list [.text "admin", .null])]⟩], d.Writable := by
    simp only [List.forall_mem_cons, List.not_mem_nil, false_imp_iff, implies_true, and_true]
    exact ⟨⟨⟨by decide, by decide⟩, by unfold DirectiveCall.IsLiteral; decide⟩,
      ⟨⟨by decide, by decide⟩, by unfold DirectiveCall.IsLiteral; decide⟩⟩
  refine ⟨hwritable, fun heq => ?_⟩
  have hsame := ((text_determines_use hwritable).2.1 _ (by simp) _ (by simp)).mp heq
  simp [DirectiveCall.essence, DirectiveCall.given, Value.isNull, Value.listed] at hsame

end SchemaForge

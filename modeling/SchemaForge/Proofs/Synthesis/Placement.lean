import SchemaForge.Proofs.Evaluation
import SchemaForge.Proofs.Registry.Placing
import SchemaForge.Proofs.Synthesis.Recording

/-!
# Where synthesized directives stand

Every use in the text of a synthesis is of a directive that was recorded. If the directive was
not there before, the text defines it, and the use has the arguments that it needs. But every
definition is for object types and fields and not to be repeated, whereas types of any kind can
have directives, and a directive that is declared twice with different arguments is used twice.
**`uses_fit_iff`** says that nothing else can go wrong.
-/
namespace SchemaForge

open Language Parser

/-- The numbers of a directive are finite, and its arguments have different names. -/
structure Directive.Regular (x : Directive) : Prop where
  /-- Its numbers are finite. -/
  finite : x.call.Finite
  /-- Its arguments have different names. -/
  distinct : (Table.keys x.arguments).Nodup

namespace DirectiveRecords

variable {calls : List DirectiveCall} {d : DirectiveCall}

/-- What is recorded has names, if the records are readable. -/
theorem named_of_readable (hdistinct : ∀ d ∈ calls, (Table.keys d.arguments).Nodup)
    (hrecords : (after calls).Readable) (hd : d ∈ calls) (haccepted : d.isAccepted = true) :
    d.Named := by
  obtain ⟨r, hr⟩ : ∃ r, Table.get? (after calls) d.name = some r := by
    rw [← Option.isSome_iff_exists, ← Table.has_eq_isSome, has_after]
    exact ⟨d, hd, rfl⟩
  obtain ⟨hname, harguments⟩ := hrecords _ (Table.mem_of_get? hr)
  obtain ⟨hcovers, -⟩ := covers_after hdistinct d.name
  rw [recordOf_of_get? hr] at hcovers
  refine ⟨hname, fun a ha => ?_⟩
  obtain ⟨_, kinds, -, hkinds, -⟩ :=
    hcovers.kinds _ (mem_succeeded.mpr ⟨d, hd, rfl, haccepted, rfl⟩) a ha
  exact harguments _ (Table.mem_of_get? hkinds)

end DirectiveRecords

namespace Registry

variable {r : Registry} {calls : List DirectiveCall} {types directives : List String} {text : String}
  {doc : Document} {base : Option Schema}

/-- The definitions of all directives that were not there before are printed. -/
theorem definition_of_text {records : DirectiveRecords}
    (h : r.text records types directives = .ok text) {e : String × DirectiveRecord} (he : e ∈ records)
    (hnew : e.1 ∉ directives) : ∃ s, e.2.definition e.1 = .ok s := by
  obtain ⟨_, hdefinitions, -⟩ := Outcome.bind_eq_ok.mp h
  refine exists_of_mapM hdefinitions e (List.mem_filter.mpr ⟨he, ?_⟩)
  simpa using hnew

/-- **A use of one of the document's own directives conforms to its definition.** -/
theorem conforms_documentOf (hdistinct : ∀ d ∈ calls, (Table.keys d.arguments).Nodup)
    (htext : r.text (DirectiveRecords.after calls) types directives = .ok text)
    (hdoc : r.documentOf (DirectiveRecords.after calls) types directives = some doc)
    {d : DirectiveCall} (hd : d ∈ calls) (haccepted : d.isAccepted = true)
    (hdefines : (⟨base, doc⟩ : Addition).defines d.use = true) :
    ∃ n, (⟨base, doc⟩ : Addition).directive? d.name = some n ∧ d.use.Conforms n
      ∧ (⟨base, doc⟩ : Addition).argumentsFit d.use = true := by
  obtain ⟨n, hn, hname, hfound⟩ := Addition.exists_directive hdefines
  obtain ⟨nodes, hnodes, -⟩ := documentOf_eq_some hdoc
  rw [(parts_documentOf base hnodes).2.2] at hn
  obtain ⟨⟨name, r⟩, he, rfl⟩ := List.mem_map.mp hn
  obtain ⟨hrecord, hnew⟩ := List.mem_filter.mp he
  obtain ⟨s, hs⟩ := definition_of_text htext hrecord (by simpa using hnew)
  replace hname : d.name = name := hname.symm
  obtain ⟨hcovers, htidy⟩ := DirectiveRecords.covers_after hdistinct name
  rw [DirectiveRecords.recordOf_of_get?
    (Table.get?_of_mem (DirectiveRecords.nodup_keys_after calls) hrecord)] at hcovers htidy
  have hconforms := hcovers.conforms htidy hs
    (DirectiveRecords.mem_succeeded.mpr ⟨d, hd, hname, haccepted, rfl⟩) hname
  have honce : (d.use.arguments.map Prod.fst).Nodup := by
    refine (hdistinct d hd).sublist ?_
    unfold DirectiveCall.use
    rw [List.map_map]
    exact List.filter_sublist.map _
  exact ⟨_, hfound, hconforms, Addition.argumentsFit_of_conforms hfound hconforms honce⟩

/-- A recorded use is of one of the document's own directives, or of one that was there before. -/
theorem defines_documentOf
    (hdoc : r.documentOf (DirectiveRecords.after calls) types directives = some doc)
    {d : DirectiveCall} (hd : d ∈ calls) :
    (⟨base, doc⟩ : Addition).defines d.use = true ∨ d.name ∈ directives := by
  by_cases hold : d.name ∈ directives
  · exact .inr hold
  · obtain ⟨r, hr⟩ : ∃ r, Table.get? (DirectiveRecords.after calls) d.name = some r := by
      rw [← Option.isSome_iff_exists, ← Table.has_eq_isSome, DirectiveRecords.has_after]
      exact ⟨d, hd, rfl⟩
    obtain ⟨nodes, hnodes, -⟩ := documentOf_eq_some hdoc
    refine .inl (List.any_eq_true.mpr ⟨r.node d.name, ?_, beq_self_eq_true _⟩)
    rw [(parts_documentOf base hnodes).2.2]
    exact List.mem_map.mpr ⟨_, List.mem_filter.mpr ⟨Table.mem_of_get? hr, by simpa using hold⟩, rfl⟩

end Registry

namespace Synthesis

/-- **The uses of directives in the text of a synthesis keep the rules if and only if** the
directives that the text defines stand on object types and on fields, none twice in one place, and
the other directives keep the rules. Every use is of a directive that the text defines or that
was there before, and in the former case it conforms to the definition. -/
theorem uses_fit_iff {b : Declarations} {x : Extensions} {s : ThunkState} {d : Draft}
    {types directives : List String} {text : String} {a : Addition}
    (hs : s.All Directive.Regular)
    (ho : ∀ o ∈ b.directiveOptions x.fields, o.All Directive.Regular)
    (h : synthesize b (fresh x s) = (.ok ⟨⟩, d))
    (hr : d.registry.Readable) (hrecords : d.directives.Readable)
    (htext : d.registry.text d.directives types directives = .ok text)
    (hdoc : Document.ofText? text = .ok a.document) :
    (∀ u ∈ a.uses, a.defines u = true ∨ u.name ∈ directives)
    ∧ (∀ u ∈ a.uses, a.defines u = true →
        ∃ n, a.directive? u.name = some n ∧ u.Conforms n ∧ a.argumentsFit u = true)
    ∧ (a.usesFit = true ↔ a.PlacesOwn ∧ a.FitsOthers) := by
  obtain ⟨base, doc⟩ := a
  have htidy := tidy_fresh x s
  have htypes := (tidy_of_synthesize htidy h).types
  obtain ⟨xs, hregular, hafter, hbears⟩ :=
    (recorded_of_synthesize htidy ho (recorded_fresh hs) h).uses
  have hdistinct : ∀ c ∈ xs.map Directive.call, (Table.keys c.arguments).Nodup :=
    List.forall_mem_map.mpr fun y hy => (hregular y hy).distinct
  have hsome : text ≠ "" := by
    rintro rfl
    cases hdoc
  have hdocument : d.registry.documentOf (DirectiveRecords.after (xs.map Directive.call)) types
      directives = some doc := by
    rw [← hafter, ← Registry.ofText?_text hr hrecords htext hsome, hdoc]
    rfl
  rw [hafter] at htext hrecords
  have huses : ∀ u ∈ (⟨base, doc⟩ : Addition).uses,
      ∃ c ∈ xs.map Directive.call, c.isAccepted = true ∧ u = c.use := by
    intro u hu
    obtain ⟨use, ⟨y, hy, haccepted, rfl⟩, hread⟩ :=
      Registry.uses_documentOf htypes hbears hdocument u hu
    have hcall := List.mem_map_of_mem (f := Directive.call) hy
    have hreads := Registry.reads_call
      (DirectiveRecords.named_of_readable hdistinct hrecords hcall haccepted)
      (DirectiveCall.isLiteral_of_isAccepted haccepted (hregular y hy).finite)
    rw [hreads.run_eq] at hread
    cases hread
    exact ⟨y.call, hcall, haccepted, rfl⟩
  have hconforms : ∀ u ∈ (⟨base, doc⟩ : Addition).uses, (⟨base, doc⟩ : Addition).defines u = true →
      ∃ n, (⟨base, doc⟩ : Addition).directive? u.name = some n ∧ u.Conforms n
        ∧ (⟨base, doc⟩ : Addition).argumentsFit u = true := by
    intro u hu hdefines
    obtain ⟨c, hc, haccepted, rfl⟩ := huses u hu
    exact Registry.conforms_documentOf hdistinct htext hdocument hc haccepted hdefines
  refine ⟨fun u hu => ?_, hconforms, ?_⟩
  · obtain ⟨c, hc, -, rfl⟩ := huses u hu
    exact Registry.defines_documentOf hdocument hc
  · refine (Registry.plain_documentOf htypes hdocument).usesFit_iff fun u hu hdefines => ?_
    obtain ⟨-, -, -, hfit⟩ := hconforms u hu hdefines
    exact hfit

/-! ### Texts that keep the rules, and texts that do not -/

/-- Whether a synthesis succeeds with a text, and the document that it reads as has a property. -/
def writes (b : Declarations) (text : String) (p : Addition → Bool) : Bool :=
  match synthesize b (fresh {} {}) with
  | (.ok _, d) => d.registry.isReadable && d.directives.isReadable && text != ""
      && (d.registry.text d.directives [] []).toOption == some text
      && (d.registry.documentOf d.directives [] []).any fun doc => p ⟨none, doc⟩
  | _ => false

theorem exists_of_writes {b : Declarations} {text : String} {p : Addition → Bool}
    (h : writes b text p = true) : ∃ d doc, synthesize b (fresh {} {}) = (.ok ⟨⟩, d)
      ∧ d.registry.Readable ∧ d.directives.Readable
      ∧ d.registry.text d.directives [] [] = .ok text
      ∧ Document.ofText? text = .ok doc ∧ p ⟨none, doc⟩ = true := by
  unfold writes at h
  split at h
  · rename_i d hrun
    simp only [Bool.and_eq_true, bne_iff_ne, beq_iff_eq, Option.any_eq_true] at h
    obtain ⟨⟨⟨⟨hr, hrecords⟩, hsome⟩, htext⟩, doc, hdoc, hp⟩ := h
    replace hr := Registry.readable_of_isReadable hr
    replace hrecords := DirectiveRecords.readable_of_isReadable hrecords
    replace htext := Generate.toOption_eq_some htext
    have hread := (Registry.ofText?_text hr hrecords htext hsome).trans hdoc
    exact ⟨d, doc, hrun, hr, hrecords, htext, Generate.toOption_eq_some hread, hp⟩
  · cases h

/-- A directive with an argument. -/
def auth (role : String) : Directive where
  name := "auth"
  arguments := [("role", .text role)]
  steps := []
  awaits := false

/-- A type of some kind with a directive, and a field with such directives. -/
def restricted (kind : String) (roles : List String) : Declarations where
  types := [("Query", .inline (.fields [("note", .field (.config
      { returnType := .text "String"
        directives := .list ((roles.map auth).map .directive) }))])),
    ("Note", .inline (.fields [("text", .field (.value (.text "String"))),
      (policyKey, .policy (.policy { Policy.plain with
        kind := .text kind, directives := .list ([auth "user"].map .directive) }))]))]
  models := []
  policies := []
  plugins := []
  base := none
  columnTypes := []
  scalars := []

/-- What is written of them. -/
def restrictedText (kind uses : String) : String :=
  "directive @auth(\n  role: String!\n) on OBJECT | FIELD_DEFINITION\n\n"
    ++ "type Query \x7b\n  note: String " ++ uses ++ "\n\x7d\n\n"
    ++ kind ++ " Note @auth(role: \"user\") \x7b\n  text: String\n\x7d"

theorem regular_restricted (kind : String) (roles : List String) :
    ∀ o ∈ (restricted kind roles).directiveOptions [], o.All Directive.Regular := by
  have hregular : ∀ role, (auth role).Regular := by
    intro role
    refine ⟨fun a ha => ?_, List.nodup_singleton _⟩
    rw [List.mem_singleton.mp ha]
    rfl
  have hoptions : (restricted kind roles).directiveOptions []
      = [.list ((roles.map auth).map .directive), .list ([auth "user"].map .directive), .none] := rfl
  have hlist : ∀ roles : List String,
      (DirectiveOption.list ((roles.map auth).map .directive)).All Directive.Regular := fun roles =>
    DirectiveOption.all_list (List.forall_mem_map.mpr fun role _ => hregular role)
  rw [hoptions]
  simp only [List.forall_mem_cons]
  exact ⟨hlist roles, hlist ["user"], DirectiveOption.all_none, fun _ ho => by cases ho⟩

/-- A directive on an object type and on a field keeps the rules. -/
theorem uses_fit_iff_object : ∃ d doc,
    synthesize (restricted "type" ["admin"]) (fresh {} {}) = (.ok ⟨⟩, d)
      ∧ d.registry.text d.directives [] [] = .ok (restrictedText "type" "@auth(role: \"admin\")")
      ∧ Document.ofText? (restrictedText "type" "@auth(role: \"admin\")") = .ok doc
      ∧ Addition.usesFit ⟨none, doc⟩ = true ∧ Addition.PlacesOwn ⟨none, doc⟩
      ∧ Addition.FitsOthers ⟨none, doc⟩ := by
  have hwrites : writes (restricted "type" ["admin"]) (restrictedText "type" "@auth(role: \"admin\")")
      Addition.usesFit = true := by
    decide +kernel
  obtain ⟨d, doc, h, hr, hrecords, htext, hdoc, hfit⟩ := exists_of_writes hwrites
  obtain ⟨-, -, hiff⟩ := uses_fit_iff (x := {}) (a := ⟨none, doc⟩) ThunkState.all_empty
    (regular_restricted _ _) h hr hrecords htext hdoc
  exact ⟨d, doc, h, htext, hdoc, hfit, hiff.mp hfit⟩

/-- A synthesis succeeds and its text is written without failure, but the document that the text
is breaks the rules for uses, and no schema is built from it. -/
def WritesBroken (b : Declarations) (text : String) : Prop :=
  ∃ d doc, synthesize b (fresh {} {}) = (.ok ⟨⟩, d)
    ∧ d.registry.text d.directives [] [] = .ok text ∧ Document.ofText? text = .ok doc
    ∧ Addition.usesFit ⟨none, doc⟩ = false ∧ ∀ s, Schema.ofText text ≠ .ok s

theorem writesBroken_of_writes {b : Declarations} {text : String}
    (h : writes b text (fun a => !a.usesFit) = true) : WritesBroken b text := by
  obtain ⟨d, doc, hrun, -, -, htext, hdoc, hbroken⟩ := exists_of_writes h
  rw [Bool.not_eq_true'] at hbroken
  refine ⟨d, doc, hrun, htext, hdoc, hbroken, fun s hs => ?_⟩
  obtain ⟨read, hread, hs⟩ := Outcome.bind_eq_ok.mp hs
  rw [hdoc] at hread
  cases hread
  rw [Addition.usesFit_of_fits (Schema.ofAddition_eq_ok hs).1] at hbroken
  cases hbroken

/-- **The directive of an input type breaks the rules, and so does a directive that a field has
twice.** -/
theorem not_uses_fit :
    WritesBroken (restricted "input" ["admin"]) (restrictedText "input" "@auth(role: \"admin\")")
    ∧ WritesBroken (restricted "type" ["admin", "user"])
      (restrictedText "type" "@auth(role: \"admin\") @auth(role: \"user\")") :=
  ⟨writesBroken_of_writes (by decide +kernel), writesBroken_of_writes (by decide +kernel)⟩

end Synthesis
end SchemaForge

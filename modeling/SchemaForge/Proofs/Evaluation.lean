import SchemaForge.Proofs.Generate
import SchemaForge.Proofs.Registry.Written

/-!
# Generation, computed

To generate a schema the registry is written as a text, and the text is read again. Where the
registry is readable the document is known beforehand, and the generation can go on from it.
`viaDocument` does so; it gives what a generation gives, and is quick to compute.
-/
namespace SchemaForge

namespace Generate

variable {b : Blueprint} {d d' : Draft} {g : Generated}

/-- Generate a schema by way of the document that the registry stands for. -/
def viaDocument (b : Blueprint) (d : Draft) : Option (Generated × Draft) := do
  let base ← b.base.schema?.toOption
  match Synthesis.synthesize (b.declarations base) d with
  | (.error _, _) => none
  | (.ok _, d2) =>
    let types := (base.map (·.typeNames)).getD []
    let directives := (base.map fun s => s.allDirectives.map (·.name)).getD []
    let text ← (d2.registry.text d2.directives types directives).toOption
    if text != "" && d2.registry.isReadable && d2.directives.isReadable then
      let doc ← d2.registry.documentOf d2.directives types directives
      let _ ← (checkRoots d2.registry base).toOption
      let schema ← (Schema.ofAddition ⟨base, doc⟩ >>= rooted).toOption
      match wire b schema d2 with
      | (.error _, _) => none
      | (.ok handlers, d3) => some ({ schema, text, handlers, leaves := b.leaves }, d3)
    else none

theorem lift_of_ok {α : Type} {x : Except Failure α} {a : α} (h : x = .ok a) (d : Draft) :
    Synthesis.lift x d = (.ok a, d) := by
  rw [h]
  rfl

theorem toOption_eq_some {α : Type} {x : Except Failure α} {a : α} (h : x.toOption = some a) :
    x = .ok a := by
  cases x with
  | error e => cases h
  | ok y =>
    cases h
    rfl

/-- What a readable registry gives is built from its document. -/
theorem build_text {base : Option Schema} {r : Registry} {records : DirectiveRecords}
    {types directives : List String} {text : String} {doc : Language.Document} (hr : r.Readable)
    (hrecords : records.Readable) (htext : r.text records types directives = .ok text)
    (hsome : text ≠ "") (hdoc : r.documentOf records types directives = some doc) :
    build base text = Schema.ofAddition ⟨base, doc⟩ := by
  have hread : Language.Document.ofText? text = .ok doc :=
    toOption_eq_some ((Registry.ofText?_text hr hrecords htext hsome).trans hdoc)
  unfold build
  rw [if_neg (by simpa using hsome)]
  cases base with
  | none =>
    unfold Schema.ofText
    rw [hread]
    rfl
  | some s =>
    dsimp only
    rw [hread]
    rfl

/-- **A schema that is generated by way of the document is the one that is generated.** -/
theorem generate_of_viaDocument (h : viaDocument b d = some (g, d')) :
    generate b d = (.ok g, d') ∧ d'.registry.Readable ∧ d'.directives.Readable := by
  obtain ⟨base, hbase, h⟩ := Option.bind_eq_some_iff.mp h
  replace hbase := toOption_eq_some hbase
  rcases hsynth : Synthesis.synthesize (b.declarations base) d with ⟨_ | _, d2⟩
  · rw [hsynth] at h
    cases h
  · rw [hsynth] at h
    obtain ⟨text, htext, h⟩ := Option.bind_eq_some_iff.mp h
    replace htext := toOption_eq_some htext
    split at h
    · rename_i hreadable
      simp only [Bool.and_eq_true, bne_iff_ne] at hreadable
      obtain ⟨⟨hsome, hr⟩, hrecords⟩ := hreadable
      replace hr := Registry.readable_of_isReadable hr
      replace hrecords := DirectiveRecords.readable_of_isReadable hrecords
      obtain ⟨doc, hdoc, h⟩ := Option.bind_eq_some_iff.mp h
      obtain ⟨_, hroots, h⟩ := Option.bind_eq_some_iff.mp h
      replace hroots := toOption_eq_some hroots
      obtain ⟨schema, hschema, h⟩ := Option.bind_eq_some_iff.mp h
      replace hschema := toOption_eq_some hschema
      rw [← build_text hr hrecords htext hsome hdoc] at hschema
      rcases hwire : wire b schema d2 with ⟨_ | handlers, d3⟩
      · rw [hwire] at h
        cases h
      · rw [hwire] at h
        cases h
        have hkept := (wire_eq_ok hwire).2
        refine ⟨?_, hkept ▸ hr, hkept ▸ hrecords⟩
        refine Run.bind_eq_ok.mpr ⟨base, d, lift_of_ok hbase d, ?_⟩
        refine Run.bind_eq_ok.mpr ⟨_, d2, hsynth, Run.bind_eq_ok.mpr ⟨d2, d2, rfl, ?_⟩⟩
        refine Run.bind_eq_ok.mpr ⟨text, d2, lift_of_ok htext d2, ?_⟩
        refine Run.bind_eq_ok.mpr ⟨_, d2, lift_of_ok hroots d2, ?_⟩
        refine Run.bind_eq_ok.mpr ⟨schema, d2, lift_of_ok hschema d2, ?_⟩
        exact Run.bind_eq_ok.mpr ⟨handlers, _, hwire, rfl⟩
    · cases h

/-- Whether a generation succeeds with a readable registry, and what it gives has a property. -/
def gives (p : Generated → Draft → Bool) (b : Blueprint) (d : Draft) : Bool :=
  match viaDocument b d with
  | some (g, d') => p g d'
  | none => false

theorem eq_of_gives {p : Generated → Draft → Bool} (h : gives p b d) :
    ∃ g d', generate b d = (.ok g, d') ∧ d'.registry.Readable ∧ d'.directives.Readable ∧ p g d' := by
  unfold gives at h
  split at h
  · rename_i g d' hvia
    obtain ⟨hrun, hr, hrecords⟩ := generate_of_viaDocument hvia
    exact ⟨g, d', hrun, hr, hrecords, h⟩
  · cases h

end Generate
end SchemaForge

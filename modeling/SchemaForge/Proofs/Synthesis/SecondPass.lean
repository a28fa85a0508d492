import SchemaForge.Proofs.Registry.Frame
import SchemaForge.Proofs.Synthesis.FirstPass

/-!
# Both passes

The second pass only writes filters: what it leaves of a draft is what the first pass
gathered, but for the derived types and the arguments of lines. Together with the deeds of
the first pass this says how every field stands when a synthesis succeeds.
-/
namespace SchemaForge

/-- One draft comes from another by writing filters. -/
def Draft.Filtered (d d' : Draft) : Prop :=
  d.registry.Filtered d'.registry ∧ d' = { d with registry := d'.registry }

theorem Draft.Filtered.refl (d : Draft) : d.Filtered d := ⟨.refl _, rfl⟩

theorem Draft.Filtered.trans {d d' d'' : Draft} (h : d.Filtered d') (k : d'.Filtered d'') :
    d.Filtered d'' := by
  refine ⟨h.1.trans k.1, ?_⟩
  rw [k.2, h.2]

/-- A field of a draft stands in a given way, but for what filters may have taken away and
for derived types. -/
structure Draft.StandsAs (d : Draft) (s : ThunkState) (type field : String) (v : Standing) :
    Prop where
  /-- Its type has this policy. -/
  policy : d.extensions.policy? type = v.policy
  /-- Its type is an alternate for this one. -/
  primary : d.extensions.primary? type = v.primary
  /-- It is configured in this way. -/
  config : (d.configOf? type field).map (·.settled s) = v.config
  /-- No other directives are written on it. -/
  uses : (d.registry.line type field).directives ⊆ v.uses
  /-- No other directives are written on its type. -/
  typeUses : (d.registry.entry type).directives ⊆ v.typeUses
  /-- All this is exact for a type with a name of its own. -/
  exact : ¬IsDerived type → d.standing s type field = v

/-- Filters leave a field standing as it did. -/
theorem Draft.Filtered.standsAs {d d' : Draft} (h : d.Filtered d') (s : ThunkState)
    (type field : String) : d'.StandsAs s type field (d.standing s type field) := by
  obtain ⟨hr, hsame⟩ := h
  have hconfigs : d'.configs = d.configs := by rw [hsame]
  have hextensions : d'.extensions = d.extensions := by rw [hsame]
  have hconfig : d'.configOf? type field = d.configOf? type field := by
    rw [configOf?, hconfigs, configOf?]
  refine ⟨?_, ?_, ?_, hr.uses type field, hr.typeUses type, fun hn => ?_⟩
  · rw [hextensions]
    rfl
  · rw [hextensions]
    rfl
  · rw [hconfig]
    rfl
  · obtain ⟨htype, hdirectives⟩ := hr.line type field hn
    rw [standing, standing, hconfig, hextensions, htype, hdirectives, hr.kind type hn,
      hr.directives type hn]

/-! ### What is asked for -/

/-- The type whose fields a request asks filters for. -/
def FilterRequest.type : FilterRequest → String
  | .declared type _ | .configured type _ | .association type _ _ => type

/-- A field whose filters are asked for, with the type that it returns. -/
structure FilterTask where
  /-- Its type. -/
  type : String
  /-- Its name. -/
  field : String
  /-- The type that it returns. -/
  returned : String
  deriving DecidableEq

namespace Registry

/-- The type that a field with the arguments of the store returns: the one that is configured,
or the one of its line. -/
def returned? (r : Registry) (type field : String) (c : FieldConfig) : Option String :=
  if c.hasFetchArguments then
    (Signature.baseName
      (if c.returnType.truthy then c.signature else (r.line type field).type)).toOption
  else none

/-- The fields whose filters a request asks for. -/
def filterTasks (r : Registry) : FilterRequest → List FilterTask
  | .declared type (.fields entries) => (fieldEntries entries).filterMap fun e =>
      (e.2.normalize.toOption.bind (r.returned? type e.1)).map (⟨type, e.1, ·⟩)
  | .declared _ (.value _) => []
  | .configured type fields => fields.filterMap fun e =>
      (r.returned? type e.1 e.2).map (⟨type, e.1, ·⟩)
  | .association type field target => [⟨type, field, target⟩]

/-- What a request asks for depends on the signatures of its type alone. -/
theorem filterTasks_congr {r r' : Registry} {q : FilterRequest}
    (h : ∀ field, (r'.line q.type field).type = (r.line q.type field).type) :
    r'.filterTasks q = r.filterTasks q := by
  have hreturned : ∀ field, r'.returned? q.type field = r.returned? q.type field := by
    intro field
    funext c
    rw [returned?, h field]
    rfl
  cases q with
  | declared type m =>
    cases m with
    | fields entries =>
      dsimp only [FilterRequest.type] at hreturned
      simp only [filterTasks, hreturned]
    | value v => rfl
  | configured type fields =>
    dsimp only [FilterRequest.type] at hreturned
    simp only [filterTasks, hreturned]
  | association type field target => rfl

/-- What is asked for under a name of its own does not change while filters are written. -/
theorem Filtered.filterTasks_eq {r r' : Registry} (h : Filtered r r') {q : FilterRequest}
    (hq : ¬IsDerived q.type) : r'.filterTasks q = r.filterTasks q :=
  filterTasks_congr fun field => (h.line q.type field hq).1

end Registry

/-- All requests for filters: those of the extensions, and those that were left. -/
def Draft.filterRequests (d : Draft) : List FilterRequest :=
  d.extensions.fields.map (fun e => .declared e.1 (.fields e.2)) ++ d.requests

/-- The fields whose filters are asked for in a draft. -/
def Draft.filterTasks (d : Draft) : List FilterTask :=
  d.filterRequests.flatMap d.registry.filterTasks

/-- Writing filters leaves the requests. -/
theorem Draft.Filtered.filterRequests_eq {d d' : Draft} (h : d.Filtered d') :
    d'.filterRequests = d.filterRequests := by
  rw [h.2]
  rfl

namespace Synthesis

open Run

variable {α β : Type} {J : Draft → Prop}

/-- An edit changes the registry alone. -/
theorem edit_eq_ok {e : Edit α} {d d' : Draft} {a : α} (h : edit e d = (.ok a, d')) :
    ∃ r, e d.registry = (.ok a, r) ∧ d' = { d with registry := r } := by
  rcases hr : e d.registry with ⟨x, r⟩
  have hrun : edit e d = (x, { d with registry := r }) := by
    change ((e d.registry).1, { d with registry := (e d.registry).2 }) = _
    rw [hr]
  rw [hrun] at h
  cases h
  exact ⟨r, rfl, rfl⟩

/-- A step that gives an outcome only succeeds with it, and changes nothing. -/
theorem lift_eq_ok {x : Except Failure α} {a : α} {d d' : Draft}
    (h : lift x d = (.ok a, d')) : x = .ok a ∧ d' = d := liftM_eq_ok (x := x) h

/-- An edit that only writes filters does so within a synthesis. -/
theorem keeps_filtered {e : Edit α} (he : Registry.WritesFilters e) (d0 : Draft) :
    Keeps d0.Filtered (edit e) := by
  intro d a d' hrun hd
  obtain ⟨r, hr, rfl⟩ := edit_eq_ok hrun
  exact hd.trans ⟨he d.registry a r hr, rfl⟩

theorem keeps_synthesisLift_bind {x : Except Failure α} {f : α → Synthesis β}
    (h : ∀ a, x = .ok a → Keeps J (f a)) : Keeps J (lift x >>= f) :=
  keeps_lift_bind h

theorem yields_synthesisLift_bind {P : β → Prop} {x : Except Failure α} {f : α → Synthesis β}
    (h : ∀ a, x = .ok a → Yields P (f a)) : Yields P (lift x >>= f) :=
  yields_lift_bind h

/-! ### Requests -/

/-- A property that writing the filters of the fields that are asked for keeps. -/
def KeptByRequests (J : Draft → Prop) : Prop :=
  ∀ d, J d → ∀ a ∈ d.filterTasks, ∀ isList x d',
    edit (Registry.addFilters a.type a.field a.returned isList) d = (.ok x, d') → J d'

/-- Filters are written for what the signature of a field returns: the one that is configured, or
the one of its line. -/
theorem filterField_eq_ok {t f : String} {c : FieldConfig} {d d' : Draft} {x : Unit}
    (hc : c.hasFetchArguments = true) (hrun : filterField t f c d = (.ok x, d')) :
    ∃ signature returned isList, d.registry.returned? t f c = some returned
      ∧ (c.returnType.truthy = true ∧ signature = c.signature
        ∨ ∃ line, d.registry.line? t f = some line ∧ signature = line.type)
      ∧ Signature.isList signature = .ok isList
      ∧ edit (Registry.addFilters t f returned isList) d = (.ok x, d') := by
  have hwrite : ∀ signature, (do
      let returned ← lift (Signature.baseName signature)
      let isList ← lift (Signature.isList signature)
      edit (Registry.addFilters t f returned isList)) d = (.ok x, d') →
      ∃ returned isList, Signature.baseName signature = .ok returned
        ∧ Signature.isList signature = .ok isList
        ∧ edit (Registry.addFilters t f returned isList) d = (.ok x, d') := by
    intro signature hrun
    obtain ⟨returned, d1, hreturned, hrest⟩ := Run.bind_eq_ok.mp hrun
    obtain ⟨hname, rfl⟩ := lift_eq_ok hreturned
    obtain ⟨isList, d2, hlist, hedit⟩ := Run.bind_eq_ok.mp hrest
    obtain ⟨hsignature, rfl⟩ := lift_eq_ok hlist
    exact ⟨returned, isList, hname, hsignature, hedit⟩
  unfold filterField at hrun
  rw [if_pos hc] at hrun
  split at hrun
  · rename_i htype
    obtain ⟨returned, isList, hname, hlist, hedit⟩ := hwrite _ hrun
    refine ⟨_, returned, isList, ?_, .inl ⟨htype, rfl⟩, hlist, hedit⟩
    rw [Registry.returned?, if_pos hc, if_pos htype, hname]
    rfl
  · rename_i htype
    rw [Run.bind_of_ok (Run.get_apply d)] at hrun
    cases hline : d.registry.line? t f with
    | none =>
      simp only [hline] at hrun
      obtain ⟨_, _, hthrown, -⟩ := Run.bind_eq_ok.mp hrun
      cases hthrown
    | some line =>
      simp only [hline, pure_bind] at hrun
      obtain ⟨returned, isList, hname, hlist, hedit⟩ := hwrite _ hrun
      refine ⟨_, returned, isList, ?_, .inr ⟨line, rfl, rfl⟩, hlist, hedit⟩
      rw [Registry.returned?, if_pos hc, if_neg htype, Registry.line_eq_getD_line?, hline,
        Option.getD_some, hname]
      rfl

theorem keeps_filterField (h : KeptByRequests J) {t f : String} {c : FieldConfig}
    (hasked : ∀ d, J d → ∀ returned, d.registry.returned? t f c = some returned →
      ⟨t, f, returned⟩ ∈ d.filterTasks) : Keeps J (filterField t f c) := by
  intro d x d' hrun hd
  by_cases hc : c.hasFetchArguments = true
  · obtain ⟨_, returned, isList, hreturned, -, -, hedit⟩ := filterField_eq_ok hc hrun
    exact h d hd ⟨t, f, returned⟩ (hasked d hd returned hreturned) isList x d' hedit
  · unfold filterField at hrun
    rw [if_neg hc] at hrun
    cases hrun
    exact hd

/-- What the signature of a declared field returns is asked for. -/
theorem mem_filterTasks_declared {d : Draft} {t : String} {entries : List (String × FieldEntry)}
    (hq : .declared t (.fields entries) ∈ d.filterRequests) {e : String × FieldDeclaration}
    (he : e ∈ fieldEntries entries) {c : FieldConfig} (hc : e.2.normalize = .ok c)
    {returned : String} (hreturned : d.registry.returned? t e.1 c = some returned) :
    ⟨t, e.1, returned⟩ ∈ d.filterTasks := by
  refine List.mem_flatMap.mpr ⟨_, hq, List.mem_filterMap.mpr ⟨e, he, ?_⟩⟩
  rw [hc]
  exact congrArg (Option.map _) hreturned

/-- What the signature of a configured field returns is asked for. -/
theorem mem_filterTasks_configured {d : Draft} {t : String} {fields : Table FieldConfig}
    (hq : .configured t fields ∈ d.filterRequests) {e : String × FieldConfig} (he : e ∈ fields)
    {returned : String} (hreturned : d.registry.returned? t e.1 e.2 = some returned) :
    ⟨t, e.1, returned⟩ ∈ d.filterTasks :=
  List.mem_flatMap.mpr ⟨_, hq, List.mem_filterMap.mpr ⟨e, he, congrArg (Option.map _) hreturned⟩⟩

theorem keeps_declaredField (h : KeptByRequests J) {t : String}
    {entries : List (String × FieldEntry)}
    (hasked : ∀ d, J d → .declared t (.fields entries) ∈ d.filterRequests)
    {e : String × FieldDeclaration} (he : e ∈ fieldEntries entries) :
    Keeps J (do filterField t e.1 (← lift e.2.normalize)) :=
  keeps_synthesisLift_bind fun _ hc => keeps_filterField h fun d hd _ hreturned =>
    mem_filterTasks_declared (hasked d hd) he hc hreturned

theorem keeps_configuredField (h : KeptByRequests J) {t : String} {fields : Table FieldConfig}
    (hasked : ∀ d, J d → .configured t fields ∈ d.filterRequests) {e : String × FieldConfig}
    (he : e ∈ fields) : Keeps J (filterField t e.1 e.2) :=
  keeps_filterField h fun d hd _ hreturned =>
    mem_filterTasks_configured (hasked d hd) he hreturned

/-- Fulfilling a request keeps what writing the filters keeps that it asks for. -/
theorem keeps_fulfil (h : KeptByRequests J) {q : FilterRequest}
    (hasked : ∀ d, J d → q ∈ d.filterRequests) : Keeps J (fulfil q) := by
  unfold fulfil
  split
  · exact keeps_forM fun e he => keeps_declaredField h hasked he
  · exact keeps_throw _
  · exact keeps_forM fun e he => keeps_configuredField h hasked he
  · exact fun d x d' hrun hd => h d hd ⟨_, _, _⟩
      (List.mem_flatMap.mpr ⟨_, hasked d hd, List.mem_cons_self⟩) true x d' hrun

/-! ### The passes -/

/-- The first pass. -/
def firstPass (b : Declarations) : Synthesis Unit := do
  addScalars b
  b.types.forM (addType b)
  (← get).extensions.fields.forM fun (type, entries) => declare type (.fields entries) none

/-- **After the first pass every field stands as the deeds of the declarations make it
stand.** -/
theorem turns_firstPass (b : Declarations) (d : Draft) :
    Turns d (firstPass b) (turningOf (b.deeds d.extensions)) := by
  refine Turns.of_tidy fun htidy => ?_
  have hextensions : ∀ x : Extensions, Does
      (x.fields.forM fun (type, entries) => declare type (.fields entries) none)
      (x.fields.flatMap fun (type, entries) => Deed.ofMap type (.fields entries) none) :=
    fun x => does_forM fun e _ => does_declare e.1 (.fields e.2) none
  have htypes := does_forM fun c (_ : c ∈ b.types) => does_addType b c
  refine ((does_addScalars b d).bind fun _ d1 h1 => (htypes d1).bind fun _ d2 h2 =>
    turns_get_bind (k := turningOf (d.extensions.fields.flatMap fun (type, entries) =>
      Deed.ofMap type (.fields entries) none)) ?_).congr fun s type field v => ?_
  · obtain ⟨t1, -, x1, -⟩ := does_addScalars b d _ d1 h1 htidy
    obtain ⟨-, -, x2, -⟩ := htypes d1 _ d2 h2 t1
    rw [x2, x1]
    exact hextensions d.extensions d2
  · rw [Declarations.deeds, turningOf, turningOf, turningOf, turningOf, Standing.after_append,
      Standing.after_append]

/-- Fulfilling requests of a draft only writes filters. -/
theorem filtered_fulfilAll {qs : List FilterRequest} {d d' : Draft} {x : Unit}
    (hqs : qs ⊆ d.filterRequests) (h : qs.forM fulfil d = (.ok x, d')) : d.Filtered d' := by
  refine keeps_forM (I := d.Filtered) (fun q hq => ?_) d _ d' h (.refl d)
  exact keeps_fulfil (fun d2 hd2 a _ isList y d3 hrun =>
    keeps_filtered (Registry.writesFilters_addFilters a.type a.field a.returned isList) d d2 y d3
      hrun hd2) fun d2 hd2 => hd2.filterRequests_eq ▸ hqs hq

/-- A first pass in its parts: the scalars, the declared types, and the extensions, whose fields
are not changed by any of them. -/
theorem firstPass_eq_ok_iff {b : Declarations} {d d' : Draft} (ht : d.Tidy) :
    firstPass b d = (.ok ⟨⟩, d') ↔ ∃ d1 d2, addScalars b d = (.ok ⟨⟩, d1)
      ∧ b.types.forM (addType b) d1 = (.ok ⟨⟩, d2)
      ∧ (d2.extensions.fields.forM fun (type, entries) => declare type (.fields entries) none) d2
        = (.ok ⟨⟩, d') ∧ d'.extensions.fields = d2.extensions.fields := by
  constructor
  · intro h
    obtain ⟨_, d1, h1, h⟩ := Run.bind_eq_ok.mp h
    obtain ⟨_, d2, h2, h⟩ := Run.bind_eq_ok.mp h
    obtain ⟨_, _, hget, h3⟩ := Run.bind_eq_ok.mp h
    cases hget
    obtain ⟨t1, -, -, -⟩ := does_addScalars b d _ d1 h1 ht
    obtain ⟨t2, -, -, -⟩ := does_forM (fun c _ => does_addType b c) d1 _ d2 h2 t1
    obtain ⟨-, -, x3, -⟩ := does_forM (fun (e : String × List (String × FieldEntry)) _ =>
      does_declare e.1 (.fields e.2) none) d2 _ d' h3 t2
    exact ⟨d1, d2, h1, h2, h3, x3⟩
  · rintro ⟨d1, d2, h1, h2, h3, -⟩
    exact Run.bind_eq_ok.mpr ⟨_, d1, h1, Run.bind_eq_ok.mpr ⟨_, d2, h2,
      Run.bind_eq_ok.mpr ⟨_, d2, rfl, h3⟩⟩⟩

/-- The requests of the extensions are gone through first, which leaves the others as they are. -/
theorem fulfilAll_eq_ok_iff {d d' : Draft} : d.filterRequests.forM fulfil d = (.ok ⟨⟩, d')
    ↔ ∃ d1, (d.extensions.fields.forM fun (type, entries) =>
        fulfil (.declared type (.fields entries))) d = (.ok ⟨⟩, d1)
      ∧ (do for q in (← get).requests do fulfil q : Synthesis Unit) d1 = (.ok ⟨⟩, d') := by
  have hextended : (d.extensions.fields.map fun e => FilterRequest.declared e.1 (.fields e.2)).forM
      fulfil = d.extensions.fields.forM fun (type, entries) =>
        fulfil (.declared type (.fields entries)) := List.forM_map ..
  have hloop : ∀ d1 : Draft, (d.extensions.fields.forM fun (type, entries) =>
      fulfil (.declared type (.fields entries))) d = (.ok ⟨⟩, d1) →
      ((do for q in (← get).requests do fulfil q : Synthesis Unit) d1 = (.ok ⟨⟩, d')
        ↔ d.requests.forM fulfil d1 = (.ok ⟨⟩, d')) := by
    intro d1 h1
    have hfiltered : d.Filtered d1 := filtered_fulfilAll
      (fun q hq => List.mem_append_left _ hq) ((congrFun hextended d).trans h1)
    have hrequests : d1.requests = d.requests := by rw [hfiltered.2]
    rw [Run.bind_of_ok (Run.get_apply d1), ← hrequests]
    have hforIn := congrFun (Run.forIn_yield fulfil d1.requests) d1
    constructor
    · intro h
      obtain ⟨_, d2, hrun, hend⟩ := Run.bind_eq_ok.mp h
      cases hend
      exact hforIn.symm.trans hrun
    · exact fun h => Run.bind_eq_ok.mpr ⟨_, d', hforIn.trans h, rfl⟩
  have happend : d.filterRequests.forM fulfil d
      = ((d.extensions.fields.forM fun (type, entries) =>
          fulfil (.declared type (.fields entries))) >>= fun _ => d.requests.forM fulfil) d := by
    rw [← hextended]
    exact congrFun List.forM_append d
  rw [happend, Run.bind_eq_ok]
  exact ⟨fun ⟨_, d1, h1, h⟩ => ⟨d1, h1, (hloop d1 h1).mpr h⟩,
    fun ⟨d1, h1, h⟩ => ⟨_, d1, h1, (hloop d1 h1).mp h⟩⟩

/-- **A synthesis is the first pass, and then the requests are fulfilled.** -/
theorem synthesize_eq_ok_iff {b : Declarations} {d d' : Draft} (ht : d.Tidy) :
    synthesize b d = (.ok ⟨⟩, d')
      ↔ ∃ d1, firstPass b d = (.ok ⟨⟩, d1) ∧ d1.filterRequests.forM fulfil d1 = (.ok ⟨⟩, d') := by
  constructor
  · intro h
    obtain ⟨_, d1, h1, h⟩ := Run.bind_eq_ok.mp h
    obtain ⟨_, d2, h2, h⟩ := Run.bind_eq_ok.mp h
    obtain ⟨_, d4, hext, h⟩ := Run.bind_eq_ok.mp h
    obtain ⟨_, _, hget, hext⟩ := Run.bind_eq_ok.mp hext
    cases hget
    obtain ⟨_, d3, h3, h4⟩ := Run.bind_eq_ok.mp hext
    have hfirst : firstPass b d = (.ok ⟨⟩, d3) := Run.bind_eq_ok.mpr ⟨_, d1, h1,
      Run.bind_eq_ok.mpr ⟨_, d2, h2, Run.bind_eq_ok.mpr ⟨_, d2, rfl, h3⟩⟩⟩
    obtain ⟨_, _, h1', h2', -, hfields⟩ := (firstPass_eq_ok_iff ht).mp hfirst
    cases h1.symm.trans h1'
    cases h2.symm.trans h2'
    exact ⟨d3, hfirst, fulfilAll_eq_ok_iff.mpr ⟨d4, by rwa [hfields], h⟩⟩
  · rintro ⟨d3, hfirst, h⟩
    obtain ⟨d1, d2, h1, h2, h3, hfields⟩ := (firstPass_eq_ok_iff ht).mp hfirst
    obtain ⟨d4, h4, h⟩ := fulfilAll_eq_ok_iff.mp h
    rw [hfields] at h4
    exact Run.bind_eq_ok.mpr ⟨_, d1, h1, Run.bind_eq_ok.mpr ⟨_, d2, h2, Run.bind_eq_ok.mpr ⟨_, d4,
      Run.bind_eq_ok.mpr ⟨_, d2, rfl, Run.bind_eq_ok.mpr ⟨_, d3, h3, h4⟩⟩, h⟩⟩⟩

/-- What is left by a synthesis is what the first pass left, but for filters. -/
theorem synthesize_requests {b : Declarations} {d d' : Draft} (ht : d.Tidy)
    (h : synthesize b d = (.ok ⟨⟩, d')) :
    ∃ d1, firstPass b d = (.ok ⟨⟩, d1) ∧ d1.filterRequests.forM fulfil d1 = (.ok ⟨⟩, d')
      ∧ d1.Filtered d' := by
  obtain ⟨d1, hfirst, hall⟩ := (synthesize_eq_ok_iff ht).mp h
  exact ⟨d1, hfirst, hall, filtered_fulfilAll (fun _ hq => hq) hall⟩

/-- What writing the filters keeps that are asked for is kept by a synthesis after the first
pass. -/
theorem synthesize_passes {b : Declarations} {d d' : Draft} (ht : d.Tidy)
    (h : synthesize b d = (.ok ⟨⟩, d')) : ∃ d1, firstPass b d = (.ok ⟨⟩, d1) ∧ ∀ J,
      KeptByRequests J → (∀ d2, J d2 → d1.Filtered d2) → J d1 → J d' := by
  obtain ⟨d1, hfirst, hall, -⟩ := synthesize_requests ht h
  exact ⟨d1, hfirst, fun J hJ hfiltered => keeps_forM (fun q hq => keeps_fulfil hJ fun d2 hd2 =>
    (hfiltered d2 hd2).filterRequests_eq ▸ hq) d1 _ d' hall⟩

/-- A synthesis is the first pass and then filters. -/
theorem synthesize_eq_ok {b : Declarations} {d d' : Draft} (ht : d.Tidy)
    (h : synthesize b d = (.ok ⟨⟩, d')) :
    ∃ d1, firstPass b d = (.ok ⟨⟩, d1) ∧ d1.Filtered d' := by
  obtain ⟨d1, hfirst, -, hfiltered⟩ := synthesize_requests ht h
  exact ⟨d1, hfirst, hfiltered⟩

/-- A synthesis keeps drafts tidy. -/
theorem tidy_of_synthesize {b : Declarations} {d d' : Draft} (ht : d.Tidy)
    (h : synthesize b d = (.ok ⟨⟩, d')) : d'.Tidy := by
  obtain ⟨d1, hfirst, hr, hsame⟩ := synthesize_eq_ok ht h
  obtain ⟨htidy, -, -, -⟩ := turns_firstPass b d _ d1 hfirst ht
  rw [hsame]
  exact ⟨hr.nodup htidy.types, htidy.configs⟩

/-- **After a synthesis every field stands as the deeds of the declarations make it
stand.** -/
theorem standsAs_of_synthesize {b : Declarations} {d d' : Draft} (ht : d.Tidy)
    (h : synthesize b d = (.ok ⟨⟩, d')) {s : ThunkState} (hs : d'.thunks.Extends s)
    (type field : String) :
    d'.StandsAs s type field
      (Standing.after s type field (b.deeds d.extensions) (d.standing s type field)) := by
  obtain ⟨d1, hfirst, hfiltered⟩ := synthesize_eq_ok ht h
  obtain ⟨-, -, -, hstanding⟩ := turns_firstPass b d _ d1 hfirst ht
  have hthunks : d'.thunks = d1.thunks := by rw [hfiltered.2]
  rw [hthunks] at hs
  have hafter := hstanding s hs type field
  rw [turningOf] at hafter
  rw [← hafter]
  exact hfiltered.standsAs s type field

end Synthesis
end SchemaForge

import SchemaForge.Proofs.Synthesis.Assembling
import SchemaForge.Proofs.Synthesis.Exposure

/-!
# Declarations in another order

Types are declared in some order. Where no two declarations give the same field to a type, no model
has two names, contributions to one type suit each other, and derived types are apart from all
others, this order does not matter: in any two orders a synthesis fails, or it gives registries
that say the same (**`synthesize_perm`**).

The conditions cannot be left out. A class takes the place of what others gave to its type before,
the kind of a type is the one that was stated last, and the filters of a field depend on what
others left under its derived names.
-/
namespace SchemaForge

open Language

/-! ### Registries that list each name once -/

namespace Registry

variable {r : Registry} {type : String}

theorem once_nil : Once [] := ⟨List.nodup_nil, fun _ h => (List.not_mem_nil h).elim⟩

theorem Once.updateType (h : r.Once) {f : TypeEntry → TypeEntry}
    (hf : ∀ e : TypeEntry, e.lines.keys.Nodup → (f e).lines.keys.Nodup) :
    (updateType r type f).Once where
  types := nodup_updateType h.types _ _
  lines x hx := by
    rcases mem_update hx with hx | ⟨e, he, rfl⟩
    · exact h.lines x hx
    · refine hf e ?_
      rcases he with he | rfl
      · exact h.lines _ he
      · exact List.nodup_nil

theorem Once.setKind (h : r.Once) (kind : TypeKind) : (setKind r type kind).Once :=
  h.updateType fun _ => id

theorem Once.updateField (h : r.Once) (field : String) (f : FieldLine → FieldLine) :
    (updateField r type field f).Once :=
  h.updateType fun _ he => Table.nodup_keys_update he ..

theorem Once.put (h : r.Once) {e : TypeEntry} (he : e.lines.keys.Nodup) :
    Once (Table.put r type e) where
  types := Table.nodup_keys_put h.types ..
  lines x hx := by
    rcases Table.mem_put hx with hx | rfl
    · exact h.lines x hx
    · exact he

theorem Once.ensureType (h : r.Once) : (ensureType r type).Once where
  types := Table.nodup_keys_ensure h.types ..
  lines x hx := by
    rw [Registry.ensureType, Table.ensure] at hx
    split at hx
    · exact h.lines x hx
    · rcases List.mem_append.mp hx with hx | hx
      · exact h.lines x hx
      · exact List.mem_singleton.mp hx ▸ List.nodup_nil

end Registry

namespace Synthesis

open Run

variable {α : Type} {b : Declarations} {x : Extensions} {s : ThunkState} {d : Draft}

/-- A step that keeps each name listed once. -/
theorem once_of {m : Synthesis α} (h : ∀ d, d.registry.Once → (m d).2.registry.Once) :
    Alike (fun d d' => d = d' ∧ d.registry.Once) m m := by
  rintro d _ ⟨rfl, hd⟩
  exact ⟨rfl, rfl, h d hd⟩

theorem once_use {c : Directive} {u : String → Registry → Registry}
    (hu : ∀ use r, Registry.Once r → (u use r).Once) :
    Alike (fun d d' => d = d' ∧ d.registry.Once) (record c >>= fun use => change (u use))
      (record c >>= fun use => change (u use)) :=
  (once_of fun _ hd => hd).bind fun use => once_of fun _ hd => hu use _ hd

/-- **Every single step keeps each name listed once.** -/
theorem lockstep_once : Lockstep (fun _ => True) (fun _ => True) .all
    (fun d d' => d = d' ∧ d.registry.Once) where
  absent := trivial
  union h _ := by rw [h.1]
  line h _ := by rw [h.1]
  known h _ := ⟨by rw [h.1], fun _ _ => trivial⟩
  resolve _ := once_of fun _ hd => hd
  resolved _ _ _ _ _ := trivial
  list _ := trivial
  useOnType _ _ _ := once_use fun _ _ h => h.updateType fun _ => id
  useOnField _ _ := once_use fun _ _ h => h.updateField _ _
  field _ _ := once_of fun _ hd => hd.updateField _ _
  configure _ _ _ := once_of fun _ hd => hd
  govern _ _ _ := once_of fun _ hd => hd
  ensure _ := once_of fun _ hd => hd.ensureType
  kind _ := once_of fun _ hd => hd.setKind _
  put _ _ hlines := once_of fun _ hd => hd.put hlines.names
  start _ _ _ _ := once_of fun _ hd => hd
  request _ := once_of fun _ hd => hd
  expose _ _ _ _ := once_of fun _ hd => hd
  warn _ := once_of fun _ hd => hd

/-- **The first pass lists each name once.** -/
theorem once_firstPass (h : firstPass b (fresh x s) = (.ok ⟨⟩, d)) : d.registry.Once := by
  have hconfigured : ∀ t, Alike (fun d d' : Draft => d = d' ∧ d.registry.Once)
      (describeConfigured t) (describeConfigured t) := fun t => by
    refine alike_get_bind fun d d' ⟨hsame, _⟩ => ?_
    subst hsame
    refine (alike_forM fun e _ => lockstep_once.describe trivial trivial).bind fun _ => ?_
    exact alike_ite (fun _ => lockstep_once.request _) fun _ => alike_pure _
  have hallows : ∀ y : Table (List (String × FieldEntry)), ∀ c ∈ b.contributions y,
      Footprint.all.Allows b c := fun _ c _ => Footprint.allows_all b c
  have hpass : Alike (fun d d' => d = d' ∧ d.registry.Once) (firstPass b) (firstPass b) := by
    refine (lockstep_once.addScalars fun _ => trivial).bind fun _ =>
      (lockstep_once.addTypes hconfigured (hallows []) fun _ _ => trivial).bind fun _ =>
        alike_get_bind fun d d' ⟨hsame, _⟩ => ?_
    subst hsame
    exact lockstep_once.declareExtensions (hallows _) fun _ _ => trivial
  obtain ⟨-, -, honce⟩ := hpass (fresh x s) (fresh x s) ⟨rfl, Registry.once_nil⟩
  rwa [h] at honce

/-! ### Scalars -/

variable {result : String → DirectiveOption} {d0 : Draft}

theorem blank_fresh (hs : s.Agrees result) (x : Extensions) : Draft.Blank result (fresh x s) where
  lines _ _ := rfl
  directives _ := rfl
  kinds _ h := by cases h
  configs := rfl
  requests := rfl
  thunks := hs
  types := List.nodup_nil

theorem blank_setKind (h : Draft.Blank result d0) (t : String) :
    Draft.Blank result { d0 with registry := d0.registry.setKind t .scalar } := by
  have hentry : ∀ other, (d0.registry.setKind t .scalar).entry other
      = if other = t then { d0.registry.entry t with kind := .scalar } else d0.registry.entry other :=
    fun other => Registry.entry_updateType ..
  refine { h with
    lines := fun other f => ?_
    directives := fun other => ?_
    kinds := fun other => ?_
    types := Registry.nodup_updateType h.types t fun e => { e with kind := .scalar } }
  · have hline : (d0.registry.setKind t .scalar).line? other f = d0.registry.line? other f :=
      line?_updateType_of_lines d0.registry t other f (u := fun e => { e with kind := .scalar })
        fun _ => rfl
    exact hline.trans (h.lines other f)
  · change ((d0.registry.setKind t .scalar).entry other).directives = []
    rw [hentry]
    split
    · exact h.directives t
    · exact h.directives other
  · change ((d0.registry.setKind t .scalar).entry other).kind ≠ .union
    rw [hentry]
    split
    · nofun
    · exact h.kinds other

/-- Scalars are no more than types with a kind. -/
theorem addScalars_of_blank (b : Declarations) (h : Draft.Blank result d0) :
    ∃ d, addScalars b d0 = (.ok ⟨⟩, d) ∧ Draft.Blank result d
      ∧ d.extensions.fields = d0.extensions.fields := by
  unfold addScalars
  induction b.scalars generalizing d0 with
  | nil => exact ⟨d0, rfl, h, rfl⟩
  | cons name names ih =>
    have hone : ∃ d1, (if !(Schema.standardScalars.contains name
          || (b.base.map (·.hasType name)).getD false) then change (·.setKind name .scalar)
        else pure ⟨⟩ : Synthesis Unit) d0 = (.ok ⟨⟩, d1) ∧ Draft.Blank result d1
          ∧ d1.extensions.fields = d0.extensions.fields := by
      split
      · exact ⟨_, rfl, blank_setKind h name, rfl⟩
      · exact ⟨d0, rfl, h, rfl⟩
    obtain ⟨d1, hrun, h1, hfields1⟩ := hone
    obtain ⟨d, hruns, hd, hfields⟩ := ih h1
    exact ⟨d, (bind_of_ok hrun _).trans hruns, hd, hfields.trans hfields1⟩

end Synthesis

/-! ### Other orders of declared types -/

/-- At most one member of a list is looked for, so it is found in any order. -/
theorem find?_perm {α : Type} {p : α → Bool} {xs ys : List α} (h : xs.Perm ys)
    (hone : xs.Pairwise fun a c => ¬(p a = true ∧ p c = true)) : ys.find? p = xs.find? p := by
  induction h with
  | nil => rfl
  | cons a _ ih => rw [List.find?_cons, List.find?_cons, ih (List.pairwise_cons.mp hone).2]
  | swap a c xs =>
    obtain ⟨hc, -⟩ := List.pairwise_cons.mp hone
    have hboth := hc a List.mem_cons_self
    simp only [List.find?_cons]
    cases ha : p a <;> cases hc : p c <;> simp_all
  | trans h _ ih ih' =>
    have hone' := h.pairwise hone fun hac => fun hca => hac hca.symm
    rw [ih' hone', ih hone]

namespace Declarations

variable {b : Declarations} {types : Table TypeDeclaration}

/-- The models of different types are different. -/
def ModelsOnce (b : Declarations) : Prop :=
  b.types.Pairwise fun named other => named.2.model.same other.2.model = false

instance (b : Declarations) : Decidable b.ModelsOnce := inferInstanceAs (Decidable (b.types.Pairwise _))

/-- The type of a model is found in any order. -/
theorem typeOf?_perm (h : b.ModelsOnce) (hperm : b.types.Perm types) (model : String) :
    typeOf? { b with types } model = b.typeOf? model := by
  refine congrArg (Option.map Prod.fst) (find?_perm hperm (h.imp fun {named other} hsame => ?_))
  rintro ⟨hfirst, hsecond⟩
  obtain ⟨name, t⟩ := named
  obtain ⟨name', t'⟩ := other
  cases t with
  | mapped m =>
    cases t' with
    | mapped m' =>
      have hm : m = m' := (beq_iff_eq.mp hfirst).trans (beq_iff_eq.mp hsecond).symm
      rw [hm] at hsame
      exact absurd hsame (by simp [TypeDeclaration.model, ModelRef.same])
    | _ => cases hsecond
  | _ => cases hfirst

end Declarations

namespace Synthesis

variable {b : Declarations} {types : Table TypeDeclaration}

/-- **A type is described alike among types in another order**, if models are found under the same
names. -/
theorem addType_with_types (h : ∀ model, Declarations.typeOf? { b with types } model = b.typeOf? model)
    (named : String × TypeDeclaration) : addType { b with types } named = addType b named := by
  have hassociation : addAssociation { b with types } = addAssociation b := by
    funext m type p a
    unfold addAssociation
    rw [h]
  have hrequests : associationRequests { b with types } = associationRequests b := by
    funext m type p
    unfold associationRequests
    simp only [h]
  have hmodel : addModel { b with types } = addModel b := by
    funext own type m p
    unfold addModel
    rw [hassociation, hrequests]
    rfl
  have hmembers : addMembers { b with types } = addMembers b := by
    funext plugin type t p
    unfold addMembers
    rw [hmodel]
    rfl
  have hpopulate : populate { b with types } = populate b := by
    funext plugin type t p primary first
    unfold populate
    rw [hmembers]
  have hnames : addAllNames { b with types } = addAllNames b := by
    funext plugin key t
    unfold addAllNames
    rw [hpopulate]
    rfl
  unfold addType
  rw [hnames]

end Synthesis

/-! ### Declarations whose order does not matter -/

/-- The filters that are asked for in a draft, field by field. -/
def Draft.asked (d : Draft) : List FilterStep := d.filterRequests.flatMap FilterRequest.steps

/-- The calls that are made for them. -/
def Draft.calls (d : Draft) : List FilterCall := FilterStep.calls d.registry d.asked

/-- The names of their derived types, and of the inputs for operators. -/
def Draft.reserved (d : Draft) : List String :=
  d.calls.flatMap FilterCall.derived ++ Registry.operatorNames

/-- Derived types are apart from all other types, and from each other. -/
structure Draft.FiltersApart (d : Draft) : Prop where
  /-- No two fields have a derived type in common, and none is asked for in two ways. -/
  distinct : ∀ c ∈ d.calls, ∀ c' ∈ d.calls, c ≠ c' → FilterCall.Distinct c c'
  /-- The derived types are not there. -/
  new : ∀ c ∈ d.calls, c.IsNew d.registry
  /-- No returned type has such a name. -/
  returned : ∀ c ∈ d.calls, c.returned ∉ d.reserved
  /-- No line of a returned type names one. -/
  avoids : ∀ c ∈ d.calls, d.registry.Avoids c.returned (· ∈ d.reserved)
  /-- No type has such a name whose field is asked for. -/
  owners : ∀ q ∈ d.asked, ∀ type ∈ q.type?, type ∉ d.reserved

/-- The order of the declared types does not matter, as far as they are described. -/
structure Declarations.Reorderable (result : String → DirectiveOption) (b : Declarations)
    (x : Extensions) : Prop where
  /-- No model has two names. -/
  models : b.ModelsOnce
  /-- The types leave room for each other. -/
  orderless : b.Orderless result b.types
  /-- The options of extensions are coherent. -/
  coherent : ∀ e ∈ x.fields, ∀ o ∈ (FieldMap.fields e.2).directiveOptions,
    DirectiveOption.Coherent result o

namespace Draft

variable {d d' : Draft}

/-- Names that are derived from fields that are asked for. -/
def Own (d : Draft) (name : String) : Prop := ∃ c ∈ d.calls, name ∈ c.derived

theorem mem_reserved {name : String} :
    name ∈ d.reserved ↔ d.Own name ∨ name ∈ Registry.operatorNames := by
  rw [reserved, List.mem_append, List.mem_flatMap]
  rfl

theorem FiltersApart.separate (h : d.FiltersApart) (honce : d.registry.Once) :
    FilterCall.Separate d.Own d.calls d.registry where
  once := honce
  clear c hc :=
    have hreturned := h.returned c hc
    ⟨fun _ hn => ⟨c, hc, hn⟩, fun hn => hreturned (mem_reserved.mpr (.inl hn)),
      fun hn => hreturned (mem_reserved.mpr (.inr hn)),
      fun l hl n hn => h.avoids c hc l hl n (mem_reserved.mpr hn)⟩
  new := h.new
  distinct := h.distinct

theorem FiltersApart.outer (h : d.FiltersApart) : Synthesis.Outer d.Own d.asked :=
  fun q hq type htype =>
    ⟨fun hn => h.owners q hq type htype (mem_reserved.mpr (.inl hn)),
      fun hn => h.owners q hq type htype (mem_reserved.mpr (.inr hn))⟩

/-- To say the same is to have nothing beside it. -/
theorem Same.beside {result : String → DirectiveOption} (h : d.Same d')
    (hcoherent : ∀ t, ∀ e ∈ d.configsOf t, DirectiveOption.Coherent result e.2.directives)
    (hthunks : DirectiveOption.Agreeing result d.thunks d'.thunks) :
    Draft.Beside result (fun _ => .object) {} (fun _ _ => True) (fun _ _ => True) False d d' where
  registry := Registry.beside_nil_iff.mpr h.registry.symm
  known t f _ := (h.known t f).symm
  listed := False.elim
  coherent := hcoherent
  steps q := by
    rw [← h.steps]
    exact ⟨.inr, fun hq => hq.resolve_left List.not_mem_nil⟩
  thunks := hthunks
  lines _ _ _ _ := trivial
  configs _ _ _ := trivial
  kinds _ := .inr trivial

end Draft

namespace Synthesis

open Run

variable {result : String → DirectiveOption} {b : Declarations} {x : Extensions} {s : ThunkState}
  {types : Table TypeDeclaration} {d d' : Draft}

/-- What is configured has coherent options. -/
theorem TogetherFrom.coherent {d0 : Draft} (hblank : d0.Blank result)
    (horder : b.Orderless result types) (h : TogetherFrom result b d0 types d) (t : String) :
    ∀ e ∈ d.configsOf t, DirectiveOption.Coherent result e.2.directives :=
  (settled_of_assembled h.assembled (fun other hother =>
    brought_of_described hblank horder hother (h.described other hother)) h.thunks).coherent t

/-- Declare the fields of extensions. -/
def extend (fields : Table (List (String × FieldEntry))) : Synthesis Unit :=
  fields.forM fun (type, entries) => declare type (.fields entries) none

theorem fields_extend {fields : Table (List (String × FieldEntry))} {u : Unit} (ht : d.Tidy)
    (h : extend fields d = (.ok u, d')) : d'.extensions.fields = d.extensions.fields := by
  obtain ⟨-, -, hfields, -⟩ := does_forM (fun (e : String × List (String × FieldEntry)) _ =>
    does_declare e.1 (.fields e.2) none) d u d' h ht
  exact hfields

theorem mem_asked {q : FilterStep} : q ∈ d.asked ↔ q ∈ (d.extensions.fields.map fun e =>
    FilterRequest.declared e.1 (.fields e.2)).flatMap FilterRequest.steps ∨ q ∈ d.steps := by
  rw [Draft.asked, Draft.filterRequests, List.flatMap_append, List.mem_append, Draft.steps]

/-- **Extensions are declared alike in drafts that say the same.** -/
theorem extend_same {fields : Table (List (String × FieldEntry))} (h : d.Same d')
    (hcoherent : ∀ t, ∀ e ∈ d.configsOf t, DirectiveOption.Coherent result e.2.directives)
    (hthunks : DirectiveOption.Agreeing result d.thunks d'.thunks) (ht : d.Tidy) (ht' : d'.Tidy)
    (hoptions : ∀ e ∈ fields, ∀ o ∈ (FieldMap.fields e.2).directiveOptions,
      DirectiveOption.Coherent result o) :
    (∃ e d1 e' d1', extend fields d = (.error e, d1) ∧ extend fields d' = (.error e', d1'))
    ∨ ∃ d1 d1', extend fields d = (.ok ⟨⟩, d1) ∧ extend fields d' = (.ok ⟨⟩, d1')
      ∧ d1.registry.Same d1'.registry ∧ ∀ q, q ∈ d1.asked ↔ q ∈ d1'.asked := by
  have hdeclare : Alike (Draft.Beside result (fun _ => .object) {} (fun _ _ => True)
      (fun _ _ => True) False) (extend fields) (extend fields) := by
    refine alike_forM fun e he => (lockstep_beside (fun _ _ _ => rfl)
      fun _ _ _ _ he => by cases he).declare ?_ (hoptions e he) none
    exact ⟨fun _ _ => trivial, fun _ _ => ⟨trivial, fun _ => rfl⟩, fun _ _ _ => .rfl⟩
  obtain ⟨hout, hbeside⟩ := hdeclare d d' (h.beside hcoherent hthunks)
  rcases hrun : extend fields d with ⟨e | ⟨⟨⟩⟩, d1⟩ <;>
    rcases hrun' : extend fields d' with ⟨e' | ⟨⟨⟩⟩, d1'⟩ <;> rw [hrun, hrun'] at hout
  · exact .inl ⟨e, d1, e', d1', rfl, rfl⟩
  · cases hout
  · cases hout
  · rw [hrun, hrun'] at hbeside
    refine .inr ⟨d1, d1', rfl, rfl, (Registry.beside_nil_iff.mp hbeside.registry).symm, fun q => ?_⟩
    rw [mem_asked, mem_asked, fields_extend ht hrun, fields_extend ht' hrun', h.extended,
      hbeside.steps]
    exact or_congr_right ⟨.inr, fun hq => hq.resolve_left List.not_mem_nil⟩

/-- **The first pass goes alike in any order.** -/
theorem firstPass_perm (hperm : b.types.Perm types) (h : b.Reorderable result x)
    (hs : s.Agrees result) :
    (∃ e d e' d', firstPass b (fresh x s) = (.error e, d)
      ∧ firstPass { b with types } (fresh x s) = (.error e', d'))
    ∨ ∃ d d', firstPass b (fresh x s) = (.ok ⟨⟩, d)
      ∧ firstPass { b with types } (fresh x s) = (.ok ⟨⟩, d')
      ∧ d.registry.Same d'.registry ∧ ∀ q, q ∈ d.asked ↔ q ∈ d'.asked := by
  obtain ⟨d0, hscalars, hblank, hfields⟩ := addScalars_of_blank b (blank_fresh hs x)
  have hdescribe : addType { b with types } = addType b :=
    funext (addType_with_types (Declarations.typeOf?_perm h.models hperm))
  have hpass : ∀ {m : Synthesis Unit}, (addScalars b >>= fun _ => m) (fresh x s) = m d0 :=
    fun {m} => bind_of_ok hscalars fun _ => m
  have hfirst : firstPass b (fresh x s)
      = (b.types.forM (addType b) >>= fun _ => get >>= fun d => extend d.extensions.fields) d0 := hpass
  have hsecond : firstPass { b with types } (fresh x s)
      = (types.forM (addType b) >>= fun _ => get >>= fun d => extend d.extensions.fields) d0 := by
    rw [← hdescribe]
    exact hpass
  rw [hfirst, hsecond]
  rcases types_perm hblank h.orderless hperm with
    ⟨e, d, e', d', hrun, hrun'⟩ | ⟨d, d', hrun, hrun', htogether, htogether', hsame⟩
  · exact .inl ⟨e, d, e', d', bind_of_error hrun _, bind_of_error hrun' _⟩
  · have hextended : d.extensions.fields = x.fields := htogether.assembled.extended.trans hfields
    rw [bind_of_ok hrun, bind_of_ok hrun', bind_of_ok (get_apply d), bind_of_ok (get_apply d'),
      ← hsame.extended, hextended]
    exact extend_same hsame (htogether.coherent hblank h.orderless)
      ⟨htogether.thunks, htogether'.thunks⟩ htogether.tidy htogether'.tidy h.coherent

/-- Two declarations come to the same: a synthesis fails with both, or it gives registries that say
the same. -/
def SameOutcome (b b' : Declarations) (d : Draft) : Prop :=
  (∃ e d1 e' d1', synthesize b d = (.error e, d1) ∧ synthesize b' d = (.error e', d1'))
  ∨ ∃ d1 d1', synthesize b d = (.ok ⟨⟩, d1) ∧ synthesize b' d = (.ok ⟨⟩, d1')
    ∧ d1.registry.Same d1'.registry

/-- **The order of declarations does not matter** where they leave room for each other and derived
types are apart: in any two orders a synthesis fails, or it gives registries that say the same. -/
theorem synthesize_perm (hperm : b.types.Perm types) (h : b.Reorderable result x)
    (hs : s.Agrees result)
    (hfilters : ∀ d, firstPass b (fresh x s) = (.ok ⟨⟩, d) → d.FiltersApart) :
    SameOutcome b { b with types } (fresh x s) := by
  have htidy := tidy_fresh x s
  -- What succeeds in one order does in the other.
  have hok : ∀ d, synthesize b (fresh x s) = (.ok ⟨⟩, d) →
      ∃ d', synthesize { b with types } (fresh x s) = (.ok ⟨⟩, d') ∧ d.registry.Same d'.registry := by
    intro d hrun
    obtain ⟨d1, hfirst, hall⟩ := (synthesize_eq_ok_iff htidy).mp hrun
    rcases firstPass_perm hperm h hs with ⟨_, _, _, _, hbad, -⟩ | ⟨_, d1', hfirst', hpass, hsame, hasked⟩
    · cases hfirst.symm.trans hbad
    · cases hfirst.symm.trans hfirst'
      have hapart := hfilters d1 hfirst
      obtain ⟨d', hall', hd'⟩ := fulfil_same hsame (hapart.separate (once_firstPass hfirst))
        (once_firstPass hpass) hasked hapart.outer (fun _ hc => hc) hall
      exact ⟨d', (synthesize_eq_ok_iff htidy).mpr ⟨d1', hpass, hall'⟩, hd'⟩
  have hok' : ∀ d', synthesize { b with types } (fresh x s) = (.ok ⟨⟩, d') →
      ∃ d, synthesize b (fresh x s) = (.ok ⟨⟩, d) := by
    intro d' hrun
    obtain ⟨d1', hpass', hall'⟩ := (synthesize_eq_ok_iff htidy).mp hrun
    rcases firstPass_perm hperm h hs with ⟨_, _, _, _, -, hbad⟩ | ⟨d1, _, hfirst, hpass, hsame, hasked⟩
    · cases hpass'.symm.trans hbad
    · cases hpass'.symm.trans hpass
      have hapart := hfilters d1 hfirst
      have hseparate := hapart.separate (once_firstPass hfirst)
      have honce := once_firstPass hpass
      have hcalls : FilterStep.calls d1'.registry d1'.asked ⊆ d1.calls := by
        intro c hc
        obtain ⟨q, hq, hcall⟩ := FilterStep.mem_calls.mp hc
        refine FilterStep.mem_calls.mpr ⟨q, (hasked q).mpr hq, ?_⟩
        rw [← hcall]
        exact FilterStep.call?_congr fun type _ field => by rw [hsame.line?]
      obtain ⟨d, hall, -⟩ := fulfil_same hsame.symm (hseparate.same hsame honce) hseparate.once
        (fun q => (hasked q).symm) (fun q hq => hapart.outer q ((hasked q).mpr hq)) hcalls hall'
      exact ⟨d, (synthesize_eq_ok_iff htidy).mpr ⟨d1, hfirst, hall⟩⟩
  rcases hrun : synthesize b (fresh x s) with ⟨e | ⟨⟨⟩⟩, d⟩
  · rcases hrun' : synthesize { b with types } (fresh x s) with ⟨e' | ⟨⟨⟩⟩, d'⟩
    · exact .inl ⟨e, d, e', d', hrun, hrun'⟩
    · obtain ⟨d2, hrun2⟩ := hok' d' hrun'
      rw [hrun] at hrun2
      cases hrun2
  · obtain ⟨d', hrun', hsame⟩ := hok d hrun
    exact .inr ⟨d, d', hrun, hrun', hsame⟩

/-! ### Shops and items -/

/-- A field that is no more than a signature. -/
def signatureField (signature : String) : FieldEntry := .field (.value (.text signature))

/-- A class with a name, whose policy brings fields of other types along. -/
def classWith (id : Nat) (types : List (String × FieldMap)) : TypeDeclaration :=
  .plain id [("name", .value (.text "String"))] (some (.policy { Policy.plain with types }))

/-- Types that are declared, among them perhaps a mapped model. -/
def declaring (types : Table TypeDeclaration) : Declarations where
  types
  models := [("Root", { name := "Root", table := "roots", virtuals := [], associations := []
                        columns := [{ key := "id", name := "id", type := .base "Integer"
                                      primary := true, nullable := false, foreign := none }] })]
  policies := []
  plugins := [.store [] none, .classes]
  base := none
  columnTypes := []
  scalars := []

/-- A class that brings along a query for what it describes, and another query. -/
def shops : Table TypeDeclaration := [
  ("Shop", classWith 0 [("Query", .fields [("shops", fetchedField "[Shop!]!")])]),
  ("Query", .inline (.fields [("greeting", signatureField "String")]))]

/-- What the first pass makes of them. -/
def openShops : Draft := (firstPass (declaring shops) (fresh {} {})).2

theorem orderless_shops : (declaring shops).Orderless (fun _ => .none) shops where
  distinct named hnamed t m hm := by
    rcases List.mem_pair.mp hnamed with rfl | rfl
    · rcases List.mem_pair.mp hm with hm | hm
      · cases hm
      · cases hm
        unfold FieldMap.Distinct
        decide
    · cases List.mem_singleton.mp hm
      unfold FieldMap.Distinct
      decide
  coherent named hnamed o ho := by
    have hoptions : shops.flatMap (declaring shops).directiveOptionsOf = List.replicate 4 .none := rfl
    have hmem : o ∈ List.replicate 4 .none := hoptions ▸ List.mem_flatMap.mpr ⟨named, hnamed, ho⟩
    obtain rfl := List.eq_of_mem_replicate hmem
    exact DirectiveOption.coherent_none
  apart := by decide +kernel
  suits := by decide +kernel

theorem filtersApart_openShops : openShops.FiltersApart where
  distinct := by decide +kernel
  new := by decide +kernel
  returned := by decide +kernel
  avoids := by decide +kernel
  owners := by decide +kernel

/-- The query that a class brings along may come before the other one or after it: filters are asked
for, and the registries say the same. -/
theorem synthesize_perm_shops : openShops.calls = [⟨"Query", "shops", "Shop", true⟩]
    ∧ ∃ d d', synthesize (declaring shops) (fresh {} {}) = (.ok ⟨⟩, d)
      ∧ synthesize (declaring shops.reverse) (fresh {} {}) = (.ok ⟨⟩, d')
      ∧ d.registry.Same d'.registry := by
  have hall : openShops.calls = [⟨"Query", "shops", "Shop", true⟩]
      ∧ (synthesize (declaring shops) (fresh {} {})).1.isOk = true := by
    decide +kernel
  obtain ⟨hcalls, hok⟩ := hall
  have hmodels : (declaring shops).ModelsOnce := by decide
  refine ⟨hcalls, (synthesize_perm (List.reverse_perm shops).symm
    ⟨hmodels, orderless_shops, fun _ he => by cases he⟩ (fun _ _ h => by cases h)
    fun d hfirst => ?_).resolve_left ?_⟩
  · have hd : d = openShops := (congrArg Prod.snd hfirst).symm
    exact hd ▸ filtersApart_openShops
  · rintro ⟨e, d, -, -, hfails, -⟩
    rw [hfails] at hok
    cases hok

/-! ### Where the order matters -/

/-- What a synthesis makes of a field: nothing if it fails, else the kind of its type and its
signature. -/
def made (b : Declarations) (d : Draft) (type field : String) : Option (TypeKind × Option String) :=
  match synthesize b d with
  | (.ok _, d) => some ((d.registry.entry type).kind, (d.registry.line? type field).map (·.type))
  | (.error _, _) => none

theorem SameOutcome.made_eq {b b' : Declarations} {d : Draft} (h : SameOutcome b b' d)
    (type field : String) : made b d type field = made b' d type field := by
  unfold made
  rcases h with ⟨e, d1, e', d1', hrun, hrun'⟩ | ⟨d1, d1', hrun, hrun', hsame⟩
  · rw [hrun, hrun']
  · rw [hrun, hrun']
    exact congrArg some (Prod.ext (hsame.entries type).kind
      (congrArg (Option.map FieldLine.type) (hsame.line? type field)))

/-- No model has two names, no field is given twice, and yet the types do not come to the same in
the reverse order. -/
structure Swayed (types : Table TypeDeclaration) : Prop where
  /-- No model has two names. -/
  models : (declaring types).ModelsOnce
  /-- No field is given twice. -/
  apart : (types.flatMap (declaring types).contributionsOf).Pairwise
    (Contribution.Apart (declaring types))
  /-- The order matters. -/
  differs : ¬SameOutcome (declaring types) (declaring types.reverse) (fresh {} {})

/-- Types are swayed if a field comes out in another way. -/
theorem swayed_of_made {types : Table TypeDeclaration} (type field : String)
    (h : (declaring types).ModelsOnce
      ∧ (types.flatMap (declaring types).contributionsOf).Pairwise
        (Contribution.Apart (declaring types))
      ∧ made (declaring types) (fresh {} {}) type field
        ≠ made (declaring types.reverse) (fresh {} {}) type field) : Swayed types :=
  ⟨h.1, h.2.1, fun hsame => h.2.2 (hsame.made_eq type field)⟩

/-- An entry that states the kind of a type. -/
def kindEntry (kind : String) : String × FieldEntry :=
  (policyKey, .policy (TypeDeclaration.kindPolicy kind))

/-- A class takes the place of what a policy has brought along for its type. -/
def replaced : Table TypeDeclaration := [
  ("Shop", classWith 0 [("Item", .fields [("price", signatureField "Int")])]),
  ("Item", classWith 1 [])]

/-- The kind of a type is the one that was stated last. -/
def restated : Table TypeDeclaration := [
  ("Shop", classWith 0 [("Item", .fields [("price", signatureField "Int"), kindEntry "interface"])]),
  ("Item", .inline (.fields [("name", signatureField "String"), kindEntry "input"]))]

/-- What is declared for a union is a name alone. -/
def united : Table TypeDeclaration := [
  ("Shop", classWith 0 [("Item", .fields [("price", signatureField "Int")])]),
  ("Item", .unionOf ["Book"])]

/-- Fields whose names differ in case have one condition input. -/
def shared : Table TypeDeclaration := [
  ("Shop", classWith 0 [("Query", .fields [("Items", fetchedField "[Shop]")])]),
  ("Item", .inline (.fields [("price", signatureField "Int")])),
  ("Query", .inline (.fields [("items", fetchedField "[Item]")]))]

/-- A condition input that is declared loses its lines when it is asked for, and is begun anew when
it is asked for again. -/
def preset : Table TypeDeclaration := [
  ("Shop", classWith 0 [("Root", .fields [("item", fetchedField "Item")])]),
  ("Root", .mapped "Root"),
  ("Item", .inline (.fields [("data", signatureField "JSON")])),
  ("RootWhereOptionsItem", .inline (.fields [("data", signatureField "JSON")]))]

/-- An input for operators can be returned once it is there. -/
def early : Table TypeDeclaration := [
  ("Shop", classWith 0 [("Query", .fields [("shops", fetchedField "[Shop]")])]),
  ("Query", .inline (.fields [("inputs", fetchedField "[GeneOperatorStringInput]")]))]

/-- A line that names an input for operators can be sorted by until this is there. -/
def named : Table TypeDeclaration := [
  ("Shop", classWith 0 [("Query", .fields [("shops", fetchedField "[Shop]")])]),
  ("Query", .inline (.fields [("items", fetchedField "[Item]")])),
  ("Item", .inline (.fields [("input", signatureField "GeneOperatorStringInput")]))]

/-- **The order of declarations can matter**, though no field is given twice and no model has two
names. -/
theorem not_sameOutcome_reverse : Swayed replaced ∧ Swayed restated ∧ Swayed united ∧ Swayed shared
    ∧ Swayed preset ∧ Swayed early ∧ Swayed named := by
  refine ⟨swayed_of_made "Item" "price" ?_, swayed_of_made "Item" "name" ?_,
    swayed_of_made "Item" "price" ?_, swayed_of_made "QueryWhereOptionsItems" "price" ?_,
    swayed_of_made "RootWhereOptionsItem" "and" ?_, swayed_of_made "Query" "inputs" ?_,
    swayed_of_made "QuerySelectOrderItems" "input_ASC" ?_⟩
  all_goals decide +kernel

end Synthesis
end SchemaForge

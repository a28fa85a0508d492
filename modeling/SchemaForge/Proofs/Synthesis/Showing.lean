import SchemaForge.Proofs.Synthesis.Exposure
import SchemaForge.Proofs.Synthesis.Filtering

/-!
# Types that have something to show

A field that a declaration gives to a type is a line of it after the first pass, and stays one,
unless a class takes the place of all that was there. So **`lines_eq_nil_iff`**: a type that no
class describes has no lines in the end exactly if nothing that is declared gives it a field.
-/
namespace SchemaForge

open Registry Run

/-- A contribution in which a class describes a type. -/
def Contribution.IsClass (t : String) : Contribution → Prop
  | members .classes type _ _ => type = t
  | _ => False

namespace Synthesis

variable {α β : Type} {b : Declarations} {x : Table (List (String × FieldEntry))} {t f : String}

/-! ### Steps -/

/-- A step keeps a line, whether or not it succeeds. -/
def KeepsListed (t f : String) (m : Synthesis α) : Prop :=
  Alike (fun d d' => d = d' ∧ d.registry.Shows t f) m m

theorem keepsListed_of {m : Synthesis α}
    (h : ∀ d, d.registry.Shows t f → (m d).2.registry.Shows t f) : KeepsListed t f m := by
  rintro d _ ⟨rfl, hd⟩
  exact ⟨rfl, rfl, h d hd⟩

theorem KeepsListed.keeps {m : Synthesis α} (h : KeepsListed t f m) :
    Keeps (fun d : Draft => d.registry.Shows t f) m := by
  intro d a d' hrun hd
  obtain ⟨-, -, hstate⟩ := h d d ⟨rfl, hd⟩
  rwa [hrun] at hstate

/-- Directives are recorded before they are used. -/
theorem keepsListed_use {c : Directive} {u : String → Registry → Registry}
    (hu : ∀ use r, Registry.Shows r t f → Registry.Shows (u use r) t f) :
    KeepsListed t f (record c >>= fun use => change (u use)) := by
  refine keepsListed_of fun d hd => ?_
  rw [bind_apply]
  cases hout : (d.directives.register ⟨c.name, c.arguments⟩).1 with
  | error e =>
    rw [show record c d = (.error e, { d with
      directives := (d.directives.register ⟨c.name, c.arguments⟩).2 }) from Prod.ext hout rfl]
    exact hd
  | ok use =>
    rw [show record c d = (.ok use, { d with
      directives := (d.directives.register ⟨c.name, c.arguments⟩).2 }) from Prod.ext hout rfl]
    exact hu use _ hd

/-- All that is declared, but for classes in the place of a type. -/
def unclassed (t : String) : Footprint := { Footprint.all with described := (· ≠ t) }

/-- **Every single step keeps a line of a type that no class describes.** -/
theorem lockstep_listed (t f : String) : Lockstep (fun _ => True) (fun _ => True) (unclassed t)
    (fun d d' => d = d' ∧ d.registry.Shows t f) where
  absent := trivial
  union h _ := by rw [h.1]
  line h _ := by rw [h.1]
  known h _ := ⟨by rw [h.1], fun _ _ => trivial⟩
  resolve _ := keepsListed_of fun _ hd => hd
  resolved _ _ _ _ _ := trivial
  list _ := trivial
  useOnType _ _ _ := keepsListed_use fun _ _ h => h.updateType fun _ => id
  useOnField _ _ := keepsListed_use fun _ _ h => h.updateField _
  field _ _ := keepsListed_of fun _ h => h.updateField _
  configure _ _ _ := keepsListed_of fun _ h => h
  govern _ _ _ := keepsListed_of fun _ h => h
  ensure o := keepsListed_of fun d h => by
    change Shows (Registry.ensureType d.registry o) t f
    rwa [Shows, entry_ensureType]
  kind _ := keepsListed_of fun _ h => h.setKind _
  put {o} ho lines _ := keepsListed_of fun d h => by
    change Shows (Table.put d.registry o { lines }) t f
    rwa [Shows, entry_put, if_neg fun heq => ho heq.symm]
  start _ _ _ _ := keepsListed_of fun _ h => h
  request _ := keepsListed_of fun _ h => h
  expose _ _ _ _ := keepsListed_of fun _ h => h
  warn _ := keepsListed_of fun _ h => h

theorem keepsListed_describeConfigured (o : String) : KeepsListed t f (describeConfigured o) := by
  refine alike_get_bind fun d d' ⟨hsame, hd⟩ => ?_
  subst hsame
  refine (alike_forM fun e he => (lockstep_listed t f).describe trivial trivial).bind fun _ => ?_
  exact alike_ite (fun _ => (lockstep_listed t f).request _) fun _ => alike_pure _

/-! ### What is declared is there -/

theorem listed_updateField (u : FieldLine → FieldLine) :
    EndsWith (fun d : Draft => d.registry.Shows t f) (change (·.updateField t f u)) := by
  intro d a d' hrun
  cases hrun
  exact shows_updateField u

theorem listed_declareField (owner : Option ModelRef) (e : FieldDeclaration) :
    EndsWith (fun d : Draft => d.registry.Shows t f) (declareField t owner f e) := by
  have L := lockstep_listed t f
  refine endsWith_bind fun d => ?_
  dsimp only
  split
  · exact listed_updateField id
  · refine endsWith_lift_bind fun c _ => (listed_updateField id).bind fun _ => ?_
    have hrest : Keeps (fun d : Draft => d.registry.Shows t f) (do
        describe t f c; noteConfig t f owner c) :=
      KeepsListed.keeps
        ((L.describe trivial trivial).bind fun _ => L.noteConfig trivial owner trivial)
    exact keeps_ite (fun _ => (KeepsListed.keeps (L.setFieldType trivial _)).bind fun _ => hrest)
      fun _ => hrest

/-- A field that a mapping declares is there. -/
theorem listed_declare {m : FieldMap} (hf : f ∈ m.names) (owner : Option ModelRef) :
    EndsWith (fun d : Draft => d.registry.Shows t f) (declare t m owner) := by
  have L := lockstep_listed t f
  unfold FieldMap.names at hf
  refine endsWith_bind fun _ => ?_
  split
  · rename_i words hwords
    rw [hwords] at hf
    exact endsWith_bind fun _ => endsWith_forM hf (listed_updateField id) fun w _ =>
      KeepsListed.keeps (L.ensureField trivial)
  · rename_i hwords
    rw [hwords] at hf
    cases hf
  · rename_i entries hwords
    rw [hwords] at hf
    obtain ⟨e, he, rfl⟩ := List.mem_map.mp hf
    have hfield := listed_declareField (t := t) (f := e.1) owner e.2
    have hothers : ∀ e' : String × FieldDeclaration,
        Keeps (fun d : Draft => d.registry.Shows t e.1) (declareField t owner e'.1 e'.2) :=
      fun e' => KeepsListed.keeps
        (L.declareField (fun h => by rw [h.1]) trivial owner fun _ _ => trivial)
    cases (policyIn? entries).bind PolicyOption.policy? with
    | none => exact endsWith_forM he hfield fun e' _ => hothers e'
    | some p => exact endsWith_bind fun _ => endsWith_forM he hfield fun e' _ => hothers e'

/-- An exposed column is there if its type can be shown. -/
theorem listed_addColumn {table : Table String} {p : PolicyOption} {c : Column}
    (hexposed : p.exposes c.key = .ok true) (hheld : (!holdsAssociation c) = true)
    (hsome : (ColumnType.fieldType table c.type).isSome = true) :
    EndsWith (fun d : Draft => d.registry.Shows t c.key) (addColumn b table t p c) := by
  refine endsWith_lift_bind fun exposed hlift => ?_
  cases hexposed.symm.trans hlift
  rw [if_pos (Bool.and_eq_true_iff.mpr ⟨rfl, hheld⟩)]
  split
  · exact listed_updateField _
  · rename_i hnone
    rw [hnone] at hsome
    cases hsome

/-- An exposed virtual member is there. -/
theorem listed_addVirtual {p : PolicyOption} {v : Virtual}
    (hexposed : p.exposes v.key = .ok true) :
    EndsWith (fun d : Draft => d.registry.Shows t v.key) (addVirtual b t p v) := by
  refine endsWith_lift_bind fun exposed hlift => ?_
  cases hexposed.symm.trans hlift
  rw [if_pos rfl]
  exact endsWith_lift_bind fun _ _ => listed_updateField _

/-- An exposed association is there if its target has a type. -/
theorem listed_addAssociation {m : Model} {p : PolicyOption} {a : Association}
    (hexposed : p.exposes a.key = .ok true) (hsome : (b.typeOf? a.target).isSome = true) :
    EndsWith (fun d : Draft => d.registry.Shows t a.key) (addAssociation b m t p a) := by
  have L := lockstep_listed t a.key
  refine endsWith_lift_bind fun exposed hlift => ?_
  cases hexposed.symm.trans hlift
  rw [if_pos rfl]
  split
  · rename_i hnone
    rw [hnone] at hsome
    cases hsome
  · split
    · exact (listed_updateField _).bind fun _ =>
        (KeepsListed.keeps (L.addFetchArguments trivial true)).bind fun _ =>
          KeepsListed.keeps (L.configure trivial _ trivial)
    · exact listed_updateField _

/-- A member that is exposed of a mapped model is there. -/
theorem listed_addModel {own : Table String} {m : Model} {p : PolicyOption}
    (hf : f ∈ b.fieldsOfModel own m) (hexposed : p.exposes f = .ok true) :
    EndsWith (fun d : Draft => d.registry.Shows t f) (addModel b own t m p) := by
  have L := lockstep_listed t f
  have hcolumn : ∀ c, Keeps (fun d : Draft => d.registry.Shows t f)
      (addColumn b (columnTable b own) t p c) := fun c =>
    KeepsListed.keeps (L.addColumn b _ p c fun _ _ _ => trivial)
  have hvirtual : ∀ v, Keeps (fun d : Draft => d.registry.Shows t f) (addVirtual b t p v) :=
    fun v => KeepsListed.keeps (L.addVirtual b p v fun _ => trivial)
  have hassociation : ∀ a, Keeps (fun d : Draft => d.registry.Shows t f)
      (addAssociation b m t p a) := fun a =>
    KeepsListed.keeps (L.addAssociation b m p a fun _ _ => trivial)
  have hrequests : Keeps (fun d : Draft => d.registry.Shows t f) (associationRequests b m t p) := by
    intro d qs d' hrun hd
    obtain ⟨-, rfl⟩ := associationRequests_eq_ok hrun
    exact hd
  have hafter : Keeps (fun d : Draft => d.registry.Shows t f) (do
      m.associations.forM (addAssociation b m t p)
      associationRequests b m t p) :=
    (keeps_forM fun a _ => hassociation a).bind fun _ => hrequests
  refine endsWith_bind fun _ => ?_
  rcases List.mem_append.mp hf with hf | hf
  · rcases List.mem_append.mp hf with hf | hf
    · obtain ⟨c, hc, rfl⟩ := List.mem_map.mp hf
      obtain ⟨hc, hkept⟩ := List.mem_filter.mp hc
      obtain ⟨hheld, hsome⟩ := Bool.and_eq_true_iff.mp hkept
      exact (endsWith_forM hc (listed_addColumn hexposed hheld hsome) fun c' _ => hcolumn c').bind
        fun _ => (keeps_forM fun v _ => hvirtual v).bind fun _ => hafter
    · obtain ⟨v, hv, rfl⟩ := List.mem_map.mp hf
      exact endsWith_bind fun _ => (endsWith_forM hv (listed_addVirtual hexposed) fun v' _ =>
        hvirtual v').bind fun _ => hafter
  · obtain ⟨a, ha, rfl⟩ := List.mem_map.mp hf
    obtain ⟨ha, hsome⟩ := List.mem_filter.mp ha
    exact endsWith_bind fun _ => endsWith_bind fun _ => (endsWith_forM ha
      (listed_addAssociation hexposed hsome) fun a' _ => hassociation a').bind fun _ => hrequests

/-- What a contribution gives that is not a class is there when a model is described. -/
theorem listed_populate {plugin : Plugin} {c : TypeDeclaration} {p : PolicyOption}
    (hclass : ¬(Contribution.members plugin t c p).IsClass t) (hf : f ∈ b.exposedOf plugin c p)
    (primary : Option String) (first : PolicyOption) :
    EndsWith (fun d : Draft => d.registry.Shows t f) (populate b plugin t c p primary first) := by
  have L := lockstep_listed t f
  have hmembers : EndsWith (fun d : Draft => d.registry.Shows t f) (addMembers b plugin t c p) := by
    unfold addMembers
    split
    · exact absurd rfl hclass
    · obtain ⟨hmem, hexposed⟩ := List.mem_filter.mp hf
      refine listed_addModel hmem ?_
      split at hexposed
      · assumption
      · cases hexposed
    · exact fun d a d' hrun => by cases hrun
    · exact fun d a d' hrun => by cases hrun
  rw [populate_eq]
  refine endsWith_bind fun _ => hmembers.bind fun requests => ?_
  refine (keeps_forM fun q _ => KeepsListed.keeps (L.request q)).bind fun _ => ?_
  refine (keepsListed_describeConfigured t).keeps.bind fun _ => ?_
  refine (KeepsListed.keeps (L.ensure t)).bind fun _ => ?_
  refine (KeepsListed.keeps (L.policyDirectives fun _ _ => trivial)).bind fun _ => ?_
  exact (KeepsListed.keeps (L.policyDirectives fun _ _ => trivial)).bind fun _ =>
    KeepsListed.keeps (L.toFieldSteps.directType t fun _ _ => trivial)

/-- A contribution that is not a class in the place of a type leaves its lines. -/
theorem allows_unclassed {c : Contribution} (h : ¬c.IsClass t) : (unclassed t).Allows b c := by
  cases c with
  | mapping type m => exact ⟨fun _ _ => trivial, fun _ _ => trivial, fun _ _ _ => trivial⟩
  | members plugin type model p =>
    refine ⟨fun _ _ => trivial, fun hplugin heq => ?_⟩
    cases plugin with
    | classes => exact h heq
    | store own key => cases hplugin
    | outline => cases hplugin

/-- A mapping that gives fields is that of an enum or of an object. -/
theorem isSome_of_mem_names {m : FieldMap} (h : f ∈ m.names) :
    (TypeDeclaration.inline m).enumWords?.isSome = true
      ∨ (TypeDeclaration.inline m).objectFields?.isSome = true := by
  cases m with
  | fields entries => exact .inr rfl
  | value v =>
    unfold FieldMap.names at h
    cases hwords : TypeDeclaration.words? (.value v) with
    | some words => exact .inl (Option.isSome_iff_exists.mpr ⟨words, hwords⟩)
    | none =>
      rw [hwords] at h
      cases h

/-- What a policy brings along is there when it is declared. -/
theorem listed_addPolicyTypes {declaration : TypeDeclaration} {p : PolicyOption}
    {e : String × FieldMap} (he : e ∈ p.brought) (hf : f ∈ e.2.names) :
    EndsWith (fun d : Draft => d.registry.Shows e.1 f) (addPolicyTypes declaration p) := by
  have L := lockstep_listed e.1 f
  have hmap : ∀ t' m, (unclassed e.1).AllowsMap t' m := fun _ _ =>
    ⟨fun _ _ => trivial, fun _ _ => trivial, fun _ _ _ => trivial⟩
  cases p with
  | value v => cases he
  | policy p =>
    exact endsWith_forM he ((listed_declare hf _).bind fun _ => KeepsListed.keeps (L.request _))
      fun e' _ => (KeepsListed.keeps (L.declare (hmap _ _) (fun _ _ => trivial) _)).bind fun _ =>
        KeepsListed.keeps (L.request _)

/-- What a declared type contributes under its own name and under others is there when a plugin
describes it. -/
theorem listed_addAllNames {named : String × TypeDeclaration} {plugin : Plugin} {c : Contribution}
    (hfound : findPlugin named.2.model b.plugins = .ok (some plugin))
    (hc : c ∈ b.contributionsOf named) (ht : c.type = t) (hf : f ∈ c.fields b)
    (hclass : ∀ c ∈ b.contributionsOf named, ¬c.IsClass t) :
    EndsWith (fun d : Draft => d.registry.Shows t f) (addAllNames b plugin named.1 named.2) := by
  have L := lockstep_listed t f
  have hmap : ∀ t' m, (unclassed t).AllowsMap t' m := fun _ _ =>
    ⟨fun _ _ => trivial, fun _ _ => trivial, fun _ _ _ => trivial⟩
  have hnotClass := hclass c hc
  simp only [Declarations.contributionsOf, hfound, List.cons_append, List.mem_cons,
    List.mem_append, List.mem_flatMap] at hc hclass
  have hpolicy : ∀ p : PolicyOption, Keeps (fun d : Draft => d.registry.Shows t f)
      (addPolicyTypes named.2 p) := fun p =>
    KeepsListed.keeps (L.addPolicyTypes _ (fun _ _ => hmap _ _) fun _ _ => trivial)
  have hbrought : ∀ p : PolicyOption, c ∈ p.brought.map (fun e => Contribution.mapping e.1 e.2) →
      EndsWith (fun d : Draft => d.registry.Shows t f) (addPolicyTypes named.2 p) := by
    intro p hmem
    obtain ⟨e, he, rfl⟩ := List.mem_map.mp hmem
    obtain rfl : e.1 = t := ht
    exact listed_addPolicyTypes he hf
  have hother : ∀ a ∈ Deed.otherNames b named.2, Keeps (fun d : Draft => d.registry.Shows t f) (do
      expose a.1 named.1 named.2 plugin
      populate b plugin a.1 named.2 a.2 (some named.1) (Deed.ownPolicy b named.2)
      addPolicyTypes named.2 a.2) := fun a ha =>
    (KeepsListed.keeps (L.expose _ _ _ _)).bind fun _ =>
      (KeepsListed.keeps (L.populate keepsListed_describeConfigured
        (allows_unclassed (hclass _ (.inr (.inr ⟨a, ha, .inl rfl⟩)))) _ (fun _ _ _ _ => trivial)
        (fun _ _ => trivial) fun _ _ => trivial)).bind fun _ => hpolicy _
  refine endsWith_bind fun _ => ?_
  rcases hc with rfl | hc | ⟨a, ha, rfl | hc⟩
  · obtain rfl : named.1 = t := ht
    exact (listed_populate hnotClass hf none _).bind fun _ => (hpolicy _).bind fun _ =>
      keeps_forM hother
  · exact endsWith_bind fun _ => (hbrought _ hc).bind fun _ => keeps_forM hother
  · obtain rfl : a.1 = t := ht
    exact endsWith_bind fun _ => endsWith_bind fun _ => endsWith_forM ha
      (endsWith_bind fun _ => (listed_populate hnotClass hf _ _).bind fun _ => hpolicy _) hother
  · exact endsWith_bind fun _ => endsWith_bind fun _ => endsWith_forM ha
      (endsWith_bind fun _ => endsWith_bind fun _ => hbrought _ hc) hother

/-- What a declared type contributes to a type is there when it is described. -/
theorem listed_addType {named : String × TypeDeclaration} {c : Contribution}
    (hc : c ∈ b.contributionsOf named) (ht : c.type = t) (hf : f ∈ c.fields b)
    (hclass : ∀ c ∈ b.contributionsOf named, ¬c.IsClass t) :
    EndsWith (fun d : Draft => d.registry.Shows t f) (addType b named) := by
  refine endsWith_lift_bind fun found hlift => ?_
  have hfound : findPlugin named.2.model b.plugins = .ok found := hlift
  cases found with
  | some plugin => exact listed_addAllNames hfound hc ht hf hclass
  | none =>
    rw [Declarations.contributionsOf, hfound] at hc
    obtain ⟨name, declaration⟩ := named
    cases declaration with
    | plain id attributes p => cases hc
    | mapped model => cases hc
    | inline m =>
      obtain rfl := List.mem_singleton.mp hc
      obtain rfl : name = t := ht
      have hdeclared : EndsWith (fun d : Draft => d.registry.Shows name f) (declare name m none) :=
        listed_declare hf none
      dsimp only
      split
      · exact hdeclared
      · rename_i hwords
        rw [if_pos ((isSome_of_mem_names hf).resolve_left hwords)]
        exact hdeclared.bind fun _ => KeepsListed.keeps ((lockstep_listed name f).request _)

/-- **What is contributed is there after the first pass**, where no class takes the place of the
type. -/
theorem listed_firstPass {d d1 : Draft} (hd : d.Tidy) (hx : d.extensions.fields = x)
    (h : firstPass b d = (.ok ⟨⟩, d1)) {c : Contribution} (hc : c ∈ b.contributions x)
    (hf : f ∈ c.fields b) (hclass : ∀ c' ∈ b.contributions x, ¬c'.IsClass c.type) :
    d1.registry.Shows c.type f := by
  have L := lockstep_listed c.type f
  have hmap : ∀ t' m, (unclassed c.type).AllowsMap t' m := fun _ _ =>
    ⟨fun _ _ => trivial, fun _ _ => trivial, fun _ _ _ => trivial⟩
  have hdeclare : ∀ e ∈ x, Keeps (fun d : Draft => d.registry.Shows c.type f)
      (declare e.1 (.fields e.2) none) := fun e _ =>
    KeepsListed.keeps (L.declare (hmap _ _) (fun _ _ => trivial) none)
  obtain ⟨_, d2, h2, h⟩ := Run.bind_eq_ok.mp h
  obtain ⟨_, d3, h3, h⟩ := Run.bind_eq_ok.mp h
  rw [Run.bind_of_ok (Run.get_apply d3)] at h
  have hextended : d3.extensions.fields = x := by
    obtain ⟨t1, -, x1, -⟩ := does_addScalars b d _ d2 h2 hd
    obtain ⟨-, -, x2, -⟩ := does_forM (fun c _ => does_addType b c) d2 _ d3 h3 t1
    rw [x2, x1, hx]
  rw [hextended] at h
  rcases List.mem_append.mp hc with hc' | hc'
  · obtain ⟨named, hnamed, hmem⟩ := List.mem_flatMap.mp hc'
    have hthere : ∀ named' ∈ b.types, b.contributionsOf named' ⊆ b.contributions x :=
      fun named' hnamed' c' hmem' =>
        List.mem_append_left _ (List.mem_flatMap.mpr ⟨_, hnamed', hmem'⟩)
    refine keeps_forM hdeclare d3 _ d1 h (endsWith_forM hnamed
      (listed_addType hmem rfl hf fun c' hmem' => hclass c' (hthere _ hnamed hmem'))
      (fun named' hnamed' => KeepsListed.keeps (L.addType keepsListed_describeConfigured
        (fun c' hmem' => allows_unclassed (hclass c' (hthere _ hnamed' hmem'))) fun _ _ => trivial))
      d2 _ d3 h3)
  · obtain ⟨e, he, rfl⟩ := List.mem_map.mp hc'
    exact endsWith_forM he (listed_declare hf none) hdeclare d3 _ d1 h

/-- **A type that no class describes has nothing to show exactly if nothing that is declared gives
it a field.** -/
theorem lines_eq_nil_iff {x : Extensions} {s : ThunkState} {d' : Draft}
    (h : synthesize b (fresh x s) = (.ok ⟨⟩, d')) (hd' : d'.Orderly b x.fields)
    (ht : t ∈ b.names x.fields) (hclass : ∀ c ∈ b.contributions x.fields, ¬c.IsClass t) :
    (d'.registry.entry t).lines = []
      ↔ ∀ c ∈ b.contributions x.fields, c.type = t → c.fields b = [] := by
  obtain ⟨d1, hfirst, hconfined⟩ := confined_of_synthesize h hd'.apart
  have h1 := hd'.congr hconfined.filtered.filterRequests_eq.symm
  have hkeys : Table.keys (d'.registry.entry t).lines = Table.keys (d1.registry.entry t).lines :=
    keys_of_outline? (hconfined.framed t (h1.apart.free t ht) (.inr (h1.operators t ht)))
  rw [← List.map_eq_nil_iff (f := Prod.fst), show List.map Prod.fst _ = Table.keys _ from rfl, hkeys,
    List.eq_nil_iff_forall_not_mem]
  constructor
  · rintro hnone c hc rfl
    refine List.eq_nil_iff_forall_not_mem.mpr fun f hf => hnone f ?_
    exact listed_firstPass (tidy_fresh x s) rfl hfirst hc hf hclass
  · intro hnone f hf
    obtain ⟨l, hl, rfl⟩ := List.mem_map.mp hf
    obtain ⟨c, hc, htype, hmem⟩ := (under_fresh hfirst).lines t l hl
    rw [hnone c hc htype] at hmem
    cases hmem

end Synthesis
end SchemaForge

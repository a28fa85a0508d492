import SchemaForge.Proofs.Registry.Remains
import SchemaForge.Proofs.Synthesis.Provenance

/-!
# What the second pass leaves

When all requests are fulfilled, the condition input of a fetched field has a connective, unless
the types that are returned have lines of both names, and a field that is given as a list alone
has an order enum or no order argument. The types of filters refer to each other and to kinds of
values that fields are of (`Sealed`).
-/
namespace SchemaForge

open Registry Run

namespace Draft

/-- The names that are declared are names, and no derived name and no input for operators is one
of them. -/
structure Orderly (b : Declarations) (x : Table (List (String × FieldEntry))) (d : Draft) :
    Prop where
  /-- Derived names are apart from each other and from declared ones. -/
  apart : d.DerivesApart (b.names x)
  /-- No declared name is that of an input for operators. -/
  operators : ∀ name ∈ b.names x, ∀ kind ∈ filterableTypes, name ≠ operatorInputName kind
  /-- Declared types have names. -/
  types : ∀ name ∈ b.names x, Language.isName name = true
  /-- Fetched fields have names. -/
  fields : ∀ a ∈ d.fetched, Language.isName a.2 = true

instance (b : Declarations) (x : Table (List (String × FieldEntry))) (d : Draft) :
    Decidable (d.Orderly b x) :=
  decidable_of_iff (_ ∧ _ ∧ _ ∧ _) ⟨fun h => ⟨h.1, h.2.1, h.2.2.1, h.2.2.2⟩,
    fun h => ⟨h.apart, h.operators, h.types, h.fields⟩⟩

/-- A line of a type that is returned brings no connective but one that is offered, and no kind of
value but a fine one. -/
structure Brings (ok : String → Prop) (d : Draft) (type field key signature : String) : Prop where
  /-- A connective is offered. -/
  connective : key ∈ connectives → d.Offers type field key
  /-- A kind of value is fine. -/
  kind : ∀ kind ∈ filterableTypes, Signature.baseName signature = .ok kind → ok kind

/-- After the first pass filters are written, each on its own and for kinds of values that are
fine. -/
structure Topped (ok : String → Prop) (d1 d2 : Draft) : Prop where
  /-- Nothing but filters was written. -/
  filtered : d1.Filtered d2
  /-- They refer to each other and to kinds of values. -/
  sealed : Sealed d1.Derives ok d1.registry d2.registry
  /-- A condition input has the connectives that are not offered. -/
  connected : ∀ a ∈ d1.fetched, ∀ c ∈ connectives, ¬d1.Offers a.1 a.2 c →
    d2.registry.isPopulated (whereInputName a.1 a.2) = true →
    d2.registry.Shows (whereInputName a.1 a.2) c

/-- The filters of a field are written. -/
structure Served (b : Declarations) (x : Table (List (String × FieldEntry)))
    (a : String × String) (d1 d2 : Draft) : Prop where
  /-- Its condition input has the connectives that are not offered. -/
  connected : ∀ c ∈ connectives, ¬d1.Offers a.1 a.2 c →
    d2.registry.Shows (whereInputName a.1 a.2) c
  /-- There is an order enum or nothing that is sorted by it, if the field is given as a list
  alone. -/
  ordered : (∀ g, (a.1, a.2, g) ∈ b.given x → Signature.isList g ≠ .ok false) →
    d2.registry.Ordered a.1 a.2

variable {b : Declarations} {x : Table (List (String × FieldEntry))} {ok : String → Prop}
  {d1 d2 d3 : Draft}

theorem Orderly.congr (h : d2.Orderly b x) (hrequests : d3.filterRequests = d2.filterRequests) :
    d3.Orderly b x where
  apart := h.apart.congr hrequests
  operators := h.operators
  types := h.types
  fields := fetched_eq hrequests ▸ h.fields

/-- The fields that a request is for are those of its type. -/
theorem type_of_mem_fetched {q : FilterRequest} {a : String × String} (h : a ∈ q.fetched) :
    a.1 = q.type := by
  cases q with
  | declared type m =>
    cases m with
    | value v => cases h
    | fields entries =>
      obtain ⟨e, -, he⟩ := List.mem_filterMap.mp h
      split at he
      · cases he
        rfl
      · cases he
  | configured type fields =>
    obtain ⟨e, -, rfl⟩ := List.mem_map.mp h
    rfl
  | association type field target =>
    rw [List.mem_singleton.mp h]
    rfl

section writing

variable (h1 : d1.Orderly b x) (howners : ∀ q ∈ d1.filterRequests, q.type ∈ b.names x)
include h1 howners

/-- Derived names are those of filters, and names. -/
theorem Orderly.derived {n : String} (hn : d1.Derives n) :
    IsFilterName n ∧ Language.isName n = true := by
  obtain ⟨a, ha, hname⟩ := hn
  obtain ⟨q, hq, hfetched⟩ := List.mem_flatMap.mp ha
  exact ⟨Registry.isFilterName_of_mem_derivedNames hname, isName_of_mem_derivedNames
    (type_of_mem_fetched hfetched ▸ h1.types _ (howners q hq)) (h1.fields a ha) hname⟩

/-- The same fields are asked for while filters are written. -/
theorem Topped.filterTasks_eq (h : d1.Topped ok d2) : d2.filterTasks = d1.filterTasks := by
  rw [filterTasks, filterTasks, h.filtered.filterRequests_eq]
  refine List.flatMap_congr fun q hq => h.sealed.framed.filterTasks_eq
    (h1.apart.free q.type (howners q hq)) (.inr (h1.operators q.type (howners q hq)))

omit h1 howners in
/-- The lines of a returned type bring no more than is offered and fine. -/
theorem brings_of_mem {a : FilterTask} (ha : a ∈ d1.filterTasks) {r : Registry}
    (hr : Sealed d1.Derives ok d1.registry r) {l : String × FieldLine}
    (hl : l ∈ (r.entry a.returned).lines) : d1.Brings ok a.type a.field l.1 l.2.type := by
  refine ⟨fun hc => ⟨a, ha, rfl, rfl, ?_⟩, fun kind => hr.kinds a.returned l hl kind⟩
  by_cases hd : d1.Derives a.returned
  · exact .inl hd
  by_cases hsettled : d1.registry.IsSettled a.returned
  · rw [← keys_of_outline? (hr.framed a.returned hd hsettled)]
    exact .inr (List.mem_map_of_mem hl)
  · -- Inputs for operators that came in have no connectives.
    have hnames : ∀ kind ∈ filterableTypes, ∀ e ∈ operatorTypes kind, e.1 ∉ connectives := by
      decide +kernel
    obtain ⟨-, hoperator⟩ := not_or.mp hsettled
    push Not at hoperator
    obtain ⟨kind, hkind, hname⟩ := hoperator
    have hlines := hr.operators kind hkind (hname ▸ has_of_mem_lines hl)
    have hmem : (l.1, l.2.type) ∈ operatorTypes kind := by
      rw [← hlines, ← hname]
      exact List.mem_map_of_mem hl
    exact absurd hc (hnames kind hkind _ hmem)

end writing

end Draft

namespace Synthesis

variable {b : Declarations} {x : Table (List (String × FieldEntry))} {ok : String → Prop}
  {d1 : Draft}

section writing

variable (h1 : d1.Orderly b x) (howners : ∀ q ∈ d1.filterRequests, q.type ∈ b.names x)
  (hboolean : ok "Boolean") {d2 : Draft} (h2 : d1.Topped ok d2) {a : FilterTask}
  (ha : a ∈ d1.filterTasks) {isList : Bool} {u : Unit} {r : Registry}
  (hrun : addFilters a.type a.field a.returned isList d2.registry = (.ok u, r))
include h1 hrun

omit h1 in
/-- Writing filters brings no arguments. -/
theorem shrinks_addFilters : Shrinks d2.registry r :=
  keeps_addFilters (keptByFilters_shrinks d2.registry a.type a.field a.returned fun _ _ => True)
    (fun _ _ _ _ => trivial) isList d2.registry u r hrun (.refl _)

include ha

/-- Writing the filters of one field leaves the derived types of the others. -/
theorem outline?_addFilters {a' : String × String} (ha' : a' ∈ d1.fetched)
    (hne : a' ≠ (a.type, a.field)) {n : String} (hn : n ∈ derivedNames a'.1 a'.2) :
    r.outline? n = d2.registry.outline? n := by
  have hframed : d2.registry.Framed (· ∈ derivedNames a.type a.field) r := keeps_addFilters
    (keptByFilters_framed d2.registry (fun _ hn => hn) a.returned fun _ _ => True)
    (fun _ _ _ _ => trivial) isList d2.registry u r hrun (.refl _)
  refine hframed n (h1.apart.distinct a' ha' _ (Draft.mem_fetched_of_filterTasks ha) hne n hn)
    (.inr fun kind hkind heq => not_isFilterName hkind ?_)
  exact heq ▸ Registry.isFilterName_of_mem_derivedNames hn

/-- A field that has an order enum or no order argument still does, whatever filters are
written. -/
theorem ordered_of_addFilters {a' : String × String} (ha' : a' ∈ d1.fetched)
    (h : d2.registry.Ordered a'.1 a'.2) : r.Ordered a'.1 a'.2 := by
  by_cases hsame : a' = (a.type, a.field)
  · rw [hsame] at h ⊢
    have hkept : KeptByFilters (fun r => r.Ordered a.type a.field) a.type a.field a.returned
        fun _ _ => True := keptByFilters_ordered
    exact keeps_addFilters hkept (fun _ _ _ _ => trivial) isList d2.registry u r hrun h
  · refine h.mono (shrinks_addFilters hrun) fun key hkey => ?_
    rw [Shows, keys_of_outline? (outline?_addFilters h1 ha hrun ha' hsame
      (List.mem_cons_of_mem _ (List.mem_singleton_self _)))]
    exact hkey

include howners hboolean h2

/-- **A connective that is not offered stays in the condition input, and is there when it is
written.** -/
theorem shows_connective {a' : String × String} (ha' : a' ∈ d1.fetched) {c : String}
    (hc : c ∈ connectives) (hfree : ¬d1.Offers a'.1 a'.2 c)
    (h : a' = (a.type, a.field) ∨ d2.registry.Shows (whereInputName a'.1 a'.2) c) :
    r.Shows (whereInputName a'.1 a'.2) c := by
  have hown : ∀ n ∈ derivedNames a.type a.field, d1.Derives n := fun n hn =>
    ⟨_, Draft.mem_fetched_of_filterTasks ha, hn⟩
  by_cases hsame : a' = (a.type, a.field)
  · obtain rfl : (a.type, a.field) = a' := hsame.symm
    exact shows_of_addFilters (keptByFilters_sealed (fun _ hn => h1.derived howners hn) hown hboolean
      fun key signature (hbrings : d1.Brings ok a.type a.field key signature) => hbrings.kind)
      (fun r hr l hl => Draft.brings_of_mem ha hr hl) hc
      (fun key _ hbrings heq => hfree (heq ▸ hbrings.connective (heq ▸ hc)))
      (h2.connected _ ha' c hc hfree) h2.sealed hrun
  · rw [Shows, keys_of_outline? (outline?_addFilters h1 ha hrun ha' hsame List.mem_cons_self)]
    exact h.resolve_left hsame

/-- **Writing filters keeps that each field's are on their own.** -/
theorem topped_addFilters : d1.Topped ok { d2 with registry := r } := by
  have hown : ∀ n ∈ derivedNames a.type a.field, d1.Derives n := fun n hn =>
    ⟨_, Draft.mem_fetched_of_filterTasks ha, hn⟩
  refine ⟨h2.filtered.trans ⟨writesFilters_addFilters _ _ _ _ _ _ _ hrun, rfl⟩, ?_,
    fun a' ha' c hc hfree hpopulated => ?_⟩
  · exact keeps_addFilters (keptByFilters_sealed (fun _ hn => h1.derived howners hn) hown hboolean
      fun key signature (hbrings : d1.Brings ok a.type a.field key signature) => hbrings.kind)
      (fun r hr l hl => Draft.brings_of_mem ha hr hl) isList d2.registry u r hrun h2.sealed
  · refine shows_connective h1 howners hboolean h2 ha hrun ha' hc hfree ?_
    by_cases hsame : a' = (a.type, a.field)
    · exact .inl hsame
    · refine .inr (h2.connected a' ha' c hc hfree (isPopulated_iff.mpr ?_))
      obtain ⟨key, hkey⟩ := isPopulated_iff.mp hpopulated
      refine ⟨key, ?_⟩
      rw [Shows, ← keys_of_outline? (outline?_addFilters h1 ha hrun ha' hsame List.mem_cons_self)]
      exact hkey

end writing

section requests

variable (h1 : d1.Orderly b x) (howners : ∀ q ∈ d1.filterRequests, q.type ∈ b.names x)
  (hboolean : ok "Boolean")
include h1 howners hboolean

theorem kept_topped : KeptByRequests (d1.Topped ok) := by
  intro d2 h2 a ha isList u d3 hrun
  obtain ⟨r, hr, rfl⟩ := edit_eq_ok hrun
  exact topped_addFilters h1 howners hboolean h2 (h2.filterTasks_eq h1 howners ▸ ha) hr

/-- The filters of a field that are written stay, whatever else is asked for. -/
theorem kept_served {a : String × String} (ha : a ∈ d1.fetched) :
    KeptByRequests fun d2 => d1.Topped ok d2 ∧ d1.Served b x a d2 := by
  intro d2 h2 a2 ha2 isList u d3 hrun
  refine ⟨kept_topped h1 howners hboolean d2 h2.1 a2 ha2 isList u d3 hrun, ?_⟩
  obtain ⟨r, hr, rfl⟩ := edit_eq_ok hrun
  rw [h2.1.filterTasks_eq h1 howners] at ha2
  refine ⟨fun c hc hfree => ?_, fun hsteady => ?_⟩
  · exact shows_connective h1 howners hboolean h2.1 ha2 hr ha hc hfree
      (.inr (h2.2.connected c hc hfree))
  · exact ordered_of_addFilters h1 ha2 hr ha (h2.2.ordered hsteady)

/-- Writing the filters of a field for a signature that it is given serves it. -/
theorem leads_addFilters {a : FilterTask} (ha : a ∈ d1.filterTasks) {g : String} {isList : Bool}
    (hgiven : (a.type, a.field, g) ∈ b.given x) (hlist : Signature.isList g = .ok isList) :
    Leads (d1.Topped ok) (fun d2 => d1.Topped ok d2 ∧ d1.Served b x (a.type, a.field) d2)
      (edit (addFilters a.type a.field a.returned isList)) := by
  intro d2 u d3 hrun h2
  obtain ⟨r, hr, rfl⟩ := edit_eq_ok hrun
  refine ⟨topped_addFilters h1 howners hboolean h2 ha hr, fun c hc hfree => ?_, fun hsteady => ?_⟩
  · exact shows_connective h1 howners hboolean h2 ha hr (Draft.mem_fetched_of_filterTasks ha) hc
      hfree (.inl rfl)
  · cases isList with
    | false => exact absurd hlist (hsteady g hgiven)
    | true => exact ordered_addFilters hr

variable (hlines : ∀ t, ∀ l ∈ (d1.registry.entry t).lines,
    l.2.Sourced b x (· ∈ d1.fetched) t l.1)
include hlines

theorem leads_filterField {t f : String} {c : FieldConfig} (ht : t ∈ b.names x)
    (hc : c.hasFetchArguments = true) (hconfigures : b.Configures x t f c)
    (hasked : ∀ d2, d1.Topped ok d2 → ∀ returned, d2.registry.returned? t f c = some returned →
      ⟨t, f, returned⟩ ∈ d2.filterTasks) :
    Leads (d1.Topped ok) (fun d2 => d1.Topped ok d2 ∧ d1.Served b x (t, f) d2)
      (filterField t f c) := by
  intro d2 u d3 hrun h2
  obtain ⟨g, returned, isList, hreturned, hg, hlist, hedit⟩ := filterField_eq_ok hc hrun
  have hgiven : (t, f, g) ∈ b.given x := by
    rcases hg with ⟨htype, rfl⟩ | ⟨line, hline, rfl⟩
    · exact List.mem_append_right _ (hconfigures.signature htype)
    · -- The line has the signature that it had after the first pass.
      have hsame := type_of_outline? (h2.sealed.framed t (h1.apart.free t ht)
        (.inr (h1.operators t ht))) f
      rw [hline] at hsame
      obtain ⟨line1, hline1, htype⟩ := Option.map_eq_some_iff.mp hsame.symm
      obtain ⟨e, he, hget⟩ := Option.bind_eq_some_iff.mp hline1
      have hmem : (f, line1) ∈ (d1.registry.entry t).lines := by
        rw [entry, he]
        exact Table.mem_of_get? hget
      have htype : line1.type = line.type := htype
      refine htype ▸ (hlines t _ hmem).type.resolve_left fun hempty => ?_
      have hempty : line.type = "" := htype.symm.trans hempty
      rw [hempty] at hlist
      cases hlist
  have htask : ⟨t, f, returned⟩ ∈ d1.filterTasks :=
    h2.filterTasks_eq h1 howners ▸ hasked d2 h2 returned hreturned
  exact leads_addFilters h1 howners hboolean htask hgiven hlist d2 u d3 hedit h2

/-- **Fulfilling a request serves the fields that it is for.** -/
theorem leads_fulfil {q : FilterRequest} (hq : q ∈ d1.filterRequests) (hsourced : q.Sourced b x)
    {a : String × String} (ha : a ∈ q.fetched) :
    Leads (d1.Topped ok) (fun d2 => d1.Topped ok d2 ∧ d1.Served b x a d2) (fulfil q) := by
  have hfetched : a ∈ d1.fetched := List.mem_flatMap.mpr ⟨q, hq, ha⟩
  have howner := howners q hq
  have hasked : ∀ d2, d1.Topped ok d2 → q ∈ d2.filterRequests := fun d2 h2 =>
    h2.filtered.filterRequests_eq ▸ hq
  have hkeeps := kept_topped h1 howners hboolean
  have hserved := kept_served h1 howners hboolean hfetched
  cases q with
  | declared type m =>
    cases m with
    | value v => cases ha
    | fields entries =>
      obtain ⟨e, he, hmap⟩ := List.mem_filterMap.mp ha
      obtain ⟨hc, heq⟩ := Option.ite_none_right_eq_some.mp hmap
      obtain rfl := Option.some.inj heq
      refine leads_forM he (leads_lift_bind fun c hnormalize => ?_)
        (fun e' he' => keeps_declaredField hkeeps hasked he')
        fun e' he' => keeps_declaredField hserved (fun d2 h2 => hasked d2 h2.1) he'
      have hnormalize : e.2.normalize = .ok c := hnormalize
      rw [hnormalize] at hc
      exact leads_filterField h1 howners hboolean hlines howner hc (hsourced e he c hnormalize)
        fun d2 h2 _ hreturned => mem_filterTasks_declared (hasked d2 h2) he hnormalize hreturned
  | configured type fields =>
    obtain ⟨e, he, rfl⟩ := List.mem_map.mp ha
    obtain ⟨he, hc⟩ := List.mem_filter.mp he
    exact leads_forM he (leads_filterField h1 howners hboolean hlines howner hc (hsourced e he)
        fun d2 h2 _ hreturned => mem_filterTasks_configured (hasked d2 h2) he hreturned)
      (fun e' he' => keeps_configuredField hkeeps hasked he')
      fun e' he' => keeps_configuredField hserved (fun d2 h2 => hasked d2 h2.1) he'
  | association type field target =>
    obtain rfl := List.mem_singleton.mp ha
    have htask : ⟨type, field, target⟩ ∈ d1.filterTasks :=
      List.mem_flatMap.mpr ⟨_, hq, List.mem_singleton_self _⟩
    exact leads_addFilters h1 howners hboolean htask hsourced.1 hsourced.2

end requests

/-- **After a synthesis filters refer to each other and to kinds of values that fields are given,
and every fetched field is served.** -/
theorem served_of_synthesize {b : Declarations} {x : Extensions} {s : ThunkState} {d' : Draft}
    (h : synthesize b (fresh x s) = (.ok ⟨⟩, d')) (hd' : d'.Orderly b x.fields)
    (hlists : ∀ model target, b.typeOf? model = some target →
      Signature.isList ("[" ++ target ++ "!]") = .ok true)
    (hboolean : ok "Boolean") (hkinds : ∀ e ∈ b.given x.fields, ∀ kind ∈ filterableTypes,
      Signature.baseName e.2.2 = .ok kind → ok kind) :
    ∃ d1, firstPass b (fresh x s) = (.ok ⟨⟩, d1) ∧ d1.Orderly b x.fields ∧ d1.Topped ok d'
      ∧ ∀ a ∈ d1.fetched, d1.Served b x.fields a d' := by
  obtain ⟨d1, hfirst, hrequests, hfiltered⟩ := synthesize_requests (tidy_fresh x s) h
  have h1 := hd'.congr hfiltered.filterRequests_eq.symm
  have howners := owners_fresh hfirst
  obtain ⟨hlines, hsourced⟩ := sourced_fresh hlists hfirst
  have hempty : ∀ name, d1.Derives name → Table.has d1.registry name = false := fun name hd =>
    has_fresh_eq_false hfirst fun hname => h1.apart.free name hname hd
  have hnone : ∀ name, Table.has d1.registry name = false →
      (d1.registry.entry name).lines = [] := by
    intro name hname
    rw [entry, (Table.get?_eq_none_iff _ _).mpr hname]
    rfl
  have hstart : d1.Topped ok d1 := by
    refine ⟨.refl d1, ⟨.refl _, .refl _, fun t l hl kind hkind hbase => ?_,
      fun kind hkind hhas => ?_, fun name hd l hl => ?_⟩, fun a ha c _ _ hpopulated => ?_⟩
    · rcases (hlines t l hl).type with hbare | hgiven
      · rw [hbare] at hbase
        cases hbase
      · exact hkinds _ hgiven kind hkind hbase
    · rw [has_fresh_eq_false hfirst fun hname => h1.operators _ hname kind hkind rfl] at hhas
      cases hhas
    · rw [hnone name (hempty name hd)] at hl
      cases hl
    · obtain ⟨key, hkey⟩ := isPopulated_iff.mp hpopulated
      rw [Shows, hnone _ (hempty _ ⟨a, ha, List.mem_cons_self⟩)] at hkey
      cases hkey
  have hasked : ∀ q ∈ d1.filterRequests, ∀ d2, d1.Topped ok d2 → q ∈ d2.filterRequests :=
    fun q hq d2 h2 => h2.filtered.filterRequests_eq ▸ hq
  have hkeeps : ∀ q ∈ d1.filterRequests, Keeps (d1.Topped ok) (fulfil q) := fun q hq =>
    keeps_fulfil (kept_topped h1 howners hboolean) (hasked q hq)
  refine ⟨d1, hfirst, h1, keeps_forM hkeeps d1 _ d' hrequests hstart, fun a ha => ?_⟩
  obtain ⟨q, hq, hfetched⟩ := List.mem_flatMap.mp ha
  exact (leads_forM hq (leads_fulfil h1 howners hboolean hlines hq (hsourced q hq) hfetched) hkeeps
    (fun p hp => keeps_fulfil (kept_served h1 howners hboolean ha) fun d2 h2 => hasked p hp d2 h2.1)
    d1 _ d' hrequests hstart).2

end Synthesis
end SchemaForge

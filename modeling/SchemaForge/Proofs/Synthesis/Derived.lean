import SchemaForge.Proofs.Registry.Widening
import SchemaForge.Proofs.Synthesis.Names

/-!
# The derived types of fetched fields

A field with the arguments of the store has a condition input and an order enum of its own, as
long as no other such field derives the same names and nothing is declared under them. Then
these two hold no more than connectives and fields of the types that are returned where the
filters of this very field are asked for, whatever else is asked for before and after.
-/
namespace SchemaForge

/-- The fields with the arguments of the store that a request is for. -/
def FilterRequest.fetched : FilterRequest → List (String × String)
  | .declared type (.fields entries) => (fieldEntries entries).filterMap fun e =>
      if (e.2.normalize.toOption.map (·.hasFetchArguments)).getD false then some (type, e.1)
      else none
  | .declared _ (.value _) => []
  | .configured type fields => (fields.filter (·.2.hasFetchArguments)).map fun e => (type, e.1)
  | .association type field _ => [(type, field)]

namespace Draft

variable (d : Draft)

/-- The fields with the arguments of the store. -/
def fetched : List (String × String) := d.filterRequests.flatMap FilterRequest.fetched

/-- Whether a name is derived from a field with the arguments of the store. -/
def Derives (name : String) : Prop := ∃ a ∈ d.fetched, name ∈ derivedNames a.1 a.2

/-- Different fields have different derived names, and these are none of some names. -/
structure DerivesApart (names : List String) : Prop where
  /-- No two fields share a derived name. -/
  distinct : ∀ a ∈ d.fetched, ∀ a' ∈ d.fetched, a ≠ a' →
    ∀ name ∈ derivedNames a.1 a.2, name ∉ derivedNames a'.1 a'.2
  /-- No derived name is one of the names. -/
  free : ∀ name ∈ names, ¬d.Derives name

instance (name : String) : Decidable (d.Derives name) :=
  inferInstanceAs (Decidable (∃ a ∈ d.fetched, name ∈ derivedNames a.1 a.2))

instance (names : List String) : Decidable (d.DerivesApart names) :=
  decidable_of_iff (_ ∧ _) ⟨fun h => ⟨h.1, h.2⟩, fun h => ⟨h.distinct, h.free⟩⟩

/-- A field of a type that is returned where the filters of a field are asked for. Derived types
do not count, as they may have changed since. -/
def Offers (type field key : String) : Prop :=
  ∃ a ∈ d.filterTasks, a.type = type ∧ a.field = field
    ∧ (d.Derives a.returned ∨ key ∈ Table.keys (d.registry.entry a.returned).lines)

/-- The same for a field that can be sorted by, or whose own type has a derived name. -/
def OffersOrder (type field key : String) : Prop :=
  ∃ a ∈ d.filterTasks, a.type = type ∧ a.field = field
    ∧ (d.Derives a.returned ∨ key ∈ Table.keys (d.registry.entry a.returned).lines
      ∧ ∃ line, d.registry.line? a.returned key = some line
        ∧ (d.registry.isSortable line.type = .ok true
          ∨ ∃ name, Signature.baseName line.type = .ok name ∧ IsDerived name))

variable {d} {d' : Draft}

/-- What is asked for are fields with the arguments of the store. -/
theorem mem_fetched_of_filterTasks {a : FilterTask} (h : a ∈ d.filterTasks) :
    (a.type, a.field) ∈ d.fetched := by
  obtain ⟨q, hq, ha⟩ := List.mem_flatMap.mp h
  refine List.mem_flatMap.mpr ⟨q, hq, ?_⟩
  have hfetched : ∀ {r : Registry} {type field returned} {c : FieldConfig},
      r.returned? type field c = some returned → c.hasFetchArguments = true := by
    intro r type field returned c hc
    unfold Registry.returned? at hc
    split at hc
    · assumption
    · cases hc
  cases q with
  | declared type m =>
    cases m with
    | value v => cases ha
    | fields entries =>
      obtain ⟨e, he, hmap⟩ := List.mem_filterMap.mp ha
      obtain ⟨returned, hreturned, rfl⟩ := Option.map_eq_some_iff.mp hmap
      obtain ⟨c, hc, hreturned⟩ := Option.bind_eq_some_iff.mp hreturned
      refine List.mem_filterMap.mpr ⟨e, he, ?_⟩
      rw [hc]
      exact if_pos (hfetched hreturned)
  | configured type fields =>
    obtain ⟨e, he, hmap⟩ := List.mem_filterMap.mp ha
    obtain ⟨returned, hreturned, rfl⟩ := Option.map_eq_some_iff.mp hmap
    exact List.mem_map.mpr ⟨e, List.mem_filter.mpr ⟨he, hfetched hreturned⟩, rfl⟩
  | association type field target =>
    obtain rfl := List.mem_singleton.mp ha
    exact List.mem_singleton_self _

end Draft

namespace Registry

variable {r r' : Registry} {derived : String → Prop} {name : String}

theorem line?_of_mem_keys {key : String} (h : key ∈ Table.keys (r.entry name).lines) :
    ∃ line, r.line? name key = some line := by
  rw [Table.mem_keys_iff, Table.has_eq_isSome, Option.isSome_iff_exists] at h
  obtain ⟨line, hline⟩ := h
  refine ⟨line, ?_⟩
  rw [line?]
  cases hget : Table.get? r name with
  | some e =>
    rw [entry, hget] at hline
    exact hline
  | none =>
    rw [entry, hget] at hline
    cases hline

theorem isSettled_of_mem_keys {key : String} (h : key ∈ Table.keys (r.entry name).lines) :
    r.IsSettled name := by
  obtain ⟨l, hl, -⟩ := List.mem_map.mp h
  exact .inl (has_of_mem_lines hl)

/-- What is asked for under a name that is kept is asked for afterwards. -/
theorem Framed.filterTasks_subset (h : Framed derived r r') {q : FilterRequest}
    (hq : ¬derived q.type) : r.filterTasks q ⊆ r'.filterTasks q := by
  have hreturned : ∀ field c returned, r.returned? q.type field c = some returned →
      r'.returned? q.type field c = some returned := by
    intro field c returned hc
    unfold returned? at hc ⊢
    split at hc
    · rename_i hfetched
      rw [if_pos hfetched]
      split at hc
      · rename_i htype
        rw [if_pos htype]
        exact hc
      · rename_i htype
        rw [if_neg htype]
        cases hhas : Table.has r q.type with
        | true => rw [line_of_outline? (h q.type hq (.inl hhas)), hc]
        | false =>
          -- An empty signature has no name at its bottom.
          have hempty : (r.line q.type field).type = "" := by
            rw [line, entry, (Table.get?_eq_none_iff r q.type).mpr hhas]
            rfl
          rw [hempty] at hc
          cases hc
    · cases hc
  intro a ha
  cases q with
  | declared type m =>
    cases m with
    | value v => cases ha
    | fields entries =>
      obtain ⟨e, he, hmap⟩ := List.mem_filterMap.mp ha
      obtain ⟨returned, hfound, rfl⟩ := Option.map_eq_some_iff.mp hmap
      obtain ⟨c, hc, hfound⟩ := Option.bind_eq_some_iff.mp hfound
      refine List.mem_filterMap.mpr ⟨e, he, ?_⟩
      have hfound' : r'.returned? type e.1 c = some returned := hreturned e.1 c returned hfound
      rw [hc, Option.bind_some, hfound']
      rfl
  | configured type fields =>
    obtain ⟨e, he, hmap⟩ := List.mem_filterMap.mp ha
    obtain ⟨returned, hfound, rfl⟩ := Option.map_eq_some_iff.mp hmap
    have hfound' : r'.returned? type e.1 e.2 = some returned := hreturned e.1 e.2 returned hfound
    refine List.mem_filterMap.mpr ⟨e, he, ?_⟩
    rw [hfound']
    rfl
  | association type field target => exact ha

/-- What is asked for under a settled name that is kept does not change. -/
theorem Framed.filterTasks_eq (h : Framed derived r r') {q : FilterRequest} (hq : ¬derived q.type)
    (hsettled : r.IsSettled q.type) : r'.filterTasks q = r.filterTasks q :=
  filterTasks_congr (line_of_outline? (h q.type hq hsettled))

/-- Filters that are written are those of a settled type, unless they change nothing or are for
a derived type of the field itself. -/
theorem isSettled_of_addFilters {type field returned : String} {isList : Bool} {x : Unit}
    (h : addFilters type field returned isList r = (.ok x, r')) :
    r' = r ∨ r.IsSettled returned ∨ returned ∈ derivedNames type field := by
  by_cases hbasic : basicTypes.contains returned
  · refine .inr (.inl (.inr fun kind hkind hname => ?_))
    have hapart : ∀ kind ∈ filterableTypes, ¬basicTypes.contains (operatorInputName kind) := by
      decide
    exact hapart kind hkind (hname ▸ hbasic)
  by_cases hd : returned ∈ derivedNames type field
  · exact .inr (.inr hd)
  have hw : returned ≠ whereInputName type field := fun heq => hd (heq ▸ List.mem_cons_self)
  have ho : returned ≠ orderEnumName type field := fun heq =>
    hd (heq ▸ List.mem_cons_of_mem _ List.mem_cons_self)
  -- Up to where the returned type is looked up, only the derived types have changed.
  have hopened : (r.opened type field isList).outline? returned = r.outline? returned := by
    refine opened_induction (P := fun r1 => r1.outline? returned = r.outline? returned) rfl
      (fun _ => ?_) fun _ _ r1 hr1 => (outline?_updateType ho _).trans hr1
    unfold startWhereInput connectives
    rw [List.foldl_cons, List.foldl_cons, List.foldl_nil, setFieldType, setFieldType, updateField,
      updateField, setKind, outline?_updateType hw, outline?_updateType hw, outline?_updateType hw]
  rw [addFilters_apply] at h
  split at h
  · cases h
    exact .inl rfl
  · refine .inr (.inl (.inl ?_))
    rw [← has_of_outline? hopened]
    unfold fillOpened at h
    rw [if_pos (by simpa using hbasic), Run.bind_of_ok (Run.get_apply _)] at h
    cases hhas : Table.has (r.opened type field isList) returned with
    | true => rfl
    | false =>
      rw [hhas] at h
      obtain ⟨_, _, hthrown, -⟩ := Run.bind_eq_ok.mp h
      cases hthrown

/-- Types with names of their own are kept. -/
theorem Framed.outline?_eq (h : Framed derived r r') (hderived : ∀ n, derived n → IsDerived n)
    (hname : ¬IsDerived name) : r'.outline? name = r.outline? name :=
  h name (fun hd => hname (hderived name hd)) (.inr fun kind _ heq =>
    hname (heq ▸ isDerived_operatorInputName kind))

/-- What can be sorted by is so wherever types with names of their own are the same, unless its
type has a derived name. -/
theorem isSortable_of_outline? (h : ∀ n, ¬IsDerived n → r'.outline? n = r.outline? n)
    {signature : String} (hs : r.isSortable signature = .ok true) :
    r'.isSortable signature = .ok true
      ∨ ∃ n, Signature.baseName signature = .ok n ∧ IsDerived n := by
  obtain ⟨t, ht, hlist, hkinds⟩ := isSortable_eq_ok_true_iff.mp hs
  by_cases hd : IsDerived t.baseName
  · exact .inr ⟨t.baseName, by rw [Signature.baseName, ht]; rfl, hd⟩
  · -- Only the kind of the type counts.
    have hkind := (kind_of_outline? (h t.baseName hd)).symm
    exact .inl (isSortable_eq_ok_true_iff.mpr ⟨t, ht, hlist, sortable_of_kind hkind hkinds⟩)

end Registry

namespace Draft

variable {d1 d2 d3 d : Draft}

theorem fetched_eq (h : d3.filterRequests = d2.filterRequests) : d3.fetched = d2.fetched := by
  rw [fetched, h, fetched]

theorem derives_iff (h : d3.filterRequests = d2.filterRequests) (name : String) :
    d3.Derives name ↔ d2.Derives name := by
  rw [Derives, fetched_eq h, Derives]

theorem DerivesApart.congr {names : List String} (h : d3.filterRequests = d2.filterRequests)
    (hapart : d2.DerivesApart names) : d3.DerivesApart names where
  distinct := fetched_eq h ▸ hapart.distinct
  free name hname hd := hapart.free name hname ((derives_iff h name).mp hd)

theorem isDerived_of_derives {name : String} (h : d.Derives name) : IsDerived name := by
  obtain ⟨a, -, hname⟩ := h
  exact Registry.isDerived_of_isFilterName (Registry.isFilterName_of_mem_derivedNames hname)

section mono

variable (hrequests : d3.filterRequests = d2.filterRequests)
  (hframed : d2.registry.Framed d2.Derives d3.registry)
  (howners : ∀ q ∈ d2.filterRequests, ¬d2.Derives q.type) {type field key : String}
include hrequests hframed howners

theorem filterTasks_mono : d2.filterTasks ⊆ d3.filterTasks := by
  intro a ha
  obtain ⟨q, hq, ha⟩ := List.mem_flatMap.mp ha
  exact List.mem_flatMap.mpr ⟨q, hrequests ▸ hq, hframed.filterTasks_subset (howners q hq) ha⟩

/-- Fields that are offered stay so. -/
theorem Offers.mono (h : d2.Offers type field key) : d3.Offers type field key := by
  obtain ⟨a, ha, htype, hfield, hkey⟩ := h
  refine ⟨a, filterTasks_mono hrequests hframed howners ha, htype, hfield, ?_⟩
  by_cases hd : d2.Derives a.returned
  · exact .inl ((derives_iff hrequests _).mpr hd)
  · have hkey := hkey.resolve_left hd
    rw [Registry.keys_of_outline? (hframed _ hd (Registry.isSettled_of_mem_keys hkey))]
    exact .inr hkey

theorem OffersOrder.mono (h : d2.OffersOrder type field key) :
    d3.OffersOrder type field key := by
  obtain ⟨a, ha, htype, hfield, hkey⟩ := h
  refine ⟨a, filterTasks_mono hrequests hframed howners ha, htype, hfield, ?_⟩
  by_cases hd : d2.Derives a.returned
  · exact .inl ((derives_iff hrequests _).mpr hd)
  · obtain ⟨hkey, line, hline, hsorts⟩ := hkey.resolve_left hd
    have hsame := hframed _ hd (Registry.isSettled_of_mem_keys hkey)
    have hline' := Registry.type_of_outline? hsame key
    rw [hline] at hline'
    obtain ⟨line', hline', htype'⟩ := Option.map_eq_some_iff.mp hline'
    refine .inr ⟨Registry.keys_of_outline? hsame ▸ hkey, line', hline', ?_⟩
    rw [htype']
    refine hsorts.elim (fun hsorts => ?_) .inr
    exact Registry.isSortable_of_outline? (fun n hn => hframed.outline?_eq
      (fun _ => isDerived_of_derives) hn) hsorts

end mono

/-! ### Writing the filters of one field

Only derived types change on the way, so that the type that is returned gives the names that it
gave, if it is not derived itself. -/

/-- A field of the type that is returned to a task, or any if that type is derived. -/
def FilterableBy (d : Draft) (a : FilterTask) (key : String) : Prop :=
  d.Derives a.returned ∨ key ∈ Table.keys (d.registry.entry a.returned).lines

theorem FilterableBy.offers {a : FilterTask} {key : String} (h : d.FilterableBy a key)
    (ha : a ∈ d.filterTasks) : d.Offers a.type a.field key := ⟨a, ha, rfl, rfl, h⟩

section task

variable {a : FilterTask} {r : Registry}
  (hown : ∀ n ∈ derivedNames a.type a.field, d.Derives n)
  (hsettled : d.registry.IsSettled a.returned ∨ a.returned ∈ derivedNames a.type a.field)
  (hr : d.registry.Framed (· ∈ derivedNames a.type a.field) r)
include hown hsettled hr

theorem outline?_returned (hd : ¬d.Derives a.returned) :
    r.outline? a.returned = d.registry.outline? a.returned := by
  have hfree : a.returned ∉ derivedNames a.type a.field := fun hmem => hd (hown _ hmem)
  exact hr a.returned hfree (hsettled.resolve_right hfree)

theorem filterableBy_of_mem_lines {l : String × FieldLine}
    (hl : l ∈ (r.entry a.returned).lines) : d.FilterableBy a l.1 := by
  by_cases hd : d.Derives a.returned
  · exact .inl hd
  · refine .inr ?_
    rw [← Registry.keys_of_outline? (outline?_returned hown hsettled hr hd)]
    exact List.mem_map_of_mem hl

theorem offersOrder_of_sorts (ha : a ∈ d.filterTasks) {key : String} (hkey : d.FilterableBy a key)
    (hsorts : r.Sorts a.returned key) : d.OffersOrder a.type a.field key := by
  refine ⟨a, ha, rfl, rfl, ?_⟩
  by_cases hd : d.Derives a.returned
  · exact .inl hd
  · have hkey := hkey.resolve_left hd
    obtain ⟨line, hline⟩ := Registry.line?_of_mem_keys hkey
    have hline' := Registry.type_of_outline? (outline?_returned hown hsettled hr hd) key
    rw [hline] at hline'
    obtain ⟨line', hline', htype⟩ := Option.map_eq_some_iff.mp hline'
    refine .inr ⟨hkey, line, hline, ?_⟩
    rw [← show line'.type = line.type from htype]
    refine Registry.isSortable_of_outline? (fun n hn => ?_) (hsorts line' hline')
    exact (hr.outline?_eq (fun n hn => isDerived_of_derives (hown n hn)) hn).symm

end task

/-- After the first pass filters are written, and under derived names stands nothing but what is
offered. -/
structure Confined (d1 d2 : Draft) : Prop where
  /-- Nothing but filters was written. -/
  filtered : d1.Filtered d2
  /-- Other types are kept. -/
  framed : d1.registry.Framed d1.Derives d2.registry
  /-- What stands under the derived names of fetched fields. -/
  bounded : ∀ a ∈ d1.fetched,
    d2.registry.Bounded a.1 a.2 (d2.Offers a.1 a.2) (d2.OffersOrder a.1 a.2)

end Draft

namespace Synthesis

open Registry Run

variable {d1 : Draft}

/-- **Writing the filters that are asked for keeps other fields' filters and adds nothing to those
of the field but what is offered.** -/
theorem kept_confined {names : List String} (hapart : d1.DerivesApart names)
    (howners : ∀ q ∈ d1.filterRequests, q.type ∈ names) : KeptByRequests d1.Confined := by
  intro d2 h2 a ha isList x d3 hrun
  obtain ⟨r3, hr3, rfl⟩ := edit_eq_ok hrun
  have hrequests2 := h2.filtered.filterRequests_eq
  have hfetched : (a.type, a.field) ∈ d1.fetched :=
    Draft.fetched_eq hrequests2 ▸ Draft.mem_fetched_of_filterTasks ha
  have hderives := Draft.derives_iff hrequests2
  have hown : ∀ n ∈ derivedNames a.type a.field, d2.Derives n := fun n hn =>
    (hderives n).mpr ⟨_, hfetched, hn⟩
  have howners2 : ∀ q ∈ d2.filterRequests, ¬d2.Derives q.type := fun q hq hd =>
    hapart.free q.type (howners q (hrequests2 ▸ hq)) ((hderives _).mp hd)
  have hfiltered : d1.Filtered { d2 with registry := r3 } :=
    h2.filtered.trans ⟨writesFilters_addFilters _ _ _ _ _ _ _ hr3, rfl⟩
  rcases isSettled_of_addFilters hr3 with rfl | hsettled
  · exact h2
  obtain ⟨hframed, hbounded⟩ := keeps_addFilters (keptByFilters_bounded
    (keptByFilters_framed d2.registry (fun n hn => hn) a.returned fun key _ =>
      d2.FilterableBy a key)
    (fun _ _ hkey => hkey.offers ha) fun r key _ hr =>
      Draft.offersOrder_of_sorts hown hsettled hr ha)
    (fun r hr l => Draft.filterableBy_of_mem_lines hown hsettled hr.1) isList d2.registry x r3 hr3
    ⟨.refl _, h2.bounded _ hfetched⟩
  have hframed2 : d2.registry.Framed d2.Derives r3 := hframed.mono hown
  have hrequests3 : Draft.filterRequests { d2 with registry := r3 } = d2.filterRequests := rfl
  have hoffersMono : ∀ {type field key}, d2.Offers type field key →
      Draft.Offers { d2 with registry := r3 } type field key :=
    Draft.Offers.mono hrequests3 hframed2 howners2
  have horderMono : ∀ {type field key}, d2.OffersOrder type field key →
      Draft.OffersOrder { d2 with registry := r3 } type field key :=
    Draft.OffersOrder.mono hrequests3 hframed2 howners2
  refine ⟨hfiltered, h2.framed.trans (hframed2.mono fun n => (hderives n).mp), fun a' ha' => ?_⟩
  by_cases hsame : a' = (a.type, a.field)
  · rw [hsame]
    exact hbounded.mono (fun _ => hoffersMono) fun _ => horderMono
  · refine Bounded.mono ((h2.bounded a' ha').of_fewer fun n hn l hl => ?_)
      (fun _ => hoffersMono) fun _ => horderMono
    have hkeys := keys_of_outline? (hframed n (hapart.distinct a' ha' _ hfetched hsame n hn)
      (.inr fun kind hkind heq => not_isFilterName hkind
        (heq ▸ Registry.isFilterName_of_mem_derivedNames hn)))
    have hmem : l.1 ∈ Table.keys (d2.registry.entry n).lines := hkeys ▸ List.mem_map_of_mem hl
    exact List.mem_map.mp hmem

/-- A draft in which nothing is declared yet. -/
def fresh (x : Extensions) (s : ThunkState) : Draft := { extensions := x, thunks := s }

theorem tidy_fresh (x : Extensions) (s : ThunkState) : (fresh x s).Tidy where
  types := List.nodup_nil
  configs _ _ h := by cases h

/-- After the first pass over nothing there is what is contributed. -/
theorem under_fresh {b : Declarations} {x : Extensions} {s : ThunkState} {d1 : Draft}
    (h : firstPass b (fresh x s) = (.ok ⟨⟩, d1)) :
    Draft.Under (fun _ => False) (· ∈ b.names x.fields)
      (fun t f => ∃ c ∈ b.contributions x.fields, c.type = t ∧ f ∈ c.fields b) x.fields d1 := by
  refine under_firstPass (fun _ => id) (fun c hc f hf => ⟨c, hc, rfl, hf⟩) _ _ d1 h
    ⟨fun _ => False.elim, fun t ht => ?_, fun t l hl => ?_, fun t fs hfs => ?_, fun q hq => ?_, rfl⟩
  · cases ht
  · cases hl
  · cases hfs
  · cases hq

/-- After the first pass over nothing filters are asked for fields of types that are declared. -/
theorem owners_fresh {b : Declarations} {x : Extensions} {s : ThunkState} {d1 : Draft}
    (h : firstPass b (fresh x s) = (.ok ⟨⟩, d1)) :
    ∀ q ∈ d1.filterRequests, q.type ∈ b.names x.fields := by
  have hunder := under_fresh h
  intro q hq
  rcases List.mem_append.mp hq with hq | hq
  · obtain ⟨e, he, rfl⟩ := List.mem_map.mp hq
    rw [hunder.extended] at he
    exact List.mem_append_right _ (List.mem_map_of_mem he)
  · exact hunder.requests q hq

/-- After the first pass over nothing there is no type that is not declared. -/
theorem has_fresh_eq_false {b : Declarations} {x : Extensions} {s : ThunkState} {d1 : Draft}
    (h : firstPass b (fresh x s) = (.ok ⟨⟩, d1)) {name : String} (hname : name ∉ b.names x.fields) :
    Table.has d1.registry name = false :=
  Bool.eq_false_iff.mpr fun hhas => hname ((under_fresh h).types name hhas)

/-- **A synthesis confines what stands under derived names to what is offered there**, as long as
these names are apart from each other and from all that is declared. -/
theorem confined_of_synthesize {b : Declarations} {x : Extensions} {s : ThunkState} {d' : Draft}
    (h : synthesize b (fresh x s) = (.ok ⟨⟩, d')) (hapart : d'.DerivesApart (b.names x.fields)) :
    ∃ d1, firstPass b (fresh x s) = (.ok ⟨⟩, d1) ∧ d1.Confined d' := by
  obtain ⟨d1, hfirst, hkept⟩ := synthesize_passes (tidy_fresh x s) h
  have hfiltered : d1.Filtered d' := hkept d1.Filtered (fun d2 hd a _ isList y d3 hrun =>
    keeps_filtered (writesFilters_addFilters a.type a.field a.returned isList) d1 d2 y d3 hrun hd)
    (fun _ => id) (.refl d1)
  have hapart1 : d1.DerivesApart (b.names x.fields) :=
    hapart.congr hfiltered.filterRequests_eq.symm
  have hempty : ∀ name, d1.Derives name → (d1.registry.entry name).lines = [] := by
    intro name hd
    rw [entry, (Table.get?_eq_none_iff _ _).mpr (has_fresh_eq_false hfirst fun hname =>
      hapart1.free name hname hd)]
    rfl
  refine ⟨d1, hfirst, hkept d1.Confined (kept_confined hapart1 (owners_fresh hfirst))
    (fun d2 h2 => h2.filtered) ⟨.refl d1, .refl _, fun a ha => ⟨fun l hl => ?_, fun l hl => ?_⟩⟩⟩
  · rw [hempty _ ⟨a, ha, List.mem_cons_self⟩] at hl
    cases hl
  · rw [hempty _ ⟨a, ha, List.mem_cons_of_mem _ List.mem_cons_self⟩] at hl
    cases hl

end Synthesis
end SchemaForge

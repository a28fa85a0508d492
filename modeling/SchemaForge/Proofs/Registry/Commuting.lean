import Mathlib.Data.List.Pairwise
import SchemaForge.Proofs.Registry.Repeating

/-!
# Filters of many fields

Requests for the filters of different fields share one registry: they read from it what can be
filtered and sorted by, bring in the same inputs for operators, and one may take an argument from a
field of a type that another returns. If they have no derived types in common, and no returned type
and none of its lines is derived or an input for operators, then each does what it would do at first
(`Reached.run`). What it does to one entry is a plan, plans with different derived types commute
(`FilterPlan.act_comm`), and so the order of the requests does not matter
(**`FilterCall.runs_perm`**).
-/
namespace SchemaForge

namespace TypeEntry

variable {field field' name : String} {vs : List Verdict} {e : TypeEntry}

/-- The order arguments of two fields can be taken away in either order. -/
theorem withoutOrder_comm :
    (e.withoutOrder field).withoutOrder field' = (e.withoutOrder field').withoutOrder field := by
  have hlines : (e.lines.modify field FieldLine.withoutOrder).modify field' FieldLine.withoutOrder
      = (e.lines.modify field' FieldLine.withoutOrder).modify field FieldLine.withoutOrder :=
    Table.modify_comm fun _ _ => rfl
  exact congrArg (TypeEntry.mk e.kind e.directives) hlines

theorem isEmpty_lines_withoutOrder :
    (e.withoutOrder field).lines.isEmpty = e.lines.isEmpty := List.isEmpty_map ..

/-- New connectives take no arguments. -/
theorem withoutOrder_asInput :
    (e.withoutOrder field).asInput name = (e.asInput name).withoutOrder field := by
  have hnew : (connectiveLines name).modify field FieldLine.withoutOrder = connectiveLines name := by
    refine Table.modify_of_forall fun l hl _ => ?_
    obtain ⟨c, -, rfl⟩ := List.mem_map.mp hl
    rfl
  unfold asInput
  rw [isEmpty_lines_withoutOrder]
  split
  · exact congrArg (TypeEntry.mk .input e.directives) hnew.symm
  · rfl

theorem withoutOrder_asEnum :
    (e.withoutOrder field).asEnum = e.asEnum.withoutOrder field := by
  unfold asEnum
  rw [isEmpty_lines_withoutOrder]
  split <;> rfl

theorem withoutOrder_conditions :
    (e.withoutOrder field).onLines (Verdict.conditions vs)
      = (e.onLines (Verdict.conditions vs)).withoutOrder field := by
  have hlines : Verdict.conditions vs (e.lines.modify field FieldLine.withoutOrder)
      = (Verdict.conditions vs e.lines).modify field FieldLine.withoutOrder :=
    Verdict.conditions_modify rfl fun _ _ => rfl
  exact congrArg (TypeEntry.mk e.kind e.directives) hlines

theorem withoutOrder_orders :
    (e.withoutOrder field).onLines (Verdict.orders vs)
      = (e.onLines (Verdict.orders vs)).withoutOrder field := by
  have hlines : Verdict.orders vs (e.lines.modify field FieldLine.withoutOrder)
      = (Verdict.orders vs e.lines).modify field FieldLine.withoutOrder :=
    Verdict.orders_modify rfl
  exact congrArg (TypeEntry.mk e.kind e.directives) hlines

end TypeEntry

namespace FilterPlan

open Registry

variable {p q : FilterPlan} {name : String} {x : Option TypeEntry}

/-- The names of the derived types. -/
def derived (p : FilterPlan) : List String := derivedNames p.type p.field

/-- Take the order argument away. -/
def drop (p : FilterPlan) (name : String) (x : Option TypeEntry) : Option TypeEntry :=
  if p.drops ∧ name = p.type then x.map (·.withoutOrder p.field) else x

theorem act_eq_drop (p : FilterPlan) (name : String) (x : Option TypeEntry) :
    p.act name x = p.drop name (p.written? name x) := rfl

theorem written?_of_not_mem (h : name ∉ p.derived) :
    p.written? name x = x.or (Verdict.operators? p.verdicts name) := by
  obtain ⟨hne, hne'⟩ := not_mem_derivedNames h
  rw [written?, if_neg hne, if_neg hne']

theorem drop_comm : p.drop name (q.drop name x) = q.drop name (p.drop name x) := by
  unfold drop
  split <;> split
  · rw [Option.map_map, Option.map_map]
    exact congrArg (Option.map · x) (funext fun e => TypeEntry.withoutOrder_comm)
  all_goals rfl

/-- An order argument can be taken away before the filters of another field are written. -/
theorem written?_drop (hq : Verdict.Plain q.verdicts) :
    q.written? name (p.drop name x) = p.drop name (q.written? name x) := by
  unfold drop
  split
  · have hgetD : (x.map (·.withoutOrder p.field)).getD {} = (x.getD {}).withoutOrder p.field := by
      cases x <;> rfl
    unfold written?
    rw [hgetD, TypeEntry.withoutOrder_asInput, TypeEntry.withoutOrder_conditions,
      TypeEntry.withoutOrder_asEnum, TypeEntry.withoutOrder_orders]
    split
    · rfl
    · split
      · cases q.isList <;> cases q.drops <;> rfl
      · cases x with
        | some e => rfl
        | none =>
          rw [Option.map_none, Option.none_or]
          cases hsome : Verdict.operators? q.verdicts name with
          | none => rfl
          | some e =>
            obtain ⟨kind, -, -, rfl⟩ := Verdict.operators?_eq_some hq hsome
            rw [Option.map_some, withoutOrder_operatorEntry]
  · rfl

/-- The derived types of one field are left by the filters of another. -/
theorem written?_of_mem (hq : Verdict.Plain q.verdicts) (hapart : ∀ n ∈ p.derived, n ∉ q.derived)
    (h : name ∈ p.derived) (x : Option TypeEntry) : q.written? name x = x := by
  rw [written?_of_not_mem (hapart name h),
    Verdict.operators?_of_isFilterName hq (isFilterName_of_mem_derivedNames h), Option.or_none]

/-- The filters of fields with different derived types can be written in either order. -/
theorem written?_comm (hp : Verdict.Plain p.verdicts) (hq : Verdict.Plain q.verdicts)
    (hapart : ∀ n ∈ p.derived, n ∉ q.derived) :
    p.written? name (q.written? name x) = q.written? name (p.written? name x) := by
  by_cases hmem : name ∈ p.derived
  · rw [written?_of_mem hq hapart hmem, written?_of_mem hq hapart hmem]
  · by_cases hmem' : name ∈ q.derived
    · have hskip := written?_of_mem hp (fun n hn hn' => hapart n hn' hn) hmem'
      rw [hskip, hskip]
    · -- Both bring in inputs for operators, and there is one for each kind of value.
      rw [written?_of_not_mem hmem, written?_of_not_mem hmem', written?_of_not_mem hmem,
        written?_of_not_mem hmem', Option.or_assoc, Option.or_assoc]
      congr 1
      cases hsome : Verdict.operators? p.verdicts name with
      | none => rw [Option.none_or, Option.or_none]
      | some e =>
        cases hsome' : Verdict.operators? q.verdicts name with
        | none => rfl
        | some e' =>
          obtain ⟨kind, -, hname, rfl⟩ := Verdict.operators?_eq_some hp hsome
          obtain ⟨kind', -, hname', rfl⟩ := Verdict.operators?_eq_some hq hsome'
          rw [operatorInputName_inj (hname.symm.trans hname')]

/-- **Plans with different derived types commute.** -/
theorem act_comm (hp : Verdict.Plain p.verdicts) (hq : Verdict.Plain q.verdicts)
    (hapart : ∀ n ∈ p.derived, n ∉ q.derived) :
    p.act name (q.act name x) = q.act name (p.act name x) := by
  rw [act_eq_drop, act_eq_drop, act_eq_drop, act_eq_drop, written?_drop hp, written?_drop hq,
    drop_comm, written?_comm hp hq hapart]

end FilterPlan

/-- A request for the filters of a field. -/
structure FilterCall where
  /-- The type with the field. -/
  type : String
  /-- The field. -/
  field : String
  /-- The type that it returns. -/
  returned : String
  /-- Whether it is a list. -/
  isList : Bool

namespace FilterCall

open Registry Run

variable {c d : FilterCall} {calls calls' : List FilterCall} {r s s' : Registry}
  {own : String → Prop}

/-- Write the filters that are asked for. -/
def run (c : FilterCall) : Edit Unit := addFilters c.type c.field c.returned c.isList

/-- The names of the derived types. -/
def derived (c : FilterCall) : List String := derivedNames c.type c.field

/-- Two requests have no derived type in common. -/
def Distinct (c d : FilterCall) : Prop := ∀ n ∈ c.derived, n ∉ d.derived

instance (c d : FilterCall) : Decidable (Distinct c d) :=
  inferInstanceAs (Decidable (∀ n ∈ c.derived, n ∉ d.derived))

instance : Std.Symm Distinct := ⟨fun _ _ h n hn hn' => h n hn' hn⟩

/-- Both derived types are there beforehand. -/
def Skips (c : FilterCall) (r : Registry) : Prop :=
  r.isPopulated (whereInputName c.type c.field) = true
    ∧ r.isPopulated (orderEnumName c.type c.field) = true

instance (c : FilterCall) (r : Registry) : Decidable (c.Skips r) :=
  inferInstanceAs (Decidable (_ ∧ _))

/-- The filters that are asked for can be written. -/
def Succeeds (c : FilterCall) (r : Registry) : Prop :=
  c.Skips r ∨ r.Fillable c.returned c.isList

/-- The verdicts on the lines of the returned type. -/
def verdicts (c : FilterCall) (r : Registry) : List Verdict :=
  (r.filterLines c.returned).map fun l => r.verdictOn c.isList l.1 l.2.type

/-- What becomes of what stands under a name, going by what a registry says. -/
def effect (r : Registry) (name : String) (x : Option TypeEntry) (c : FilterCall) :
    Option TypeEntry :=
  if c.Skips r then x else (r.planOf c.type c.field c.isList (c.verdicts r)).act name x

theorem plain_verdicts (c : FilterCall) (r : Registry) : Verdict.Plain (c.verdicts r) := by
  intro v hv kind hkind
  obtain ⟨l, -, rfl⟩ := List.mem_map.mp hv
  have hjoin : (filterKind? r l.2.type).toOption.join = some kind := hkind
  cases hfound : filterKind? r l.2.type with
  | error e =>
    rw [hfound] at hjoin
    cases hjoin
  | ok kind? =>
    rw [hfound] at hjoin
    exact mem_filterableTypes (hfound.trans (congrArg Except.ok hjoin))

/-- **Requests with different derived types have effects that commute.** -/
theorem effect_comm (hapart : Distinct c d) (name : String)
    (x : Option TypeEntry) :
    effect r name (effect r name x c) d = effect r name (effect r name x d) c := by
  unfold effect
  split
  · rfl
  · split
    · rfl
    · exact FilterPlan.act_comm (d.plain_verdicts r) (c.plain_verdicts r)
        fun n hn hn' => hapart n hn' hn

/-! ### Runs -/

theorem isPopulated_of_outline? {name : String} (h : s.outline? name = r.outline? name) :
    s.isPopulated name = r.isPopulated name := by
  have hempty := congrArg List.isEmpty (keys_of_outline? h)
  rw [Table.keys, Table.keys, List.isEmpty_map, List.isEmpty_map] at hempty
  rw [isPopulated_eq, isPopulated_eq, hempty]

theorem verdicts_of_widens (h : Widens own r s)
    (havoids : r.Avoids c.returned fun n => own n ∨ n ∈ operatorNames)
    (hsame : s.outline? c.returned = r.outline? c.returned) : c.verdicts s = c.verdicts r := by
  have hverdict : ∀ l ∈ r.filterLines c.returned,
      s.verdictOn c.isList l.1 l.2.type = r.verdictOn c.isList l.1 l.2.type := by
    intro l hl
    have hnames := havoids l (mem_filterLines hl)
    have hsortable := h.isSortable_eq (fun n hn => hnames n (.inl hn))
      fun kind hkind => hnames _ (.inr (List.mem_map_of_mem hkind))
    rw [isSortable_eq_ok_true_iff, isSortable_eq_ok_true_iff] at hsortable
    simp only [verdictOn, h.filterKind?_eq fun n hn => hnames n (.inl hn), hsortable]
  have hlines : ∀ g : String → String → Verdict,
      (s.filterLines c.returned).map (fun l => g l.1 l.2.type)
        = (r.filterLines c.returned).map fun l => g l.1 l.2.type := by
    intro g
    have hsplit : ∀ lines : Table FieldLine, lines.map (fun l => g l.1 l.2.type)
        = (lines.map fun l => (l.1, l.2.type, l.2.directives)).map fun l => g l.1 l.2.1 := by
      intro lines
      rw [List.map_map]
      rfl
    unfold filterLines
    split
    · rfl
    · rw [hsplit, lines_of_outline? hsame, ← hsplit]
  exact (hlines _).trans (List.map_congr_left hverdict)

/-- Whether the order enum is dropped depends on its outline. -/
theorem planOf_of_outline? (c : FilterCall) (vs : List Verdict)
    (h : s.outline? (orderEnumName c.type c.field) = r.outline? (orderEnumName c.type c.field)) :
    s.planOf c.type c.field c.isList vs = r.planOf c.type c.field c.isList vs := by
  have hempty := isPopulated_of_outline? h
  rw [isPopulated_eq, isPopulated_eq, Bool.not_inj_iff] at hempty
  simp only [planOf, Verdict.orders, Table.isEmpty_ensureAll, hempty]

/-- A registry that is reached by other requests: nothing but their derived types and inputs for
operators may have come in, and the derived types of the requests that are left are as they were. -/
structure Reached (own : String → Prop) (calls : List FilterCall) (r s : Registry) : Prop where
  /-- Derived types and inputs for operators may have come in. -/
  widens : Widens own r s
  /-- Derived types of requests that are left are as they were. -/
  kept : ∀ c ∈ calls, ∀ n ∈ c.derived, s.outline? n = r.outline? n

/-- What a request is for is neither derived nor an input for operators, and its lines name
neither. -/
structure Clear (own : String → Prop) (r : Registry) (c : FilterCall) : Prop where
  /-- The derived types of the request are among those that are left out. -/
  derived : ∀ n ∈ c.derived, own n
  /-- The returned type is not derived. -/
  other : ¬own c.returned
  /-- The returned type is no input for operators. -/
  plain : c.returned ∉ operatorNames
  /-- Its lines name none of these. -/
  avoids : r.Avoids c.returned fun n => own n ∨ n ∈ operatorNames

section clear

variable (hc : Clear own r c) (honce : r.Once)
include hc

theorem Clear.outline?_eq (h : Widens own r s) :
    s.outline? c.returned = r.outline? c.returned :=
  h.outline?_of_ne hc.other fun _ hkind heq =>
    hc.plain (heq ▸ List.mem_map_of_mem hkind)

include honce in
theorem Clear.apart : Apart r c.type c.field c.returned where
  other hn := hc.other (hc.derived _ hn)
  avoids l hl n hn := hc.avoids l hl n (.inl (hc.derived n hn))
  once := honce.entry c.returned

end clear

/-- **A request does what it would do at first**, and keeps the registry for those that are left. -/
theorem Reached.run (h : Reached own (c :: calls) r s) (honce : r.Once) (hc : Clear own r c)
    (hapart : ∀ d ∈ calls, Distinct c d) :
    (c.Succeeds r ∧ ∃ s', c.run s = (.ok ⟨⟩, s')
      ∧ (∀ n, Table.get? s' n = effect r n (Table.get? s n) c) ∧ Reached own calls r s')
    ∨ (¬c.Succeeds r ∧ ∃ e s', c.run s = (.error e, s')) := by
  have hkept := h.kept c List.mem_cons_self
  have hw := hkept _ List.mem_cons_self
  have ho := hkept _ (List.mem_cons_of_mem _ List.mem_cons_self)
  have hsame := hc.outline?_eq h.widens
  have hskips : c.Skips s ↔ c.Skips r := by
    unfold Skips
    rw [isPopulated_of_outline? hw, isPopulated_of_outline? ho]
  by_cases hskip : c.Skips r
  · refine .inl ⟨.inl hskip, s, ?_, fun n => ?_, h.widens, fun d hd =>
      h.kept d (List.mem_cons_of_mem c hd)⟩
    · obtain ⟨hw, ho⟩ := hskips.mpr hskip
      exact addFilters_of_populated hw ho c.returned c.isList
    · rw [effect, if_pos hskip]
  · have hfillable : Fillable s c.returned c.isList ↔ Fillable r c.returned c.isList :=
      h.widens.fillable_iff (fun l hl n hn => hc.avoids l hl n (.inl hn)) hsame
    rcases addFilters_of_not_populated ((hc.apart honce).of_outline? hsame) (mt hskips.mp hskip)
      c.isList with ⟨hfill, vs, hvs, hok⟩ | ⟨hbad, hfails⟩
    · have hverdicts : vs = c.verdicts r := by
        rw [← verdicts_of_widens h.widens hc.avoids hsame]
        refine hvs.eq_verdicts (Avoids.of_outline? (fun l hl n hn => ?_) hsame)
        exact hc.avoids l hl n ((List.mem_append.mp hn).imp (hc.derived n) id)
      refine .inl ⟨.inr (hfillable.mp hfill), _, hok, fun n => ?_,
        h.widens.trans (hvs.widens.mono hc.derived), fun d hd n hn => ?_⟩
      · rw [hvs.get?, effect, if_neg hskip, planOf_of_outline? c vs ho, hverdicts]
      · have hleft := hvs.widens.outline?_of_ne (fun hn' => hapart d hd n hn' hn) fun kind hkind heq =>
          not_isFilterName hkind (heq ▸ isFilterName_of_mem_derivedNames hn)
        exact hleft.trans (h.kept d (List.mem_cons_of_mem c hd) n hn)
    · exact .inr ⟨not_or.mpr ⟨hskip, mt hfillable.mpr hbad⟩, hfails⟩

/-- **Requests do what they would do at first, one after the other.** -/
theorem Reached.runs {calls : List FilterCall} (h : Reached own calls r s) (honce : r.Once)
    (hclear : ∀ c ∈ calls, Clear own r c)
    (hapart : calls.Pairwise Distinct) :
    ((∀ c ∈ calls, c.Succeeds r) ∧ ∃ s', calls.forM FilterCall.run s = (.ok ⟨⟩, s')
      ∧ ∀ n, Table.get? s' n = calls.foldl (effect r n) (Table.get? s n))
    ∨ ((∃ c ∈ calls, ¬c.Succeeds r) ∧ ∃ e s', calls.forM FilterCall.run s = (.error e, s')) := by
  induction calls generalizing s with
  | nil => exact .inl ⟨by simp, s, rfl, fun _ => rfl⟩
  | cons c calls ih =>
    obtain ⟨hfirst, hrest⟩ := List.pairwise_cons.mp hapart
    rcases h.run honce (hclear c List.mem_cons_self) hfirst with
      ⟨hok, s1, hrun, hget, hreached⟩ | ⟨hbad, e, s1, hfails⟩
    · have hloop : (c :: calls).forM FilterCall.run s = calls.forM FilterCall.run s1 :=
        bind_of_ok hrun _
      rw [hloop]
      rcases ih hreached (fun d hd => hclear d (List.mem_cons_of_mem c hd)) hrest with
        ⟨hall, s', hruns, hgets⟩ | ⟨⟨d, hd, hbad⟩, hfails⟩
      · refine .inl ⟨fun d hd => ?_, s', hruns, fun n => ?_⟩
        · rcases List.mem_cons.mp hd with rfl | hd
          · exact hok
          · exact hall d hd
        · rw [hgets, hget, List.foldl_cons]
      · exact .inr ⟨⟨d, List.mem_cons_of_mem c hd, hbad⟩, hfails⟩
    · exact .inr ⟨⟨c, List.mem_cons_self, hbad⟩, e, s1, bind_of_error hfails _⟩

/-- Requests, none of which has a derived type of another, for fields that return types that are not
derived and whose lines name neither derived types nor inputs for operators. -/
structure Independent (calls : List FilterCall) (r : Registry) : Prop where
  /-- The registry has each name once. -/
  once : r.Once
  /-- The derived types are different. -/
  distinct : calls.Pairwise Distinct
  /-- The returned types are neither derived nor inputs for operators. -/
  returned : ∀ c ∈ calls, ∀ d ∈ calls, c.returned ∉ d.derived ++ operatorNames
  /-- The lines of the returned types name none of them. -/
  avoids : ∀ c ∈ calls, ∀ d ∈ calls, r.Avoids c.returned (· ∈ d.derived ++ operatorNames)

theorem Independent.clear (h : Independent calls r) (hc : c ∈ calls) :
    Clear (fun n => ∃ d ∈ calls, n ∈ d.derived) r c where
  derived n hn := ⟨c, hc, hn⟩
  other hn := by
    obtain ⟨d, hd, hn⟩ := hn
    exact h.returned c hc d hd (List.mem_append_left _ hn)
  plain hn := h.returned c hc c hc (List.mem_append_right _ hn)
  avoids l hl n hn := by
    rcases hn with ⟨d, hd, hn⟩ | hn
    · exact h.avoids c hc d hd l hl n (List.mem_append_left _ hn)
    · exact h.avoids c hc c hc l hl n (List.mem_append_right _ hn)

theorem Independent.perm (h : Independent calls r) (hperm : calls.Perm calls') :
    Independent calls' r where
  once := h.once
  distinct := hperm.pairwise h.distinct fun hapart n hn hn' => hapart n hn' hn
  returned c hc d hd := h.returned c (hperm.mem_iff.mpr hc) d (hperm.mem_iff.mpr hd)
  avoids c hc d hd := h.avoids c (hperm.mem_iff.mpr hc) d (hperm.mem_iff.mpr hd)

/-- Independent requests do what they would do at first. -/
theorem Independent.runs (h : Independent calls r) :
    ((∀ c ∈ calls, c.Succeeds r) ∧ ∃ s, calls.forM FilterCall.run r = (.ok ⟨⟩, s)
      ∧ ∀ n, Table.get? s n = calls.foldl (effect r n) (Table.get? r n))
    ∨ ((∃ c ∈ calls, ¬c.Succeeds r) ∧ ∃ e s, calls.forM FilterCall.run r = (.error e, s)) :=
  Reached.runs ⟨.refl _ r, fun _ _ _ _ => rfl⟩ h.once (fun _ hc => h.clear hc) h.distinct

/-- **The order in which filters are written does not matter.** In any two orders, independent
requests both fail, or they both succeed and leave the same under each name. -/
theorem runs_perm (hperm : calls.Perm calls') (h : Independent calls r) :
    (∃ e s e' s', calls.forM FilterCall.run r = (.error e, s)
      ∧ calls'.forM FilterCall.run r = (.error e', s'))
    ∨ ∃ s s', calls.forM FilterCall.run r = (.ok ⟨⟩, s)
      ∧ calls'.forM FilterCall.run r = (.ok ⟨⟩, s') ∧ ∀ n, Table.get? s n = Table.get? s' n := by
  rcases h.runs with ⟨hall, s, hrun, hget⟩ | ⟨⟨c, hc, hbad⟩, e, s, hfails⟩
  · rcases (h.perm hperm).runs with ⟨-, s', hrun', hget'⟩ | ⟨⟨c, hc, hbad⟩, -⟩
    · refine .inr ⟨s, s', hrun, hrun', fun n => ?_⟩
      rw [hget, hget']
      refine hperm.foldl_eq' (fun c hc d hd x => ?_) _
      by_cases hsame : c = d
      · rw [hsame]
      · exact effect_comm (h.distinct.forall hc hd hsame) n x
    · exact absurd (hall c (hperm.mem_iff.mpr hc)) hbad
  · rcases (h.perm hperm).runs with ⟨hall, -⟩ | ⟨-, e', s', hfails'⟩
    · exact absurd (hall c (hperm.mem_iff.mp hc)) hbad
    · exact .inl ⟨e, s, e', s', hfails, hfails'⟩

/-- A request for the query for items. -/
def forItems : FilterCall := ⟨"Query", "items", "Item", true⟩

/-- A request for the owner of an item. -/
def forOwner : FilterCall := ⟨"Item", "owner", "User", false⟩

/-- Items and their owners can be filtered in either order. -/
theorem runs_perm_stock : ∃ s s', [forItems, forOwner].forM FilterCall.run stock = (.ok ⟨⟩, s)
    ∧ [forOwner, forItems].forM FilterCall.run stock = (.ok ⟨⟩, s')
    ∧ ∀ n, Table.get? s n = Table.get? s' n := by
  have hstock : stock.Once ∧ [forItems, forOwner].Pairwise Distinct
      ∧ (∀ c ∈ [forItems, forOwner], ∀ d ∈ [forItems, forOwner],
        c.returned ∉ d.derived ++ operatorNames)
      ∧ (∀ c ∈ [forItems, forOwner], ∀ d ∈ [forItems, forOwner],
        stock.Avoids c.returned (· ∈ d.derived ++ operatorNames))
      ∧ ([forItems, forOwner].forM FilterCall.run stock).1.isOk = true := by
    decide +kernel
  obtain ⟨honce, hdistinct, hreturned, havoids, hok⟩ := hstock
  refine (runs_perm (List.Perm.swap forOwner forItems [])
    ⟨honce, hdistinct, hreturned, havoids⟩).resolve_left ?_
  rintro ⟨e, s, -, -, hfails, -⟩
  rw [hfails] at hok
  cases hok

end FilterCall
end SchemaForge

import Mathlib.Data.List.Forall2
import SchemaForge.Proofs.Registry.Filling
import SchemaForge.Proofs.Registry.Frame

/-!
# Verdicts that runs give

A run that writes the filters of a field succeeds exactly if both derived types are there, or the
returned type is known and its lines can be read (`Legible`). Then its verdicts are those of the
registry that it started from, up to lines that inputs for operators, which the run brings in, keep
from being sorted by (`Judges`).
-/
namespace SchemaForge
namespace Registry

variable {r r' r1 : Registry} {type field returned name : String} {isList : Bool} {v : Verdict}
  {vs : List Verdict}

/-! ### Runs -/

/-- A line whose signature can be read, as far as the filters of a field need it. -/
def Legible (r : Registry) (isList : Bool) (l : String × FieldLine) : Prop :=
  (filterKind? r l.2.type).isOk = true ∧ (isList = true → (isSortable r l.2.type).isOk = true)

/-- A verdict on a line: the kind of value is that of the registry at first, and rows are sorted by
the line only if they could be at first, and if they still can be in the end. -/
structure Judges (r r' : Registry) (isList : Bool) (l : String × FieldLine) (v : Verdict) : Prop where
  /-- The verdict is on the line. -/
  key : v.key = l.1
  /-- The kind of value is that of the line. -/
  kind : filterKind? r l.2.type = .ok v.kind?
  /-- The signature can be read. -/
  readable : isList = true → (isSortable r l.2.type).isOk = true
  /-- Rows are sorted by no line that could not be sorted by. -/
  sorts : v.sorts = true → isList = true ∧ isSortable r l.2.type = .ok true
  /-- They are sorted by each line that still can be sorted by. -/
  sorted : isList = true → isSortable r' l.2.type = .ok true → v.sorts = true

open Run

/-- Write the filters of some lines. -/
def fillLines (type field returned : String) (isList : Bool) (ls : Table FieldLine) : Edit Unit :=
  ls.forM fun (key, line) =>
    addFilter (whereInputName type field) (orderEnumName type field) returned isList key line

/-- The filters of one line, step by step. -/
theorem addFilter_apply (w o returned : String) (isList : Bool) (key : String) (line : FieldLine)
    (r : Registry) :
    addFilter w o returned isList key line r = match filterKind? r line.type with
      | .error e => (.error e, r)
      | .ok kind? =>
        let r1 := writeCondition r w ⟨key, kind?, false⟩
        if isList then
          match isSortable r1 (((r1.line? returned key).map (·.type)).getD line.type) with
          | .error e => (.error e, r1)
          | .ok sorts => (.ok ⟨⟩, if sorts then addOrderValues r1 o key else r1)
        else (.ok ⟨⟩, r1) := by
  unfold addFilter
  rw [bind_of_ok (get_apply r)]
  have hsorts : ∀ r1 : Registry, (do
      let r ← get
      if ← isSortable r (((r.line? returned key).map (·.type)).getD line.type) then
        modify fun r => directions.foldl (fun r d => ensureField r o (key ++ "_" ++ d)) r
      : Edit PUnit) r1
      = match isSortable r1 (((r1.line? returned key).map (·.type)).getD line.type) with
        | .error e => (.error e, r1)
        | .ok sorts => (.ok ⟨⟩, if sorts then addOrderValues r1 o key else r1) := by
    intro r1
    rw [bind_of_ok (get_apply r1)]
    cases isSortable r1 (((r1.line? returned key).map (·.type)).getD line.type) with
    | error e => rfl
    | ok sorts => cases sorts <;> rfl
  cases filterKind? r line.type with
  | error e => rfl
  | ok kind? =>
    cases kind? with
    | none =>
      cases isList with
      | false => rfl
      | true => exact hsorts (writeCondition r w ⟨key, none, false⟩)
    | some kind =>
      cases isList with
      | false => rfl
      | true => exact hsorts (writeCondition r w ⟨key, some kind, false⟩)

theorem Widens.legible_iff {own : String → Prop} {l : String × FieldLine} (h : Widens own r r')
    (hl : ∀ n, own n → ¬Signature.Names l.2.type n) : Legible r' isList l ↔ Legible r isList l := by
  unfold Legible
  rw [h.filterKind?_eq hl, isOk_isSortable r r']

theorem Judges.of_widens {own : String → Prop} {r2 r2' : Registry} {l : String × FieldLine}
    (h : Judges r r' isList l v) (hr : Widens own r2 r) (hr' : Widens own r' r2')
    (hl : ∀ n, own n → ¬Signature.Names l.2.type n) : Judges r2 r2' isList l v where
  key := h.key
  kind := hr.filterKind?_eq hl ▸ h.kind
  readable hlist := isOk_isSortable r r2 _ ▸ h.readable hlist
  sorts hsorts := ⟨(h.sorts hsorts).1, hr.isSortable hl (h.sorts hsorts).2⟩
  sorted hlist hsortable := h.sorted hlist (hr'.isSortable hl hsortable)

theorem exists_of_isOk {ε α : Type} {x : Except ε α} (h : x.isOk = true) : ∃ a, x = .ok a := by
  cases x with
  | ok a => exact ⟨a, rfl⟩
  | error e => cases h

theorem exists_left_of_mem {α β : Type} {R : α → β → Prop} {xs : List α} {ys : List β}
    (h : List.Forall₂ R xs ys) {y : β} (hy : y ∈ ys) : ∃ x ∈ xs, R x y := by
  induction h with
  | nil => cases hy
  | cons hxy _ ih =>
    rcases List.mem_cons.mp hy with rfl | hy
    · exact ⟨_, List.mem_cons_self, hxy⟩
    · obtain ⟨x, hx, hxy⟩ := ih hy
      exact ⟨x, List.mem_cons_of_mem _ hx, hxy⟩

theorem exists_right_of_mem {α β : Type} {R : α → β → Prop} {xs : List α} {ys : List β}
    (h : List.Forall₂ R xs ys) {x : α} (hx : x ∈ xs) : ∃ y ∈ ys, R x y :=
  exists_left_of_mem h.flip hx

theorem plain_of_judges {ls : List (String × FieldLine)}
    (h : List.Forall₂ (Judges r r' isList) ls vs) : Verdict.Plain vs := by
  intro v hv kind hkind
  obtain ⟨l, -, hl⟩ := exists_left_of_mem h hv
  exact mem_filterableTypes (hkind ▸ hl.kind)

/-- The derived types of a field are begun, and some lines are those of the returned type. -/
structure Ready (type field returned : String) (isList : Bool) (ls : List (String × FieldLine))
    (r : Registry) : Prop where
  /-- The condition input is there. -/
  input : Table.has r (whereInputName type field) = true
  /-- For a list the order enum is there. -/
  enum : isList = true → Table.has r (orderEnumName type field) = true
  /-- The returned type has the lines. -/
  lines : ∀ l ∈ ls, (r.line? returned l.1).map (·.type) = some l.2.type
  /-- The returned type is not derived. -/
  other : returned ∉ derivedNames type field
  /-- The lines name no derived type. -/
  avoids : ∀ l ∈ ls, ∀ n ∈ derivedNames type field, ¬Signature.Names l.2.type n

/-- Inputs for operators that come in widen a registry. -/
theorem widens_of_operators {own : String → Prop} (hplain : Verdict.Plain vs)
    (h : ∀ n, ¬own n → r'.outline? n
      = ((Table.get? r n).or (Verdict.operators? vs n)).map TypeEntry.outline) :
    Widens own r r' := by
  intro n hn
  rw [h n hn, outline?]
  cases Table.get? r n with
  | some e => exact .inl rfl
  | none =>
    cases hsome : Verdict.operators? vs n with
    | none => exact .inl rfl
    | some e =>
      obtain ⟨kind, hkind, hname, rfl⟩ := Verdict.operators?_eq_some hplain hsome
      exact .inr ⟨rfl, kind, hkind, hname, rfl⟩

theorem not_mem_derivedNames {n : String} (h : n ∉ derivedNames type field) :
    n ≠ whereInputName type field ∧ n ≠ orderEnumName type field :=
  ⟨fun heq => h (heq ▸ List.mem_cons_self),
    fun heq => h (heq ▸ List.mem_cons_of_mem _ List.mem_cons_self)⟩

/-- Writing verdicts brings in inputs for operators, apart from the derived types. -/
theorem widens_writeAll (hw : Table.has r (whereInputName type field) = true)
    (ho : ∀ v ∈ vs, v.sorts = true → Table.has r (orderEnumName type field) = true)
    (hplain : Verdict.Plain vs) :
    Widens (· ∈ derivedNames type field) r (writeAll type field r vs) := by
  refine widens_of_operators hplain fun n hn => ?_
  obtain ⟨hne, hne'⟩ := not_mem_derivedNames hn
  rw [outline?, get?_writeAll hw ho hplain, if_neg hne, if_neg hne']

/-- So do the order values of a line alone. -/
theorem widens_write_writeCondition (type field : String) (r : Registry) (v : Verdict) :
    Widens (· ∈ derivedNames type field) (writeCondition r (whereInputName type field) v)
      (write type field r v) := by
  unfold write
  split
  · refine fun n hn => .inl (addOrderValues_of_value
      (I := fun r1 => r1.outline? n = (writeCondition r (whereInputName type field) v).outline? n)
      (fun r1 d _ h => ?_) _ rfl)
    rw [ensureField, updateField, outline?_updateType (not_mem_derivedNames hn).2]
    exact h
  · exact .refl _ _

section step

variable {ls : List (String × FieldLine)} {l : String × FieldLine}

theorem Ready.tail (h : Ready type field returned isList (l :: ls) r) :
    Ready type field returned isList ls r where
  input := h.input
  enum := h.enum
  lines l' hl' := h.lines l' (List.mem_cons_of_mem l hl')
  other := h.other
  avoids l' hl' := h.avoids l' (List.mem_cons_of_mem l hl')

variable (hready : Ready type field returned isList ls r)
include hready

theorem Ready.widens_write (hplain : ∀ kind ∈ v.kind?, kind ∈ filterableTypes)
    (hsorts : v.sorts = true → isList = true) :
    Widens (· ∈ derivedNames type field) r (Registry.write type field r v) := by
  refine (widens_writeAll hready.input (fun v' hv' hs => ?_) fun v' hv' => ?_ :
    Widens (· ∈ derivedNames type field) r (writeAll type field r [v]))
  · rw [List.mem_singleton.mp hv'] at hs
    exact hready.enum (hsorts hs)
  · rw [List.mem_singleton.mp hv']
    exact hplain

/-- Writing the filters of a line leaves the lines of the returned type. -/
theorem Ready.write (hplain : ∀ kind ∈ v.kind?, kind ∈ filterableTypes)
    (hsorts : v.sorts = true → isList = true) :
    Ready type field returned isList ls (write type field r v) := by
  have hget := get?_write hready.input (fun hs => hready.enum (hsorts hs)) hplain
  refine ⟨?_, fun hlist => ?_, fun l hl => ?_, hready.other, hready.avoids⟩
  · rw [Table.has_eq_isSome, hget, if_pos rfl, Option.isSome_map, ← Table.has_eq_isSome]
    exact hready.input
  · rw [Table.has_eq_isSome, hget, if_neg (whereInputName_ne_orderEnumName type field).symm,
      if_pos rfl, Option.isSome_map, ← Table.has_eq_isSome]
    exact hready.enum hlist
  · have hline := hready.lines l hl
    obtain ⟨found, hfound, -⟩ := Option.map_eq_some_iff.mp hline
    have hhas := has_of_line? hfound
    rw [type_of_outline? ((hready.widens_write hplain hsorts).outline?_eq hready.other hhas)]
    exact hline

/-- The filters of a line, where whether rows are sorted by it is read after its condition is
written. -/
theorem Ready.addFilter_eq (hl : l ∈ ls) :
    addFilter (whereInputName type field) (orderEnumName type field) returned isList l.1 l.2 r
      = match filterKind? r l.2.type with
        | .error e => (.error e, r)
        | .ok kind? =>
          let r1 := writeCondition r (whereInputName type field) ⟨l.1, kind?, false⟩
          if isList then
            match isSortable r1 l.2.type with
            | .error e => (.error e, r1)
            | .ok sorts => (.ok ⟨⟩, Registry.write type field r ⟨l.1, kind?, sorts⟩)
          else (.ok ⟨⟩, Registry.write type field r ⟨l.1, kind?, false⟩) := by
  rw [addFilter_apply]
  cases hkind : filterKind? r l.2.type with
  | error e => rfl
  | ok kind? =>
    have hline : ((writeCondition r (whereInputName type field) ⟨l.1, kind?, false⟩).line?
        returned l.1).map (·.type) = some l.2.type :=
      (hready.write (v := ⟨l.1, kind?, false⟩)
        (fun kind (hmem : kind? = some kind) => mem_filterableTypes (hmem ▸ hkind)) nofun).lines l hl
    dsimp only
    rw [hline]
    rfl

/-- The filters of a line that can be read are written by a verdict on it. -/
theorem Ready.addFilter_of_legible (hl : l ∈ ls) (hreadable : Legible r isList l) :
    ∃ v : Verdict, v.key = l.1 ∧ filterKind? r l.2.type = .ok v.kind?
      ∧ (isList = false → v.sorts = false)
      ∧ (isList = true →
        isSortable (writeCondition r (whereInputName type field) v) l.2.type = .ok v.sorts)
      ∧ addFilter (whereInputName type field) (orderEnumName type field) returned isList l.1 l.2 r
        = (.ok ⟨⟩, Registry.write type field r v) := by
  obtain ⟨kind?, hkind⟩ := exists_of_isOk hreadable.1
  rw [hready.addFilter_eq hl, hkind]
  cases isList with
  | false => exact ⟨⟨l.1, kind?, false⟩, rfl, rfl, fun _ => rfl, nofun, rfl⟩
  | true =>
    obtain ⟨sorts, hsorts⟩ := exists_of_isOk (isOk_isSortable r (writeCondition r
      (whereInputName type field) ⟨l.1, kind?, false⟩) l.2.type ▸ hreadable.2 rfl)
    refine ⟨⟨l.1, kind?, sorts⟩, rfl, rfl, nofun, fun _ => hsorts, ?_⟩
    dsimp only
    rw [hsorts]
    rfl

/-- The filters of a line that cannot be read are not written. -/
theorem Ready.addFilter_of_not_legible (hl : l ∈ ls) (hreadable : ¬Legible r isList l) :
    ∃ e r1, addFilter (whereInputName type field) (orderEnumName type field) returned isList
      l.1 l.2 r = (.error e, r1) := by
  rw [hready.addFilter_eq hl]
  cases hkind : filterKind? r l.2.type with
  | error e => exact ⟨e, r, rfl⟩
  | ok kind? =>
    cases isList with
    | false => exact absurd ⟨hkind ▸ rfl, nofun⟩ hreadable
    | true =>
      dsimp only
      cases hsorts : isSortable (writeCondition r (whereInputName type field)
          ⟨l.1, kind?, false⟩) l.2.type with
      | error e => exact ⟨e, _, rfl⟩
      | ok sorts =>
        refine absurd ⟨hkind ▸ rfl, fun _ => ?_⟩ hreadable
        rw [isOk_isSortable r _, hsorts]
        rfl

end step

/-- **The filters of lines are written by verdicts on them, or some line cannot be read.** -/
theorem Ready.fillLines {ls : List (String × FieldLine)}
    (hready : Ready type field returned isList ls r) :
    ((∀ l ∈ ls, Legible r isList l)
      ∧ ∃ vs, List.Forall₂ (Judges r (writeAll type field r vs) isList) ls vs
        ∧ Registry.fillLines type field returned isList ls r = (.ok ⟨⟩, writeAll type field r vs))
    ∨ ((∃ l ∈ ls, ¬Legible r isList l)
      ∧ ∃ e r', Registry.fillLines type field returned isList ls r = (.error e, r')) := by
  induction ls generalizing r with
  | nil => exact .inl ⟨by simp, [], .nil, rfl⟩
  | cons l ls ih =>
    by_cases hl : Legible r isList l
    · obtain ⟨v, hkey, hkind, hsingle, hsorts, hrun⟩ :=
        hready.addFilter_of_legible List.mem_cons_self hl
      have hplain : ∀ kind ∈ v.kind?, kind ∈ filterableTypes := fun kind hmem =>
        mem_filterableTypes (hmem ▸ hkind)
      have hlist : v.sorts = true → isList = true := by
        intro hs
        cases isList with
        | true => rfl
        | false => rw [hsingle rfl] at hs; cases hs
      have hwidens := hready.widens_write hplain hlist
      have hrest := (hready.write hplain hlist).tail
      have hloop : Registry.fillLines type field returned isList (l :: ls) r
          = Registry.fillLines type field returned isList ls (Registry.write type field r v) :=
        bind_of_ok hrun _
      have havoid := hready.avoids l List.mem_cons_self
      rw [hloop]
      rcases ih hrest with ⟨hall, vs, hvs, hloops⟩ | ⟨⟨l', hl', hnot⟩, hfails⟩
      · have hlater := widens_writeAll hrest.input (fun v' hv' hs => by
          obtain ⟨l', -, hjudges⟩ := exists_left_of_mem hvs hv'
          exact hrest.enum (hjudges.sorts hs).1) (plain_of_judges hvs)
        have hcondition := hready.widens_write (v := ⟨v.key, v.kind?, false⟩) hplain nofun
        refine .inl ⟨fun l' hl' => ?_, v :: vs, .cons ⟨hkey, hkind, hl.2, fun hs => ?_,
          fun htrue hsortable => ?_⟩ ?_, hloops⟩
        · rcases List.mem_cons.mp hl' with rfl | hl'
          · exact hl
          · exact (hwidens.legible_iff (hrest.avoids l' hl')).mp (hall l' hl')
        · exact ⟨hlist hs, hcondition.isSortable havoid (hs ▸ hsorts (hlist hs))⟩
        · have hstill := ((widens_write_writeCondition type field r v).trans hlater).isSortable havoid
            hsortable
          exact (Except.ok.inj (hstill.symm.trans (hsorts htrue))).symm
        · exact ((List.forall₂_and_left _ _).mpr ⟨hrest.avoids, hvs⟩).imp fun l' v' h =>
            h.2.of_widens hwidens (.refl _ _) h.1
      · exact .inr ⟨⟨l', List.mem_cons_of_mem l hl',
          mt (hwidens.legible_iff (hrest.avoids l' hl')).mpr hnot⟩, hfails⟩
    · refine .inr ⟨⟨l, List.mem_cons_self, hl⟩, ?_⟩
      obtain ⟨e, r1, hrun⟩ := hready.addFilter_of_not_legible List.mem_cons_self hl
      exact ⟨e, r1, bind_of_error hrun _⟩

/-! ### Whole fields -/

/-- The lines for which filters are written: those of the returned type, unless it is a scalar that
needs no definition. -/
def filterLines (r : Registry) (returned : String) : Table FieldLine :=
  if basicTypes.contains returned then [] else (r.entry returned).lines

/-- The filters of a field can be written from what it returns. -/
structure Fillable (r : Registry) (returned : String) (isList : Bool) : Prop where
  /-- The returned type is known. -/
  known : basicTypes.contains returned = true ∨ Table.has r returned = true
  /-- Its lines can be read. -/
  readable : ∀ l ∈ r.filterLines returned, Legible r isList l

/-- No type is there twice, and no type has a line twice. -/
structure Once (r : Registry) : Prop where
  /-- No type is there twice. -/
  types : (Table.keys r).Nodup
  /-- No line is there twice. -/
  lines : ∀ t ∈ r, (Table.keys t.2.lines).Nodup

instance (r : Registry) : Decidable r.Once :=
  decidable_of_iff ((Table.keys r).Nodup ∧ ∀ t ∈ r, (Table.keys t.2.lines).Nodup)
    ⟨fun h => ⟨h.1, h.2⟩, fun h => ⟨h.types, h.lines⟩⟩

theorem Once.entry (h : r.Once) (type : String) : (Table.keys (r.entry type).lines).Nodup := by
  rw [Registry.entry]
  cases hget : Table.get? r type with
  | none => exact List.nodup_nil
  | some e => exact h.lines _ (Table.mem_of_get? hget)

/-- The type that a field returns, with its lines, is apart from the derived types of the field. -/
structure Apart (r : Registry) (type field returned : String) : Prop where
  /-- The returned type is not derived. -/
  other : returned ∉ derivedNames type field
  /-- Its lines name no derived type. -/
  avoids : r.Avoids returned (· ∈ derivedNames type field)
  /-- It has no line twice. -/
  once : (Table.keys (r.entry returned).lines).Nodup

/-- The filters of a field are written by these verdicts on the lines of the returned type. -/
def Decides (r : Registry) (type field returned : String) (isList : Bool) (vs : List Verdict) :
    Prop :=
  List.Forall₂ (Judges r (r.filled type field isList vs) isList) (r.filterLines returned) vs

theorem filterLines_eq (hbasic : returned ∉ basicTypes) :
    r.filterLines returned = (r.entry returned).lines :=
  if_neg (by simpa using hbasic)

theorem mem_filterLines {l : String × FieldLine} (h : l ∈ r.filterLines returned) :
    l ∈ (r.entry returned).lines := by
  unfold filterLines at h
  split at h
  · cases h
  · exact h

/-- Beginning the derived types of a field leaves the returned type. -/
theorem Apart.get?_opened (h : Apart r type field returned) (isList : Bool) :
    Table.get? (r.opened type field isList) returned = Table.get? r returned := by
  obtain ⟨hne, hne'⟩ := not_mem_derivedNames h.other
  rw [Registry.get?_opened, if_neg hne, if_neg fun hand => hne' hand.1]

theorem Apart.ready (h : Apart r type field returned) (isList : Bool) :
    Ready type field returned isList (r.filterLines returned) (r.opened type field isList) where
  input := r.has_opened_input type field isList
  enum hlist := hlist ▸ r.has_opened_order type field
  lines l hl := by
    rw [line?_eq, entry, h.get?_opened, ← entry, Table.get?_of_mem h.once (mem_filterLines hl)]
    rfl
  other := h.other
  avoids l hl := h.avoids l (mem_filterLines hl)

theorem outline?_opened {n : String} (hn : n ∉ derivedNames type field) (r : Registry)
    (isList : Bool) : (r.opened type field isList).outline? n = r.outline? n := by
  obtain ⟨hne, hne'⟩ := not_mem_derivedNames hn
  rw [outline?, get?_opened, if_neg hne, if_neg fun hand => hne' hand.1, outline?]

theorem outline?_filled {n : String} (hn : n ∉ derivedNames type field) (r : Registry)
    (isList : Bool) (vs : List Verdict) : (r.filled type field isList vs).outline? n
      = (writeAll type field (r.opened type field isList) vs).outline? n := by
  unfold filled
  split
  · exact outline?_dropEmptyOrder (not_mem_derivedNames hn).2 _ type field
  · rfl

/-- Filling begun derived types, step by step. -/
theorem fillOpened_apply (type field returned : String) (isList : Bool) (r : Registry) :
    fillOpened type field returned isList r
      = if basicTypes.contains returned = false ∧ Table.has r returned = false then
          (.error (.unknownReturnType returned), r)
        else match fillLines type field returned isList (r.filterLines returned) r with
          | (.error e, r1) => (.error e, r1)
          | (.ok _, r1) =>
            (.ok ⟨⟩, if isList then dropEmptyOrder r1 type field (orderEnumName type field) else r1) := by
  have hfill : fillFilters (whereInputName type field) (orderEnumName type field) returned isList r
      = fillLines type field returned isList (r.entry returned).lines r := by
    unfold fillFilters entry
    rw [bind_of_ok (get_apply r)]
    cases Table.get? r returned <;> rfl
  have hlast : ∀ r1 : Registry, (if isList then
      modify (dropEmptyOrder · type field (orderEnumName type field)) else pure () : Edit PUnit) r1
      = (.ok ⟨⟩, if isList then dropEmptyOrder r1 type field (orderEnumName type field) else r1) := by
    intro r1
    cases isList <;> rfl
  unfold fillOpened filterLines
  cases hbasic : basicTypes.contains returned with
  | true => exact hlast r
  | false =>
    rw [if_pos Bool.not_false, bind_of_ok (get_apply r)]
    cases Table.has r returned with
    | false => rfl
    | true =>
      rw [if_pos rfl, if_neg (show ¬(false = false ∧ true = false) by simp),
        if_neg Bool.false_ne_true, bind_apply, hfill]
      cases fillLines type field returned isList (r.entry returned).lines r with
      | mk outcome r1 =>
        cases outcome with
        | error e => rfl
        | ok _ => exact hlast r1

theorem addFilters_of_populated (hw : r.isPopulated (whereInputName type field) = true)
    (ho : r.isPopulated (orderEnumName type field) = true) (returned : String) (isList : Bool) :
    addFilters type field returned isList r = (.ok ⟨⟩, r) := by
  rw [addFilters_apply, hw, ho]
  rfl

/-- **Unless both derived types are there, the filters of a field are written by verdicts on the
lines of the returned type, or what it returns cannot be read.** -/
theorem addFilters_of_not_populated (h : Apart r type field returned)
    (hnot : ¬(r.isPopulated (whereInputName type field) = true
      ∧ r.isPopulated (orderEnumName type field) = true)) (isList : Bool) :
    (Fillable r returned isList ∧ ∃ vs, Decides r type field returned isList vs
      ∧ addFilters type field returned isList r = (.ok ⟨⟩, r.filled type field isList vs))
    ∨ (¬Fillable r returned isList
      ∧ ∃ e r', addFilters type field returned isList r = (.error e, r')) := by
  have hopened : Widens (· ∈ derivedNames type field) r (r.opened type field isList) :=
    fun n hn => .inl (outline?_opened hn r isList)
  have hlines : (r.opened type field isList).filterLines returned = r.filterLines returned := by
    unfold filterLines entry
    rw [h.get?_opened]
  have hready := h.ready isList
  rw [addFilters_apply, if_neg (by simpa using hnot), fillOpened_apply, hlines,
    show Table.has (r.opened type field isList) returned = Table.has r returned by
      rw [Table.has_eq_isSome, h.get?_opened, Table.has_eq_isSome]]
  by_cases hunknown : basicTypes.contains returned = false ∧ Table.has r returned = false
  · refine .inr ⟨fun hfillable => ?_, _, _, if_pos hunknown⟩
    rcases hfillable.known with hbasic | hhas
    · rw [hunknown.1] at hbasic
      cases hbasic
    · rw [hunknown.2] at hhas
      cases hhas
  · rw [if_neg hunknown]
    have hknown : basicTypes.contains returned = true ∨ Table.has r returned = true := by
      rw [← Bool.not_eq_false, ← Bool.not_eq_false]
      exact Classical.not_and_iff_not_or_not.mp hunknown
    rcases hready.fillLines with ⟨hall, vs, hvs, hrun⟩ | ⟨⟨l, hl, hbad⟩, e, r', hrun⟩
    · refine .inl ⟨⟨hknown, fun l hl => (hopened.legible_iff (hready.avoids l hl)).mp (hall l hl)⟩,
        vs, ?_, ?_⟩
      · have hfilled : Widens (· ∈ derivedNames type field)
            (writeAll type field (r.opened type field isList) vs) (r.filled type field isList vs) :=
          fun n hn => .inl (outline?_filled hn r isList vs)
        exact ((List.forall₂_and_left _ _).mpr ⟨hready.avoids, hvs⟩).imp fun l v hlv =>
          hlv.2.of_widens hopened hfilled hlv.1
      · rw [hrun]
        rfl
    · exact .inr ⟨fun hfillable => hbad
        ((hopened.legible_iff (hready.avoids l hl)).mpr (hfillable.readable l hl)), e, r',
        by rw [hrun]⟩

/-- A run that succeeds writes verdicts. -/
theorem Apart.decides {u : PUnit} (h : Apart r type field returned)
    (hnot : ¬(r.isPopulated (whereInputName type field) = true
      ∧ r.isPopulated (orderEnumName type field) = true))
    (hrun : addFilters type field returned isList r = (.ok u, r')) :
    Fillable r returned isList
      ∧ ∃ vs, Decides r type field returned isList vs ∧ r' = r.filled type field isList vs := by
  rcases addFilters_of_not_populated h hnot isList with
    ⟨hfillable, vs, hvs, hok⟩ | ⟨-, e, r1, hfails⟩
  · rw [hok] at hrun
    cases hrun
    exact ⟨hfillable, vs, hvs, rfl⟩
  · rw [hfails] at hrun
    cases hrun

/-- A run succeeds exactly if what the field returns can be read. -/
theorem Apart.exists_run_iff (h : Apart r type field returned)
    (hnot : ¬(r.isPopulated (whereInputName type field) = true
      ∧ r.isPopulated (orderEnumName type field) = true)) :
    (∃ r', addFilters type field returned isList r = (.ok ⟨⟩, r'))
      ↔ Fillable r returned isList := by
  constructor
  · rintro ⟨r', hrun⟩
    exact (h.decides hnot hrun).1
  · intro hfillable
    rcases addFilters_of_not_populated h hnot isList with ⟨-, vs, -, hok⟩ | ⟨hbad, -⟩
    · exact ⟨_, hok⟩
    · exact absurd hfillable hbad

/-- A run changes each entry on its own. -/
theorem Decides.get? (h : r.Decides type field returned isList vs) (n : String) :
    Table.get? (r.filled type field isList vs) n
      = (r.planOf type field isList vs).act n (Table.get? r n) :=
  get?_filled (plain_of_judges h) (fun v hv hs => by
    obtain ⟨l, -, hl⟩ := exists_left_of_mem h hv
    exact (hl.sorts hs).1) n

/-- The names of the verdicts are those of the lines. -/
theorem Decides.keys (h : r.Decides type field returned isList vs) :
    vs.map Verdict.key = Table.keys (r.filterLines returned) := by
  have hmap : ∀ {ls : Table FieldLine} {vs : List Verdict} {r' : Registry},
      List.Forall₂ (Judges r r' isList) ls vs → vs.map Verdict.key = Table.keys ls := by
    intro ls vs r' h
    induction h with
    | nil => rfl
    | cons hlv _ ih => exact congrArg₂ List.cons hlv.key ih
  exact hmap h

theorem Apart.nodup_keys (h : Apart r type field returned)
    (hvs : r.Decides type field returned isList vs) : (vs.map Verdict.key).Nodup := by
  rw [hvs.keys]
  unfold filterLines
  split
  · exact List.nodup_nil
  · exact h.once

section entries

variable (h : r.Decides type field returned isList vs)
include h

/-- What the condition input becomes. -/
theorem Decides.get?_input : Table.get? (r.filled type field isList vs) (whereInputName type field)
    = some (((r.entry (whereInputName type field)).asInput (whereInputName type field)).onLines
        (Verdict.conditions vs)) := by
  have howner := (not_mem_derivedNames (owner_not_mem_derivedNames type field)).1
  rw [h.get?]
  unfold FilterPlan.act FilterPlan.written?
  rw [if_neg fun hand => howner hand.2.symm, planOf_type, planOf_field, if_pos rfl]
  rfl

theorem Decides.entry_input : (r.filled type field isList vs).entry (whereInputName type field)
    = ((r.entry (whereInputName type field)).asInput (whereInputName type field)).onLines
        (Verdict.conditions vs) := by
  rw [entry, h.get?_input, Option.getD_some]

/-- What the order enum becomes. -/
theorem Decides.get?_enum : Table.get? (r.filled type field isList vs) (orderEnumName type field)
    = if isList then
        if (r.planOf type field isList vs).drops then none
        else some ((r.entry (orderEnumName type field)).asEnum.onLines (Verdict.orders vs))
      else Table.get? r (orderEnumName type field) := by
  have howner := (not_mem_derivedNames (owner_not_mem_derivedNames type field)).2
  rw [h.get?]
  unfold FilterPlan.act FilterPlan.written?
  rw [if_neg fun hand => howner hand.2.symm, planOf_type, planOf_field,
    if_neg (whereInputName_ne_orderEnumName type field).symm, if_pos rfl]
  rfl

/-- For a list the order enum has the order values, even if none are left and it is dropped. -/
theorem Decides.lines_enum (hlist : isList = true) :
    ((r.filled type field isList vs).entry (orderEnumName type field)).lines
      = Verdict.orders vs (r.entry (orderEnumName type field)).lines := by
  rw [entry, h.get?_enum, if_pos hlist]
  cases hdrops : (r.planOf type field isList vs).drops with
  | true =>
    rw [planOf, hlist, Bool.true_and, List.isEmpty_iff] at hdrops
    exact hdrops.symm
  | false =>
    rw [if_neg Bool.false_ne_true, Option.getD_some]
    unfold TypeEntry.asEnum
    split <;> rfl

/-- What another type becomes. -/
theorem Decides.get?_other {n : String} (hn : n ∉ derivedNames type field) :
    Table.get? (r.filled type field isList vs) n
      = if (r.planOf type field isList vs).drops = true ∧ n = type then
          ((Table.get? r n).or (Verdict.operators? vs n)).map (·.withoutOrder field)
        else (Table.get? r n).or (Verdict.operators? vs n) := by
  obtain ⟨hne, hne'⟩ := not_mem_derivedNames hn
  rw [h.get?]
  unfold FilterPlan.act FilterPlan.written?
  rw [planOf_type, planOf_field, planOf_verdicts, if_neg hne, if_neg hne']

/-- The operators that conditions refer to are there. -/
theorem Decides.has_operator {kind : String} (hv : v ∈ vs) (hkind : v.kind? = some kind) :
    Table.has (r.filled type field isList vs) (operatorInputName kind) = true := by
  have hother : operatorInputName kind ∉ derivedNames type field := fun hmem =>
    not_isFilterName (plain_of_judges h v hv kind hkind) (isFilterName_of_mem_derivedNames hmem)
  have hsome : ((Table.get? r (operatorInputName kind)).or
      (Verdict.operators? vs (operatorInputName kind))).isSome = true := by
    rw [Option.isSome_or, Verdict.isSome_operators? hv hkind, Bool.or_true]
  rw [Table.has_eq_isSome, h.get?_other hother]
  split
  · rwa [Option.isSome_map]
  · exact hsome

end entries

theorem outline_withoutOrder (field : String) (e : TypeEntry) :
    (e.withoutOrder field).outline = e.outline := outline_modifyArguments field (·.erase "order") e

/-- **A run widens the registry**, apart from the derived types. -/
theorem Decides.widens (h : r.Decides type field returned isList vs) :
    Widens (· ∈ derivedNames type field) r (r.filled type field isList vs) := by
  refine widens_of_operators (plain_of_judges h) fun n hn => ?_
  rw [outline?, h.get?_other hn]
  split
  · rw [Option.map_map]
    exact congrArg (Option.map · _) (funext (outline_withoutOrder field))
  · rfl

theorem not_mem_derivedNames_of_basic (h : returned ∈ basicTypes) :
    returned ∉ derivedNames type field := by
  have hshort : ∀ name ∈ basicTypes, name.length < 11 := by decide
  exact fun hmem => absurd (length_of_isDerived
    (isDerived_of_isFilterName (isFilterName_of_mem_derivedNames hmem)))
    (Nat.not_le.mpr (hshort returned h))

/-! ### Registries alike -/

theorem mem_of_outline? {l : String × FieldLine} (h : r'.outline? returned = r.outline? returned)
    (hl : l ∈ (r'.entry returned).lines) :
    ∃ l' ∈ (r.entry returned).lines, l'.1 = l.1 ∧ l'.2.type = l.2.type := by
  have hmem : (l.1, l.2.type, l.2.directives)
      ∈ (r.entry returned).lines.map fun l => (l.1, l.2.type, l.2.directives) :=
    lines_of_outline? h ▸ List.mem_map_of_mem hl
  obtain ⟨l', hl', heq⟩ := List.mem_map.mp hmem
  obtain ⟨hname, htype⟩ := Prod.mk.inj heq
  exact ⟨l', hl', hname, (Prod.mk.inj htype).1⟩

theorem mem_filterLines_of_outline? {l : String × FieldLine}
    (h : r'.outline? returned = r.outline? returned) (hl : l ∈ r'.filterLines returned) :
    ∃ l' ∈ r.filterLines returned, l'.1 = l.1 ∧ l'.2.type = l.2.type := by
  unfold filterLines at hl ⊢
  split at hl
  · cases hl
  · rename_i hbasic
    rw [if_neg hbasic]
    exact mem_of_outline? h hl

theorem keys_filterLines_of_outline? (h : r'.outline? returned = r.outline? returned) :
    Table.keys (r'.filterLines returned) = Table.keys (r.filterLines returned) := by
  unfold filterLines
  split
  · rfl
  · exact keys_of_outline? h

theorem Avoids.of_outline? {own : String → Prop} (h : r.Avoids returned own)
    (hsame : r'.outline? returned = r.outline? returned) : r'.Avoids returned own := by
  intro l hl n hn
  obtain ⟨l', hl', -, htype⟩ := mem_of_outline? hsame hl
  exact htype ▸ h l' hl' n hn

theorem Apart.of_outline? (h : Apart r type field returned)
    (hsame : r'.outline? returned = r.outline? returned) : Apart r' type field returned where
  other := h.other
  avoids := h.avoids.of_outline? hsame
  once := keys_of_outline? hsame ▸ h.once

/-- What can be read stays so. -/
theorem Widens.fillable_iff {own : String → Prop} (h : Widens own r r')
    (havoids : r.Avoids returned own) (hsame : r'.outline? returned = r.outline? returned) :
    Fillable r' returned isList ↔ Fillable r returned isList := by
  have hread : ∀ l ∈ r.filterLines returned, ∀ l' ∈ r'.filterLines returned, l'.2.type = l.2.type →
      (Legible r' isList l' ↔ Legible r isList l) := by
    intro l hl l' _ htype
    rw [← h.legible_iff (havoids l (mem_filterLines hl))]
    unfold Legible
    rw [htype]
  refine ⟨fun hf => ⟨hf.known.imp id (has_of_outline? hsame ▸ ·), fun l hl => ?_⟩,
    fun hf => ⟨hf.known.imp id (has_of_outline? hsame ▸ ·), fun l' hl' => ?_⟩⟩
  · obtain ⟨l', hl', -, htype⟩ := mem_filterLines_of_outline? hsame.symm hl
    exact (hread l hl l' hl' htype).mp (hf.readable l' hl')
  · obtain ⟨l, hl, -, htype⟩ := mem_filterLines_of_outline? hsame hl'
    exact (hread l hl l' hl' htype.symm).mpr (hf.readable l hl)

end Registry
end SchemaForge

import SchemaForge.Proofs.Changes
import SchemaForge.Proofs.Registry.Outlines

/-!
# What filters are written for a line

For each line of the returned type it is decided by which kind of value rows are filtered, if by
any, and whether they are sorted by it. Writing these verdicts changes three things apart from
each other: the lines of the condition input, those of the order enum, and which inputs for
operators are there. Each is a function of what stood there before, and once all verdicts are met
writing them again changes nothing.
-/
namespace SchemaForge

/-- What filters are written for a line. -/
structure Verdict where
  /-- The name of the line. -/
  key : String
  /-- The kind of value by which it is filtered. -/
  kind? : Option String
  /-- Whether rows are sorted by it. -/
  sorts : Bool

namespace Verdict

variable {v w : Verdict} {vs : List Verdict} {lines : Table FieldLine}

/-- The lines of a condition input with the condition of a line, or without one. -/
def condition (v : Verdict) (lines : Table FieldLine) : Table FieldLine :=
  match v.kind? with
  | some kind => lines.update v.key {} fun line => { line with type := operatorInputName kind }
  | none => lines.erase v.key

/-- The order values of a line. -/
def values (v : Verdict) : List String :=
  if v.sorts then Registry.directions.map (v.key ++ "_" ++ ·) else []

/-- The lines of an order enum with the order values of a line. -/
def order (v : Verdict) (lines : Table FieldLine) : Table FieldLine :=
  lines.ensureAll v.values {}

/-- The lines of a condition input after all conditions are written. -/
def conditions (vs : List Verdict) (lines : Table FieldLine) : Table FieldLine :=
  vs.foldl (fun lines v => v.condition lines) lines

/-- The lines of an order enum after all order values are written. -/
def orders (vs : List Verdict) (lines : Table FieldLine) : Table FieldLine :=
  lines.ensureAll (vs.flatMap values) {}

/-! ### Conditions -/

/-- Lines have the condition of a line, and no other under its name. -/
def Met (v : Verdict) (lines : Table FieldLine) : Prop :=
  match v.kind? with
  | some kind => lines.has v.key = true
      ∧ ∀ l ∈ lines, l.1 = v.key → l.2.type = operatorInputName kind
  | none => lines.has v.key = false

theorem condition_of_met (h : v.Met lines) : v.condition lines = lines := by
  unfold Met at h
  unfold condition
  split at h
  · rename_i kind hkind
    rw [Table.update, Table.ensure_of_has h.1]
    refine Table.modify_of_forall fun l hl hname => ?_
    rw [← h.2 l hl hname]
  · exact Table.erase_of_not_has h

theorem met_condition (v : Verdict) (lines : Table FieldLine) : v.Met (v.condition lines) := by
  unfold Met condition
  split
  · refine ⟨by simp [Table.has_update], fun l hl hname => ?_⟩
    rcases Registry.mem_modify hl with ⟨-, hne⟩ | ⟨x, -, rfl⟩
    · exact absurd hname hne
    · rfl
  · simp [Table.has_erase]

/-- The condition of another line leaves that of a line. -/
theorem Met.condition (h : v.Met lines) (hne : v.key ≠ w.key) : v.Met (w.condition lines) := by
  have hhas : (w.condition lines).has v.key = lines.has v.key := by
    unfold Verdict.condition
    split <;> simp [Table.has_update, Table.has_erase, hne]
  have hmem : ∀ l ∈ w.condition lines, l.1 = v.key → l ∈ lines := by
    intro l hl hname
    unfold Verdict.condition at hl
    split at hl
    · rcases Registry.mem_update hl with hl | ⟨x, -, rfl⟩
      · exact hl
      · exact absurd hname.symm hne
    · exact (List.mem_filter.mp hl).1
  unfold Met at h ⊢
  split at h
  · exact ⟨hhas.trans h.1, fun l hl hname => h.2 l (hmem l hl hname) hname⟩
  · exact hhas.trans h

theorem conditions_cons (v : Verdict) (vs : List Verdict) (lines : Table FieldLine) :
    conditions (v :: vs) lines = conditions vs (v.condition lines) := rfl

theorem Met.conditions (h : v.Met lines) (hnew : v.key ∉ vs.map key) :
    v.Met (conditions vs lines) := by
  induction vs generalizing lines with
  | nil => exact h
  | cons w vs ih =>
    obtain ⟨hne, hnew⟩ := not_or.mp (mt List.mem_cons.mpr hnew)
    exact ih (h.condition hne) hnew

/-- **After conditions are written all of them are met.** -/
theorem met_conditions (hnodup : (vs.map key).Nodup) (lines : Table FieldLine) :
    ∀ v ∈ vs, v.Met (conditions vs lines) := by
  induction vs generalizing lines with
  | nil => simp
  | cons w vs ih =>
    obtain ⟨hnew, hnodup⟩ := List.nodup_cons.mp hnodup
    intro v hv
    rcases List.mem_cons.mp hv with rfl | hv
    · exact (v.met_condition lines).conditions hnew
    · exact ih hnodup _ v hv

/-- **Conditions that are met change nothing.** -/
theorem conditions_of_met (h : ∀ v ∈ vs, v.Met lines) : conditions vs lines = lines := by
  induction vs with
  | nil => rfl
  | cons v vs ih =>
    rw [conditions_cons, condition_of_met (h v List.mem_cons_self)]
    exact ih fun w hw => h w (List.mem_cons_of_mem v hw)

theorem Met.get? (h : v.Met lines) :
    (lines.get? v.key).map (·.type) = v.kind?.map operatorInputName := by
  unfold Met at h
  split at h
  · rename_i kind hkind
    obtain ⟨line, hline⟩ := Option.isSome_iff_exists.mp (Table.has_eq_isSome lines _ ▸ h.1)
    rw [hline, hkind, Option.map_some, h.2 _ (Table.mem_of_get? hline) rfl]
    rfl
  · rename_i hkind
    rw [(Table.get?_eq_none_iff _ _).mpr h, hkind]
    rfl

/-- Where there are no lines, nothing is filtered by. -/
theorem Met.kind?_eq_none (h : v.Met []) : v.kind? = none := by
  unfold Met at h
  split at h
  · cases h.1
  · assumption

/-- Where nothing is filtered by, the lines of these names are taken out. -/
theorem conditions_eq_nil_iff (hnone : ∀ v ∈ vs, v.kind? = none) :
    conditions vs lines = [] ↔ ∀ name ∈ lines.keys, name ∈ vs.map key := by
  induction vs generalizing lines with
  | nil =>
    simp only [List.map_nil, List.not_mem_nil, imp_false, ← List.eq_nil_iff_forall_not_mem]
    exact List.map_eq_nil_iff.symm
  | cons v vs ih =>
    have hv : v.condition lines = lines.erase v.key := by
      unfold condition
      rw [hnone v List.mem_cons_self]
    rw [conditions_cons, hv, ih fun w hw => hnone w (List.mem_cons_of_mem v hw), Table.keys_erase]
    simp only [List.mem_filter, bne_iff_ne, ne_eq, List.map_cons, List.mem_cons]
    exact forall_congr' fun name =>
      ⟨fun h hname => Classical.or_iff_not_imp_left.mpr fun hne => h ⟨hname, hne⟩,
        fun h hand => (h hand.1).resolve_left hand.2⟩

/-- Other lines stay. -/
theorem get?_conditions {key : String} (h : key ∉ vs.map Verdict.key) (lines : Table FieldLine) :
    (conditions vs lines).get? key = lines.get? key := by
  induction vs generalizing lines with
  | nil => rfl
  | cons v vs ih =>
    obtain ⟨hne, hnew⟩ := not_or.mp (mt List.mem_cons.mpr h)
    rw [conditions_cons, ih hnew]
    unfold condition
    split <;> simp [Table.get?_update, Table.get?_erase, hne]

/-! ### Order values -/

theorem orders_cons (v : Verdict) (vs : List Verdict) (lines : Table FieldLine) :
    orders (v :: vs) lines = orders vs (v.order lines) := by
  rw [orders, List.flatMap_cons, Table.ensureAll, List.foldl_append]
  rfl

/-- A change of a line that leaves an empty one can come before the filters are written, or
after. -/
theorem orders_modify {f : FieldLine → FieldLine} (hf : f {} = {}) {field : String} :
    orders vs (lines.modify field f) = (orders vs lines).modify field f :=
  Table.ensureAll_modify hf _

theorem conditions_modify {f : FieldLine → FieldLine} (hf : f {} = {})
    (htype : ∀ (line : FieldLine) type, { f line with type } = f { line with type })
    {field : String} :
    conditions vs (lines.modify field f) = (conditions vs lines).modify field f := by
  induction vs generalizing lines with
  | nil => rfl
  | cons v vs ih =>
    have hstep : v.condition (lines.modify field f) = (v.condition lines).modify field f := by
      unfold condition
      split
      · exact Table.update_modify hf fun line => htype line _
      · exact Table.erase_modify
    rw [conditions_cons, hstep, ih, conditions_cons]

end Verdict
end SchemaForge

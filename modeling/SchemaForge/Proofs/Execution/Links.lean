import SchemaForge.Proofs.Execution.Rows

/-!
# Rows that are linked to a parent

An association links a row to those rows of its target in which one column holds what a
column of the row holds. A fetch that follows the association gives linked rows only, and all
of them where nothing restricts it; a fetch that follows none gives the same for every parent.
-/
namespace SchemaForge

namespace Models

variable (models : Models)

/-- The target of an association, with the column of it and the column of the model itself
that must agree. -/
def link? (m : Model) (a : Association) : Option (Model × Column × Column) :=
  match models.target? a with
  | none => none
  | some t =>
    match models.ownReference? m a with
    | some (c, name) => (Store.columnNamed? t name).map fun k => (t, k, c)
    | none =>
      match models.backReference? m a with
      | some (c, name) => (Store.columnNamed? m name).map fun k => (t, c, k)
      | none => none

/-- The first part of a link is the target. -/
theorem target_of_link {models : Models} {m t u : Model} {a : Association} {k c : Column}
    (ht : models.get? a.target = some t) (h : models.link? m a = some (u, k, c)) : u = t := by
  unfold link? at h
  rw [show models.target? a = some t from ht] at h
  dsimp only at h
  have hmap : ∀ (x : Option Column) (f : Column → Column × Column),
      x.map (fun k => (t, f k)) = some (u, k, c) → u = t := by
    intro x f hx
    cases x with
    | none => cases hx
    | some y => exact (Prod.mk.inj (Option.some.inj hx)).1.symm
  split at h
  · exact hmap _ _ h
  · split at h
    · exact hmap _ _ h
    · cases h

end Models

/-- Whether a column of a row holds a value, as the column takes it. -/
def Store.holds (k : Column) (v : Value) (row : Row) : Bool :=
  Stored.compare? (Stored.ofValue (Fields.get row k.key))
    ((Stored.ofValue v).adapted k.type.affinity) == some .eq

/-- The rows that an association links to a row: those of its target that hold in the one
column what the row holds in the other. -/
def Store.linked (models : Models) (s : Store) (m : Model) (row : Row) (a : Association) :
    List (Nat × Row) :=
  match models.link? m a with
  | some (t, k, c) => (s.scan t).filter fun r => Store.holds k (Fields.get row c.key) r.2
  | none => []

/-- A linked row is a row of the target that holds in the one column what the parent holds in
the other. -/
theorem Store.mem_linked {models : Models} {s : Store} {m : Model} {row : Row} {a : Association}
    {r : Nat × Row} (h : r ∈ s.linked models m row a) : ∃ t k c, models.link? m a = some (t, k, c)
      ∧ r ∈ s.rows t.name ∧ Store.holds k (Fields.get row c.key) r.2 := by
  unfold linked at h
  split at h
  · rename_i t k c hlink
    obtain ⟨hscan, hholds⟩ := List.mem_filter.mp h
    exact ⟨t, k, c, hlink, (s.scan_perm t).subset hscan, hholds⟩
  · cases h

/-- Where the column takes the value as it is stored, these are the rows to which the
association leads on the row itself. -/
theorem Store.linked_eq_related {models : Models} {s : Store} {m : Model} {row : Row}
    {a : Association} (h : ∀ t k c, models.link? m a = some (t, k, c) →
      (Stored.ofValue (Fields.get row c.key)).adapted k.type.affinity
        = Stored.ofValue (Fields.get row c.key)) :
    s.linked models m row a = Store.related models s m row a := by
  have hrows : ∀ t k c, models.link? m a = some (t, k, c) →
      s.linked models m row a = s.rowsWhere t k.key (Stored.ofValue (Fields.get row c.key)) := by
    intro t k c hlink
    rw [linked, hlink]
    simp only [Store.rowsWhere, Store.holds, h t k c hlink]
  have hnone : models.link? m a = none → s.linked models m row a = [] := by
    intro hlink
    rw [linked, hlink]
  unfold Models.link? at hrows hnone
  unfold related
  cases ht : models.target? a with
  | none => exact hnone (by rw [ht])
  | some t =>
    simp only [ht] at hrows hnone ⊢
    cases ho : models.ownReference? m a with
    | some own =>
      obtain ⟨c, name⟩ := own
      simp only [ho] at hrows hnone ⊢
      cases hk : columnNamed? t name with
      | none => exact hnone (by rw [hk]; rfl)
      | some k => exact hrows t k c (by rw [hk]; rfl)
    | none =>
      simp only [ho] at hrows hnone ⊢
      cases hb : models.backReference? m a with
      | none => exact hnone (by rw [hb])
      | some back =>
        obtain ⟨c, name⟩ := back
        simp only [hb] at hrows hnone ⊢
        cases hk : columnNamed? m name with
        | none => exact hnone (by rw [hk]; rfl)
        | some k => exact hrows t c k (by rw [hk]; rfl)

namespace Fetch

variable {scene : Scene} {f : Fetch} {m : Model} {a : Association} {row : Row}

/-- The clause that ties rows to a parent row by an association. -/
theorem relatedTo_eq (scene : Scene) (m : Model) (row : Row) (a : Association) :
    relatedTo scene m row a = match scene.models.link? m a with
      | some (t, k, c) => .ok (.compare .eq ⟨t.table, k⟩ (Fields.get row c.key))
      | none => .error .noMember := by
  unfold relatedTo Models.link?
  cases ht : scene.models.target? a with
  | none => rfl
  | some t =>
    dsimp only
    cases ho : scene.models.ownReference? m a with
    | some own =>
      obtain ⟨c, name⟩ := own
      dsimp only
      cases Store.columnNamed? t name <;> rfl
    | none =>
      dsimp only
      cases hb : scene.models.backReference? m a with
      | none => rfl
      | some back =>
        obtain ⟨c, name⟩ := back
        dsimp only
        cases Store.columnNamed? m name <;> rfl

theorem selects_eq (table : String) (k : Column) (v : Value) (row : Row) :
    (Clause.compare .eq ⟨table, k⟩ v).selects row = Store.holds k v row := by
  change (Option.map (· == .eq) (Stored.compare? (Stored.ofValue (Fields.get row k.key))
    ((Stored.ofValue v).adapted k.type.affinity)) == some true) = _
  unfold Store.holds
  cases Stored.compare? (Stored.ofValue (Fields.get row k.key))
    ((Stored.ofValue v).adapted k.type.affinity) with
  | none => rfl
  | some o => cases o <;> rfl

/-- A field that follows an association is tied to its parent row. -/
theorem tied_eq (hassociation : f.config.association = .text a.key) (hkey : a.key ≠ "")
    (ha : m.association? a.key = some a) {model : String} {place : Nat}
    (hm : scene.models.get? model = some m) (hrow : scene.rows.row? model place = some row) :
    f.tied scene (.entity model place) = (relatedTo scene m row a).map fun c => [c] := by
  have htruthy : f.config.association.truthy = true := by
    rw [hassociation]
    simpa [Value.truthy] using hkey
  have hplain : f.config.association.plain = a.key := by
    rw [hassociation]
    rfl
  unfold tied
  rw [htruthy, hplain]
  simp only [Bool.not_true, Value.isNull, Bool.or_self, Bool.false_eq_true, if_false, hm, hrow, ha]

/-- A field that follows no association is tied to nothing. -/
theorem tied_eq_nil (scene : Scene) (h : f.config.association.truthy = false) (source : Value) :
    f.tied scene source = .ok [] := by
  unfold tied
  rw [h]
  rfl

/-- A fetch follows an association of a model: it gives linked rows only, and all of them
where nothing restricts it. -/
def Follows (f : Fetch) (m : Model) (a : Association) : Prop :=
  ∀ (scene : Scene) (model : String) (place : Nat) (row : Row) (t : Model),
    scene.models.get? model = some m → scene.rows.row? model place = some row →
    scene.models.get? a.target = some t → ∀ arguments,
      (∀ vs, f.run scene (.entity model place) arguments = .ok (.list vs) →
        ∀ v ∈ vs, ∃ r ∈ scene.rows.linked scene.models m row a, v = .entity t.name r.1)
      ∧ ((scene.models.link? m a).isSome →
        Unrestricted scene f arguments (scene.rows.linked scene.models m row a).length →
        ∃ vs, f.run scene (.entity model place) arguments = .ok (.list vs)
          ∧ vs.Perm ((scene.rows.linked scene.models m row a).map fun r => .entity t.name r.1))

/-- A fetch ignores its parent: it gives the same for every parent, and all rows of the model
where nothing restricts it. -/
def Ignores (f : Fetch) : Prop :=
  ∀ (scene : Scene) (arguments : Fields),
    (∀ source source', f.run scene source arguments = f.run scene source' arguments)
    ∧ ∀ t, scene.models.get? f.model = some t →
      Unrestricted scene f arguments (scene.rows.rows t.name).length →
      ∀ source, ∃ vs, f.run scene source arguments = .ok (.list vs)
        ∧ vs.Perm ((scene.rows.rows t.name).map fun r => .entity t.name r.1)

/-- **A fetch whose configuration names an association follows it.** -/
theorem follows_of_association (hassociation : f.config.association = .text a.key)
    (hkey : a.key ≠ "") (ha : m.association? a.key = some a) (hmodel : f.model = a.target) :
    f.Follows m a := by
  intro scene model place row t hm hrow ht arguments
  have htied := tied_eq hassociation hkey ha hm hrow
  have hdefault : (scene.models.get? f.model).getD default = t := by rw [hmodel, ht]; rfl
  rw [relatedTo_eq] at htied
  cases hlink : scene.models.link? m a with
  | none =>
    rw [hlink] at htied
    refine ⟨fun vs hrun => ?_, fun h => by cases h⟩
    obtain ⟨clauses, hclauses, -⟩ := mem_of_run hrun
    rw [htied] at hclauses
    cases hclauses
  | some link =>
    obtain ⟨u, k, c⟩ := link
    rw [hlink] at htied
    have hu : u = t := Models.target_of_link ht hlink
    subst hu
    have hlinked : (scene.rows.scan u).filter
          (fun r => [Clause.compare .eq ⟨u.table, k⟩ (Fields.get row c.key)].all (·.selects r.2))
        = scene.rows.linked scene.models m row a := by
      rw [Store.linked, hlink]
      simp only [List.all_cons, List.all_nil, Bool.and_true, selects_eq]
    constructor
    · intro vs hrun v hv
      obtain ⟨clauses, hclauses, hrows⟩ := mem_of_run hrun
      rw [htied] at hclauses
      cases hclauses
      obtain ⟨r, hr, rfl, hselects⟩ := hrows v hv
      rw [hdefault] at hr ⊢
      refine ⟨r, ?_, rfl⟩
      rw [← hlinked, List.mem_filter]
      exact ⟨(scene.rows.scan_perm u).symm.subset hr, by simpa using hselects⟩
    · intro _ hrestrict
      have hrun := run_of_unrestricted arguments htied
      rw [hdefault, hlinked] at hrun
      exact hrun hrestrict

/-- **A fetch whose configuration names no association ignores its parent.** -/
theorem ignores_of_no_association (h : f.config.association.truthy = false) : f.Ignores := by
  intro scene arguments
  constructor
  · intro source source'
    unfold run statement
    rw [tied_eq_nil scene h source, tied_eq_nil scene h source']
  · intro t ht hrestrict source
    have hdefault : (scene.models.get? f.model).getD default = t := by rw [ht]; rfl
    have hrun := run_of_unrestricted arguments (tied_eq_nil scene h source)
    have hall : (scene.rows.scan t).filter (fun r => ([] : List Clause).all (·.selects r.2))
        = scene.rows.scan t := List.filter_eq_self.mpr fun _ _ => rfl
    have hscan := scene.rows.scan_perm t
    rw [hdefault, hall, hscan.length_eq] at hrun
    obtain ⟨vs, hvs, hperm⟩ := hrun hrestrict
    exact ⟨vs, hvs, hperm.trans (hscan.map _)⟩

end Fetch
end SchemaForge

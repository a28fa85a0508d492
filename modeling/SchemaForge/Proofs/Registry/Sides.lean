import SchemaForge.Proofs.Changes
import SchemaForge.Proofs.Registry.Widening

/-!
# Registries side by side

Two registries say the same if they have the same types, of the same kind, with the same lines
and directives, in whatever order (`Registry.Same`). More generally, one registry may have what
two others have, side by side: the lines and directives of both, and the kind that either of them
gives a type that had another one before (`Registry.Beside`). Every change of the second of the
two is one of the whole, if it writes no lines that the first one has.
-/
namespace SchemaForge

/-- Two entries say the same of a type, in whatever order. -/
structure TypeEntry.Same (e e' : TypeEntry) : Prop where
  /-- The kind. -/
  kind : e.kind = e'.kind
  /-- The directives. -/
  directives : ∀ use, use ∈ e.directives ↔ use ∈ e'.directives
  /-- The lines. -/
  lines : ∀ field, e.lines.get? field = e'.lines.get? field

/-- Two registries say the same, in whatever order. -/
structure Registry.Same (r r' : Registry) : Prop where
  /-- They have the same types. -/
  has : ∀ type, Table.has r type = Table.has r' type
  /-- They say the same of each. -/
  entries : ∀ type, (r.entry type).Same (r'.entry type)

/-- An entry has what two others have, where a type is of some kind unless one is stated. -/
structure TypeEntry.Beside (base : Language.TypeKind) (first second both : TypeEntry) : Prop where
  /-- The kind is that of the second, if it states one. -/
  kind : both.kind = if second.kind = base then first.kind else second.kind
  /-- The directives are those of both. -/
  directives : ∀ use, use ∈ both.directives ↔ use ∈ first.directives ∨ use ∈ second.directives
  /-- The lines are those of both. -/
  lines : ∀ field, both.lines.get? field
    = (first.lines.get? field).or (second.lines.get? field)

/-- A registry has what two others have. -/
structure Registry.Beside (base : String → Language.TypeKind) (first second both : Registry) :
    Prop where
  /-- It has the types of both. -/
  has : ∀ type, Table.has both type = (Table.has first type || Table.has second type)
  /-- It says of each what both say. -/
  entries : ∀ type, TypeEntry.Beside (base type) (first.entry type) (second.entry type)
    (both.entry type)

namespace TypeEntry

variable {base : Language.TypeKind} {e e1 e2 : TypeEntry} {field : String}

theorem Same.refl (e : TypeEntry) : e.Same e := ⟨rfl, fun _ => .rfl, fun _ => rfl⟩

theorem Same.symm (h : e.Same e1) : e1.Same e :=
  ⟨h.kind.symm, fun use => (h.directives use).symm, fun field => (h.lines field).symm⟩

theorem Same.trans (h : e.Same e1) (h' : e1.Same e2) : e.Same e2 :=
  ⟨h.kind.trans h'.kind, fun use => (h.directives use).trans (h'.directives use),
    fun field => (h.lines field).trans (h'.lines field)⟩

/-- To say the same is to have nothing beside it. -/
theorem beside_empty_iff : TypeEntry.Beside .object {} e1 e2 ↔ e2.Same e1 := by
  have hkind : (if e1.kind = .object then TypeEntry.kind {} else e1.kind) = e1.kind := by
    split
    · rename_i hobject
      exact hobject.symm
    · rfl
  constructor
  · intro h
    exact ⟨h.kind.trans hkind, fun use => (h.directives use).trans (by simp),
      fun field => (h.lines field).trans (Option.none_or ..)⟩
  · intro h
    exact ⟨h.kind.trans hkind.symm, fun use => (h.directives use).trans (by simp),
      fun field => (h.lines field).trans (Option.none_or ..).symm⟩

/-- What stands beside something may say the same in another order. -/
theorem Beside.same {e2' : TypeEntry} (h : TypeEntry.Beside base e e1 e2) (h' : e2.Same e2') :
    TypeEntry.Beside base e e1 e2' where
  kind := h'.kind.symm.trans h.kind
  directives use := (h'.directives use).symm.trans (h.directives use)
  lines field := (h'.lines field).symm.trans (h.lines field)

/-! ### Changes of the second -/

theorem Beside.addDirective (h : TypeEntry.Beside base e e1 e2) (use : String) :
    TypeEntry.Beside base e (e1.addDirective use) (e2.addDirective use) where
  kind := h.kind
  directives other := by
    simp only [TypeEntry.addDirective, mem_addOnce, h.directives, or_assoc]
  lines := h.lines

/-- A kind that is stated counts, if it is not the one that the first overrides. -/
theorem Beside.setKind (h : TypeEntry.Beside base e e1 e2) {kind : Language.TypeKind}
    (hkind : kind = base → e.kind = base) :
    TypeEntry.Beside base e { e1 with kind } { e2 with kind } where
  kind := by
    change kind = if kind = base then e.kind else kind
    split
    · rename_i hbase
      exact hbase.trans (hkind hbase).symm
    · rfl
  directives := h.directives
  lines := h.lines

/-- A line that the first does not have is changed. -/
theorem Beside.updateLine (h : TypeEntry.Beside base e e1 e2) (hnew : e.lines.get? field = none)
    (f : FieldLine → FieldLine) :
    TypeEntry.Beside base e (e1.updateLine field f) (e2.updateLine field f) where
  kind := h.kind
  directives := h.directives
  lines other := by
    have hline : e2.lines.get? field = e1.lines.get? field := by
      rw [h.lines, hnew, Option.none_or]
    simp only [TypeEntry.updateLine, Table.get?_update, h.lines]
    by_cases hother : other = field
    · subst hother
      simp [hnew]
    · simp [hother]

/-- Lines are put in the place of a type of which the first says nothing. -/
theorem beside_lines (hdirectives : e.directives = []) (hlines : ∀ field, e.lines.get? field = none)
    (hkind : Language.TypeKind.object = base → e.kind = base) (lines : Table FieldLine) :
    TypeEntry.Beside base e { lines } { lines } where
  kind := by
    change Language.TypeKind.object = if Language.TypeKind.object = base then e.kind else .object
    split
    · rename_i hbase
      exact hbase.trans (hkind hbase).symm
    · rfl
  directives use := by simp [hdirectives]
  lines field := by simp [hlines]

end TypeEntry

namespace Registry

variable {base : String → Language.TypeKind} {first second both r r' r'' : Registry}
  {type field : String}

theorem Same.refl (r : Registry) : r.Same r := ⟨fun _ => rfl, fun _ => .refl _⟩

theorem Same.symm (h : r.Same r') : r'.Same r :=
  ⟨fun type => (h.has type).symm, fun type => (h.entries type).symm⟩

theorem Same.trans (h : r.Same r') (h' : r'.Same r'') : r.Same r'' :=
  ⟨fun type => (h.has type).trans (h'.has type),
    fun type => (h.entries type).trans (h'.entries type)⟩

theorem Same.line? (h : r.Same r') (type field : String) :
    r.line? type field = r'.line? type field := by
  rw [line?_eq, (h.entries type).lines, line?_eq]

/-- To say the same is to have nothing beside it. -/
theorem beside_nil_iff : Beside (fun _ => .object) [] second both ↔ both.Same second := by
  constructor
  · intro h
    exact ⟨fun type => (h.has type).trans (Bool.false_or _),
      fun type => TypeEntry.beside_empty_iff.mp (h.entries type)⟩
  · intro h
    exact ⟨fun type => (h.has type).trans (Bool.false_or _).symm,
      fun type => TypeEntry.beside_empty_iff.mpr (h.entries type)⟩

theorem Beside.same (h : Beside base first second both) (h' : both.Same r) :
    Beside base first second r where
  has type := (h'.has type).symm.trans (h.has type)
  entries type := (h.entries type).same (h'.entries type)

theorem Beside.line? (h : Beside base first second both) (type field : String) :
    both.line? type field = (first.line? type field).or (second.line? type field) := by
  rw [line?_eq, (h.entries type).lines, line?_eq, line?_eq]

/-- A change of a registry that adds a type, unless it is there, and changes its entry. -/
structure ActsAt (type : String) (g : TypeEntry → TypeEntry) (u : Registry → Registry) : Prop where
  /-- The type is there. -/
  has : ∀ r other, Table.has (u r) other = (Table.has r other || other == type)
  /-- Its entry is changed. -/
  entry : ∀ r other, (u r).entry other = if other = type then g (r.entry type) else r.entry other

theorem actsAt_updateType (type : String) (g : TypeEntry → TypeEntry) :
    ActsAt type g (updateType · type g) where
  has _ _ := Table.has_update ..
  entry _ _ := entry_updateType ..

theorem actsAt_ensureType (type : String) : ActsAt type id (ensureType · type) where
  has _ _ := Table.has_ensure ..
  entry r other := by
    rw [entry_ensureType]
    split
    · rename_i h
      rw [h]
      rfl
    · rfl

theorem actsAt_put (type : String) (e : TypeEntry) :
    ActsAt type (fun _ => e) (Table.put · type e) where
  has r other := by
    rw [Table.has_eq_isSome, Table.get?_put, Table.has_eq_isSome]
    cases other == type <;> simp
  entry _ _ := entry_put ..

/-- What changes an entry alike beside another changes the registry so. -/
theorem ActsAt.beside {g : TypeEntry → TypeEntry} {u : Registry → Registry}
    (hu : ActsAt type g u) (h : Beside base first second both)
    (hg : ∀ {e1 e2}, TypeEntry.Beside (base type) (first.entry type) e1 e2 →
      TypeEntry.Beside (base type) (first.entry type) (g e1) (g e2)) :
    Beside base first (u second) (u both) where
  has other := by rw [hu.has, hu.has, h.has, Bool.or_assoc]
  entries other := by
    rw [hu.entry, hu.entry]
    split
    · rename_i hother
      subst hother
      exact hg (h.entries _)
    · exact h.entries other

theorem Beside.ensureType (h : Beside base first second both) (type : String) :
    Beside base first (second.ensureType type) (both.ensureType type) :=
  (actsAt_ensureType type).beside h id

theorem Beside.addTypeDirective (h : Beside base first second both) (type use : String) :
    Beside base first (second.addTypeDirective type use) (both.addTypeDirective type use) :=
  (actsAt_updateType type (·.addDirective use)).beside h fun he => he.addDirective use

theorem Beside.setKind (h : Beside base first second both) {kind : Language.TypeKind}
    (hkind : kind = base type → (first.entry type).kind = base type) :
    Beside base first (second.setKind type kind) (both.setKind type kind) :=
  (actsAt_updateType type fun e => { e with kind }).beside h fun he => he.setKind hkind

theorem Beside.updateField (h : Beside base first second both)
    (hnew : first.line? type field = none) (f : FieldLine → FieldLine) :
    Beside base first (second.updateField type field f) (both.updateField type field f) :=
  (actsAt_updateType type (·.updateLine field f)).beside h fun he =>
    he.updateLine (line?_eq first type field ▸ hnew) f

theorem Beside.put (h : Beside base first second both)
    (hdirectives : (first.entry type).directives = [])
    (hlines : ∀ field, first.line? type field = none)
    (hkind : (first.entry type).kind = base type) (lines : Table FieldLine) :
    Beside base first (Table.put second type { lines }) (Table.put both type { lines }) :=
  (actsAt_put type { lines }).beside h fun _ => TypeEntry.beside_lines hdirectives
    (fun field => line?_eq first type field ▸ hlines field) (fun _ => hkind) lines

end Registry
end SchemaForge

import SchemaForge.Proofs.Registry.Tidiness
import SchemaForge.Proofs.Registry.Widening

/-!
# What a registry keeps

Declarations come into a registry one by one, through eight operations, and everything that
merges declarations relies on nothing being lost. An operation keeps the types, their lines, the
signatures of their arguments and the directives that were there, each in the order in which they
stood, whether it succeeds or stops half-way. What it may take out or overwrite all the same is a
value of `Losses`: a kind or a return type that is set, and for the filters of a field entries of
their own condition input, and an order enum without values with the argument that it was for.
What an operation keeps is a `Retains` with its losses, and that lists stay without repetitions is
`Tidy`; both come together in **`retains_operation`**.
-/
namespace SchemaForge

open Language

/-! ### Tables -/

namespace Table

variable {α : Type} {lost lost' : String → Prop} {R R' : String → α → α → Prop} {t t' t'' : Table α}
  {key : String} {x : α} {f : α → α}

/-- One table goes over into another: but for some names that may be lost, its names stay in
their order, and its entries stay or change in some way. -/
structure Retains (lost : String → Prop) (R : String → α → α → Prop) (t t' : Table α) : Prop where
  /-- Names stay in their order. -/
  order : ∀ names, List.Sublist names t.keys → (∀ n ∈ names, ¬lost n) →
    List.Sublist names t'.keys
  /-- Entries stay. -/
  entry : ∀ n x, ¬lost n → t.get? n = some x → ∃ y, t'.get? n = some y ∧ R n x y

theorem Retains.trans (hR : ∀ n x y z, R n x y → R n y z → R n x z) (h : Retains lost R t t')
    (h' : Retains lost R t' t'') : Retains lost R t t'' where
  order names hnames hlost := h'.order names (h.order names hnames hlost) hlost
  entry n x hn hx := by
    obtain ⟨y, hy, hxy⟩ := h.entry n x hn hx
    obtain ⟨z, hz, hyz⟩ := h'.entry n y hn hy
    exact ⟨z, hz, hR n x y z hxy hyz⟩

/-- Losses only count for what is there. -/
theorem Retains.mono (h : Retains lost R t t')
    (hlost : ∀ n, has t n = true → lost n → lost' n)
    (hR : ∀ n x y, t.get? n = some x → R n x y → R' n x y) : Retains lost' R' t t' where
  order names hnames hkept := by
    refine h.order names hnames fun n hn hloss => hkept n hn (hlost n ?_ hloss)
    exact (mem_keys_iff t n).mp (hnames.subset hn)
  entry n x hn hx := by
    have hhas : has t n = true := by rw [has_eq_isSome, hx]; rfl
    obtain ⟨y, hy, hxy⟩ := h.entry n x (fun hloss => hn (hlost n hhas hloss)) hx
    exact ⟨y, hy, hR n x y hx hxy⟩

section

variable (hR : ∀ n x, R n x x)

include hR

theorem Retains.refl (t : Table α) : Retains lost R t t where
  order _ hnames _ := hnames
  entry n x _ hx := ⟨x, hx, hR n x⟩

theorem retains_ensure (t : Table α) (key : String) (x : α) :
    Retains lost R t (ensure t key x) where
  order names hnames _ := by
    refine hnames.trans ?_
    rw [keys_ensure]
    split
    · exact List.Sublist.refl _
    · exact List.sublist_append_left ..
  entry n y _ hy := by
    refine ⟨y, ?_, hR n y⟩
    rw [get?_ensure, hy, Option.some_or]

theorem retains_modify (hf : ∀ x, t.get? key = some x → R key x (f x)) :
    Retains lost R t (modify t key f) where
  order names hnames _ := by rwa [keys_modify]
  entry n x _ hx := by
    rw [get?_modify, hx]
    by_cases hn : n = key
    · subst hn
      exact ⟨f x, by simp, hf x hx⟩
    · exact ⟨x, by simp [hn], hR n x⟩

theorem retains_update (start : α) (hf : ∀ x, t.get? key = some x → R key x (f x)) :
    Retains lost R t (update t key start f) where
  order names hnames hkept := by
    have hensure : Retains lost R t (ensure t key start) := retains_ensure hR t key start
    rw [update, keys_modify]
    exact hensure.order names hnames hkept
  entry n x _ hx := by
    rw [get?_update, hx]
    by_cases hn : n = key
    · subst hn
      exact ⟨f x, by simp [hx], hf x hx⟩
    · exact ⟨x, by simp [hn], hR n x⟩

theorem retains_erase (hlost : lost key) (t : Table α) : Retains lost R t (erase t key) where
  order names hnames hkept := by
    have hall : names.filter (· != key) = names := by
      refine List.filter_eq_self.mpr fun n hn => ?_
      rw [bne_iff_ne]
      rintro rfl
      exact hkept n hn hlost
    have hkeys : keys (erase t key) = (keys t).filter (· != key) := by
      rw [keys, keys, erase, List.filter_map]
      rfl
    rw [← hall, hkeys]
    exact hnames.filter _
  entry n x hn hx := by
    refine ⟨x, ?_, hR n x⟩
    rw [get?_erase, if_neg (by simpa using fun (heq : n = key) => hn (heq ▸ hlost)), hx]

end

end Table

theorem sublist_addOnce (xs : List String) (x : String) : xs.Sublist (addOnce xs x) := by
  rw [addOnce]
  split
  · exact List.Sublist.refl _
  · exact List.sublist_append_left ..

/-! ### Losses -/

/-- What may be taken out of a registry or overwritten in it. -/
structure Losses where
  /-- Types that may be taken out. -/
  types : String → Prop := fun _ => False
  /-- Types whose kind may be set. -/
  kinds : String → Prop := fun _ => False
  /-- Lines of types that may be taken out. -/
  lines : String → String → Prop := fun _ _ => False
  /-- Lines of types whose return type may be set. -/
  signatures : String → String → Prop := fun _ _ => False
  /-- Arguments of lines of types that may be taken out. -/
  arguments : String → String → String → Prop := fun _ _ _ => False

variable {L L' : Losses} {type field : String}

/-- A line keeps its directives and the signatures of its arguments. -/
structure FieldLine.Retains (L : Losses) (type field : String) (l l' : FieldLine) : Prop where
  /-- Its return type stays. -/
  signature : ¬L.signatures type field → l'.type = l.type
  /-- Its directives stay in their order. -/
  directives : l.directives.Sublist l'.directives
  /-- Its arguments stay in their order, each with its signatures in theirs. -/
  arguments : l.arguments.Retains (L.arguments type field)
    (fun _ declared declared' => declared.Sublist declared') l'.arguments

/-- A type keeps its directives and its lines. -/
structure TypeEntry.Retains (L : Losses) (type : String) (e e' : TypeEntry) : Prop where
  /-- Its kind stays. -/
  kind : ¬L.kinds type → e'.kind = e.kind
  /-- Its directives stay in their order. -/
  directives : e.directives.Sublist e'.directives
  /-- Its lines stay in their order. -/
  lines : e.lines.Retains (L.lines type) (FieldLine.Retains L type) e'.lines

/-- A registry keeps its types in their order. -/
def Registry.Retains (L : Losses) (r r' : Registry) : Prop :=
  Table.Retains L.types (TypeEntry.Retains L) r r'

namespace FieldLine

variable {l l' l'' : FieldLine}

theorem Retains.refl (l : FieldLine) : l.Retains L type field l where
  signature _ := rfl
  directives := List.Sublist.refl _
  arguments := .refl (fun _ => List.Sublist.refl) _

theorem Retains.trans (h : l.Retains L type field l') (h' : l'.Retains L type field l'') :
    l.Retains L type field l'' where
  signature hkept := (h'.signature hkept).trans (h.signature hkept)
  directives := h.directives.trans h'.directives
  arguments := h.arguments.trans (fun _ _ _ _ => List.Sublist.trans) h'.arguments

theorem Retains.mono (h : l.Retains L type field l')
    (hsignatures : L.signatures type field → L'.signatures type field)
    (harguments : ∀ a, L.arguments type field a → L'.arguments type field a) :
    l.Retains L' type field l' where
  signature hkept := h.signature (mt hsignatures hkept)
  directives := h.directives
  arguments := h.arguments.mono (fun a _ => harguments a) fun _ _ _ _ => id

theorem retains_addDirective (l : FieldLine) (use : String) :
    l.Retains L type field (l.addDirective use) where
  signature _ := rfl
  directives := sublist_addOnce l.directives use
  arguments := .refl (fun _ => List.Sublist.refl) _

theorem retains_addArgument (l : FieldLine) (argument signature : String) :
    l.Retains L type field (l.addArgument argument signature) where
  signature _ := rfl
  directives := List.Sublist.refl _
  arguments := Table.retains_update (fun _ => List.Sublist.refl) [] fun _ _ => sublist_addOnce _ _

theorem retains_addFetchArguments (l : FieldLine) (owner name : String) (isList : Bool) :
    l.Retains L type field (Registry.addFetchArguments l owner name isList) := by
  rw [Registry.addFetchArguments]
  induction Registry.fetchArguments owner name isList generalizing l with
  | nil => exact .refl l
  | cons a args ih => exact (retains_addArgument l a.1 a.2).trans (ih _)

end FieldLine

namespace TypeEntry

variable {e e' e'' : TypeEntry}

theorem Retains.refl (e : TypeEntry) : e.Retains L type e where
  kind _ := rfl
  directives := List.Sublist.refl _
  lines := .refl (fun _ => .refl) _

theorem Retains.trans (h : e.Retains L type e') (h' : e'.Retains L type e'') :
    e.Retains L type e'' where
  kind hkept := (h'.kind hkept).trans (h.kind hkept)
  directives := h.directives.trans h'.directives
  lines := h.lines.trans (fun _ _ _ _ => .trans) h'.lines

/-- A type whose lines stay. -/
theorem retains_lines {lines : Table FieldLine}
    (h : e.lines.Retains (L.lines type) (FieldLine.Retains L type) lines) :
    e.Retains L type { e with lines } where
  kind _ := rfl
  directives := List.Sublist.refl _
  lines := h

theorem retains_updateLine {f : FieldLine → FieldLine}
    (hf : ∀ l, e.lines.get? field = some l → l.Retains L type field (f l)) :
    e.Retains L type (e.updateLine field f) :=
  retains_lines (Table.retains_update (fun _ => .refl) {} hf)

theorem retains_addDirective (e : TypeEntry) (use : String) :
    e.Retains L type (e.addDirective use) where
  kind _ := rfl
  directives := sublist_addOnce e.directives use
  lines := .refl (fun _ => .refl) _

end TypeEntry

namespace Registry

variable {r r' r'' : Registry}

theorem Retains.refl (r : Registry) : r.Retains L r :=
  Table.Retains.refl (fun _ => TypeEntry.Retains.refl) r

theorem Retains.trans (h : r.Retains L r') (h' : r'.Retains L r'') : r.Retains L r'' :=
  Table.Retains.trans (fun _ _ _ _ => .trans) h h'

/-- Losses only count for types and lines that are there. -/
theorem Retains.mono (h : r.Retains L r') (htypes : ∀ n, L.types n → L'.types n)
    (hkinds : ∀ n, L.kinds n → L'.kinds n)
    (hlines : ∀ n key, (r.line? n key).isSome = true → L.lines n key → L'.lines n key)
    (hsignatures : ∀ n key, (r.line? n key).isSome = true →
      L.signatures n key → L'.signatures n key)
    (harguments : ∀ n key a, L.arguments n key a → L'.arguments n key a) : r.Retains L' r' := by
  refine Table.Retains.mono h (fun n _ => htypes n) fun n e e' he hretains => ?_
  have hline : ∀ key, r.line? n key = e.lines.get? key := by
    intro key
    rw [line?, he, Option.bind_some]
  refine ⟨fun hkept => hretains.kind (mt (hkinds n) hkept), hretains.directives,
    hretains.lines.mono (fun key hkey => hlines n key ?_) fun key l l' hl hretained => ?_⟩
  · rwa [hline, ← Table.has_eq_isSome]
  · exact hretained.mono (hsignatures n key (by rw [hline, hl]; rfl)) (harguments n key)

/-- A type that is there and may not be taken out stays. -/
theorem Retains.line? (h : r.Retains L r') {l : FieldLine} (hl : r.line? type field = some l)
    (htype : ¬L.types type) (hline : ¬L.lines type field) :
    ∃ l', r'.line? type field = some l' ∧ l.Retains L type field l' := by
  obtain ⟨e, he, hl⟩ := Option.bind_eq_some_iff.mp hl
  obtain ⟨e', he', hretains⟩ := h.entry type e htype he
  obtain ⟨l', hl', hretained⟩ := hretains.lines.entry field l hline hl
  refine ⟨l', ?_, hretained⟩
  rw [Registry.line?, he', Option.bind_some, hl']

/-! ### Single changes -/

theorem retains_updateType (r : Registry) {f : TypeEntry → TypeEntry}
    (hf : ∀ e, Table.get? r type = some e → e.Retains L type (f e)) :
    r.Retains L (updateType r type f) :=
  Table.retains_update (fun _ => TypeEntry.Retains.refl) {} hf

theorem retains_ensureType (r : Registry) (type : String) : r.Retains L (ensureType r type) :=
  Table.retains_ensure (fun _ => TypeEntry.Retains.refl) r type {}

theorem retains_setKind (r : Registry) (h : L.kinds type) (kind : TypeKind) :
    r.Retains L (setKind r type kind) :=
  retains_updateType r fun _ _ =>
    ⟨fun hkept => (hkept h).elim, List.Sublist.refl _, .refl (fun _ => .refl) _⟩

theorem retains_updateField (r : Registry) {f : FieldLine → FieldLine}
    (hf : ∀ l : FieldLine, l.Retains L type field (f l)) : r.Retains L (updateField r type field f) :=
  retains_updateType r fun _ _ => TypeEntry.retains_updateLine fun l _ => hf l

theorem retains_ensureField (r : Registry) (type field : String) :
    r.Retains L (ensureField r type field) := retains_updateField r .refl

theorem retains_setFieldType (r : Registry) (h : L.signatures type field) (signature : String) :
    r.Retains L (setFieldType r type field signature) :=
  retains_updateField r fun _ =>
    ⟨fun hkept => (hkept h).elim, List.Sublist.refl _, .refl (fun _ => List.Sublist.refl) _⟩

theorem retains_deleteField (r : Registry) (h : L.lines type field) :
    r.Retains L (deleteField r type field) :=
  Table.retains_modify (fun _ => TypeEntry.Retains.refl) fun _ _ =>
    TypeEntry.retains_lines (Table.retains_erase (fun _ => .refl) h _)

/-- An order enum is dropped with the argument that it was for. -/
theorem retains_dropEmptyOrder (r : Registry) {orderEnum : String}
    (htype : r.isPopulated orderEnum = false → L.types orderEnum)
    (hargument : r.isPopulated orderEnum = false → L.arguments type field "order") :
    r.Retains L (dropEmptyOrder r type field orderEnum) := by
  rw [dropEmptyOrder]
  split
  · exact .refl r
  · have hempty : r.isPopulated orderEnum = false := eq_false_of_ne_true ‹_›
    refine Retains.trans (Table.retains_erase (fun _ => .refl) (htype hempty) r) ?_
    refine Table.retains_modify (fun _ => .refl) fun e _ => TypeEntry.retains_lines ?_
    refine Table.retains_modify (fun _ => .refl) fun l _ => ?_
    exact ⟨fun _ => rfl, List.Sublist.refl _,
      Table.retains_erase (fun _ => List.Sublist.refl) (hargument hempty) _⟩

/-! ### Filters -/

/-- A signature gives nothing to filter by, or names the condition input itself, whose entries
change while it is filled. -/
def Unfilterable (r : Registry) (whereInput signature : String) : Prop :=
  filterKind? r signature = .ok none ∨ Signature.withoutEndMarks signature = whereInput

/-- What the filters of a field may take out or overwrite: in its condition input, the entries for
lines of the returned type that cannot be filtered, and the types of the others; if the order enum
is dropped, this and the argument that it was for. Only derived types without lines are begun. -/
def filterLosses (r : Registry) (type field returned : String) (isList : Bool) (dropped : Prop) :
    Losses where
  types n := dropped ∧ n = orderEnumName type field
  kinds n := (n = whereInputName type field ∧ r.isPopulated n = false)
    ∨ n = orderEnumName type field ∧ isList = true ∧ r.isPopulated n = false
  lines n key := n = whereInputName type field
    ∧ ∃ l, r.line? returned key = some l ∧ r.Unfilterable n l.type
  signatures n key := n = whereInputName type field ∧ (r.line? returned key).isSome = true
  arguments n key a := dropped ∧ n = type ∧ key = field ∧ a = "order"

/-- The losses, and all lines that a registry does not have. -/
def besides (r : Registry) (L : Losses) : Losses where
  types := L.types
  kinds := L.kinds
  lines n key := r.line? n key = none ∨ L.lines n key
  signatures n key := r.line? n key = none ∨ L.signatures n key
  arguments := L.arguments

/-- What a registry does not have it does not lose. -/
theorem Retains.of_besides (h : r.Retains (r.besides L) r') : r.Retains L r' := by
  have hthere : ∀ {n key}, (r.line? n key).isSome = true → r.line? n key ≠ none := by
    intro n key hsome hnone
    rw [hnone] at hsome
    cases hsome
  exact h.mono (fun _ => id) (fun _ => id) (fun _ _ hsome hl => hl.resolve_left (hthere hsome))
    (fun _ _ hsome hl => hl.resolve_left (hthere hsome)) fun _ _ _ => id

variable {returned : String} {isList : Bool} {dropped : Prop}

/-- While the derived types of a field are filled, everything else stays, and so does what
other types are filtered by. -/
structure Fills (r : Registry) (type field returned : String) (isList : Bool) (dropped : Prop)
    (r' : Registry) : Prop where
  /-- Everything else stays. -/
  retains : r.Retains (r.besides (r.filterLosses type field returned isList dropped)) r'
  /-- The types of identifiers stay. -/
  identifier : ∀ n, n ≠ whereInputName type field →
    (r'.line? n "id").map (·.type) = (r.line? n "id").map (·.type)

namespace Fills

theorem start (r : Registry) : r.Fills type field returned isList dropped r := ⟨.refl r, fun _ _ => rfl⟩

variable (h : r.Fills type field returned isList dropped r')

include h

/-- A change of one line that is no identifier, or one of the condition input. -/
theorem updateField {name key : String} {f : FieldLine → FieldLine}
    (hname : name = whereInputName type field ∨ key ≠ "id")
    (hf : ∀ l : FieldLine, l.Retains
      (r.besides (r.filterLosses type field returned isList dropped)) name key (f l)) :
    r.Fills type field returned isList dropped (updateField r' name key f) where
  retains := h.retains.trans (retains_updateField r' hf)
  identifier n hn := by
    rw [← h.identifier n hn, line?_eq, line?_eq, Registry.updateField, entry_updateType]
    split
    · rename_i heq
      have hkey : key ≠ "id" := hname.resolve_left fun hw => hn (heq.trans hw)
      rw [TypeEntry.updateLine, Table.get?_update, if_neg (by simpa using hkey.symm), heq]
    · rfl

/-- A type whose kind may be set gets one. -/
theorem setKind {name : String}
    (hname : (r.besides (r.filterLosses type field returned isList dropped)).kinds name)
    (kind : TypeKind) :
    r.Fills type field returned isList dropped (setKind r' name kind) where
  retains := h.retains.trans (retains_setKind r' hname kind)
  identifier n hn := by
    rw [← h.identifier n hn, line?_eq, line?_eq, Registry.setKind, entry_updateType]
    split
    · rename_i heq
      rw [heq]
    · rfl

/-- A line of the condition input gets a type. -/
theorem setFieldType {key : String}
    (hkey : r.line? (whereInputName type field) key = none ∨ (r.line? returned key).isSome = true)
    (signature : String) : r.Fills type field returned isList dropped
      (setFieldType r' (whereInputName type field) key signature) := by
  refine h.updateField (.inl rfl) fun l => ?_
  exact ⟨fun hkept => (hkept (hkey.imp id fun hreturned => ⟨rfl, hreturned⟩)).elim,
    List.Sublist.refl _, .refl (fun _ => List.Sublist.refl) _⟩

theorem ensureOperatorInput {kind : String} (hkind : kind ∈ filterableTypes) :
    r.Fills type field returned isList dropped (ensureOperatorInput r' kind) where
  retains := h.retains.trans (Table.retains_ensure (fun _ => TypeEntry.Retains.refl) r' _ _)
  identifier n hn := by
    have hid : Table.get? (operatorLines kind) "id" = none := by
      rw [Table.get?_eq_none_iff]
      revert kind
      decide
    rw [← h.identifier n hn, line?, Registry.ensureOperatorInput, Table.get?_ensure, line?]
    cases Table.get? r' n with
    | some e => rfl
    | none =>
      rw [Option.none_or]
      split
      · simp [hid]
      · rfl

end Fills

/-- A line that filters are written for is one of the returned type, or there is nothing to lose. -/
def OfReturned (r : Registry) (whereInput returned key signature : String) : Prop :=
  r.line? whereInput key = none ∨ ∃ l, r.line? returned key = some l ∧ l.type = signature

/-- **Filling the derived types of a field keeps everything else.** -/
theorem keptByFilling_fills (r : Registry) : KeptByFilling
    (r.Fills type field returned isList dropped) type field returned
    (r.OfReturned (whereInputName type field) returned) where
  entry s key signature kind hline hkind h := by
    refine (h.ensureOperatorInput (mem_filterableTypes hkind)).setFieldType ?_ _
    refine hline.imp id fun hreturned => ?_
    obtain ⟨l, hl, -⟩ := hreturned
    rw [hl]
    rfl
  delete s key signature hline hnone h := by
    refine ⟨h.retains.trans (retains_deleteField s ?_), fun n hn => ?_⟩
    · refine hline.imp id fun hreturned => ?_
      obtain ⟨l, hl, rfl⟩ := hreturned
      refine ⟨rfl, l, hl, ?_⟩
      by_cases hself : Signature.withoutEndMarks l.type = whereInputName type field
      · exact .inr hself
      · exact .inl (filterKind?_congr (h.identifier _ hself) ▸ hnone)
    · rw [← h.identifier n hn, line?, deleteField, Table.get?_modify, if_neg (by simpa using hn),
        line?]
  values s key signature _ _ h := by
    refine addOrderValues_of_value (fun s d hd h => h.updateField (.inr ?_) fun l => .refl l) s h
    intro hid
    have hlength := congrArg String.length hid
    have hdirection : ∀ d ∈ directions, 3 ≤ d.length := by decide
    have hlong := hdirection d hd
    rw [String.length_append, String.length_append, show "_".length = 1 from rfl,
      show "id".length = 2 from rfl] at hlength
    omega

/-- A type has lines exactly if some line is found. -/
theorem isPopulated_iff_line? :
    r.isPopulated type = true ↔ ∃ key l, r.line? type key = some l := by
  simp only [isPopulated, line?]
  cases Table.get? r type with
  | none => simp
  | some e =>
    cases hlines : e.lines with
    | nil => simp [hlines]
    | cons l ls =>
      simp only [hlines, List.isEmpty_cons, Bool.not_false, true_iff, Option.bind_some]
      exact ⟨l.1, l.2, by rw [Table.get?_cons, if_pos (beq_self_eq_true _)]⟩

theorem line?_of_isPopulated (h : r.isPopulated type = false) (key : String) :
    r.line? type key = none := by
  cases hline : r.line? type key with
  | none => rfl
  | some l =>
    rw [isPopulated_iff_line?.mpr ⟨key, l, hline⟩] at h
    cases h

/-- A type that keeps its lines keeps having some. -/
theorem Retains.isPopulated (h : r.Retains L r') (htype : ¬L.types type)
    (hlines : ∀ key, ¬L.lines type key) (hpopulated : r.isPopulated type = true) :
    r'.isPopulated type = true := by
  obtain ⟨key, l, hl⟩ := isPopulated_iff_line?.mp hpopulated
  obtain ⟨l', hl', -⟩ := h.line? hl htype (hlines key)
  exact isPopulated_iff_line?.mpr ⟨key, l', hl'⟩

/-- What is begun for a field keeps everything else. -/
theorem fills_opened (r : Registry) (type field returned : String) (isList : Bool)
    (dropped : Prop) : r.Fills type field returned isList dropped (r.opened type field isList) := by
  refine opened_induction (P := r.Fills type field returned isList dropped) (.start r)
    (fun hempty => ?_) fun hlist hempty s h => h.setKind (.inr ⟨rfl, hlist, hempty⟩) .enum
  rw [startWhereInput, connectives, List.foldl_cons, List.foldl_cons, List.foldl_nil]
  have hnew := fun key => Or.inl (b := (r.line? returned key).isSome = true)
    (line?_of_isPopulated hempty key)
  exact (((Fills.start r).setKind (.inl ⟨rfl, hempty⟩) .input).setFieldType (hnew "and") _).setFieldType
    (hnew "or") _

/-- The lines that filters are written for, when their derived types are begun. -/
theorem ofReturned_opened (hr : (Table.keys (r.entry returned).lines).Nodup) :
    ∀ l ∈ ((r.opened type field isList).entry returned).lines,
      r.OfReturned (whereInputName type field) returned l.1 l.2.type := by
  refine opened_induction (P := fun s => ∀ l ∈ (s.entry returned).lines,
    r.OfReturned (whereInputName type field) returned l.1 l.2.type) (fun l hl => ?_)
    (fun hempty l hl => ?_) fun _ _ s hs l hl => ?_
  · refine .inr ⟨l.2, ?_, rfl⟩
    rw [line?_eq]
    exact Table.get?_of_mem hr hl
  · by_cases hself : returned = whereInputName type field
    · exact .inl (line?_of_isPopulated hempty l.1)
    · refine .inr ⟨l.2, ?_, rfl⟩
      rw [startWhereInput, connectives, List.foldl_cons, List.foldl_cons, List.foldl_nil, setFieldType,
        setFieldType, setKind, updateField, updateField, entry_updateType, if_neg hself,
        entry_updateType, if_neg hself, entry_updateType, if_neg hself] at hl
      rw [line?_eq]
      exact Table.get?_of_mem hr hl
  · refine hs l ?_
    rw [setKind, entry_updateType] at hl
    split at hl
    · rename_i heq
      exact heq ▸ hl
    · exact hl

/-! ### Operations -/

/-- **The filters of a field keep everything else**, as far as they get. The order enum goes only
if it had no lines, and the argument that it was for only with it. -/
theorem retains_addFilters (hr : r.Tidy) (type field returned : String) (isList : Bool) :
    r.Retains (r.filterLosses type field returned isList (isList = true
        ∧ r.isPopulated (orderEnumName type field) = false
        ∧ Table.has (addFilters type field returned isList r).2 (orderEnumName type field) = false))
      (addFilters type field returned isList r).2 := by
  have hkept : ∀ {s} (dropped : Prop), r.Fills type field returned isList False s →
      r.Retains (r.filterLosses type field returned isList dropped) s := by
    intro s dropped h
    exact h.retains.of_besides.mono (fun _ hn => hn.1.elim) (fun _ => id) (fun _ _ _ => id)
      (fun _ _ _ => id) fun _ _ _ hn => hn.1.elim
  rw [addFilters_apply]
  split
  · exact .refl r
  · refine fillOpened_induction (J := fun s => r.Retains (r.filterLosses type field returned isList
      (isList = true ∧ r.isPopulated (orderEnumName type field) = false
        ∧ Table.has s (orderEnumName type field) = false)) s)
      (keptByFilling_fills r) (fun s => hkept _) (fun hlist s h => ?_)
      (ofReturned_opened (hr.entry returned).names) (fills_opened r type field returned isList False)
    have hdropped : s.isPopulated (orderEnumName type field) = false → isList = true
        ∧ r.isPopulated (orderEnumName type field) = false
        ∧ Table.has (dropEmptyOrder s type field (orderEnumName type field))
          (orderEnumName type field) = false := by
      intro hempty
      refine ⟨hlist, ?_, ?_⟩
      · rw [← Bool.not_eq_true]
        intro hpopulated
        have hstays := h.retains.of_besides.isPopulated (fun hn => hn.1)
          (fun key hn => whereInputName_ne_orderEnumName type field hn.1.symm) hpopulated
        rw [hempty] at hstays
        cases hstays
      · rw [dropEmptyOrder, hempty, if_neg Bool.false_ne_true, Table.has_eq_isSome,
          Table.get?_modify, Table.get?_erase]
        simp
    exact (hkept _ h).trans (retains_dropEmptyOrder s (fun hempty => ⟨hdropped hempty, rfl⟩)
      fun hempty => ⟨hdropped hempty, rfl, rfl, rfl⟩)

/-- An operation on a registry. -/
inductive Operation where
  /-- A type is there. -/
  | ensureType (type : String)
  /-- A type gets a kind, by its word. -/
  | create (kind type : String)
  /-- A line is there, and perhaps gets a return type. -/
  | ensureField (type field : String) (signature? : Option String)
  /-- A directive is used on a type. -/
  | typeDirective (type use : String)
  /-- A directive is used on a line. -/
  | fieldDirective (type field use : String)
  /-- An argument of a line is declared. -/
  | argument (type field name signature : String)
  /-- A line gets the arguments of a field that is fetched from a store, under the names that
  are derived for some field. -/
  | fetchArguments (type field owner name : String) (isList : Bool)
  /-- The filters of a field are written. -/
  | filters (type field returned : String) (isList : Bool)

namespace Operation

/-- What an operation does. -/
def run : Operation → Edit Unit
  | ensureType type => modify (Registry.ensureType · type)
  | create kind type => do set (← Registry.create (← get) kind type)
  | ensureField type field none => modify (Registry.ensureField · type field)
  | ensureField type field (some signature) => modify (setFieldType · type field signature)
  | typeDirective type use => modify (addTypeDirective · type use)
  | fieldDirective type field use => modify (addFieldDirective · type field use)
  | argument type field name signature => modify (addArgument · type field name signature)
  | fetchArguments type field owner name isList =>
    modify (updateField · type field (addFetchArguments · owner name isList))
  | filters type field returned isList => addFilters type field returned isList

/-- What an operation may take out or overwrite, by the registries before it and after it. -/
def losses (r r' : Registry) : Operation → Losses
  | create _ type => { kinds := (· = type) }
  | ensureField type field (some _) => { signatures := fun n key => n = type ∧ key = field }
  | filters type field returned isList => r.filterLosses type field returned isList
      (isList = true ∧ r.isPopulated (orderEnumName type field) = false
        ∧ Table.has r' (orderEnumName type field) = false)
  | _ => {}

/-- What is there after some operations, failed ones included. -/
def after (r : Registry) (ops : List Operation) : Registry :=
  ops.foldl (fun r op => (op.run r).2) r

/-- An operation that gives a type a kind fails if the word is none for a kind, and then changes
nothing. -/
theorem run_create (r : Registry) (kind type : String) :
    ((create kind type).run r).2 = ((Parser.kindOf? kind).map (setKind r type)).getD r := by
  rw [run, Run.bind_of_ok (Run.get_apply r), Registry.create]
  cases Parser.kindOf? kind <;> rfl

theorem tidy_run (op : Operation) (hr : r.Tidy) : (op.run r).2.Tidy := by
  cases op with
  | ensureType type => exact hr.ensure TypeEntry.tidy_empty type
  | create kind type =>
    rw [run_create]
    cases Parser.kindOf? kind with
    | none => exact hr
    | some k => exact hr.setKind type k
  | ensureField type field signature? =>
    cases signature? with
    | none => exact hr.updateField fun _ => id
    | some signature => exact hr.setFieldType type field signature
  | typeDirective type use => exact hr.updateType fun _ he => he.addDirective use
  | fieldDirective type field use => exact hr.updateField fun _ hl => hl.addDirective use
  | argument type field name signature =>
    exact hr.updateField fun _ hl => hl.addArgument name signature
  | fetchArguments type field owner name isList =>
    exact hr.updateField fun _ hl => hl.addFetchArguments owner name isList
  | filters type field returned isList =>
    exact reaches_addFilters (keptByFilters_tidy type field returned) (fun _ _ _ _ => trivial)
      isList r hr

theorem tidy_after (hr : r.Tidy) (ops : List Operation) : (after r ops).Tidy := by
  induction ops generalizing r with
  | nil => exact hr
  | cons op ops ih => exact ih (tidy_run op hr)

theorem retains_run (op : Operation) (hr : r.Tidy) :
    r.Retains (op.losses r (op.run r).2) (op.run r).2 := by
  cases op with
  | ensureType type => exact retains_ensureType r type
  | create kind type =>
    rw [run_create]
    cases Parser.kindOf? kind with
    | none => exact .refl r
    | some k => exact retains_setKind r rfl k
  | ensureField type field signature? =>
    cases signature? with
    | none => exact retains_ensureField r type field
    | some signature =>
      have hloss : (losses r (setFieldType r type field signature)
          (ensureField type field (some signature))).signatures type field := ⟨rfl, rfl⟩
      exact retains_setFieldType r hloss signature
  | typeDirective type use => exact retains_updateType r fun e _ => e.retains_addDirective use
  | fieldDirective type field use => exact retains_updateField r fun l => l.retains_addDirective use
  | argument type field name signature =>
    exact retains_updateField r fun l => l.retains_addArgument name signature
  | fetchArguments type field owner name isList =>
    exact retains_updateField r fun l => l.retains_addFetchArguments owner name isList
  | filters type field returned isList => exact retains_addFilters hr type field returned isList

/-- **After all operations on an empty registry, failed ones included, nothing is listed twice and
arguments that choose a page have defaults; and the next operation keeps everything**, in its
order, but for its losses. -/
theorem retains_operation (ops : List Operation) (op : Operation) :
    (after [] ops).Tidy ∧ Retains (op.losses (after [] ops) (op.run (after [] ops)).2)
      (after [] ops) (op.run (after [] ops)).2 :=
  have htidy := tidy_after tidy_nil ops
  ⟨htidy, retains_run op htidy⟩

end Operation
end Registry
end SchemaForge

import SchemaForge.Proofs.Execution.Rows

/-!
# Pages of a list

A list that is fetched from the store comes in pages. Without hooks a page is a window of one
list of rows, which depends on the parent, the condition and the order alone: the rows of the
model that satisfy what is asked for, each once. Pages of one length that follow each other are
that list in pieces, and after its end they are empty.
-/
namespace SchemaForge

/-! ### Windows in turn -/

/-- The part of a list on a page of some length. Pages count from zero. -/
def pageOf {α : Type} (length page : Nat) (xs : List α) : List α :=
  (xs.drop (page * length)).take length

section

variable {α : Type} {length : Nat} (xs : List α)

/-- The first pages one after the other are the beginning of the list. -/
theorem flatMap_pageOf (count : Nat) :
    (List.range count).flatMap (fun page => pageOf length page xs) = xs.take (count * length) := by
  induction count with
  | zero => rw [Nat.zero_mul, List.take_zero, List.range_zero, List.flatMap_nil]
  | succ count ih =>
    rw [List.range_succ, List.flatMap_append, ih, List.flatMap_singleton, pageOf, Nat.succ_mul,
      List.take_add]

/-- A page is empty exactly if the list ends before it. -/
theorem pageOf_eq_nil_iff (hlength : 0 < length) {page : Nat} :
    pageOf length page xs = [] ↔ xs.length ≤ page * length := by
  rw [pageOf, List.take_eq_nil_iff, List.drop_eq_nil_iff]
  exact or_iff_right (by omega)

/-- After an empty page there are only empty ones, and those before it are the whole list. -/
theorem pages_end (hlength : 0 < length) {count : Nat} (h : pageOf length count xs = []) :
    (∀ page, count ≤ page → pageOf length page xs = [])
      ∧ (List.range count).flatMap (fun page => pageOf length page xs) = xs := by
  have hend := (pageOf_eq_nil_iff xs hlength).mp h
  refine ⟨fun page hpage => (pageOf_eq_nil_iff xs hlength).mpr ?_, ?_⟩
  · exact Nat.le_trans hend (Nat.mul_le_mul_right length hpage)
  · rw [flatMap_pageOf, List.take_of_length_le hend]

/-- There is such a page. -/
theorem exists_pageOf_eq_nil (hlength : 0 < length) : ∃ count, pageOf length count xs = [] :=
  ⟨xs.length, (pageOf_eq_nil_iff xs hlength).mpr (Nat.le_mul_of_pos_right _ hlength)⟩

end

namespace Store

variable (s : Store)

/-- Rows differ in their places. -/
theorem nodup_places (model : String) : ((s.rows model).map Prod.fst).Nodup := by
  have hplaces : (s.rows model).map Prod.fst
      = ((Table.get? s model).getD []).zipIdx.map Prod.snd := by
    rw [rows, List.map_map]
    rfl
  rw [hplaces, List.zipIdx_map_snd]
  exact List.nodup_range'

/-- A statement finds the rows of its model that satisfy all clauses, each once. -/
theorem matching_perm_rows (q : Select) : (s.matching q).Perm
    ((s.rows q.model.name).filter fun r => q.clauses.all (·.selects r.2)) :=
  (s.matching_perm q).trans ((s.scan_perm q.model).filter _)

/-- Rows that were inserted by key are scanned as they were inserted. -/
theorem scan_of_sorted {m : Model} {c : Column} (hkey : scanKey? m = some c)
    (h : (s.rows m.name).Pairwise fun a b =>
      ((OrderTerm.compareBy ⟨⟨m.table, c⟩, false⟩ a.2 b.2).isLE : Bool)) :
    s.scan m = s.rows m.name := by
  rw [scan, hkey]
  exact List.mergeSort_of_pairwise h

/-- Rows that are scanned in the order stay as they are. -/
theorem matching_of_sorted {q : Select}
    (h : ((s.scan q.model).filter fun r => q.clauses.all (·.selects r.2)).Pairwise fun a b =>
      ((OrderTerm.compareRows q.order a.2 b.2).isLE : Bool)) :
    s.matching q = (s.scan q.model).filter fun r => q.clauses.all (·.selects r.2) := by
  rw [matching]
  split
  · rfl
  · exact List.mergeSort_of_pairwise h

end Store

namespace Fetch

variable {scene : Scene} {f : Fetch} {source : Value} {arguments : Fields}

/-! ### What is asked for -/

/-- A number as an argument; none is null, as if it were left out. -/
def asked : Option Int → Value
  | some n => .int n
  | none => .null

/-- The number that is meant by an argument: null and zero mean the usual one. -/
def meant (usual : Int) : Option Int → Int
  | some n => if n = 0 then usual else n
  | none => usual

/-- The page that is meant, from zero: what is negative means the first one, too. -/
def pageIndex (page : Option Int) : Nat := (meant firstPage page - 1).toNat

/-- The length that is meant. -/
def pageLength (perPage : Option Int) : Int := meant usualLength perPage

/-- The arguments ask for a page of some length. -/
structure Asks (arguments : Fields) (page perPage : Option Int) : Prop where
  /-- The page. -/
  page : Fields.get arguments "page" = asked page
  /-- Its length. -/
  perPage : Fields.get arguments "perPage" = asked perPage

/-- There is no hook. -/
def Hookless (hook : Option HookOption) : Prop := hook = none ∨ hook = some (.value .null)

/-- The rows in all pages that a call with a condition and an order can ask for: those that are
tied to the parent and satisfy the condition, in the order, or in that of the key if the order is
empty. -/
def listed (scene : Scene) (f : Fetch) (source condition order : Value) :
    Except Failure (List (Nat × Row)) := do
  let m := (scene.models.get? f.model).getD default
  let clauses ← f.tied scene source
  let condition ← Clause.ofCondition scene.models m condition
  let order ← OrderTerm.ofValues m order
  f.checkSession scene
  return scene.rows.matching
    { model := m, clauses := clauses ++ condition.toList
      order := if order.isEmpty then keyOrder m else order }

/-- Rows of the model as values. -/
def entities (scene : Scene) (f : Fetch) (rows : List (Nat × Row)) : List Value :=
  rows.map fun r => .entity ((scene.models.get? f.model).getD default).name r.1

theorem numberOr_asked {name : String} {n : Option Int} (usual : Int)
    (h : Fields.get arguments name = asked n) :
    numberOr arguments name usual = .ok (meant usual n) := by
  rw [numberOr, h]
  cases n with
  | none => rfl
  | some n => exact congrArg Except.ok (if_congr beq_iff_eq rfl rfl)

theorem hooked_of_hookless {hook : Option HookOption} (h : Hookless hook) (scene : Scene)
    (arguments : Fields) (q : Select) : hooked scene arguments q hook = .ok q := by
  rcases h with rfl | rfl <;> rfl

/-- A list takes the page that is asked for. -/
theorem chosen_of_asks {page perPage : Option Int} (h : Asks arguments page perPage) (q : Select) :
    chosen true arguments q = .ok { q with
      offset := pageIndex page * pageLength perPage, limit := some (pageLength perPage) } := by
  refine Outcome.bind_eq_ok.mpr ⟨_, numberOr_asked firstPage h.page,
    Outcome.bind_eq_ok.mpr ⟨_, numberOr_asked usualLength h.perPage, ?_⟩⟩
  rw [paged, pageIndex, Int.toNat_eq_max]
  rfl

/-- The statement of a list, with the page that is asked for. -/
theorem statement_of_asks (hlist : f.isList = .ok true) {page perPage : Option Int}
    (h : Asks arguments page perPage) (source : Value) :
    f.statement scene source arguments = (do
      let m := (scene.models.get? f.model).getD default
      let clauses ← f.tied scene source
      let condition ← Clause.ofCondition scene.models m (Fields.get arguments "where")
      let order ← OrderTerm.ofValues m (Fields.get arguments "order")
      let q : Select :=
        { model := m, clauses := clauses ++ condition.toList
          order := if order.isEmpty then keyOrder m else order
          offset := pageIndex page * pageLength perPage, limit := some (pageLength perPage) }
      let q ← hooked scene arguments q f.hook
      let q ← hooked scene arguments q f.config.hook
      return (q, true)) := by
  rw [statement, hlist]
  cases htied : f.tied scene source with
  | error e => rfl
  | ok clauses =>
    change (chosen true arguments _ >>= _) = _
    rw [chosen_of_asks h]
    simp only [Bool.and_true]
    rfl

/-- A page of some length is a window. -/
theorem window_eq_pageOf {α : Type} {length : Int} (h : 0 ≤ length) (page : Nat) (xs : List α) :
    Store.window (page * length) (some length) xs = pageOf length.toNat page xs := by
  obtain ⟨n, rfl⟩ := Int.eq_ofNat_of_zero_le h
  have hoffset : ((page : Int) * (n : Int)).toNat = page * n := by
    rw [← Int.natCast_mul, Int.toNat_natCast]
  rw [Store.window, if_neg (by omega), hoffset, Int.toNat_natCast, pageOf]

theorem pageLength_pos {perPage : Option Int} (h : 0 ≤ perPage.getD 0) : 0 < pageLength perPage := by
  cases perPage with
  | none => decide
  | some n =>
    have h : 0 ≤ n := h
    rw [pageLength, meant]
    split
    · decide
    · omega

/-- Without hooks a page is a window of the rows in all pages. -/
theorem run_eq_page (hlist : f.isList = .ok true) (hmodel : Hookless f.hook)
    (hfield : Hookless f.config.hook) {page perPage : Option Int} (hlength : 0 ≤ perPage.getD 0)
    (h : Asks arguments page perPage) (source : Value) :
    f.run scene source arguments = (listed scene f source (Fields.get arguments "where")
      (Fields.get arguments "order")).map fun rows =>
        .list (entities scene f (pageOf (pageLength perPage).toNat (pageIndex page) rows)) := by
  rw [run, statement_of_asks hlist h, listed]
  simp only [hooked_of_hookless hmodel, hooked_of_hookless hfield]
  cases f.tied scene source with
  | error e => rfl
  | ok clauses =>
    cases Clause.ofCondition scene.models ((scene.models.get? f.model).getD default)
        (Fields.get arguments "where") with
    | error e => rfl
    | ok condition =>
      cases OrderTerm.ofValues ((scene.models.get? f.model).getD default)
          (Fields.get arguments "order") with
      | error e => rfl
      | ok order =>
        cases f.checkSession scene with
        | error e => rfl
        | ok _ =>
          refine congrArg (fun rows => Except.ok (Value.list (entities scene f rows))) ?_
          exact window_eq_pageOf (Int.le_of_lt (pageLength_pos hlength)) _ _

/-! ### Pages in turn -/

/-- What is asked of the rows of a call: to be tied to the parent, and the condition. -/
def demands (scene : Scene) (f : Fetch) (source condition : Value) :
    Except Failure (List Clause) := do
  let clauses ← f.tied scene source
  let condition ← Clause.ofCondition scene.models ((scene.models.get? f.model).getD default) condition
  return clauses ++ condition.toList

/-- The rows in all pages are those of which all is true that is asked, each once. -/
theorem listed_perm {condition order : Value} {rows : List (Nat × Row)}
    (h : listed scene f source condition order = .ok rows) :
    ∃ clauses, demands scene f source condition = .ok clauses
      ∧ rows.Perm ((scene.rows.rows ((scene.models.get? f.model).getD default).name).filter
          fun r => clauses.all (·.selects r.2)) := by
  obtain ⟨clauses, htied, h⟩ := Outcome.bind_eq_ok.mp h
  obtain ⟨clause?, hcondition, h⟩ := Outcome.bind_eq_ok.mp h
  obtain ⟨terms, -, h⟩ := Outcome.bind_eq_ok.mp h
  obtain ⟨-, -, h⟩ := Outcome.bind_eq_ok.mp h
  cases h
  refine ⟨_, ?_, scene.rows.matching_perm_rows _⟩
  exact Outcome.bind_eq_ok.mpr ⟨_, htied, Outcome.bind_eq_ok.mpr ⟨_, hcondition, rfl⟩⟩

theorem nodup_entities {rows : List (Nat × Row)} (h : (rows.map Prod.fst).Nodup) :
    (entities scene f rows).Nodup := by
  rw [List.Nodup, List.pairwise_map] at h
  rw [entities, List.Nodup, List.pairwise_map]
  exact h.imp fun hne heq => hne (Value.entity.inj heq).2

/-- **Pages are consecutive windows of one list of rows.** A call for a page fails as the list
does, and gives the part of it on this page otherwise. The list holds the rows of which all is
true that is asked, each once; the pages before an empty one are the whole list, one after the
other, and all pages after it are empty. -/
theorem pages_of_listed (hlist : f.isList = .ok true) (hmodel : Hookless f.hook)
    (hfield : Hookless f.config.hook) {perPage : Option Int} (hlength : 0 ≤ perPage.getD 0)
    (source condition order : Value) :
    (∀ arguments page, Asks arguments page perPage → Fields.get arguments "where" = condition →
      Fields.get arguments "order" = order →
      f.run scene source arguments = (listed scene f source condition order).map fun rows =>
        .list (entities scene f (pageOf (pageLength perPage).toNat (pageIndex page) rows)))
    ∧ ∀ rows, listed scene f source condition order = .ok rows →
      (entities scene f rows).Nodup
      ∧ (∃ clauses, demands scene f source condition = .ok clauses ∧ ∀ r, r ∈ rows ↔
          r ∈ scene.rows.rows ((scene.models.get? f.model).getD default).name
            ∧ ∀ c ∈ clauses, c.selects r.2)
      ∧ (∃ count, pageOf (pageLength perPage).toNat count rows = [])
      ∧ ∀ count, pageOf (pageLength perPage).toNat count rows = [] →
          (∀ page, count ≤ page → pageOf (pageLength perPage).toNat page rows = [])
          ∧ (List.range count).flatMap (fun page => pageOf (pageLength perPage).toNat page rows)
            = rows := by
  have hpos : 0 < (pageLength perPage).toNat := by
    have := pageLength_pos hlength
    omega
  constructor
  · rintro arguments page hasks rfl rfl
    exact run_eq_page hlist hmodel hfield hlength hasks source
  · intro rows hrows
    obtain ⟨clauses, hclauses, hperm⟩ := listed_perm hrows
    refine ⟨nodup_entities ?_, ⟨clauses, hclauses, fun r => ?_⟩, exists_pageOf_eq_nil rows hpos,
      fun count => pages_end rows hpos⟩
    · refine (hperm.map Prod.fst).nodup_iff.mpr ?_
      exact (Store.nodup_places _ _).sublist (List.filter_sublist.map Prod.fst)
    · rw [hperm.mem_iff, List.mem_filter, List.all_eq_true]

/-- Items with a number. -/
def itemModel : Model where
  name := "Item"
  table := "items"
  columns := [{ key := "id", name := "id", type := .base "Integer", primary := true
                nullable := false, foreign := none }]
  virtuals := []
  associations := []

/-- So many items, numbered from one. -/
def itemScene (count : Nat) : Scene where
  schema := ⟨[], [], []⟩
  leaves := []
  handlers := []
  models := [("Item", itemModel)]
  rows := [("Item", (List.range count).map fun n => [("id", .int ((n + 1 : Nat) : Int))])]
  variableValues := []
  defaults := []
  context := .null
  session := some usualSessionKey

/-- A list of items that is fetched from the store. -/
def itemFetch : Fetch where
  model := "Item"
  sessionKey := none
  config := { returnType := .text "[Item!]", resolver := .value (.text defaultWord) }
  hook := none

theorem isList_itemFetch : itemFetch.isList = .ok true := by
  have hread : itemFetch.isList.toOption = some true := by decide +kernel
  cases h : itemFetch.isList with
  | error e =>
    rw [h] at hread
    cases hread
  | ok b =>
    rw [h] at hread
    exact congrArg Except.ok (Option.some.inj hread)

theorem scan_items : (itemScene 11).rows.scan itemModel = (itemScene 11).rows.rows "Item" :=
  (itemScene 11).rows.scan_of_sorted rfl (by decide +kernel)

/-- All items but the second. -/
def notSecond : Value := .record [("id", .record [("ne", .int 2)])]

theorem listed_notSecond : listed (itemScene 11) itemFetch .null notSecond .null
    = .ok (((itemScene 11).rows.rows "Item").filter fun r => r.1 != 1) := by
  refine congrArg Except.ok ((Store.matching_of_sorted _ ?_).trans ?_)
  · change List.Pairwise _ (List.filter _ ((itemScene 11).rows.scan itemModel))
    rw [scan_items]
    decide +kernel
  · change List.filter _ ((itemScene 11).rows.scan itemModel) = _
    rw [scan_items]
    rfl

/-- Of eleven items without the second, four a page, the third page has the last two, and the next
one is empty. -/
theorem pages_of_listed_items :
    itemFetch.isList = .ok true ∧ Hookless itemFetch.hook ∧ Hookless itemFetch.config.hook
    ∧ itemFetch.run (itemScene 11) .null
        [("page", .int 3), ("perPage", .int 4), ("where", notSecond)]
      = .ok (.list [.entity "Item" 9, .entity "Item" 10])
    ∧ itemFetch.run (itemScene 11) .null
        [("page", .int 4), ("perPage", .int 4), ("where", notSecond)] = .ok (.list []) := by
  have hlength : 0 ≤ (some 4).getD (0 : Int) := by decide
  have hpages := (@pages_of_listed (itemScene 11) itemFetch isList_itemFetch (.inl rfl) (.inl rfl)
    (some 4) hlength .null notSecond .null).1
  refine ⟨isList_itemFetch, .inl rfl, .inl rfl, ?_, ?_⟩
  · rw [hpages _ (some 3) ⟨rfl, rfl⟩ rfl rfl, listed_notSecond]
    rfl
  · rw [hpages _ (some 4) ⟨rfl, rfl⟩ rfl rfl, listed_notSecond]
    rfl

end Fetch
end SchemaForge

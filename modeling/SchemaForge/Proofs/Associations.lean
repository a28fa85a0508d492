import SchemaForge.Proofs.Evaluation
import SchemaForge.Proofs.Execution.Links
import SchemaForge.Proofs.Fetched
import SchemaForge.Proofs.Synthesis.Losses

/-!
# Rows of an association

A mapped model notes for each of its associations to many rows how the field is fetched, and
with that what ties its rows to the parent. Declarations that only add to the field keep this;
one that takes the field over without naming the association loses it, and then every parent
gets the rows of all.
-/
namespace SchemaForge

namespace Deed

/-- A model that is declared as a type notes its exposed associations to many rows. -/
theorem configured_mem {d : Declarations} {name model : String} {m : Model} {a : Association}
    {target : String} {own : Table String} {key : Option String} (x : Extensions)
    (htype : (name, .mapped model) ∈ d.types) (hplugin : findPlugin (.mapped model) d.plugins
      = .ok (some (.store own key)))
    (hm : d.models.get? model = some m) (ha : a ∈ m.associations)
    (hexposed : (ownPolicy d (.mapped model)).exposes a.key = .ok true)
    (htarget : d.typeOf? a.target = some target) (hmany : d.models.isMany m a) :
    .configured name a.key (Synthesis.associationConfig a target) ∈ d.deeds x := by
  have hassociation : .configured name a.key (Synthesis.associationConfig a target)
      ∈ ofAssociation d m name (ownPolicy d (.mapped model)) a := by
    unfold ofAssociation
    simp [hexposed, htarget, hmany]
  have hmembers : .configured name a.key (Synthesis.associationConfig a target)
      ∈ ofMembers d (.store own key) name (.mapped model) (ownPolicy d (.mapped model)) := by
    unfold ofMembers ofModel
    dsimp only
    rw [hm]
    exact List.mem_append_right _ (List.mem_flatMap.mpr ⟨a, ha, hassociation⟩)
  have hnames : .configured name a.key (Synthesis.associationConfig a target)
      ∈ ofType d (name, .mapped model) := by
    unfold ofType ofNames ofName
    rw [show (TypeDeclaration.mapped model).model = .mapped model from rfl, hplugin]
    refine List.mem_append_left _ (List.mem_append_left _ ?_)
    exact List.mem_append_left _ (List.mem_cons_of_mem _ hmembers)
  unfold Declarations.deeds
  refine List.mem_append_left _ (List.mem_append_right _ ?_)
  exact List.mem_flatMap.mpr ⟨_, htype, hnames⟩

end Deed

namespace Generate

variable {b : Blueprint} {d d' : Draft} {g : Generated} {v : Visit} {m : Model} {a : Association}
  {target : String} {pre post : List Deed}

/-- A field that follows an association keeps following it as long as no later declaration
takes it over. -/
theorem config_of_association {s : ThunkState}
    (hdeeds : b.deeds d.extensions
      = pre ++ .configured v.parent v.field (Synthesis.associationConfig a target) :: post)
    (hkeeps : ∀ deed ∈ post, deed.takesOver v.parent v.field = none) :
    ∃ ds, (b.standing d s v.parent v.field).config
      = some ((Synthesis.associationConfig a target).withDirectives ds) := by
  rw [Blueprint.standing, hdeeds, Standing.after_append]
  have hnoted : ∀ w : Standing, (Standing.step s v.parent v.field w
      (.configured v.parent v.field (Synthesis.associationConfig a target))).config
      = some ((Synthesis.associationConfig a target).withDirectives
        ((Synthesis.associationConfig a target).meaning s)) := by
    intro w
    rw [Standing.step, if_pos ⟨rfl, rfl⟩]
    rfl
  have hafter := fun w => Standing.config_after (s := s) hkeeps (hnoted w)
  exact hafter _

/-- **The rows of an association are those that are linked to the parent, as long as no
declaration takes the field over; and if the configuration that is left names no association,
the rows do not depend on the parent at all.** -/
theorem rows_of_association (hb : b.base.Proper) (ht : d.Tidy) (h : generate b d = (.ok g, d'))
    (hv : v ∈ g.schema.walk) (hm : m.association? v.field = some a) (hkey : v.field ≠ "")
    (hdeeds : b.deeds d.extensions
      = pre ++ .configured v.parent v.field (Synthesis.associationConfig a target) :: post)
    {c : FieldConfig} (hc : (b.standing d d'.thunks v.parent v.field).config = some c)
    (hfetched : c.isFetched) :
    ∃ x f, g.handlers.find? v.parent v.field = some x ∧ x.yield = .fetch f
      ∧ ((∀ deed ∈ post, deed.takesOver v.parent v.field = none) → f.Follows m a)
      ∧ (c.association = .text a.key ∧ c.model = some (.mapped a.target) → f.Follows m a)
      ∧ (c.association.truthy = false → f.Ignores) := by
  obtain ⟨x, f, hfind, hyield, hconfig, hmodel⟩ := find?_fetched hb ht h hv hc hfetched
  have hak : a.key = v.field := by
    have := List.find?_some hm
    exact beq_iff_eq.mp this
  have hassociation : f.config.association = c.association := by rw [← hconfig]; rfl
  have hfollows : c.association = .text a.key → c.model = some (.mapped a.target) →
      f.Follows m a := fun hca hcm =>
    Fetch.follows_of_association (hassociation.trans hca) (hak ▸ hkey) (hak ▸ hm) (hmodel _ hcm)
  refine ⟨x, f, hfind, hyield, fun hkeeps => ?_, fun hnames => hfollows hnames.1 hnames.2,
    fun hnone => Fetch.ignores_of_no_association (hassociation ▸ hnone)⟩
  obtain ⟨ds, hds⟩ := config_of_association (s := d'.thunks) hdeeds hkeeps
  rw [hc] at hds
  cases hds
  exact hfollows rfl rfl

/-! ### Orders and their items -/

/-- A column that holds integers. -/
def integer (key : String) (primary : Bool) (foreign : Option (String × String)) : Column :=
  { key, name := key, type := .base "Integer", primary, nullable := !primary, foreign }

/-- The association of an order with its items. -/
def orderItems : Association := ⟨"items", "Item", none⟩

/-- A model of orders. -/
def orderModel : Model := ⟨"Order", "orders", [integer "id" true none], [], [orderItems]⟩

/-- A model of items, which refer to orders. -/
def orderedModel : Model :=
  ⟨"Item", "items", [integer "id" true none, integer "order_id" false (some ("orders", "id"))],
    [], []⟩

/-- A query for orders with their items. -/
def shop : Blueprint where
  base := .absent
  types := [("Order", .mapped "Order"), ("Item", .mapped "Item"),
    ("Query", .inline (.fields [("orders", .field (.config
      { returnType := .text "[Order!]!", resolver := .value (.text defaultWord) }))]))]
  models := [("Item", orderedModel), ("Order", orderModel)]
  policies := []
  plugins := [.store [] none]
  columnTypes := []
  implementations := []

/-- An extension that declares the items of orders again. -/
def extended (c : FieldConfig) : Draft where
  extensions := { fields := [("Order", [("items", .field (.config c))])] }

/-- A directive that lets everything through. -/
def audit : Directive where
  name := "audit"
  arguments := []
  steps := [.resolve]
  awaits := false

/-- The items of orders, with a directive. -/
def audited : FieldConfig := { directives := .list [.directive audit] }

/-- The items of orders, by the store again. -/
def retaken : FieldConfig :=
  { returnType := .text "[Item!]", resolver := .value (.text defaultWord) }

/-- The visit of the items of an order. -/
def itemsOfOrder : Visit := ⟨"Order", "items", .list (.nonNull (.named "Item"))⟩

/-- Whether a configuration fetches by the association with items. -/
def fetchesItems (c : FieldConfig) : Bool :=
  c.isFetched && match c.association, c.model with
    | .text key, some (.mapped name) => key == "items" && name == "Item"
    | _, _ => false

theorem eq_of_fetchesItems {c : FieldConfig} (h : fetchesItems c) :
    c.isFetched ∧ c.association = .text "items" ∧ c.model = some (.mapped "Item") := by
  obtain ⟨hfetched, h⟩ := Bool.and_eq_true_iff.mp h
  split at h
  · rename_i key name hassociation hmodel
    obtain ⟨hkey, hname⟩ := Bool.and_eq_true_iff.mp h
    rw [beq_iff_eq.mp hkey] at hassociation
    rw [beq_iff_eq.mp hname] at hmodel
    exact ⟨hfetched, hassociation, hmodel⟩
  · cases h

/-- With the directive the items still follow the association. -/
theorem rows_of_association_audited : ∃ g d' c pre post,
    generate shop (extended audited) = (.ok g, d') ∧ shop.base.Proper ∧ (extended audited).Tidy
    ∧ itemsOfOrder ∈ g.schema.walk ∧ orderModel.association? "items" = some orderItems
    ∧ shop.deeds (extended audited).extensions = pre ++ .configured "Order" "items"
        (Synthesis.associationConfig orderItems "Item") :: post
    ∧ (shop.standing (extended audited) d'.thunks "Order" "items").config = some c ∧ c.isFetched
    ∧ ∃ x f, g.handlers.find? "Order" "items" = some x ∧ x.yield = .fetch f
      ∧ f.Follows orderModel orderItems := by
  have hgives : gives (fun g d' => g.schema.walk.contains itemsOfOrder
      && (d'.configOf? "Order" "items").any fetchesItems) shop (extended audited) = true := by
    unfold gives viaDocument Generate.wire Schema.walk Schema.entered
    simp only [Schema.enter_eq_enterN]
    decide +kernel
  obtain ⟨g, d', h, -, -, hrun⟩ := eq_of_gives hgives
  obtain ⟨hv, hrun⟩ := Bool.and_eq_true_iff.mp hrun
  obtain ⟨c, hc, hitems⟩ := (Option.any_eq_true _ _).mp hrun
  obtain ⟨hfetched, hassociation, hmodel⟩ := eq_of_fetchesItems hitems
  have hb : shop.base.Proper := trivial
  have ht : (extended audited).Tidy := Draft.tidy_of_extensions _
  have hv := List.contains_iff_mem.mp hv
  have hm : orderModel.association? "items" = some orderItems := rfl
  have hdeed : Deed.configured "Order" orderItems.key
      (Synthesis.associationConfig orderItems "Item")
        ∈ (shop.declarations none).deeds (extended audited).extensions :=
    Deed.configured_mem _ (List.mem_cons_self ..) rfl rfl (List.mem_cons_self ..) rfl rfl rfl
  obtain ⟨pre, post, hdeeds⟩ := List.append_of_mem hdeed
  have hconfig := config_standing ht h hc
  obtain ⟨x, f, hfind, hyield, -, hfollows, -⟩ := rows_of_association hb ht h hv hm
    (by decide) hdeeds hconfig hfetched
  exact ⟨g, d', _, pre, post, h, hb, ht, hv, hm, hdeeds, hconfig, hfetched, x, f, hfind,
    hyield, hfollows ⟨hassociation, hmodel⟩⟩

/-- Two orders with an item each. -/
def twoOrders : Scene :=
  ⟨.empty, [], [], shop.models,
    [("Order", [[("id", .int 1)], [("id", .int 2)]]),
      ("Item", [[("id", .int 10), ("order_id", .int 1)], [("id", .int 20), ("order_id", .int 2)]])],
    [], [], .null, some Fetch.usualSessionKey⟩

/-- The second item is not linked to the first order. -/
theorem not_linked_second : ∀ r ∈ twoOrders.rows.linked twoOrders.models orderModel [("id", .int 1)]
    orderItems, r.1 ≠ 1 := by
  intro r hr
  obtain ⟨t, k, c, hlink, hrow, hholds⟩ := Store.mem_linked hr
  have htarget : twoOrders.models.link? orderModel orderItems
      = some (orderedModel, integer "order_id" false (some ("orders", "id")),
        integer "id" true none) := rfl
  rw [htarget] at hlink
  cases hlink
  have hrows : ∀ r ∈ twoOrders.rows.rows "Item",
      Store.holds (integer "order_id" false (some ("orders", "id"))) (.int 1) r.2 → r.1 ≠ 1 := by
    decide
  exact hrows r hrow hholds

/-- Whether a fetch lists items without following anything, and without hooks. -/
def listsItems (f : Fetch) : Bool :=
  !f.config.association.truthy && f.model == "Item" && f.isList.toOption == some true
    && f.hook.isNone && f.config.hook.isNone && f.sessionKey.isNone

/-- Such a fetch gives the second item for the first order. -/
theorem strays_of_listsItems {f : Fetch} (h : listsItems f) :
    ∃ vs, f.run twoOrders (.entity "Order" 0) [] = .ok (.list vs) ∧ .entity "Item" 1 ∈ vs := by
  unfold listsItems at h
  simp only [Bool.and_eq_true, Bool.not_eq_true', beq_iff_eq, Option.isNone_iff_eq_none] at h
  obtain ⟨⟨⟨⟨⟨hassociation, hmodel⟩, hlist⟩, hhook⟩, hfield⟩, hkey⟩ := h
  have hunrestricted : Fetch.Unrestricted twoOrders f [] (twoOrders.rows.rows "Item").length := by
    refine ⟨toOption_eq_some hlist, ⟨1, by decide, rfl⟩, ⟨10, by decide, rfl⟩, rfl, ⟨[], rfl⟩,
      ?_, ?_, ?_⟩
    · rw [hhook]
      exact fun q _ => ⟨q.order, rfl⟩
    · rw [hfield]
      exact fun q _ => ⟨q.order, rfl⟩
    · unfold Fetch.checkSession
      rw [hkey]
      rfl
  have hitems : twoOrders.models.get? f.model = some orderedModel := by
    rw [hmodel]
    rfl
  obtain ⟨vs, hvs, hperm⟩ := (Fetch.ignores_of_no_association hassociation twoOrders []).2
    orderedModel hitems hunrestricted (.entity "Order" 0)
  exact ⟨vs, hvs, hperm.symm.subset (List.mem_cons_of_mem _ (List.mem_cons_self ..))⟩

/-- Taken by the store again with the same return type, the field gives every order the items
of all. -/
theorem not_follows_retaken : ∃ g d' x f, generate shop (extended retaken) = (.ok g, d')
    ∧ itemsOfOrder ∈ g.schema.walk ∧ g.handlers.find? "Order" "items" = some x
    ∧ x.yield = .fetch f
    ∧ (∃ vs, f.run twoOrders (.entity "Order" 0) [] = .ok (.list vs) ∧ .entity "Item" 1 ∈ vs)
    ∧ (∀ r ∈ twoOrders.rows.linked twoOrders.models orderModel [("id", .int 1)] orderItems,
      r.1 ≠ 1)
    ∧ ¬f.Follows orderModel orderItems := by
  have hgives : gives (fun g _ => g.schema.walk.contains itemsOfOrder
      && ((g.handlers.find? "Order" "items").bind (·.yield.fetch?)).any listsItems)
      shop (extended retaken) = true := by
    unfold gives viaDocument Generate.wire Schema.walk Schema.entered
    simp only [Schema.enter_eq_enterN]
    decide +kernel
  obtain ⟨g, d', h, -, -, hrun⟩ := eq_of_gives hgives
  obtain ⟨hv, hrun⟩ := Bool.and_eq_true_iff.mp hrun
  obtain ⟨f, hf, hlists⟩ := (Option.any_eq_true _ _).mp hrun
  obtain ⟨x, hfind, hfetch⟩ := Option.bind_eq_some_iff.mp hf
  obtain ⟨vs, hvs, hstray⟩ := strays_of_listsItems hlists
  refine ⟨g, d', x, f, h, List.contains_iff_mem.mp hv, hfind, Yield.eq_of_fetch? hfetch,
    ⟨vs, hvs, hstray⟩, not_linked_second, fun hfollows => ?_⟩
  have hlinked := (hfollows twoOrders "Order" 0 [("id", .int 1)] orderedModel rfl rfl rfl []).1
  obtain ⟨r, hr, heq⟩ := hlinked vs hvs _ hstray
  exact not_linked_second r hr (Value.entity.inj heq).2.symm

end Generate
end SchemaForge

import SchemaForge.Proofs.Schema.Built

/-!
# Building a schema again

What was built, in one go or piece by piece, keeps the rules as one document. So it can be built
again from its own nodes, in any order of its types, and the result has the same types with the
same nodes. The rule that may fail is the one for uses on types: definition and extensions are
one place when they stand in one document.
-/
namespace SchemaForge

open Language Addition

namespace Table

variable {α β : Type} {xs ys : Table α}

/-- What stands in entries under their names is found by them. -/
theorem filter_flatMap (hnames : xs.keys.Nodup) {f : α → List β} {name : β → String}
    (hf : ∀ x ∈ xs, ∀ n ∈ f x.2, name n = x.1) {x : String × α} (hx : x ∈ xs) :
    (xs.flatMap fun x => f x.2).filter (name · == x.1) = f x.2 := by
  have hself : ∀ y ∈ xs, y.1 = x.1 → (f y.2).filter (name · == x.1) = f y.2 := by
    intro y hy hname
    exact List.filter_eq_self.mpr fun n hn => beq_iff_eq.mpr ((hf y hy n hn).trans hname)
  have hother : ∀ y ∈ xs, y.1 ≠ x.1 → (f y.2).filter (name · == x.1) = [] := by
    intro y hy hname
    exact List.filter_eq_nil_iff.mpr fun n hn heq =>
      hname ((hf y hy n hn).symm.trans (beq_iff_eq.mp heq))
  obtain ⟨before, later, rfl⟩ := List.append_of_mem hx
  have hapart : ∀ y ∈ before ++ later, y.1 ≠ x.1 := by
    intro y hy hname
    have hperm : (before ++ x :: later).Perm (x :: (before ++ later)) := List.perm_middle
    have hnodup := (hperm.map Prod.fst).nodup_iff.mp hnames
    exact (List.nodup_cons.mp hnodup).1 (hname ▸ List.mem_map_of_mem hy)
  have hnil : ∀ ys : List (String × α), (∀ y ∈ ys, y ∈ before ++ later) →
      (ys.flatMap fun y => f y.2).filter (name · == x.1) = [] := by
    intro ys hys
    rw [List.filter_flatMap]
    refine List.flatMap_eq_nil_iff.mpr fun y hy => hother y ?_ (hapart y (hys y hy))
    rcases List.mem_append.mp (hys y hy) with hy | hy
    · exact List.mem_append_left _ hy
    · exact List.mem_append_right _ (List.mem_cons_of_mem _ hy)
  rw [List.flatMap_append, List.flatMap_cons, List.filter_append, List.filter_append,
    hnil before fun y hy => List.mem_append_left _ hy,
    hnil later fun y hy => List.mem_append_right _ hy, hself x hx rfl, List.nil_append,
    List.append_nil]

/-- The order of entries with names of their own does not matter. -/
theorem get?_perm (hnames : xs.keys.Nodup) (hperm : xs.Perm ys) (key : String) :
    xs.get? key = ys.get? key := by
  have hnames' : ys.keys.Nodup := (hperm.map Prod.fst).nodup_iff.mp hnames
  refine Option.ext fun x => ⟨fun h => ?_, fun h => ?_⟩
  · exact get?_of_mem hnames' (hperm.mem_iff.mp (mem_of_get? h))
  · exact get?_of_mem hnames (hperm.mem_iff.mpr (mem_of_get? h))

end Table

namespace Schema

/-- No directive that may not be repeated is used twice on a type. -/
def UsesOnce (s : Schema) : Prop :=
  ∀ t ∈ s.types, (s.whole.singleUses (t.2.nodes.flatMap (·.directives))).Nodup

variable {s : Schema}

/-- Which kinds fit does not depend on the order of the types. -/
theorem kindsFit_perm (hnames : s.types.keys.Nodup) {types : Table SchemaType}
    (hperm : s.types.Perm types) {roots : List (OperationKind × String)}
    (hkinds : s.kindsFit = true) : (Schema.mk types s.directives roots).kindsFit = true := by
  have hkind : ∀ n, (Schema.mk types s.directives roots).kind? n = s.kind? n := by
    intro n
    unfold kind?
    rw [Table.get?_perm hnames hperm]
  have hinput : (Schema.mk types s.directives roots).inputFits = s.inputFits := by
    funext i
    unfold inputFits kindIs
    rw [hkind]
  have hbody : ∀ b, (Schema.mk types s.directives roots).bodyFits b = s.bodyFits b := by
    have hfield : (Schema.mk types s.directives roots).fieldFits = s.fieldFits := by
      funext f
      unfold fieldFits kindIs
      rw [hkind, hinput]
    have his : (Schema.mk types s.directives roots).isKind = s.isKind := by
      funext n k
      unfold isKind
      rw [hkind]
    intro b
    unfold bodyFits
    rw [hfield, hinput, his]
  unfold kindsFit at hkinds ⊢
  rw [Bool.and_eq_true, List.all_eq_true] at hkinds ⊢
  refine ⟨fun t ht => (hbody _).trans (hkinds.1 t (hperm.mem_iff.mpr ht)), ?_⟩
  rw [hinput]
  exact hkinds.2

namespace Built

variable (h : s.Built)

include h

theorem name_of_mem {t : String × SchemaType} (ht : t ∈ s.types) :
    ∀ n ∈ t.2.nodes, n.name = t.1 := by
  intro n hn
  rcases List.mem_cons.mp hn with rfl | hn
  · exact (h.defined t ht).2.1
  · exact (h.extended t ht n hn).1

theorem definitions_whole : s.whole.definitions = s.types.map (·.2.node) := by
  unfold definitions
  rw [typeNodes_whole, Schema.nodes, List.filter_flatMap, ← List.flatMap_singleton' (s.types.map _),
    List.flatMap_map]
  refine List.flatMap_congr fun t ht => ?_
  rw [SchemaType.nodes, List.filter_cons_of_pos (by rw [(h.defined t ht).2.2]; rfl),
    List.filter_eq_nil_iff.mpr]
  intro e he
  rw [(h.extended t ht e he).2.1]
  decide

theorem extensions_whole : s.whole.extensions = s.types.flatMap (·.2.extensions) := by
  unfold extensions
  rw [typeNodes_whole, Schema.nodes, List.filter_flatMap]
  refine List.flatMap_congr fun t ht => ?_
  rw [SchemaType.nodes, List.filter_cons_of_neg (by rw [(h.defined t ht).2.2]; decide)]
  exact List.filter_eq_self.mpr fun e he => (h.extended t ht e he).2.1

theorem nodesOf_whole {t : String × SchemaType} (ht : t ∈ s.types) :
    s.whole.nodesOf t.1 = t.2.nodes := by
  unfold nodesOf
  rw [typeNodes_whole]
  exact Table.filter_flatMap h.names (fun _ ht => h.name_of_mem ht) ht

theorem extensionsOf_whole {t : String × SchemaType} (ht : t ∈ s.types) :
    s.whole.extensions.filter (·.name == t.1) = t.2.extensions := by
  rw [h.extensions_whole]
  exact Table.filter_flatMap h.names (fun t ht e he => (h.extended t ht e he).1) ht

theorem names_definitions : s.whole.definitions.map (·.name) = s.types.keys := by
  rw [h.definitions_whole, List.map_map]
  exact List.map_congr_left fun t ht => (h.defined t ht).2.1

/-! ### The rules hold -/

/-- Names are apart in the nodes of a type, so they are in the document. -/
theorem namesOnce {f : TypeBody → List String}
    (hf : ∀ t ∈ s.types, (t.2.nodes.flatMap fun n => f n.body).Nodup) : NamesOnce s.whole f := by
  intro n hn
  rw [typeNodes_whole] at hn
  obtain ⟨t, ht, hn⟩ := mem_nodes.mp hn
  rw [h.name_of_mem ht n hn, h.nodesOf_whole ht]
  exact ⟨hf t ht, fun _ _ => List.not_mem_nil⟩

theorem typesKnown : s.whole.typesKnown = true := by
  refine List.all_eq_true.mpr fun m hm => ?_
  rw [Bool.or_eq_true, List.contains_iff_mem, List.mem_append, h.names_definitions,
    Table.mem_keys_iff]
  exact (h.known m hm).imp_left .inl

theorem extensionsFit : s.whole.extensionsFit = true := by
  refine List.all_eq_true.mpr fun e he => ?_
  rw [h.extensions_whole] at he
  obtain ⟨t, ht, he⟩ := List.mem_flatMap.mp he
  obtain ⟨hname, -, hkind⟩ := h.extended t ht e he
  have hnames : (s.whole.definitions.map (·.name)).Nodup := h.names_definitions ▸ h.names
  have hmem : t.2.node ∈ s.whole.definitions := by
    rw [h.definitions_whole]
    exact List.mem_map_of_mem ht
  rw [extendedKind?, find?_reverse (f := TypeNode.name) hnames, hname, ← (h.defined t ht).2.1,
    find?_of_mem (f := TypeNode.name) hnames hmem, hkind]
  exact beq_self_eq_true _

/-- **What was built keeps all rules as one document**, if its uses on types do. -/
theorem fits_whole (huses : s.UsesOnce) : s.whole.fits = true := by
  have hroots : s.whole.rootNodes = [] := rootNodes_whole s
  refine fits_iff_nodes.mpr
    ⟨⟨?_, ?_, ?_, ?_, ?_, ?_, h.typesKnown, h.extensionsFit⟩, ?_, ?_, ?_, ?_, ?_⟩
  · refine typesOnce_iff.mpr ⟨?_, fun d _ => List.not_mem_nil⟩
    rw [h.names_definitions]
    exact h.names
  · refine directivesOnce_iff.mpr ⟨?_, fun d _ old hold => by cases hold⟩
    rw [directives_whole]
    exact h.directives
  · rw [schemaOnce, hroots]
    rfl
  · rw [rootsOnce, hroots]
    rfl
  · exact fieldsOnce_iff.mpr (h.namesOnce h.members)
  · exact wordsOnce_iff.mpr (h.namesOnce h.words)
  · rw [typeNodes_whole]
    exact h.nodes
  · rw [directives_whole]
    exact h.directiveNodes
  · rw [hroots]
    exact fun r hr => by cases hr
  · rw [typeNodes_whole]
    intro n hn
    obtain ⟨t, ht, hn⟩ := mem_nodes.mp hn
    rw [h.name_of_mem ht n hn, h.nodesOf_whole ht]
    exact huses t ht
  · rw [hroots]
    exact List.nodup_nil

/-! ### Building again -/

theorem typesAfter_whole : typesAfter s.whole = s.types := by
  have hown : s.whole.definitions.filter (!isStandardType ·.name) = s.whole.definitions := by
    refine List.filter_eq_self.mpr fun d hd => ?_
    rw [h.definitions_whole] at hd
    obtain ⟨t, ht, rfl⟩ := List.mem_map.mp hd
    rw [(h.defined t ht).2.1, h.own t ht]
    rfl
  show (([] : Table SchemaType) ++ (s.whole.definitions.filter (!isStandardType ·.name)).map
    fun d => (d.name, SchemaType.ofNode d)).map (withExtensions s.whole.extensions) = s.types
  rw [hown, List.nil_append, h.definitions_whole, List.map_map, List.map_map]
  refine (List.map_congr_left fun t ht => ?_).trans (List.map_id _)
  obtain ⟨hwritten, hname, -⟩ := h.defined t ht
  show withExtensions s.whole.extensions (t.2.node.name, .ofNode t.2.node) = t
  rw [withExtensions, hname, h.extensionsOf_whole ht, SchemaType.foldl_extend]
  obtain ⟨name, node, written, extensions⟩ := t
  cases hwritten
  rfl

/-- **What was built is built again from its own nodes**; its roots are the types with the usual
names then. -/
theorem ofAddition_whole (huses : s.UsesOnce) :
    ofAddition s.whole = .ok { s with roots := rootsByName s.types } := by
  have hafter : after s.whole = { s with roots := rootsByName s.types } := by
    unfold after rootsAfter
    rw [h.typesAfter_whole, rootNodes_whole, directives_whole]
    rfl
  refine ofAddition_eq_ok_iff.mpr ⟨h.fits_whole huses, ?_, ?_, hafter.symm⟩
  · rw [hafter]
    exact h.kinds
  · rw [typeNodes_whole]
    exact fun n hn _ => h.texts n hn

/-! ### Other orders -/

/-- The order of the types and the roots do not matter. -/
theorem perm {types : Table SchemaType} (hperm : s.types.Perm types)
    (roots : List (OperationKind × String)) : Built ⟨types, s.directives, roots⟩ := by
  have hmem : ∀ {t}, t ∈ types → t ∈ s.types := hperm.mem_iff.mpr
  have hnodes : ∀ {n}, n ∈ (Schema.mk types s.directives roots).nodes → n ∈ s.nodes := by
    intro n hn
    obtain ⟨t, ht, hn⟩ := mem_nodes.mp hn
    exact mem_nodes.mpr ⟨t, hmem ht, hn⟩
  have hkeeps : s.whole.Keeps (Schema.mk types s.directives roots).whole := by
    intro n d hd
    rwa [directive?_whole] at hd ⊢
  have hhas : ∀ {n}, s.types.has n = true → types.has n = true := by
    intro n hn
    rw [← Table.mem_keys_iff] at hn ⊢
    exact (hperm.map Prod.fst).mem_iff.mp hn
  exact
    { names := (hperm.map Prod.fst).nodup_iff.mp h.names
      own := fun t ht => h.own t (hmem ht)
      defined := fun t ht => h.defined t (hmem ht)
      extended := fun t ht => h.extended t (hmem ht)
      members := fun t ht => h.members t (hmem ht)
      words := fun t ht => h.words t (hmem ht)
      directives := h.directives
      known := by
        intro m hm
        refine (h.known m ?_).imp_left hhas
        rw [mem_mentioned, typeNodes_whole, directives_whole, rootNodes_whole] at hm ⊢
        exact hm.imp_left fun ⟨n, hn, hm⟩ => ⟨n, hnodes hn, hm⟩
      kinds := kindsFit_perm h.names hperm h.kinds
      texts := fun n hn => h.texts n (hnodes hn)
      nodes := fun n hn => (h.nodes n (hnodes hn)).mono hkeeps
      directiveNodes := fun d hd => (h.directiveNodes d hd).mono hkeeps }

end Built
end Schema
end SchemaForge

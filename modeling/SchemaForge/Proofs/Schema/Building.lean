import SchemaForge.Proofs.Schema.Walk
import SchemaForge.Schema.Build

/-!
# Names in built schemas

The rules for documents keep names apart, so a schema that is built from a document, or by
extending a schema whose names are apart, has every type and every field of a type once.
-/
namespace SchemaForge

open Language Addition

/-- What two bodies say together has no fields but theirs. -/
theorem Language.TypeBody.fields_merge_sublist (a b : TypeBody) :
    (a.merge b).fields.Sublist (a.fields ++ b.fields) := by
  cases a <;> cases b <;>
    first | exact List.Sublist.refl _ | exact List.sublist_append_left _ _

theorem Addition.fields_sublist_memberNames (b : TypeBody) :
    (b.fields.map (·.name)).Sublist (Addition.memberNames b) := by
  cases b <;> first | exact List.Sublist.refl _ | exact List.nil_sublist _

/-- What fits defines types and fields once. -/
theorem Addition.once_of_fits {a : Addition} (h : a.fits) : a.typesOnce ∧ a.fieldsOnce := by
  simp only [fits, Bool.and_eq_true] at h
  exact ⟨h.1.1.1.1.1.1.1.1.1.1.1.1, h.1.1.1.1.1.1.1.1.2⟩

namespace Schema

/-- The fields of an extended type are its own and those of its extensions. -/
theorem fields_extendAll_sublist (es : List TypeNode) (t : SchemaType) :
    ((es.foldl SchemaType.extend t).body.fields).Sublist
      (t.body.fields ++ es.flatMap (·.body.fields)) := by
  induction es generalizing t with
  | nil =>
    rw [List.flatMap_nil, List.append_nil]
    exact List.Sublist.refl _
  | cons e es ih =>
    refine (ih (t.extend e)).trans ?_
    rw [SchemaType.body_extend, List.flatMap_cons, ← List.append_assoc]
    exact (TypeBody.fields_merge_sublist t.body e.body).append (List.Sublist.refl _)

theorem fields_sublist_flatMap (es : List TypeNode) :
    ((es.flatMap (·.body.fields)).map (·.name)).Sublist
      (es.flatMap fun e => Addition.memberNames e.body) := by
  rw [List.map_flatMap]
  induction es with
  | nil => exact List.Sublist.refl _
  | cons e es ih =>
    rw [List.flatMap_cons, List.flatMap_cons]
    exact (Addition.fields_sublist_memberNames e.body).append ih

/-- Names are apart in a type whose own fields are apart from those of its extensions. -/
theorem nodup_extendAll {es : List TypeNode} {t : SchemaType}
    (ht : (t.body.fields.map (·.name)).Nodup)
    (hes : (es.flatMap fun e => Addition.memberNames e.body).Nodup)
    (hdisjoint : ∀ x ∈ t.body.fields.map (·.name),
      x ∉ es.flatMap fun e => Addition.memberNames e.body) :
    (((es.foldl SchemaType.extend t).body.fields).map (·.name)).Nodup := by
  have hmembers := fields_sublist_flatMap es
  refine List.Nodup.sublist ((fields_extendAll_sublist es t).map _) ?_
  rw [List.map_append, List.nodup_append]
  refine ⟨ht, hes.sublist hmembers, ?_⟩
  rintro x hx y hy rfl
  exact hdisjoint x hx (hmembers.subset hy)

variable {a : Addition}

theorem keys_typesAfter (a : Addition) : Table.keys (typesAfter a)
    = Table.keys ((a.base.map (·.types)).getD [])
      ++ (a.definitions.filter (!isStandardType ·.name)).map (·.name) := by
  simp [typesAfter, Table.keys, withExtensions, Function.comp_def]

/-- What a schema is built from under all rules. -/
theorem ofAddition_eq_ok_iff {s : Schema} : ofAddition a = .ok s ↔ a.fits = true
    ∧ (after a).kindsFit = true
    ∧ (∀ t ∈ a.typeNodes, isStandardType t.name = false → textsFit t = true) ∧ s = after a := by
  constructor
  · intro h
    simp only [ofAddition] at h
    split at h
    · cases h
    · rename_i hfits
      split at h
      · cases h
      · rename_i hkinds
        split at h
        · cases h
        · rename_i htexts
          cases h
          exact ⟨by simpa using hfits, by simpa using hkinds, by simpa using htexts, rfl⟩
  · rintro ⟨hfits, hkinds, htexts, rfl⟩
    have hall : (a.typeNodes.all fun t => isStandardType t.name || textsFit t) = true := by
      rw [List.all_eq_true]
      intro t ht
      cases hstandard : isStandardType t.name with
      | true => rfl
      | false => exact htexts t ht hstandard
    simp only [ofAddition, hfits, hkinds, hall, Bool.not_true, Bool.false_eq_true, if_false]

theorem ofAddition_eq_ok {s : Schema} (h : ofAddition a = .ok s) : a.fits ∧ s = after a := by
  obtain ⟨hfits, -, -, hs⟩ := ofAddition_eq_ok_iff.mp h
  exact ⟨hfits, hs⟩

/-- What the rule for types says. -/
theorem typesOnce_iff : a.typesOnce = true ↔ (a.definitions.map (·.name)).Nodup
    ∧ ∀ d ∈ a.definitions, d.name ∉ a.oldTypes := by
  unfold typesOnce
  simp [distinct_iff_nodup]

/-- Types of the base are there before. -/
theorem mem_oldTypes {b : Schema} (hb : b ∈ a.base) {t : String × SchemaType} (ht : t ∈ b.types) :
    t.1 ∈ a.oldTypes := by
  unfold oldTypes
  rw [show a.base = some b from hb]
  exact List.mem_append_left _ (List.mem_append_left _ (List.mem_map_of_mem ht))

/-- After an addition every type has a name of its own. -/
theorem nodup_keys_typesAfter (honce : a.typesOnce = true)
    (hbase : ∀ b ∈ a.base, (Table.keys b.types).Nodup) : (Table.keys (typesAfter a)).Nodup := by
  obtain ⟨hnames, hnew⟩ := typesOnce_iff.mp honce
  rw [keys_typesAfter, List.nodup_append]
  refine ⟨?_, hnames.sublist (List.filter_sublist.map _), ?_⟩
  · cases hb : a.base with
    | none => exact List.nodup_nil
    | some b => exact hbase b hb
  · rintro x hx y hy rfl
    obtain ⟨d, hd, rfl⟩ := List.mem_map.mp hy
    cases hb : a.base with
    | none =>
      rw [hb] at hx
      cases hx
    | some b =>
      rw [hb] at hx
      obtain ⟨t, ht, hname⟩ := List.mem_map.mp hx
      exact hnew d (List.mem_filter.mp hd).1 (hname ▸ mem_oldTypes hb ht)

/-- All nodes of a type in a document are definitions and extensions. -/
theorem nodesOf_perm (name : String) : (a.definitions.filter (·.name == name)
    ++ a.extensions.filter (·.name == name)).Perm (a.nodesOf name) := by
  rw [definitions, extensions, nodesOf, ← List.filter_append]
  exact (List.perm_append_comm.trans (List.filter_append_perm _ _)).filter _

section

variable {f : TypeBody → List String}

/-- The rule that names in all nodes of a type are apart, from each other and from those that
are there before. -/
def NamesOnce (a : Addition) (f : TypeBody → List String) : Prop :=
  ∀ t ∈ a.typeNodes, ((a.nodesOf t.name).flatMap fun n => f n.body).Nodup
    ∧ ∀ x ∈ (a.nodesOf t.name).flatMap fun n => f n.body, x ∉ ((a.oldBody? t.name).map f).getD []

theorem fieldsOnce_iff : a.fieldsOnce = true ↔ NamesOnce a memberNames := by
  unfold fieldsOnce NamesOnce
  simp only [List.all_eq_true, Bool.and_eq_true, distinct_iff_nodup, Bool.not_eq_true',
    List.contains_eq_mem, decide_eq_false_iff_not]

theorem wordsOnce_iff : a.wordsOnce = true ↔ NamesOnce a TypeBody.words := by
  unfold wordsOnce NamesOnce
  simp only [List.all_eq_true, Bool.and_eq_true, distinct_iff_nodup, Bool.not_eq_true',
    List.contains_eq_mem, decide_eq_false_iff_not]

theorem NamesOnce.all (h : NamesOnce a f) (name : String) :
    ((a.nodesOf name).flatMap fun n => f n.body).Nodup
      ∧ ∀ x ∈ (a.nodesOf name).flatMap fun n => f n.body, x ∉ ((a.oldBody? name).map f).getD [] := by
  cases hnodes : a.nodesOf name with
  | nil => exact ⟨List.nodup_nil, fun x hx => by cases hx⟩
  | cons t ts =>
    have ht : t ∈ a.nodesOf name := hnodes ▸ List.mem_cons_self
    obtain ⟨hmem, hname⟩ := List.mem_filter.mp ht
    rw [← hnodes, ← beq_iff_eq.mp hname]
    exact h t hmem

end

/-- The members of all extensions of a type are apart from each other and from what is there
before, in the base or in a definition. -/
theorem nodup_extensions (h : a.fieldsOnce) (name : String) :
    ((a.extensions.filter (·.name == name)).flatMap fun e => memberNames e.body).Nodup
      ∧ ∀ x ∈ (a.extensions.filter (·.name == name)).flatMap fun e => memberNames e.body,
        x ∉ ((a.oldBody? name).map memberNames).getD []
          ∧ ∀ d ∈ a.definitions, d.name = name → x ∉ memberNames d.body := by
  obtain ⟨hnodup, hold⟩ := (fieldsOnce_iff.mp h).all name
  have hperm := (nodesOf_perm (a := a) name).flatMap_right fun e => memberNames e.body
  rw [← hperm.nodup_iff, List.flatMap_append, List.nodup_append'] at hnodup
  obtain ⟨-, hextensions, hdisjoint⟩ := hnodup
  refine ⟨hextensions, fun x hx => ⟨hold x (hperm.subset ?_), fun d hd hname hx' => ?_⟩⟩
  · rw [List.flatMap_append]
    exact List.mem_append_right _ hx
  · refine hdisjoint (List.mem_flatMap.mpr ⟨d, ?_, hx'⟩) hx
    exact List.mem_filter.mpr ⟨hd, beq_iff_eq.mpr hname⟩

/-- The members of a definition are apart. -/
theorem nodup_members (h : a.fieldsOnce) {d : TypeNode} (hd : d ∈ a.typeNodes) :
    (memberNames d.body).Nodup := by
  have hnodup := ((fieldsOnce_iff.mp h).all d.name).1
  exact (List.nodup_flatMap.mp hnodup).1 d (List.mem_filter.mpr ⟨hd, beq_self_eq_true _⟩)

/-- What is built has its names apart. -/
theorem distinct_ofAddition {s : Schema} (hbase : ∀ b ∈ a.base, b.Distinct)
    (h : ofAddition a = .ok s) : s.Distinct := by
  obtain ⟨hfits, rfl⟩ := ofAddition_eq_ok h
  obtain ⟨honce, hfields⟩ := once_of_fits hfits
  constructor
  · exact nodup_keys_typesAfter honce fun b hb => (hbase b hb).1
  · intro t ht
    obtain ⟨u, hu, rfl⟩ := List.mem_map.mp ht
    obtain ⟨hextensions, hapart⟩ := nodup_extensions hfields u.1
    rcases List.mem_append.mp hu with hu | hu
    · cases hb : a.base with
      | none =>
        rw [hb] at hu
        cases hu
      | some b =>
        rw [hb] at hu
        obtain ⟨hnames, hmembers⟩ := hbase b hb
        have hbody : a.oldBody? u.1 = some u.2.body := by
          rw [oldBody?, hb, Option.bind_some, body?, Table.get?_of_mem hnames hu]
          rfl
        rw [hbody] at hapart
        refine nodup_extendAll (hmembers u hu) hextensions fun x hx hx' => (hapart x hx').1 ?_
        exact (fields_sublist_memberNames u.2.body).subset hx
    · obtain ⟨d, hd, rfl⟩ := List.mem_map.mp hu
      have hdefinition := (List.mem_filter.mp hd).1
      have hown := fields_sublist_memberNames d.body
      have hmembers := nodup_members hfields (List.mem_filter.mp hdefinition).1
      refine nodup_extendAll (hmembers.sublist hown) hextensions fun x hx hx' => ?_
      exact (hapart x hx').2 d hdefinition rfl (hown.subset hx)

end Schema

/-! ### Where fields come from

A field of a schema that is built from a document is one of a node of the document, or was
there before; and then no node of its type has a field of this name, because fields are
defined once.

A schema keeps the nodes that it was built from, each extension with the type that it extends.
What a type says is what its nodes say one after the other, because an extension is of the kind
of its type.
-/

namespace Schema

variable {a : Addition} {s : Schema} {type : String} {f : FieldNode}

theorem mem_fields_iff :
    f ∈ s.fields type ↔ ∃ t, s.types.get? type = some t ∧ f ∈ t.body.fields := by
  unfold fields body?
  cases s.types.get? type <;> simp

/-- A type after an addition is an old one, or a definition, with all its extensions. -/
theorem get?_typesAfter {t : SchemaType} (h : (typesAfter a).get? type = some t) :
    ∃ u, ((∃ b ∈ a.base, b.types.get? type = some u)
        ∨ ∃ d ∈ a.definitions, d.name = type ∧ u = .ofNode d)
      ∧ t = (a.extensions.filter (·.name == type)).foldl SchemaType.extend u := by
  have hmap := Table.get?_mapEntries (((a.base.map (·.types)).getD [])
      ++ (a.definitions.filter (!isStandardType ·.name)).map fun d => (d.name, SchemaType.ofNode d))
    (fun e => (a.extensions.filter (·.name == e.1)).foldl SchemaType.extend e.2) type
  rw [typesAfter, show withExtensions a.extensions = fun e => (e.1,
    (a.extensions.filter (·.name == e.1)).foldl SchemaType.extend e.2) from rfl, hmap] at h
  obtain ⟨u, hu, rfl⟩ := Option.map_eq_some_iff.mp h
  refine ⟨u, ?_, rfl⟩
  rw [Table.get?_append] at hu
  rcases Option.or_eq_some_iff.mp hu with hold | ⟨-, hnew⟩
  · cases hb : a.base with
    | none =>
      rw [hb] at hold
      cases hold
    | some b =>
      rw [hb] at hold
      exact .inl ⟨b, rfl, hold⟩
  · obtain ⟨d, hd, heq⟩ := List.mem_map.mp (Table.mem_of_get? hnew)
    cases heq
    exact .inr ⟨d, (List.mem_filter.mp hd).1, rfl, rfl⟩

/-- The members of a node are apart from what is there before of its type. -/
theorem not_mem_old (h : a.fieldsOnce) {n : TypeNode} (hn : n ∈ a.typeNodes) {x : String}
    (hx : x ∈ Addition.memberNames n.body) :
    x ∉ ((a.oldBody? n.name).map Addition.memberNames).getD [] := by
  have hrule := List.all_eq_true.mp h n hn
  simp only [Bool.and_eq_true, List.all_eq_true] at hrule
  have hnode : n ∈ a.nodesOf n.name := List.mem_filter.mpr ⟨hn, beq_self_eq_true _⟩
  simpa using hrule.2 x (List.mem_flatMap.mpr ⟨n, hnode, hx⟩)

/-- The members of one node are apart from each other. -/
theorem nodup_memberNames (h : a.fieldsOnce) {n : TypeNode} (hn : n ∈ a.typeNodes) :
    (Addition.memberNames n.body).Nodup := by
  have hrule := List.all_eq_true.mp h n hn
  simp only [Bool.and_eq_true, Addition.distinct_iff_nodup] at hrule
  have hnode : n ∈ a.nodesOf n.name := List.mem_filter.mpr ⟨hn, beq_self_eq_true _⟩
  exact (List.nodup_flatMap.mp hrule.1).1 n hnode

/-- **A field of what is built is one of a node, or was there before under a name that no
node has.** -/
theorem field_ofAddition (h : ofAddition a = .ok s) (hf : f ∈ s.fields type) :
    (∃ n ∈ a.typeNodes, n.name = type ∧ f ∈ n.body.fields)
      ∨ ∃ b ∈ a.base, f ∈ b.fields type
        ∧ ∀ n ∈ a.typeNodes, n.name = type → f.name ∉ Addition.memberNames n.body := by
  obtain ⟨hfits, rfl⟩ := ofAddition_eq_ok h
  have hfields := (Addition.once_of_fits hfits).2
  obtain ⟨t, ht, hf⟩ := mem_fields_iff.mp hf
  obtain ⟨u, hu, rfl⟩ := get?_typesAfter ht
  rcases List.mem_append.mp ((fields_extendAll_sublist _ u).subset hf) with hown | hextended
  · rcases hu with ⟨b, hb, hu⟩ | ⟨d, hd, hname, rfl⟩
    · refine .inr ⟨b, hb, mem_fields_iff.mpr ⟨u, hu, hown⟩, fun n hn hname hmember => ?_⟩
      have hold : a.oldBody? n.name = some u.body := by
        rw [hname, Addition.oldBody?, hb, Option.bind_some, body?, hu]
        rfl
      refine not_mem_old hfields hn hmember ?_
      rw [hold]
      exact (Addition.fields_sublist_memberNames u.body).subset (List.mem_map_of_mem hown)
    · exact .inl ⟨d, (List.mem_filter.mp hd).1, hname, hown⟩
  · obtain ⟨e, he, hf⟩ := List.mem_flatMap.mp hextended
    obtain ⟨he, hname⟩ := List.mem_filter.mp he
    exact .inl ⟨e, (List.mem_filter.mp he).1, beq_iff_eq.mp hname, hf⟩

end Schema

/-! ### The nodes of a schema -/

/-- The definition of a type and its extensions. -/
def SchemaType.nodes (t : SchemaType) : List TypeNode := t.node :: t.extensions

namespace Schema

/-- The nodes of all types. -/
def nodes (s : Schema) : List TypeNode := s.types.flatMap (·.2.nodes)

/-- Everything that a schema is built from, as an addition to nothing. -/
def whole (s : Schema) : Addition := ⟨none, s.directives.map .directive ++ s.nodes.map .type⟩

end Schema

/-! ### Names in bodies -/

/-- Something that is read off bodies, of an extension after that of its type. -/
def Language.TypeBody.Joins (f : TypeBody → List String) : Prop :=
  ∀ a b : TypeBody, a.kind = b.kind → f (a.merge b) = f a ++ f b

theorem Language.TypeBody.joins_memberNames : TypeBody.Joins Addition.memberNames := by
  intro a b h
  cases a <;> cases b <;> simp_all [TypeBody.merge, TypeBody.kind, Addition.memberNames]

theorem Language.TypeBody.joins_words : TypeBody.Joins TypeBody.words := by
  intro a b h
  cases a <;> cases b <;> simp_all [TypeBody.merge, TypeBody.kind, TypeBody.words]

namespace SchemaType

variable {t : SchemaType} {es : List TypeNode} {f : TypeBody → List String}

theorem foldl_extend (es : List TypeNode) (t : SchemaType) :
    es.foldl extend t = { t with extensions := t.extensions ++ es } := by
  induction es generalizing t with
  | nil => simp
  | cons e es ih => simp [ih, extend]

/-- What a type says is what its nodes say. -/
theorem flatMap_nodes (hf : TypeBody.Joins f) (h : ∀ e ∈ t.extensions, e.body.kind = t.kind) :
    t.nodes.flatMap (fun n => f n.body) = f t.body := by
  have hall : ∀ (es : List TypeNode) (b : TypeBody), (∀ e ∈ es, e.body.kind = b.kind) →
      f b ++ es.flatMap (fun n => f n.body) = f (es.foldl (fun b e => b.merge e.body) b) := by
    intro es
    induction es with
    | nil => simp
    | cons e es ih =>
      intro b hes
      obtain ⟨he, hes⟩ := List.forall_mem_cons.mp hes
      rw [List.foldl_cons, ← ih _ (by simpa using hes), hf b e.body he.symm, List.flatMap_cons,
        List.append_assoc]
  exact hall t.extensions t.node.body h

end SchemaType

end SchemaForge

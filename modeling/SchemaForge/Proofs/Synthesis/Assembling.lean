import SchemaForge.Proofs.Synthesis.Beside

/-!
# Drafts that are put together

The first pass describes the declared types one after the other. If no two of them give the same
field to a type, agree on kinds, and leave the types of each other's classes alone, then what comes
out is put together from the drafts into which each of them is described on its own
(`assembled_forM`). Which of them comes first does not matter for that.
-/
namespace SchemaForge

open Language

/-! ### What contributions say of types -/

namespace Contribution

/-- Whether a contribution describes a type by a class. -/
def isClass : Contribution → Bool
  | members .classes _ _ _ => true
  | _ => false

/-- The kind that a contribution states. A class makes a type an object. -/
def kind? : Contribution → Option TypeKind
  | members .classes _ _ _ => some .object
  | members _ _ _ _ => none
  | mapping _ m => m.kind?

/-- Whether a contribution gives fields to a type by a mapping that states no kind. -/
def isPlain : Contribution → Bool
  | members _ _ _ _ => false
  | mapping _ m => m.kind?.isNone && !m.names.isEmpty

/-- One contribution to a type leaves room for another to the same type: they state no different
kinds, the second does not give fields to a union without stating that it is one, and is no class. -/
structure Suits (c c' : Contribution) : Prop where
  /-- They agree on the kind. -/
  kinds : ∀ k k', c.kind? = some k → c'.kind? = some k' → k = k'
  /-- Both or none know of a union. -/
  union : c.kind? = some .union → c'.isPlain = false
  /-- The second is no class. -/
  plain : c'.isClass = false

instance (c c' : Contribution) : Decidable (c.Suits c') :=
  decidable_of_iff ((∀ k ∈ c.kind?, ∀ k' ∈ c'.kind?, k = k')
      ∧ (c.kind? = some .union → c'.isPlain = false) ∧ c'.isClass = false)
    ⟨fun ⟨hkinds, hunion, hplain⟩ => ⟨fun k k' hk hk' => hkinds k hk k' hk', hunion, hplain⟩,
      fun h => ⟨fun k hk k' hk' => h.kinds k k' hk hk', h.union, h.plain⟩⟩

end Contribution

namespace Deed

/-- The type that a deed is about. -/
def type : Deed → String
  | .kind t _ | .replaced t _ | .typed t _ _ | .configured t _ _ | .described t
  | .declared t _ _ _ | .governed t _ _ | .directed t _ => t

/-- All deeds are about one type. -/
def About (type : String) (deeds : List Deed) : Prop := ∀ a ∈ deeds, a.type = type

variable {t : String} {deeds more : List Deed}

theorem about_nil (t : String) : About t [] := fun _ h => by cases h

theorem about_cons {a : Deed} (ha : a.type = t) (h : About t deeds) : About t (a :: deeds) :=
  List.forall_mem_cons.mpr ⟨ha, h⟩

theorem About.append (h : About t deeds) (h' : About t more) : About t (deeds ++ more) :=
  List.forall_mem_append.mpr ⟨h, h'⟩

theorem about_flatMap {α : Type} {xs : List α} {g : α → List Deed}
    (h : ∀ x ∈ xs, About t (g x)) : About t (xs.flatMap g) := fun a ha => by
  obtain ⟨x, hx, ha⟩ := List.mem_flatMap.mp ha
  exact h x hx a ha

theorem about_ofMap (t : String) (m : FieldMap) (owner : Option ModelRef) :
    About t (ofMap t m owner) := by
  have hpolicy : ∀ p, About t (ofPolicy t p) := by
    intro p
    refine About.append ?_ (about_cons rfl (about_cons rfl (about_nil t)))
    split
    · cases Language.Parser.kindOf? p.kind.plain with
      | none => exact about_nil t
      | some k => exact about_cons rfl (about_nil t)
    · exact about_nil t
  unfold ofMap
  split
  · exact about_cons rfl (about_nil t)
  · exact about_nil t
  · refine About.append ?_ (about_flatMap fun e _ => ?_)
    · cases (policyIn? _).bind PolicyOption.policy? with
      | none => exact about_nil t
      | some p => exact hpolicy p
    · unfold ofField
      split
      · exact about_cons rfl (about_nil t)
      · exact about_nil t

theorem about_ofMembers (b : Declarations) (plugin : Plugin) (t : String) (model : TypeDeclaration)
    (p : PolicyOption) : About t (ofMembers b plugin t model p) := by
  have hone : ∀ a : Deed, a.type = t → About t [a] := fun a ha => about_cons ha (about_nil t)
  unfold ofMembers
  split
  · refine About.append (about_flatMap fun a _ => ?_) (hone _ rfl)
    unfold ofAttribute
    split
    · exact hone _ rfl
    · exact about_nil t
  · refine About.append (About.append (about_flatMap fun c _ => ?_) (about_flatMap fun v _ => ?_))
      (about_flatMap fun a _ => ?_)
    · unfold ofColumn
      repeat' split
      all_goals first | exact hone _ rfl | exact about_nil t
    · unfold ofVirtual
      repeat' split
      all_goals first | exact hone _ rfl | exact about_nil t
    · unfold ofAssociation
      repeat' split
      all_goals first | exact about_nil t | exact hone _ rfl | exact about_cons rfl (hone _ rfl)
  · exact about_nil t

theorem about_ofName (b : Declarations) (plugin : Plugin) (t : String) (model : TypeDeclaration)
    (p : PolicyOption) (primary : Option String) (first : PolicyOption) :
    About t (ofName b plugin t model p primary first) :=
  (about_cons (a := .governed t p primary) rfl (about_ofMembers b plugin t model p)).append
    (about_cons rfl (about_cons rfl (about_nil t)))

/-- What is done for a declared type is done to types that it contributes to. -/
theorem exists_contribution {b : Declarations} {named : String × TypeDeclaration} {a : Deed}
    (ha : a ∈ ofType b named) : ∃ c ∈ b.contributionsOf named, c.type = a.type := by
  have hbrought : ∀ p : PolicyOption, a ∈ ofPolicyTypes named.2 p →
      ∃ e ∈ p.brought, a.type = e.1 := by
    intro p ha
    cases p with
    | policy p =>
      obtain ⟨e, he, ha⟩ := List.mem_flatMap.mp ha
      exact ⟨e, he, about_ofMap e.1 e.2 _ a ha⟩
    | value v => cases ha
  obtain ⟨name, t⟩ := named
  unfold ofType at ha
  unfold Declarations.contributionsOf
  dsimp only at ha hbrought ⊢
  cases hfound : findPlugin t.model b.plugins with
  | error e =>
    rw [hfound] at ha
    cases ha
  | ok found =>
    rw [hfound] at ha
    cases found with
    | some plugin =>
      rcases List.mem_append.mp ha with ha | ha
      · rcases List.mem_append.mp ha with ha | ha
        · exact ⟨_, List.mem_append_left _ List.mem_cons_self,
            (about_ofName b plugin name t _ _ _ a ha).symm⟩
        · obtain ⟨e, he, htype⟩ := hbrought _ ha
          exact ⟨.mapping e.1 e.2, List.mem_append_left _ (List.mem_cons_of_mem _
            (List.mem_map_of_mem he)), htype.symm⟩
      · obtain ⟨other, hother, ha⟩ := List.mem_flatMap.mp ha
        rcases List.mem_append.mp ha with ha | ha
        · exact ⟨_, List.mem_append_right _ (List.mem_flatMap.mpr
            ⟨other, hother, List.mem_cons_self⟩), (about_ofName b plugin other.1 t _ _ _ a ha).symm⟩
        · obtain ⟨e, he, htype⟩ := hbrought _ ha
          exact ⟨.mapping e.1 e.2, List.mem_append_right _ (List.mem_flatMap.mpr
            ⟨other, hother, List.mem_cons_of_mem _ (List.mem_map_of_mem he)⟩), htype.symm⟩
    | none =>
      cases t with
      | inline m =>
        refine ⟨_, List.mem_singleton_self _, ?_⟩
        dsimp only at ha
        split at ha
        · exact (about_ofMap name m none a ha).symm
        · cases ha
      | plain id attributes p => cases ha
      | mapped model => cases ha

end Deed

/-- Deeds that are about other types leave a field as it stands. -/
theorem Standing.after_of_ne {s : ThunkState} {type field : String} {deeds : List Deed}
    (h : ∀ a ∈ deeds, a.type ≠ type) (v : Standing) : Standing.after s type field deeds v = v := by
  induction deeds generalizing v with
  | nil => rfl
  | cons a deeds ih =>
    have hstep : Standing.step s type field v a = v := by
      have hne := h a List.mem_cons_self
      cases a <;> simp_all [Standing.step, Deed.type]
    rw [Standing.after, List.foldl_cons, hstep]
    exact ih (fun a ha => h a (List.mem_cons_of_mem _ ha)) v

/-! ### Declared types on their own -/

/-- Nothing is described in a draft yet, but types may have kinds. -/
structure Draft.Blank (result : String → DirectiveOption) (d : Draft) : Prop where
  /-- There are no lines. -/
  lines : ∀ t f, d.registry.line? t f = none
  /-- No directives are used. -/
  directives : ∀ t, (d.registry.entry t).directives = []
  /-- No type is a union. -/
  kinds : ∀ t, (d.registry.entry t).kind ≠ .union
  /-- No field is configured. -/
  configs : d.configs = []
  /-- No filters are asked for. -/
  requests : d.requests = []
  /-- What is kept of thunks are their values. -/
  thunks : d.thunks.Agrees result
  /-- Types are there once. -/
  types : (Table.keys d.registry).Nodup

/-- Some kind is stated of a type. -/
def Contribution.States (cs : List Contribution) (type : String) (kind : TypeKind) : Prop :=
  ∃ c ∈ cs, c.type = type ∧ c.kind? = some kind

/-- The kind that a type has in a draft. -/
def Draft.kindOf (d : Draft) (type : String) : TypeKind := (d.registry.entry type).kind

/-- What a declared type brings on its own. -/
structure Draft.Brought (result : String → DirectiveOption) (b : Declarations)
    (cs : List Contribution) (d0 d : Draft) : Prop where
  /-- Lines are of fields that are given. -/
  lines : ∀ t f l, d.registry.line? t f = some l → b.Gives cs t f
  /-- So are configurations. -/
  configs : ∀ t, ∀ e ∈ d.configsOf t, b.Gives cs t e.1
  /-- Types have the kinds that are stated. -/
  kinds : ∀ t, d.kindOf t = d0.kindOf t ∨ Contribution.States cs t (d.kindOf t)
  /-- Directives are used on types that something is contributed to. -/
  directives : ∀ t, ∀ use ∈ (d.registry.entry t).directives, ∃ c ∈ cs, c.type = t
  /-- Configured fields are settled. -/
  settled : Synthesis.Complete result b cs d

/-- What a declared type may find in a draft that it is described into. -/
structure Draft.Admits (d0 : Draft) (b : Declarations) (cs : List Contribution) (first : Draft) :
    Prop where
  /-- Fields that it gives are not there. -/
  lines : ∀ t f, b.Gives cs t f → first.registry.line? t f = none
  /-- They are not configured. -/
  configs : ∀ t f, b.Gives cs t f → ∀ e ∈ first.configsOf t, e.1 ≠ f
  /-- A type has no other kind than it states. -/
  kinds : ∀ c ∈ cs, c.kind? = some (d0.kindOf c.type) → first.kindOf c.type = d0.kindOf c.type
  /-- Fields are given to no union without stating that it is one. -/
  unions : ∀ c ∈ cs, c.isPlain = true → first.kindOf c.type ≠ .union
  /-- Nothing was said of what a class describes. -/
  classes : ∀ c ∈ cs, c.isClass = true → first.kindOf c.type = d0.kindOf c.type
    ∧ (first.registry.entry c.type).directives = []
    ∧ ∀ f, first.registry.line? c.type f = none

namespace Synthesis

open Run

variable {result : String → DirectiveOption} {b : Declarations} {d0 first : Draft}
  {named : String × TypeDeclaration} {known : String → String → Prop}

/-- What a declared type gives stays within what it may give. -/
theorem Admits.allows (hblank : d0.Blank result)
    (h : d0.Admits b (b.contributionsOf named) first) :
    ∀ c ∈ b.contributionsOf named, (besideFootprint d0.kindOf first
      (b.Gives (b.contributionsOf named)) (Contribution.States (b.contributionsOf named))).Allows b c := by
  intro c hc
  cases c with
  | members plugin t model p =>
    refine ⟨fun f hf => ⟨_, hc, rfl, hf⟩, fun hclass => ?_⟩
    cases plugin with
    | classes =>
      obtain ⟨hkind, hdirectives, hlines⟩ := h.classes _ hc rfl
      exact ⟨⟨_, hc, rfl, rfl⟩, hkind, hdirectives, hlines⟩
    | store own session => cases hclass
    | outline => cases hclass
  | mapping t m =>
    refine ⟨fun f hf => ⟨_, hc, rfl, hf⟩, fun k hk => ⟨⟨_, hc, rfl, hk⟩, fun hbase => ?_⟩,
      fun hnone f hf => ?_⟩
    · exact h.kinds _ hc (hbase ▸ hk)
    · have hplain : (Contribution.mapping t m).isPlain = true := by
        have hsome : m.names.isEmpty = false := by
          cases hnames : m.names with
          | nil =>
            rw [hnames] at hf
            cases hf
          | cons _ _ => rfl
        simp [Contribution.isPlain, hnone, hsome]
      exact iff_of_false (h.unions _ hc hplain) (hblank.kinds t)

/-- **A declared type is described beside what is there as it is described on its own.** -/
theorem beside_addType (hblank : d0.Blank result)
    (hfirst : first.Settled result (fun _ => False) (fun _ _ => True) known)
    (hhas : ∀ t, Table.has d0.registry t = true → Table.has first.registry t = true)
    (h : d0.Admits b (b.contributionsOf named) first)
    (ho : ∀ o ∈ b.directiveOptionsOf named, DirectiveOption.Coherent result o) :
    (addType b named d0).1 = (addType b named first).1
      ∧ first.Beside result d0.kindOf (b.Gives (b.contributionsOf named))
        (Contribution.States (b.contributionsOf named)) True (addType b named d0).2
        (addType b named first).2 := by
  have hnone : ∀ t, d0.configsOf t = [] := fun t => by rw [Draft.configsOf, hblank.configs]; rfl
  refine (lockstep_beside h.lines h.configs).addType
    (alike_describeConfigured h.lines h.configs hfirst) (Admits.allows hblank h) ho d0 first ?_
  refine ⟨⟨fun t => ?_, fun t => ⟨?_, fun use => ?_, fun f => ?_⟩⟩, fun t f hf => ?_, fun _ t => ?_,
    fun t e he => ?_, fun q => ?_, ⟨hblank.thunks, hfirst.thunks⟩, fun t f l hl => ?_,
    fun t e he => ?_, fun t => .inl rfl⟩
  · rw [Bool.eq_iff_iff, Bool.or_eq_true]
    exact ⟨.inl, fun h => h.elim id (hhas t)⟩
  · exact (if_pos rfl).symm
  · rw [hblank.directives]
    simp
  · rw [← Registry.line?_eq, ← Registry.line?_eq, hblank.lines, Option.or_none]
  · rw [Draft.configOf?_eq, Draft.configOf?_eq, hnone]
    refine Option.eq_none_iff_forall_ne_some.mpr fun c hc => ?_
    exact h.configs t f hf _ (Table.mem_of_get? hc) rfl
  · rw [hnone, List.append_nil]
  · rw [hnone] at he
    cases he
  · rw [Draft.steps, Draft.steps, hblank.requests]
    simp
  · rw [hblank.lines] at hl
    cases hl
  · rw [hnone] at he
    cases he

theorem admits_blank (hblank : d0.Blank result) (cs : List Contribution) : d0.Admits b cs d0 where
  lines t f _ := hblank.lines t f
  configs t f _ e he := by
    rw [Draft.configsOf, hblank.configs] at he
    cases he
  kinds _ _ _ := rfl
  unions _ _ _ := hblank.kinds _
  classes _ _ _ := ⟨rfl, hblank.directives _, hblank.lines _⟩

theorem complete_blank (hblank : d0.Blank result) : Complete result b [] d0 := by
  have hnone : ∀ t e, e ∉ d0.configsOf t := fun t e he => by
    rw [Draft.configsOf, hblank.configs] at he
    cases he
  exact ⟨hblank.thunks, fun t e he => absurd he (hnone t e), fun t e he => absurd he (hnone t e),
    fun t e he => absurd he (hnone t e)⟩

/-- **What a declared type brings on its own**, if it can be described. -/
theorem brought_of_addType (hblank : d0.Blank result)
    (hm : ∀ t m, .mapping t m ∈ b.contributionsOf named → m.Distinct)
    (hapart : (b.contributionsOf named).Pairwise (Contribution.Apart b))
    (ho : ∀ o ∈ b.directiveOptionsOf named, DirectiveOption.Coherent result o) {d : Draft}
    (h : addType b named d0 = (.ok ⟨⟩, d)) :
    Draft.Brought result b (b.contributionsOf named) d0 d := by
  obtain ⟨-, hbeside⟩ := beside_addType hblank (complete_blank (b := b) hblank) (fun _ => id)
    (admits_blank hblank (b.contributionsOf named)) ho
  rw [h] at hbeside
  refine ⟨hbeside.lines, hbeside.configs, hbeside.kinds, fun t use huse => ?_,
    adds_addType hm ho [] d0 ⟨⟩ d hapart (complete_blank hblank) h⟩
  -- Types that no deed is about keep their directives, and there were none.
  by_contra hnone
  have htidy : d0.Tidy := ⟨hblank.types, fun t fs hfs => by
    rw [hblank.configs] at hfs
    cases hfs⟩
  obtain ⟨-, -, -, hstands⟩ := does_addType b named d0 _ d h htidy
  have hstanding := hstands d.thunks (.refl _) t ""
  rw [turningOf, Standing.after_of_ne fun a ha heq => hnone <|
    (Deed.exists_contribution ha).imp fun c hc => ⟨hc.1, hc.2.trans heq⟩] at hstanding
  have huses : (d.registry.entry t).directives = (d0.registry.entry t).directives :=
    congrArg Standing.typeUses hstanding
  rw [huses, hblank.directives] at huse
  cases huse

end Synthesis

/-! ### Putting drafts together -/

/-- A draft is put together from several, over a blank one. -/
structure Draft.Assembled (d0 : Draft) (ds : List Draft) (s : Draft) : Prop where
  /-- It has their types. -/
  has : ∀ t, Table.has s.registry t = true
    ↔ Table.has d0.registry t = true ∨ ∃ d ∈ ds, Table.has d.registry t = true
  /-- Types have the kinds that some draft gives. -/
  kinds : ∀ t k, k ≠ d0.kindOf t → (s.kindOf t = k ↔ ∃ d ∈ ds, d.kindOf t = k)
  /-- The directives of all are used. -/
  directives : ∀ t use, use ∈ (s.registry.entry t).directives
    ↔ ∃ d ∈ ds, use ∈ (d.registry.entry t).directives
  /-- It has their lines. -/
  lines : ∀ t f l, s.registry.line? t f = some l ↔ ∃ d ∈ ds, d.registry.line? t f = some l
  /-- Fields are resolved as they say. -/
  known : ∀ t f c, s.configOf? t f = some c ↔ ∃ d ∈ ds, d.configOf? t f = some c
  /-- Nothing else is configured. -/
  configs : ∀ t, ∀ e ∈ s.configsOf t, ∃ d ∈ ds, e ∈ d.configsOf t
  /-- The filters of all are asked for. -/
  steps : ∀ q, q ∈ s.steps ↔ ∃ d ∈ ds, q ∈ d.steps
  /-- The extensions are those of the blank draft, as far as fields go. -/
  extended : s.extensions.fields = d0.extensions.fields

/-- Two drafts say the same, in whatever order. -/
structure Draft.Same (s s' : Draft) : Prop where
  /-- The registries say the same. -/
  registry : s.registry.Same s'.registry
  /-- Fields are resolved alike. -/
  known : ∀ t f, s.configOf? t f = s'.configOf? t f
  /-- The same filters are asked for. -/
  steps : ∀ q, q ∈ s.steps ↔ q ∈ s'.steps
  /-- The same fields are to be added. -/
  extended : s.extensions.fields = s'.extensions.fields

namespace Draft

variable {d0 s s' : Draft} {ds ds' : List Draft}

/-- **Drafts that are put together in different orders say the same.** -/
theorem Assembled.same (h : Assembled d0 ds s) (h' : Assembled d0 ds' s')
    (hmem : ∀ d, d ∈ ds ↔ d ∈ ds') : s.Same s' where
  registry := by
    refine ⟨fun t => ?_, fun t => ⟨?_, fun use => ?_, fun f => ?_⟩⟩
    · rw [Bool.eq_iff_iff, h.has, h'.has]
      simp only [hmem]
    · change s.kindOf t = s'.kindOf t
      by_cases hbase : s.kindOf t = d0.kindOf t
      · by_contra hne
        refine hne (((h.kinds t _ fun heq => hne (hbase.trans heq.symm)).mpr ?_))
        obtain ⟨d, hd, hkind⟩ := (h'.kinds t (s'.kindOf t) fun heq =>
          hne (hbase.trans heq.symm)).mp rfl
        exact ⟨d, (hmem d).mpr hd, hkind⟩
      · obtain ⟨d, hd, hkind⟩ := (h.kinds t _ hbase).mp rfl
        exact ((h'.kinds t _ hbase).mpr ⟨d, (hmem d).mp hd, hkind⟩).symm
    · rw [h.directives, h'.directives]
      simp only [hmem]
    · rw [← Registry.line?_eq, ← Registry.line?_eq]
      refine Option.ext fun l => ?_
      rw [h.lines, h'.lines]
      simp only [hmem]
  known t f := by
    refine Option.ext fun c => ?_
    rw [h.known, h'.known]
    simp only [hmem]
  steps q := by
    rw [h.steps, h'.steps]
    simp only [hmem]
  extended := h.extended.trans h'.extended.symm

theorem assembled_nil {result : String → DirectiveOption} (h : d0.Blank result) :
    Assembled d0 [] d0 where
  has _ := by simp
  kinds t k hk := iff_of_false hk.symm (by simp)
  directives t use := by simp [h.directives]
  lines t f l := by simp [h.lines]
  known t f c := by
    have hnone : d0.configOf? t f = none := by rw [configOf?, h.configs]; rfl
    simp [hnone]
  configs t e he := by
    rw [configsOf, h.configs] at he
    cases he
  steps q := by
    have hnone : d0.steps = [] := by rw [steps, h.requests]; rfl
    simp [hnone]
  extended := rfl

end Draft

/-- Of two declared types, what the first contributes leaves room for what the second does. -/
structure Declarations.LeavesRoom (b : Declarations) (named other : String × TypeDeclaration) :
    Prop where
  /-- They give no field to the same type. -/
  apart : ∀ c ∈ b.contributionsOf named, ∀ c' ∈ b.contributionsOf other, c.Apart b c'
  /-- Contributions to the same type suit each other. -/
  suits : ∀ c ∈ b.contributionsOf named, ∀ c' ∈ b.contributionsOf other, c.type = c'.type →
    c.Suits c'

/-- The draft into which a declared type is described on its own. -/
def Declarations.own (b : Declarations) (d0 : Draft) (named : String × TypeDeclaration) : Draft :=
  (Synthesis.addType b named d0).2

namespace Synthesis

variable {result : String → DirectiveOption} {b : Declarations} {d0 s s' : Draft}
  {named : String × TypeDeclaration} {done rest : List (String × TypeDeclaration)}

section assembled

variable (hs : Draft.Assembled d0 (done.map (b.own d0)) s)
  (hbrought : ∀ other ∈ done, Draft.Brought result b (b.contributionsOf other) d0 (b.own d0 other))

include hs hbrought

theorem settled_of_assembled (hthunks : s.thunks.Agrees result) :
    s.Settled result (fun _ => False) (fun _ _ => True) (fun _ _ => True) := by
  have hconfigs : ∀ t, ∀ e ∈ s.configsOf t, ∃ other ∈ done, e ∈ (b.own d0 other).configsOf t := by
    intro t e he
    obtain ⟨d, hd, he⟩ := hs.configs t e he
    obtain ⟨other, hother, rfl⟩ := List.mem_map.mp hd
    exact ⟨other, hother, he⟩
  refine ⟨hthunks, fun t e he => ?_, fun t e he _ => ?_, fun _ _ _ => trivial⟩
  · obtain ⟨other, hother, he⟩ := hconfigs t e he
    exact (hbrought other hother).settled.coherent t e he
  · obtain ⟨other, hother, he⟩ := hconfigs t e he
    obtain ⟨⟨l, hline, hl⟩, hasked⟩ := (hbrought other hother).settled.settles t e he trivial
    have hmem := List.mem_map_of_mem (f := b.own d0) hother
    exact ⟨⟨l, (hs.lines t e.1 l).mpr ⟨_, hmem, hline⟩, hl⟩, fun q hq =>
      (hasked q hq).imp id fun hthere => (hs.steps q).mpr ⟨_, hmem, hthere⟩⟩

/-- A type has the kind that it had at first, or one that some declared type states. -/
theorem kindOf_of_assembled (t : String) : s.kindOf t = d0.kindOf t
    ∨ ∃ other ∈ done, ∃ c ∈ b.contributionsOf other, c.type = t ∧ c.kind? = some (s.kindOf t) := by
  by_cases hbase : s.kindOf t = d0.kindOf t
  · exact .inl hbase
  · obtain ⟨d, hd, hkind⟩ := (hs.kinds t _ hbase).mp rfl
    obtain ⟨other, hother, rfl⟩ := List.mem_map.mp hd
    rcases (hbrought other hother).kinds t with hsame | hstated
    · exact absurd (hkind.symm.trans hsame) hbase
    · obtain ⟨c, hc, htype, hc'⟩ := hstated
      exact .inr ⟨other, hother, c, hc, htype, hkind ▸ hc'⟩

/-- **What was put together leaves room for a declared type**, if each part does. -/
theorem admits_of_assembled (hblank : d0.Blank result)
    (hroom : ∀ other ∈ done, b.LeavesRoom other named) : d0.Admits b (b.contributionsOf named) s := by
  have hlines : ∀ t f l, s.registry.line? t f = some l →
      ∃ other ∈ done, ∃ c ∈ b.contributionsOf other, c.type = t ∧ f ∈ c.fields b := by
    intro t f l hl
    obtain ⟨d, hd, hline⟩ := (hs.lines t f l).mp hl
    obtain ⟨other, hother, rfl⟩ := List.mem_map.mp hd
    exact ⟨other, hother, (hbrought other hother).lines t f l hline⟩
  have hkinds := kindOf_of_assembled hs hbrought
  refine ⟨fun t f ⟨c', hc', htype', hf'⟩ => ?_, fun t f ⟨c', hc', htype', hf'⟩ e he hname => ?_,
    fun c' hc' hkind => ?_, fun c' hc' hplain hunion => ?_, fun c' hc' hclass => ?_⟩
  · refine Option.eq_none_iff_forall_ne_some.mpr fun l hl => ?_
    obtain ⟨other, hother, c, hc, htype, hf⟩ := hlines t f l hl
    exact (hroom other hother).apart c hc c' hc' (htype.trans htype'.symm) f hf hf'
  · obtain ⟨d, hd, he⟩ := hs.configs t e he
    obtain ⟨other, hother, rfl⟩ := List.mem_map.mp hd
    obtain ⟨c, hc, htype, hf⟩ := (hbrought other hother).configs t e he
    exact (hroom other hother).apart c hc c' hc' (htype.trans htype'.symm) f (hname ▸ hf) hf'
  · rcases hkinds c'.type with hsame | ⟨other, hother, c, hc, htype, hstated⟩
    · exact hsame
    · exact ((hroom other hother).suits c hc c' hc' htype).kinds _ _ hstated hkind
  · rcases hkinds c'.type with hsame | ⟨other, hother, c, hc, htype, hstated⟩
    · exact hblank.kinds _ (hsame.symm.trans hunion)
    · have hnone := ((hroom other hother).suits c hc c' hc' htype).union (hunion ▸ hstated)
      rw [hplain] at hnone
      cases hnone
  · -- Nobody else contributes to a type that a class describes.
    have hother : ∀ other ∈ done, ∀ c ∈ b.contributionsOf other, c.type ≠ c'.type := by
      intro other hother c hc htype
      have hnone := ((hroom other hother).suits c hc c' hc' htype).plain
      rw [hclass] at hnone
      cases hnone
    refine ⟨?_, List.eq_nil_iff_forall_not_mem.mpr fun use huse => ?_, fun f => ?_⟩
    · rcases hkinds c'.type with hsame | ⟨other, hmem, c, hc, htype, -⟩
      · exact hsame
      · exact absurd htype (hother other hmem c hc)
    · obtain ⟨d, hd, huse⟩ := (hs.directives c'.type use).mp huse
      obtain ⟨other, hmem, rfl⟩ := List.mem_map.mp hd
      obtain ⟨c, hc, htype⟩ := (hbrought other hmem).directives c'.type use huse
      exact hother other hmem c hc htype
    · refine Option.eq_none_iff_forall_ne_some.mpr fun l hl => ?_
      obtain ⟨other, hmem, c, hc, htype, -⟩ := hlines c'.type f l hl
      exact hother other hmem c hc htype

omit hs hbrought in
theorem or_eq_some_iff_of_disjoint {α : Type} {x y : Option α} (h : ∀ a, y = some a → x = none)
    (a : α) : x.or y = some a ↔ x = some a ∨ y = some a := by
  cases y with
  | none => simp
  | some a' => simp [h a' rfl]

/-- **A declared type is put to the others.** -/
theorem assembled_append (hblank : d0.Blank result)
    (hroom : ∀ other ∈ done, b.LeavesRoom other named)
    (hbeside : s.Beside result d0.kindOf (b.Gives (b.contributionsOf named))
      (Contribution.States (b.contributionsOf named)) True (b.own d0 named) s')
    (hextended : s'.extensions.fields = s.extensions.fields) :
    Draft.Assembled d0 ((done ++ [named]).map (b.own d0)) s' := by
  have hadmits := admits_of_assembled hs hbrought hblank hroom
  have hkinds := kindOf_of_assembled hs hbrought
  have hsplit : ∀ P : Draft → Prop, (∃ d ∈ (done ++ [named]).map (b.own d0), P d)
      ↔ (∃ d ∈ done.map (b.own d0), P d) ∨ P (b.own d0 named) := by
    intro P
    simp only [List.map_append, List.mem_append, List.map_cons, List.map_nil, List.mem_singleton,
      or_and_right, exists_or, exists_eq_left]
  refine ⟨fun t => ?_, fun t k hk => ?_, fun t use => ?_, fun t f l => ?_, fun t f c => ?_,
    fun t e he => ?_, fun q => ?_, hextended.trans hs.extended⟩
  · rw [hsplit, hbeside.registry.has, Bool.or_eq_true, hs.has, or_assoc]
  · have hkind : s'.kindOf t = if (b.own d0 named).kindOf t = d0.kindOf t then s.kindOf t
        else (b.own d0 named).kindOf t := (hbeside.registry.entries t).kind
    rw [hsplit, hkind, ← hs.kinds t k hk]
    split
    · rename_i hown
      exact ⟨.inl, fun h => h.resolve_right fun heq => hk (heq.symm.trans hown)⟩
    · rename_i hown
      refine ⟨.inr, fun h => h.elim (fun hthere => ?_) id⟩
      -- Both state a kind, so they state the same.
      obtain ⟨c', hc', htype', hstated'⟩ := (hbeside.kinds t).resolve_left hown
      rcases hkinds t with hsame | ⟨other, hother, c, hc, htype, hstated⟩
      · exact absurd (hthere.symm.trans hsame) hk
      · exact (((hroom other hother).suits c hc c' hc' (htype.trans htype'.symm)).kinds _ _
          hstated hstated').symm.trans hthere
  · rw [hsplit, (hbeside.registry.entries t).directives, hs.directives]
  · rw [hsplit, hbeside.registry.line?, ← hs.lines]
    exact or_eq_some_iff_of_disjoint (fun l hl => hadmits.lines t f (hbeside.lines t f l hl)) l
  · have hlookup : s'.configOf? t f = (s.configOf? t f).or ((b.own d0 named).configOf? t f) := by
      simp only [Draft.configOf?_eq, hbeside.listed trivial, Table.get?_append]
    rw [hsplit, ← hs.known, hlookup]
    refine or_eq_some_iff_of_disjoint (fun c hc => ?_) c
    rw [Draft.configOf?_eq] at hc ⊢
    refine Option.eq_none_iff_forall_ne_some.mpr fun c' hc' => ?_
    exact hadmits.configs t f (hbeside.configs t _ (Table.mem_of_get? hc)) _
      (Table.mem_of_get? hc') rfl
  · rw [hsplit]
    rw [hbeside.listed trivial] at he
    exact (List.mem_append.mp he).imp (hs.configs t e) id
  · rw [hsplit, hbeside.steps, hs.steps]

end assembled

end Synthesis

/-- Declared types that can be described in any order: contributions give no field to the same type,
those of different types suit each other, and directive options are coherent. -/
structure Declarations.Orderless (result : String → DirectiveOption) (b : Declarations)
    (types : List (String × TypeDeclaration)) : Prop where
  /-- Mappings have different names for different fields. -/
  distinct : ∀ named ∈ types, ∀ t m, .mapping t m ∈ b.contributionsOf named → m.Distinct
  /-- Directive options are coherent. -/
  coherent : ∀ named ∈ types, ∀ o ∈ b.directiveOptionsOf named, DirectiveOption.Coherent result o
  /-- No two contributions give the same field to a type. -/
  apart : (types.flatMap b.contributionsOf).Pairwise (Contribution.Apart b)
  /-- Contributions of different types to the same one suit each other. -/
  suits : types.Pairwise fun named other => ∀ c ∈ b.contributionsOf named,
    ∀ c' ∈ b.contributionsOf other, c.type = c'.type → c.Suits c' ∧ c'.Suits c

namespace Declarations.Orderless

variable {result : String → DirectiveOption} {b : Declarations}
  {types types' : List (String × TypeDeclaration)}

theorem apart_symm {c c' : Contribution} (h : c.Apart b c') : c'.Apart b c :=
  fun htype f hf hf' => h htype.symm f hf' hf

theorem perm (h : Orderless result b types) (hperm : types.Perm types') :
    Orderless result b types' where
  distinct named hnamed := h.distinct named (hperm.mem_iff.mpr hnamed)
  coherent named hnamed := h.coherent named (hperm.mem_iff.mpr hnamed)
  apart := (hperm.flatMap_right _).pairwise h.apart fun hapart => apart_symm hapart
  suits := hperm.pairwise h.suits fun hsuits c hc c' hc' htype =>
    (hsuits c' hc' c hc htype.symm).symm

/-- Types that come first leave room for the others. -/
theorem leavesRoom (h : Orderless result b types) :
    types.Pairwise fun named other => b.LeavesRoom named other := by
  have hapart := (List.pairwise_flatMap.mp h.apart).2
  exact hapart.imp₂ (fun named other hapart hsuits =>
    ⟨hapart, fun c hc c' hc' htype => (hsuits c hc c' hc' htype).1⟩) h.suits

end Declarations.Orderless

namespace Synthesis

open Run

variable {result : String → DirectiveOption} {b : Declarations} {d0 s : Draft}
  {types : List (String × TypeDeclaration)}

/-- A draft that is put together from declared types, described on their own. -/
structure TogetherFrom (result : String → DirectiveOption) (b : Declarations) (d0 : Draft)
    (types : List (String × TypeDeclaration)) (s : Draft) : Prop where
  /-- Each can be described. -/
  described : ∀ named ∈ types, addType b named d0 = (.ok ⟨⟩, b.own d0 named)
  /-- They are put together. -/
  assembled : Draft.Assembled d0 (types.map (b.own d0)) s
  /-- What is kept of thunks are their values. -/
  thunks : s.thunks.Agrees result
  /-- Nothing is kept twice. -/
  tidy : s.Tidy

theorem brought_of_described (hblank : d0.Blank result) (horder : b.Orderless result types)
    {named : String × TypeDeclaration} (hnamed : named ∈ types)
    (h : addType b named d0 = (.ok ⟨⟩, b.own d0 named)) :
    Draft.Brought result b (b.contributionsOf named) d0 (b.own d0 named) :=
  brought_of_addType hblank (horder.distinct named hnamed)
    ((List.pairwise_flatMap.mp horder.apart).1 named hnamed) (horder.coherent named hnamed) h

/-- **Describing declared types one after the other puts together what each of them brings**, or it
fails because one of them cannot be described. -/
theorem together_forM (hblank : d0.Blank result) {done rest : List (String × TypeDeclaration)}
    (horder : b.Orderless result (done ++ rest)) (h : TogetherFrom result b d0 done s) :
    (∃ s', rest.forM (addType b) s = (.ok ⟨⟩, s') ∧ TogetherFrom result b d0 (done ++ rest) s')
    ∨ ((∃ named ∈ rest, (addType b named d0).1.isOk = false)
      ∧ ∃ e s', rest.forM (addType b) s = (.error e, s')) := by
  induction rest generalizing done s with
  | nil =>
    refine .inl ⟨s, rfl, ?_⟩
    rw [List.append_nil]
    exact h
  | cons named rest ih =>
    have hmem : named ∈ done ++ named :: rest := List.mem_append_right _ List.mem_cons_self
    have hbrought : ∀ other ∈ done,
        Draft.Brought result b (b.contributionsOf other) d0 (b.own d0 other) := fun other hother =>
      brought_of_described hblank horder (List.mem_append_left _ hother) (h.described other hother)
    have hroom : ∀ other ∈ done, b.LeavesRoom other named := fun other hother =>
      (List.pairwise_append.mp horder.leavesRoom).2.2 other hother named List.mem_cons_self
    obtain ⟨hout, hbeside⟩ := beside_addType hblank
      (settled_of_assembled h.assembled hbrought h.thunks)
      (fun t ht => (h.assembled.has t).mpr (.inl ht))
      (admits_of_assembled h.assembled hbrought hblank hroom) (horder.coherent named hmem)
    rcases hrun : addType b named s with ⟨e | ⟨⟨⟩⟩, s1⟩
    · rw [hrun] at hout
      refine .inr ⟨⟨named, List.mem_cons_self, ?_⟩, e, s1, bind_of_error hrun _⟩
      rw [hout]
      rfl
    · rw [hrun] at hout hbeside
      obtain ⟨htidy, -, hextended, -⟩ := does_addType b named s _ s1 hrun h.tidy
      have hone : TogetherFrom result b d0 (done ++ [named]) s1 := by
        refine ⟨List.forall_mem_append.mpr ⟨h.described, fun other hother => ?_⟩,
          assembled_append h.assembled hbrought hblank hroom hbeside hextended, hbeside.thunks.2,
          htidy⟩
        rw [List.mem_singleton.mp hother]
        exact Prod.ext hout rfl
      have hloop : (named :: rest).forM (addType b) s = rest.forM (addType b) s1 :=
        bind_of_ok hrun _
      rw [List.append_cons] at horder ⊢
      rw [hloop]
      rcases ih horder hone with hok | ⟨⟨other, hother, hfails⟩, hrest⟩
      · exact .inl hok
      · exact .inr ⟨⟨other, List.mem_cons_of_mem _ hother, hfails⟩, hrest⟩

/-- From a blank draft they are all there is. -/
theorem together_types (hblank : d0.Blank result) (horder : b.Orderless result types) :
    (∃ s, types.forM (addType b) d0 = (.ok ⟨⟩, s) ∧ TogetherFrom result b d0 types s)
    ∨ ((∃ named ∈ types, (addType b named d0).1.isOk = false)
      ∧ ∃ e s, types.forM (addType b) d0 = (.error e, s)) := by
  have htidy : d0.Tidy := ⟨hblank.types, fun t fs hfs => by
    rw [hblank.configs] at hfs
    cases hfs⟩
  have hnone : TogetherFrom result b d0 [] d0 :=
    ⟨fun _ h => (List.not_mem_nil h).elim, Draft.assembled_nil hblank, hblank.thunks, htidy⟩
  exact together_forM hblank horder hnone

/-- **Declared types are described in any order alike.** -/
theorem types_perm (hblank : d0.Blank result) (horder : b.Orderless result types)
    {types' : List (String × TypeDeclaration)} (hperm : types.Perm types') :
    (∃ e s e' s', types.forM (addType b) d0 = (.error e, s)
      ∧ types'.forM (addType b) d0 = (.error e', s'))
    ∨ ∃ s s', types.forM (addType b) d0 = (.ok ⟨⟩, s) ∧ types'.forM (addType b) d0 = (.ok ⟨⟩, s')
      ∧ TogetherFrom result b d0 types s ∧ TogetherFrom result b d0 types' s' ∧ s.Same s' := by
  have hfails : ∀ {types : List (String × TypeDeclaration)} {s : Draft},
      TogetherFrom result b d0 types s → ∀ named ∈ types,
      (addType b named d0).1.isOk = false → False := by
    intro types s h named hnamed hfails
    rw [h.described named hnamed] at hfails
    cases hfails
  rcases together_types hblank horder with ⟨s, hrun, h⟩ | ⟨⟨named, hnamed, hbad⟩, e, s, hrun⟩
  · rcases together_types hblank (horder.perm hperm) with
      ⟨s', hrun', h'⟩ | ⟨⟨named, hnamed, hbad⟩, -⟩
    · refine .inr ⟨s, s', hrun, hrun', h, h', h.assembled.same h'.assembled fun d => ?_⟩
      exact (hperm.map _).mem_iff
    · exact (hfails h named (hperm.mem_iff.mpr hnamed) hbad).elim
  · rcases together_types hblank (horder.perm hperm) with ⟨s', hrun', h'⟩ | ⟨-, e', s', hrun'⟩
    · exact (hfails h' named (hperm.mem_iff.mp hnamed) hbad).elim
    · exact .inl ⟨e, s, e', s', hrun, hrun'⟩

end Synthesis
end SchemaForge

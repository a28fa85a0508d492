import SchemaForge.Execution.Answer
import SchemaForge.Proofs.Outcome
import SchemaForge.Proofs.Schema.Closure

/-!
# Handlers that a query does not look at

While an operation runs, handlers are looked up for the fields of types that are resolvable,
and for no others: the parts that it grows belong to such types, and so do the parts that the
jobs which wait in them will grow. So two tables of handlers that agree on these types give
the same answer. The proof runs both side by side: `Grow.Alike` and `Rounds.Alike` say that
two runs do the same and what they yield has a property, here that only such jobs wait in it.
-/
namespace SchemaForge

open Language

/-! ### Scenes with other handlers -/

/-- A scene with other handlers. -/
def Scene.withHandlers (s : Scene) (hs : Handlers) : Scene := { s with handlers := hs }

section Over

variable (s : Scene) (hs : Handlers) (call : Call)

theorem Script.run_withHandlers : (∀ x, Script.run (s.withHandlers hs) call x = Script.run s call x)
    ∧ (∀ xs, Script.members (s.withHandlers hs) call xs = Script.members s call xs)
    ∧ ∀ xs, Script.texts (s.withHandlers hs) call xs = Script.texts s call xs := by
  apply Script.run.mutual_induct
  all_goals intros
  all_goals first | rfl | simp only [Script.run, Script.texts, Script.members, *]

theorem Test.acceptsAll_withHandlers (v : Value) (tests : List Test) :
    acceptsAll (s.withHandlers hs) v tests = acceptsAll s v tests := by
  induction tests with
  | nil => rfl
  | cons t tests ih =>
    rw [acceptsAll, acceptsAll, ih]
    rfl

theorem Test.prune_withHandlers (tests : List Test) (v : Value) :
    prune (s.withHandlers hs) tests v = prune s tests v := by
  have hpasses : passes (s.withHandlers hs) tests = passes s tests := by
    funext v
    simp only [passes, acceptsAll_withHandlers]
  unfold prune
  rw [hpasses]

theorem Chain.steps_withHandlers (awaits : Bool) (inner : Act Value) (p : Progress)
    (ss : List Step) :
    steps (s.withHandlers hs) call awaits inner p ss = steps s call awaits inner p ss := by
  induction ss generalizing p with
  | nil => rfl
  | cons x ss ih =>
    simp only [steps, ih]
    rfl

theorem Chain.run_withHandlers (directives : List Directive) (field : Act Value) :
    run (s.withHandlers hs) call directives field = run s call directives field := by
  induction directives with
  | nil => rfl
  | cons d directives ih =>
    rw [run_cons, run_cons, ih]
    simp only [around, steps_withHandlers, Test.prune_withHandlers]

theorem Completion.fieldValue_withHandlers (h : Handler) :
    fieldValue (s.withHandlers hs) call h = fieldValue s call h := by
  unfold fieldValue
  rw [Chain.run_withHandlers]
  cases h.yield with
  | member => rfl
  | resolver r => exact congrArg _ ((Script.run_withHandlers s hs call).1 r.script)
  | fetch f => rfl

theorem Completion.complete_withHandlers (objects : Objects) (t : TypeRef) (path : Path)
    (v : Value) :
    complete (s.withHandlers hs) objects t path v = complete s objects t path v := by
  induction t generalizing path v with
  | named name => rfl
  | list t ih =>
    have hitem : complete (s.withHandlers hs) objects t = complete s objects t := by
      funext path v
      exact ih path v
    simp only [complete, hitem]
  | nonNull t ih => simp only [complete, ih]

end Over

/-! ### Runs that do the same -/

/-- Two runs do the same, and what they yield has a property. -/
def Rounds.Alike {α : Type} (Q : α → Prop) (m n : StateM Journal α) : Prop :=
  ∀ j, m j = n j ∧ Q (m j).1

/-- Two ways to grow something do the same, and what they grow has a property. -/
def Grow.Alike {α : Type} (Q : α → Prop) (m n : Grow α) : Prop :=
  ∀ j, m j = n j ∧ ∀ a k, m j = (.ok a, k) → Q a

namespace Grow.Alike

variable {α β : Type} {Q : α → Prop} {R : β → Prop}

theorem pure {a : α} (h : Q a) : Alike Q (Pure.pure a) (Pure.pure a) := by
  refine fun j => ⟨rfl, fun b k hb => ?_⟩
  cases hb
  exact h

theorem throw (m : Mishap) : Alike Q (MonadExcept.throw m) (MonadExcept.throw m) :=
  fun _ => ⟨rfl, fun _ _ h => by cases h⟩

theorem refl (m : Grow α) : Alike (fun _ => True) m m := fun _ => ⟨rfl, fun _ _ _ => trivial⟩

theorem bind {m n : Grow α} {f g : α → Grow β} (h : Alike Q m n)
    (hf : ∀ a, Q a → Alike R (f a) (g a)) : Alike R (m >>= f) (n >>= g) := by
  intro j
  obtain ⟨heq, hq⟩ := h j
  rcases hm : m j with ⟨_ | a, k⟩
  · rw [Run.bind_of_error hm f, Run.bind_of_error (heq ▸ hm) g]
    exact ⟨rfl, fun _ _ h => by cases h⟩
  · rw [Run.bind_of_ok hm f, Run.bind_of_ok (heq ▸ hm) g]
    exact hf a (hq a k hm) k

theorem into {P : Part → Prop} {m n : Grow Part} (nullable : Bool) (hnull : P .null)
    (h : Alike P m n) : Alike P (Grow.into nullable m) (Grow.into nullable n) := by
  intro j
  obtain ⟨heq, hq⟩ := h j
  unfold Grow.into
  rw [← heq]
  refine ⟨rfl, fun a k ha => ?_⟩
  rcases hm : m j with ⟨e | p, k'⟩
  · rw [hm] at ha
    cases nullable with
    | true =>
      cases ha
      exact hnull
    | false => cases ha
  · rw [hm] at ha
    cases ha
    exact hq _ _ hm

theorem placed_lift {x : Except Failure α} (path : Path) (h : ∀ a, x = .ok a → Q a) :
    Alike Q (Grow.placed path (Act.lift x)) (Grow.placed path (Act.lift x)) := by
  refine fun j => ⟨rfl, fun a k ha => ?_⟩
  cases x with
  | error e => cases ha
  | ok b =>
    cases ha
    exact h _ rfl

theorem filterMapM {γ : Type} {f g : γ → Grow (Option β)} {xs : List γ}
    (h : ∀ x ∈ xs, Alike (fun o => ∀ b ∈ o, R b) (f x) (g x)) :
    Alike (fun bs => ∀ b ∈ bs, R b) (xs.filterMapM f) (xs.filterMapM g) := by
  induction xs with
  | nil => exact pure fun b hb => by cases hb
  | cons x xs ih =>
    rw [List.filterMapM_cons, List.filterMapM_cons]
    have hrest := ih fun y hy => h y (List.mem_cons_of_mem _ hy)
    refine (h x List.mem_cons_self).bind fun o ho => ?_
    cases o with
    | none => exact hrest
    | some b =>
      refine hrest.bind fun bs hbs => pure fun c hc => ?_
      rcases List.mem_cons.mp hc with rfl | hc
      · exact ho _ rfl
      · exact hbs c hc

end Grow.Alike

namespace Rounds.Alike

variable {α β : Type} {Q : α → Prop} {R : β → Prop}

theorem pure {a : α} (h : Q a) : Alike Q (Pure.pure a) (Pure.pure a) := fun _ => ⟨rfl, h⟩

theorem bind {m n : StateM Journal α} {f g : α → StateM Journal β} (h : Alike Q m n)
    (hf : ∀ a, Q a → Alike R (f a) (g a)) : Alike R (m >>= f) (n >>= g) := by
  intro j
  obtain ⟨heq, hq⟩ := h j
  obtain ⟨heq', hr⟩ := hf _ hq (m j).2
  refine ⟨?_, hr⟩
  change f (m j).1 (m j).2 = g (n j).1 (n j).2
  rw [heq', heq]

end Rounds.Alike

theorem Grow.Alike.run {α : Type} {Q : α → Prop} {m n : Grow α} (h : Grow.Alike Q m n) :
    Rounds.Alike (fun r => ∀ a, r = .ok a → Q a) m.run n.run := by
  refine fun j => ⟨(h j).1, fun a ha => (h j).2 a (m j).2 ?_⟩
  exact Prod.ext ha rfl

/-! ### Jobs that wait -/

namespace Part

mutual

/-- Whether all jobs that wait in a part have a property. -/
def AllJobs (P : Job → Prop) : Part → Prop
  | value _ => True
  | waiting job => P job
  | group _ _ slots => AllSlots P slots
  | lost _ others => AllSlots P others

/-- Whether all jobs that wait in several places have a property. -/
def AllSlots (P : Job → Prop) : List (PathPart × Bool × Part) → Prop
  | [] => True
  | (_, _, p) :: rest => AllJobs P p ∧ AllSlots P rest

end

variable {P : Job → Prop}

theorem allSlots_iff {slots : List Slot} : AllSlots P slots ↔ ∀ x ∈ slots, AllJobs P x.2.2 := by
  induction slots with
  | nil => simp [AllSlots]
  | cons x slots ih => simp [AllSlots, ih]

theorem allSlots_leftOver {slots : List Slot} (h : AllSlots P slots) :
    AllSlots P (leftOver slots) := by
  rw [allSlots_iff] at h ⊢
  intro x hx
  obtain ⟨⟨k, nullable, p⟩, hmem, hx⟩ := List.mem_flatMap.mp hx
  have hp := h _ hmem
  cases p with
  | lost cause others => exact allSlots_iff.mp hp x hx
  | value v => cases hx
  | waiting job =>
    obtain rfl := List.mem_singleton.mp hx
    exact hp
  | group isList begun inner =>
    dsimp only at hx
    split at hx
    · obtain rfl := List.mem_singleton.mp hx
      exact hp
    · cases hx

theorem allJobs_gathered {isList : Bool} {slots : List Slot} (h : AllSlots P slots) :
    AllJobs P (gathered isList slots) := by
  unfold gathered
  split
  · exact allSlots_leftOver h
  · exact h

end Part

/-- Whether a job grows objects of resolvable types only. -/
def Job.Within (schema : Schema) (job : Job) : Prop :=
  ∀ u ∈ schema.possibleTypes job.type.baseName, schema.Resolvable u

/-- Two tables have the same handlers for the fields of resolvable types. -/
def Schema.SameHandlers (schema : Schema) (hs hs' : Handlers) : Prop :=
  ∀ t, schema.Resolvable t → ∀ f ∈ schema.fields t, hs.find? t f.name = hs'.find? t f.name

/-- Whether the fields of a type are those of a resolvable type. -/
def Schema.Fielded (schema : Schema) (t : String) : Prop :=
  schema.Resolvable t ∨ schema.fields t = []

theorem Schema.mem_possibleTypes_self {s : Schema} {t : String} (h : s.isKind t .object) :
    t ∈ s.possibleTypes t ∨ s.fields t = [] := by
  cases ht : s.types.get? t with
  | none => exact .inr (by simp [fields, body?, ht])
  | some type =>
    refine .inl ?_
    rw [isKind, kind?, ht, beq_iff_eq, Option.some_inj, ← SchemaType.kind_body] at h
    rw [possibleTypes, ht]
    cases hb : type.body <;> rw [hb] at h <;> simp_all [TypeBody.kind]

namespace Completion

variable {s : Scene}

/-- The type that a value has at run time is one that it can have. -/
theorem possible_of_runtimeType {type u : String} {v : Value}
    (h : runtimeType s type v = .ok u) : u ∈ s.schema.possibleTypes type := by
  unfold runtimeType at h
  split at h
  · split at h
    · rename_i hpossible
      cases h
      exact List.contains_iff_mem.mp (Bool.and_eq_true_iff.mp hpossible).2
    · cases h
  · cases h

theorem completeItems_alike {P : Part → Prop} {grow grow' : Path → Value → Grow Part}
    (hnull : P .null) (h : ∀ path v, Grow.Alike P (grow path v) (grow' path v)) (nullable : Bool)
    (path : Path) (n : Nat) (vs : List Value) :
    Grow.Alike (fun slots => ∀ x ∈ slots, P x.2.2) (completeItems grow nullable path n vs)
      (completeItems grow' nullable path n vs) := by
  induction vs generalizing n with
  | nil => exact .pure fun x hx => by cases hx
  | cons v vs ih =>
    simp only [completeItems]
    refine (Grow.Alike.into nullable hnull (h _ v)).bind fun p hp =>
      (ih (n + 1)).bind fun rest hrest => ?_
    refine .pure fun x hx => ?_
    rcases List.mem_cons.mp hx with rfl | hx
    · exact hp
    · exact hrest x hx

/-- Values are completed alike if objects are. -/
theorem complete_alike {objects objects' : Objects}
    (hobjects : ∀ name path v, s.schema.Fielded name →
      Grow.Alike (Part.AllJobs (·.Within s.schema)) (objects name path v)
        (objects' name path v)) (t : TypeRef)
    (ht : ∀ u ∈ s.schema.possibleTypes t.baseName, s.schema.Resolvable u) (path : Path)
    (v : Value) : Grow.Alike (Part.AllJobs (·.Within s.schema)) (complete s objects t path v)
      (complete s objects' t path v) := by
  induction t generalizing path v with
  | named name =>
    simp only [complete]
    split
    · exact .pure trivial
    · unfold completeNamed
      split
      · exact (Grow.Alike.refl _).bind fun v _ => .pure trivial
      · by_cases hobject : s.schema.isKind name .object = true
        · rw [if_pos hobject, if_pos hobject]
          refine hobjects name path v ?_
          exact (Schema.mem_possibleTypes_self hobject).imp_left (ht name)
        · rw [if_neg hobject, if_neg hobject]
          refine Grow.Alike.bind (.placed_lift path fun u hu => ?_)
            fun u hu => hobjects u path v (.inl hu)
          exact ht u (possible_of_runtimeType hu)
  | list t ih =>
    simp only [complete]
    split
    · exact .pure trivial
    · refine (Grow.Alike.refl _).bind fun items _ => ?_
      refine (completeItems_alike trivial (fun path v => ih ht path v) _ _ _ _).bind
        fun slots h => ?_
      exact .pure (Part.allSlots_iff.mpr h)
  | nonNull t ih =>
    simp only [complete]
    refine (ih ht path v).bind fun p hp => ?_
    cases p with
    | value v => cases v <;> first | exact .throw _ | exact .pure trivial
    | waiting job => exact .pure hp
    | group isList begun slots => exact .pure hp
    | lost cause others => exact .pure hp

variable {hs : Handlers}

/-- A field of a resolvable type is grown alike if its handlers are the same. -/
theorem growField_alike {objects objects' : List Selection → Objects}
    (hobjects : ∀ selections name path v, s.schema.Fielded name →
      Grow.Alike (Part.AllJobs (·.Within s.schema)) (objects selections name path v)
        (objects' selections name path v))
    (hsame : s.schema.SameHandlers s.handlers hs) {type : String} {f : FieldNode}
    (htype : s.schema.Resolvable type) (hf : f ∈ s.schema.fields type) (levels : Nat)
    (source : Value) (path : Path) (a : Asked) :
    Grow.Alike (Part.AllJobs (·.Within s.schema))
      (growField s objects levels type source path f a)
      (growField (s.withHandlers hs) objects' levels type source path f a) := by
  have hwithin : ∀ u ∈ s.schema.possibleTypes f.type.baseName, s.schema.Resolvable u :=
    fun u hu => htype.possible hf hu
  unfold growField
  refine (Grow.Alike.refl (Grow.placed path (argumentsOf s type f a.arguments))).bind
    fun arguments _ => ?_
  dsimp only
  rw [show (s.withHandlers hs).handlers = hs from rfl, ← hsame type htype f hf]
  split
  · exact .pure hwithin
  · rw [fieldValue_withHandlers]
    refine (Grow.Alike.refl _).bind fun v _ => ?_
    rw [complete_withHandlers]
    exact complete_alike (hobjects a.selections) f.type hwithin path v

/-- The fields that are asked of an object are grown alike. -/
theorem growFields_alike (hsame : s.schema.SameHandlers s.handlers hs) (n : Nat)
    (selections : List Selection) (type : String) (path : Path) (source : Value)
    (htype : s.schema.Fielded type) :
    Grow.Alike (Part.AllJobs (·.Within s.schema)) (growFields s n selections type path source)
      (growFields (s.withHandlers hs) n selections type path source) := by
  induction n generalizing selections type path source with
  | zero => exact .pure trivial
  | succ n ih =>
    unfold growFields
    refine (Grow.Alike.refl _).bind fun asked _ => ?_
    refine Grow.Alike.bind (Q := fun slots => ∀ x ∈ slots, Part.AllJobs (·.Within s.schema) x.2.2)
      (.filterMapM fun x _ => ?_) fun slots h => .pure (Part.allSlots_iff.mpr h)
    obtain ⟨key, a⟩ := x
    dsimp only
    split
    · exact .pure fun b hb => by cases hb; trivial
    · rw [show (s.withHandlers hs).schema = s.schema from rfl]
      cases hfield : s.schema.field? type a.name with
      | none => exact .pure fun b hb => by cases hb
      | some f =>
        have hf : f ∈ s.schema.fields type := List.mem_of_find?_eq_some hfield
        have hresolvable := htype.resolve_right (List.ne_nil_of_mem hf)
        have hgrow := growField_alike (fun selections name path v => ih selections name path v)
          hsame hresolvable hf n source (path ++ [.key key]) a
        refine (hgrow.into _ trivial).bind fun p hp => .pure fun b hb => ?_
        cases hb
        exact hp

/-- Jobs are run alike. -/
theorem runJob_alike (hsame : s.schema.SameHandlers s.handlers hs) {job : Job}
    (h : job.Within s.schema) : Grow.Alike (Part.AllJobs (·.Within s.schema)) (runJob s job)
      (runJob (s.withHandlers hs) job) := by
  unfold runJob
  rw [fieldValue_withHandlers]
  refine (Grow.Alike.refl _).bind fun v _ => ?_
  rw [complete_withHandlers]
  exact complete_alike (fun name path v => growFields_alike hsame _ _ name path v) job.type h _ v

end Completion

namespace Rounds

variable {P : Job → Prop}

theorem settle_alike (nullable : Bool) {p : Part} (h : p.AllJobs P) :
    Alike (Part.AllJobs P) (settle nullable p) (settle nullable p) := by
  refine fun j => ⟨rfl, ?_⟩
  unfold settle
  split
  · split
    · exact h
    · exact h
  · exact h

/-- What waits is changed alike. -/
theorem mapWaiting_alike {f g : Part → StateM Journal Part}
    (hf : ∀ p, p.AllJobs P → Alike (Part.AllJobs P) (f p) (g p)) {slots : List Slot}
    (h : Part.AllSlots P slots) :
    Alike (Part.AllSlots P) (mapWaiting f slots) (mapWaiting g slots) := by
  induction slots with
  | nil => exact .pure trivial
  | cons x slots ih =>
    obtain ⟨k, nullable, p⟩ := x
    obtain ⟨hp, hslots⟩ := h
    have hrest : ∀ q : Part, q.AllJobs P → Alike (Part.AllSlots P)
        (do return (k, nullable, q) :: (← mapWaiting f slots))
        (do return (k, nullable, q) :: (← mapWaiting g slots)) :=
      fun q hq => (ih hslots).bind fun rest hrest => .pure ⟨hq, hrest⟩
    unfold mapWaiting
    split
    · exact ((hf p hp).bind fun q hq => settle_alike nullable hq).bind hrest
    · exact hrest p hp

variable {s : Scene} {hs : Handlers} (hsame : s.schema.SameHandlers s.handlers hs)
include hsame

/-- Parts are called alike. -/
theorem start_alike (n : Nat) {p : Part} (h : p.AllJobs (·.Within s.schema)) :
    Alike (Part.AllJobs (·.Within s.schema)) (start s n p) (start (s.withHandlers hs) n p) := by
  induction n generalizing p with
  | zero => exact .pure h
  | succ n ih =>
    cases p with
    | value v => exact .pure h
    | lost cause others => exact .pure h
    | waiting job =>
      unfold start
      refine (Completion.runJob_alike hsame h).run.bind fun r hr => ?_
      cases r with
      | ok p => exact ih (hr p rfl)
      | error m => exact .pure trivial
    | group isList begun slots =>
      cases begun with
      | true => exact .pure h
      | false =>
        simp only [start]
        split
        · refine (mapWaiting_alike (fun p hp => ih hp) h).bind fun slots hslots => ?_
          exact .pure (Part.allJobs_gathered hslots)
        · exact .pure h

/-- Rounds are run alike. -/
theorem advance_alike (bound n : Nat) {p : Part} (h : p.AllJobs (·.Within s.schema)) :
    Alike (Part.AllJobs (·.Within s.schema)) (advance s bound n p)
      (advance (s.withHandlers hs) bound n p) := by
  induction n generalizing p with
  | zero => exact .pure h
  | succ n ih =>
    cases p with
    | value v => exact start_alike hsame bound h
    | waiting job => exact start_alike hsame bound h
    | lost cause others =>
      simp only [advance]
      exact (mapWaiting_alike (fun p hp => ih hp) h).bind fun slots hslots => .pure hslots
    | group isList begun slots =>
      cases begun with
      | false => exact start_alike hsame bound h
      | true =>
        simp only [advance]
        refine (mapWaiting_alike (fun p hp => ih hp) h).bind fun slots hslots => ?_
        exact .pure (Part.allJobs_gathered hslots)

theorem rounds_alike (bound n : Nat) {p : Part} (h : p.AllJobs (·.Within s.schema)) :
    Alike (Part.AllJobs (·.Within s.schema)) (rounds s bound n p)
      (rounds (s.withHandlers hs) bound n p) := by
  induction n generalizing p with
  | zero => exact .pure h
  | succ n ih =>
    unfold rounds
    split
    · exact (advance_alike hsame bound bound h).bind fun q hq => ih hq
    · exact .pure h

/-- All jobs are run alike. -/
theorem finish_alike (bound : Nat) {p : Part} (h : p.AllJobs (·.Within s.schema)) :
    Alike (Part.AllJobs (·.Within s.schema)) (finish s bound p)
      (finish (s.withHandlers hs) bound p) :=
  (start_alike hsame bound h).bind fun _ hq => rounds_alike hsame bound bound hq

theorem finishInTurn_alike (bound : Nat) {slots : List Slot}
    (h : Part.AllSlots (·.Within s.schema) slots) :
    Alike (Part.AllSlots (·.Within s.schema)) (finishInTurn s bound slots)
      (finishInTurn (s.withHandlers hs) bound slots) := by
  induction slots with
  | nil => exact .pure trivial
  | cons x slots ih =>
    obtain ⟨k, nullable, p⟩ := x
    obtain ⟨hp, hslots⟩ := h
    have hrest : ∀ q : Part, q.AllJobs (·.Within s.schema) →
        Alike (Part.AllSlots (·.Within s.schema))
          (do return (k, nullable, q) :: (← finishInTurn s bound slots))
          (do return (k, nullable, q) :: (← finishInTurn (s.withHandlers hs) bound slots)) :=
      fun q hq => (ih hslots).bind fun rest hrest => .pure ⟨hq, hrest⟩
    unfold finishInTurn
    split
    on_goal 1 =>
      refine ((finish_alike hsame bound hp).bind fun q hq => settle_alike nullable hq).bind
        fun q hq => ?_
    on_goal 2 => refine Alike.bind (.pure hp) fun q hq => ?_
    -- in both cases what comes next depends on whether something needed is lost
    all_goals
      rcases q with v | job | ⟨isList, begun, inner⟩ | ⟨_ | m, others⟩
      · exact hrest _ hq
      · exact hrest _ hq
      · exact hrest _ hq
      · exact hrest _ hq
      · exact .pure ⟨trivial, trivial⟩

/-- The jobs at the root are run alike. -/
theorem finishRoot_alike (kind : OperationKind) (bound : Nat) {p : Part}
    (h : p.AllJobs (·.Within s.schema)) :
    Alike (Part.AllJobs (·.Within s.schema)) (finishRoot s kind bound p)
      (finishRoot (s.withHandlers hs) kind bound p) := by
  cases kind with
  | mutation =>
    cases p with
    | group isList begun slots =>
      refine (finishInTurn_alike hsame bound h).bind fun slots hslots => ?_
      exact .pure (Part.allJobs_gathered hslots)
    | value v => exact finish_alike hsame bound h
    | waiting job => exact finish_alike hsame bound h
    | lost cause others => exact finish_alike hsame bound h
  | query => exact finish_alike hsame bound h
  | subscription => exact finish_alike hsame bound h

/-- The value that an operation yields at its root. -/
def evaluate (s : Scene) (kind : OperationKind) (selections : List Selection) (bound : Nat)
    (root : String) (source : Value) : StateM Journal Value := do
  let p ← match ← Completion.growFields s (Selection.depthAll selections) selections root []
      source with
    | .ok p => finishRoot s kind bound p
    | .error m => pure (.lost (some m) [])
  return (← settle true p).shown

theorem evaluate_alike {root : String} (hroot : root ∈ s.schema.walkRoots) (kind : OperationKind)
    (selections : List Selection) (bound : Nat) (source : Value) :
    Alike (fun _ => True) (evaluate s kind selections bound root source)
      (evaluate (s.withHandlers hs) kind selections bound root source) := by
  unfold evaluate
  refine (Completion.growFields_alike hsame _ _ _ _ _ (.inl (.root hroot))).run.bind
    fun grown hgrown => ?_
  cases grown with
  | ok p =>
    refine (finishRoot_alike hsame kind bound (hgrown p rfl)).bind fun p hp => ?_
    exact (settle_alike true hp).bind fun p _ => .pure trivial
  | error m =>
    refine Alike.bind (Q := fun p : Part => p.AllJobs (·.Within s.schema)) (.pure trivial)
      fun p hp => ?_
    exact (settle_alike true hp).bind fun p _ => .pure trivial

end Rounds

namespace Server

/-- A server with other handlers. -/
def withHandlers (server : Server) (hs : Handlers) : Server :=
  { server with generated := { server.generated with handlers := hs } }

variable {server : Server} {hs : Handlers}

/-- What an operation runs in, with the memory from which it starts. -/
def sceneOf (server : Server) (q : Query) (r : Request) (variableValues : Fields)
    (memory : Memory) : Scene where
  schema := r.schema
  leaves := r.leaves
  handlers := server.generated.handlers
  models := server.models
  rows := server.rows
  variableValues := (memory.storeFields variableValues).1
  defaults := server.defaults
  context := ((memory.storeFields variableValues).2.store q.context).1
  session := q.session

/-- What is seen of an evaluation. -/
def seen (x : Value × Journal) : Answer × Memory :=
  ({ data := x.2.memory.view x.1, mishaps := x.2.mishaps, trace := x.2.trace }, x.2.memory)

theorem execute_eq (server : Server) (q : Query) (r : Request) (o : Operation) (root : String)
    (variableValues : Fields) (memory : Memory) :
    server.execute q r o root variableValues memory
      = seen (Rounds.evaluate (server.sceneOf q r variableValues memory) o.kind
          (Selection.expanded r.fragments o.selections)
          ((Selection.depthAll (Selection.expanded r.fragments o.selections) + 1)
            * (deepest r.schema + 3)) root
          (((memory.storeFields variableValues).2.store q.context).2.store q.root).1
          { memory :=
              (((memory.storeFields variableValues).2.store q.context).2.store q.root).2 }) :=
  rfl

/-- **An operation on a root runs the same with all handlers that agree on the fields of
resolvable types.** It looks at no others. -/
theorem execute_withHandlers {r : Request}
    (hsame : r.schema.SameHandlers server.generated.handlers hs) {root : String}
    (hroot : root ∈ r.schema.walkRoots) (q : Query) (o : Operation) (variableValues : Fields)
    (memory : Memory) : (server.withHandlers hs).execute q r o root variableValues memory
      = server.execute q r o root variableValues memory := by
  rw [execute_eq, execute_eq]
  have hscene : (server.sceneOf q r variableValues memory).schema.SameHandlers
      (server.sceneOf q r variableValues memory).handlers hs := hsame
  exact congrArg seen (Eq.symm (Rounds.evaluate_alike hscene hroot o.kind _ _ _ _).1)

end Server
end SchemaForge

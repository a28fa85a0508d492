import SchemaForge.Proofs.Registry.Entries

/-!
# Writing the filters of a field again

A field may be asked for its filters more than once, and its derived types may be there beforehand,
in part or without lines. A run leaves all other types, but that the field may lose its order
argument and that inputs for operators may come in (`Leaves`).

A second run finds the same kinds of values, and nothing new to sort by, so it changes nothing but
perhaps the condition input (`Decides.get?_again`). Where that has lines it stays as well. Where it
is left without lines, it is begun once more with the connectives: an input that was new then loses
them again, but one that had other lines beforehand keeps them now (**`addFilters_again_iff`**).
-/
namespace SchemaForge
namespace Registry

variable {r r' r1 : Registry} {type field returned name : String} {isList : Bool} {v : Verdict}
  {vs ws : List Verdict}

/-! ### Names in order -/

theorem has_of_keys (h : Table.keys r' = Table.keys r) (n : String) :
    Table.has r' n = Table.has r n := by
  rw [Bool.eq_iff_iff, ← Table.mem_keys_iff, ← Table.mem_keys_iff, h]

theorem keys_updateType (h : Table.has r name = true) (f : TypeEntry → TypeEntry) :
    Table.keys (updateType r name f) = Table.keys r := by
  rw [updateType, Table.update, Table.keys_modify, Table.keys_ensure, if_pos h]

theorem keys_writeCondition {w : String} (hw : Table.has r w = true)
    (hoperators : ∀ kind ∈ v.kind?, Table.has r (operatorInputName kind) = true) :
    Table.keys (writeCondition r w v) = Table.keys r := by
  unfold writeCondition
  split
  · rename_i kind hkind
    have hsame : ensureOperatorInput r kind = r :=
      Table.ensure_of_has (hoperators kind hkind) _
    rw [hsame, setFieldType, updateField, keys_updateType hw]
  · rw [deleteField, Table.keys_modify]

/-- Filters of a line that bring nothing in leave the names. -/
theorem keys_write (hw : Table.has r (whereInputName type field) = true)
    (ho : v.sorts = true → Table.has r (orderEnumName type field) = true)
    (hoperators : ∀ kind ∈ v.kind?, Table.has r (operatorInputName kind) = true) :
    Table.keys (write type field r v) = Table.keys r := by
  have hcondition := keys_writeCondition hw hoperators
  unfold write
  split
  · rename_i hsorts
    refine addOrderValues_of_value (I := fun r1 => Table.keys r1 = Table.keys r)
      (fun r1 d _ h => ?_) _ hcondition
    rw [ensureField, updateField, keys_updateType ((has_of_keys h _).trans (ho hsorts)), h]
  · exact hcondition

/-- **Filters that bring nothing in leave the names.** -/
theorem keys_writeAll (hw : Table.has r (whereInputName type field) = true)
    (ho : ∀ v ∈ vs, v.sorts = true → Table.has r (orderEnumName type field) = true)
    (hoperators : ∀ v ∈ vs, ∀ kind ∈ v.kind?, Table.has r (operatorInputName kind) = true) :
    Table.keys (writeAll type field r vs) = Table.keys r := by
  induction vs generalizing r with
  | nil => rfl
  | cons v vs ih =>
    have hv := keys_write hw (ho v List.mem_cons_self) (hoperators v List.mem_cons_self)
    have hsame := has_of_keys hv
    rw [writeAll, List.foldl_cons, ← writeAll, ih, hv]
    · exact (hsame _).trans hw
    · exact fun v' hv' hs => (hsame _).trans (ho v' (List.mem_cons_of_mem v hv') hs)
    · exact fun v' hv' kind hk =>
        (hsame _).trans (hoperators v' (List.mem_cons_of_mem v hv') kind hk)

theorem keys_begun (hw : Table.has r (whereInputName type field) = true) :
    Table.keys (r.begun type field) = Table.keys r := by
  have hstep : ∀ (r1 : Registry) (f : TypeEntry → TypeEntry), Table.keys r1 = Table.keys r →
      Table.keys (updateType r1 (whereInputName type field) f) = Table.keys r := fun r1 f h =>
    (keys_updateType ((has_of_keys h _).trans hw) f).trans h
  unfold begun
  split
  · rfl
  · unfold startWhereInput connectives setFieldType updateField setKind
    rw [List.foldl_cons, List.foldl_cons, List.foldl_nil]
    exact hstep _ _ (hstep _ _ (hstep _ _ rfl))

theorem keys_opened (hw : Table.has r (whereInputName type field) = true) (isList : Bool) :
    Table.keys (r.opened type field isList)
      = Table.keys r ++ if isList && !Table.has r (orderEnumName type field) then
          [orderEnumName type field] else [] := by
  have hbegun := keys_begun hw
  unfold opened
  by_cases hlist : isList = true
  · cases hpopulated : r.isPopulated (orderEnumName type field) with
    | true => simp [hbegun, has_of_isPopulated hpopulated]
    | false =>
      rw [hlist, Bool.not_false, Bool.true_and, if_pos rfl, setKind, updateType, Table.update,
        Table.keys_modify, Table.keys_ensure, has_of_keys hbegun, hbegun]
      cases Table.has r (orderEnumName type field) <;> simp
  · simp [hlist, hbegun]

theorem keys_dropEmptyOrder (r : Registry) (type field o : String) :
    Table.keys (dropEmptyOrder r type field o)
      = if r.isPopulated o then Table.keys r else (Table.keys r).filter (· != o) := by
  unfold dropEmptyOrder
  split
  · rfl
  · rw [Table.keys_modify, Table.keys_erase]

/-- **A run that brings nothing in leaves the names**, if it drops the order enum exactly where it
was not there. -/
theorem keys_filled (hw : Table.has r (whereInputName type field) = true)
    (hplain : Verdict.Plain vs) (hsorts : ∀ v ∈ vs, v.sorts = true → isList = true)
    (hoperators : ∀ v ∈ vs, ∀ kind ∈ v.kind?, Table.has r (operatorInputName kind) = true)
    (hdrops : isList = true →
      (r.planOf type field isList vs).drops = !Table.has r (orderEnumName type field)) :
    Table.keys (r.filled type field isList vs) = Table.keys r := by
  have hopened := keys_opened hw isList
  have hkeys : Table.keys (writeAll type field (r.opened type field isList) vs)
      = Table.keys (r.opened type field isList) := by
    refine keys_writeAll (r.has_opened_input type field isList) (fun v hv hs => ?_)
      fun v hv kind hkind => ?_
    · rw [hsorts v hv hs]
      exact r.has_opened_order type field
    · rw [← Table.mem_keys_iff, hopened]
      exact List.mem_append_left _ ((Table.mem_keys_iff _ _).mpr (hoperators v hv kind hkind))
  unfold filled
  cases hlist : isList with
  | false =>
    subst hlist
    simpa [hkeys] using hopened
  | true =>
    have hpopulated := isPopulated_writeAll_opened hplain hsorts r type field hlist
    subst hlist
    rw [if_pos rfl, keys_dropEmptyOrder, hpopulated, hdrops rfl, hkeys, hopened, Bool.not_not]
    cases hhas : Table.has r (orderEnumName type field) with
    | true => simp
    | false =>
      have hnew : orderEnumName type field ∉ Table.keys r := by
        rw [Table.mem_keys_iff, hhas]
        exact Bool.false_ne_true
      have hothers : (Table.keys r).filter (· != orderEnumName type field) = Table.keys r :=
        List.filter_eq_self.mpr fun n hn =>
          bne_iff_ne.mpr fun (heq : n = orderEnumName type field) => hnew (heq ▸ hn)
      rw [if_neg Bool.false_ne_true, Bool.not_false, Bool.true_and, if_pos rfl, List.filter_append,
        hothers]
      simp

/-! ### Other types -/

/-- Operators take no arguments. -/
theorem withoutOrder_operatorEntry (field kind : String) :
    (operatorEntry kind).withoutOrder field = operatorEntry kind := by
  have hlines : (operatorLines kind).modify field FieldLine.withoutOrder = operatorLines kind := by
    refine Table.modify_of_forall fun l hl _ => ?_
    obtain ⟨a, -, rfl⟩ := List.mem_map.mp hl
    rfl
  exact congrArg (TypeEntry.mk .input []) hlines

theorem withoutOrder_withoutOrder (field : String) (e : TypeEntry) :
    (e.withoutOrder field).withoutOrder field = e.withoutOrder field := by
  have hlines : (e.lines.modify field FieldLine.withoutOrder).modify field FieldLine.withoutOrder
      = e.lines.modify field FieldLine.withoutOrder := by
    refine Table.modify_of_forall fun l hl hname => ?_
    rcases mem_modify hl with ⟨-, hne⟩ | ⟨line, -, rfl⟩
    · exact absurd hname hne
    · have hgone : (line.arguments.erase "order").has "order" = false := by
        simp [Table.has_erase]
      simp only [FieldLine.withoutOrder, Table.erase_of_not_has hgone]
  exact congrArg (TypeEntry.mk e.kind e.directives) hlines

/-- Apart from the derived types of a field, types stay as they were, but the field may lose its
order argument and inputs for operators may come in. -/
def Leaves (type field : String) (r r' : Registry) : Prop :=
  ∀ n ∉ derivedNames type field,
    Table.get? r' n = Table.get? r n
    ∨ n = type ∧ Table.get? r' n = (Table.get? r n).map (·.withoutOrder field)
    ∨ Table.get? r n = none ∧ ∃ kind ∈ filterableTypes, n = operatorInputName kind
      ∧ Table.get? r' n = some (operatorEntry kind)

/-- **A run leaves other types.** -/
theorem Decides.leaves (h : r.Decides type field returned isList vs) :
    Leaves type field r (r.filled type field isList vs) := by
  intro n hn
  rw [h.get?_other hn]
  cases hget : Table.get? r n with
  | some e =>
    rw [Option.some_or]
    split
    · rename_i hdrops
      exact .inr (.inl ⟨hdrops.2, rfl⟩)
    · exact .inl rfl
  | none =>
    rw [Option.none_or]
    cases hsome : Verdict.operators? vs n with
    | none =>
      refine .inl ?_
      split <;> rfl
    | some e =>
      obtain ⟨kind, hkind, hname, rfl⟩ := Verdict.operators?_eq_some (plain_of_judges h) hsome
      refine .inr (.inr ⟨rfl, kind, hkind, hname, ?_⟩)
      split
      · rw [Option.map_some, withoutOrder_operatorEntry]
      · rfl

/-! ### The second run -/

/-- A run leaves what it writes filters for. -/
theorem Decides.outline?_returned (h : r.Decides type field returned isList vs)
    (hother : returned ∉ derivedNames type field)
    (hknown : basicTypes.contains returned = true ∨ Table.has r returned = true) :
    (r.filled type field isList vs).outline? returned = r.outline? returned := by
  rcases hknown with hbasic | hhas
  · refine h.widens.outline?_of_ne hother fun kind _ heq => ?_
    have hshort : ∀ name ∈ basicTypes, name.length < 11 := by decide
    exact absurd (length_of_isDerived (.inr (.inr ⟨kind, heq⟩)))
      (Nat.not_le.mpr (hshort returned (List.contains_iff_mem.mp hbasic)))
  · exact h.widens.outline?_eq hother hhas

section again

variable (hapart : Apart r type field returned) (hfillable : Fillable r returned isList)
  (hvs : r.Decides type field returned isList vs)
  (hws : (r.filled type field isList vs).Decides type field returned isList ws)
include hapart hfillable hvs hws

/-- Verdicts of a second run are those of the first, but that some lines may not be sorted by any
more, since inputs for operators have come in. -/
theorem Decides.exists_before {w : Verdict} (hw : w ∈ ws) :
    ∃ v ∈ vs, v.key = w.key ∧ v.kind? = w.kind? ∧ (w.sorts = true → v.sorts = true) := by
  have hsame := hvs.outline?_returned hapart.other hfillable.known
  obtain ⟨l', hl', hlw⟩ := exists_left_of_mem hws hw
  obtain ⟨l, hl, hname, htype⟩ := mem_filterLines_of_outline? hsame hl'
  obtain ⟨v, hv, hlv⟩ := exists_right_of_mem hvs hl
  have hkind := hvs.widens.filterKind?_eq (hapart.avoids l (mem_filterLines hl))
  refine ⟨v, hv, ?_, ?_, fun hs => hlv.sorted (hlw.sorts hs).1 (htype ▸ (hlw.sorts hs).2)⟩
  · rw [hlv.key, hlw.key, hname]
  · rw [hlv.kind, htype, hlw.kind] at hkind
    exact (Except.ok.inj hkind).symm

/-- Each order value of the second run is one of the first. -/
theorem Decides.values_before {value : String} (h : value ∈ ws.flatMap Verdict.values) :
    value ∈ vs.flatMap Verdict.values := by
  obtain ⟨w, hw, hvalue⟩ := List.mem_flatMap.mp h
  obtain ⟨v, hv, hkey, -, hsorts⟩ := Decides.exists_before hapart hfillable hvs hws hw
  refine List.mem_flatMap.mpr ⟨v, hv, ?_⟩
  unfold Verdict.values at hvalue ⊢
  split at hvalue
  · rename_i hs
    rw [if_pos (hsorts hs), hkey]
    exact hvalue
  · cases hvalue

/-- Conditions of the second run are met already. -/
theorem Decides.met_again {w : Verdict} (hw : w ∈ ws) :
    w.Met ((r.filled type field isList vs).entry (whereInputName type field)).lines := by
  obtain ⟨v, hv, hkey, hkind, -⟩ := Decides.exists_before hapart hfillable hvs hws hw
  have hmet := Verdict.met_conditions (hapart.nodup_keys hvs)
    ((r.entry (whereInputName type field)).asInput (whereInputName type field)).lines v hv
  rw [hvs.entry_input]
  unfold Verdict.Met at hmet ⊢
  rwa [hkey, hkind] at hmet

/-- Order values of the second run are there already. -/
theorem Decides.orders_again (hlist : isList = true) :
    Verdict.orders ws ((r.filled type field isList vs).entry (orderEnumName type field)).lines
      = ((r.filled type field isList vs).entry (orderEnumName type field)).lines := by
  refine Table.ensureAll_of_has (fun value hvalue => ?_) _
  have hbefore := Decides.values_before hapart hfillable hvs hws hvalue
  rw [hvs.lines_enum hlist, Verdict.orders, Table.has_ensureAll, List.contains_iff_mem.mpr hbefore,
    Bool.or_true]

/-- **The second run drops the order enum where the first did.** -/
theorem Decides.drops_again :
    ((r.filled type field isList vs).planOf type field isList ws).drops
      = (r.planOf type field isList vs).drops := by
  cases hlist : isList with
  | false => rfl
  | true =>
    subst hlist
    rw [planOf, planOf, Decides.orders_again hapart hfillable hvs hws rfl, hvs.lines_enum rfl]

/-- **Apart from the condition input a second run changes nothing.** -/
theorem Decides.get?_again {n : String} (hn : n ≠ whereInputName type field) :
    Table.get? ((r.filled type field isList vs).filled type field isList ws) n
      = Table.get? (r.filled type field isList vs) n := by
  have hdrops := Decides.drops_again hapart hfillable hvs hws
  by_cases hn' : n = orderEnumName type field
  · subst hn'
    have hget := hvs.get?_enum
    rw [hws.get?_enum, hdrops]
    split
    · rename_i hlist
      have horders := Decides.orders_again hapart hfillable hvs hws hlist
      rw [if_pos hlist] at hget
      split
      · rename_i hdropped
        rw [hget, if_pos hdropped]
      · rename_i hkept
        rw [if_neg hkept] at hget
        have hhas : Table.has (r.filled type field isList vs) (orderEnumName type field) = true := by
          rw [Table.has_eq_isSome, hget]
          rfl
        have hlines : ((r.filled type field isList vs).entry (orderEnumName type field)).lines.isEmpty
            = false := by
          rw [hvs.lines_enum hlist]
          simpa [planOf, hlist] using hkept
        rw [get?_eq_some_entry hhas, TypeEntry.asEnum, hlines, if_neg Bool.false_ne_true]
        exact congrArg some (congrArg (TypeEntry.mk _ _) horders)
    · rfl
  · have hother : n ∉ derivedNames type field := by
      simp [derivedNames, hn, hn']
    have hget := hvs.get?_other hother
    have hthere : (Table.get? (r.filled type field isList vs) n).or (Verdict.operators? ws n)
        = Table.get? (r.filled type field isList vs) n := by
      cases hsome : Verdict.operators? ws n with
      | none => rw [Option.or_none]
      | some e =>
        obtain ⟨w, hw, kind, hkind, rfl, -⟩ := Verdict.exists_of_operators? hsome
        obtain ⟨v, hv, -, hsame, -⟩ := Decides.exists_before hapart hfillable hvs hws hw
        rw [get?_eq_some_entry (hvs.has_operator hv (hsame.trans hkind)), Option.some_or]
    rw [hws.get?_other hother, hdrops, hthere]
    split
    · rename_i hand
      rw [hget, if_pos hand, Option.map_map]
      exact congrArg (Option.map · _) (funext (withoutOrder_withoutOrder field))
    · rfl

/-- **A second run leaves the names.** -/
theorem Decides.keys_again :
    Table.keys ((r.filled type field isList vs).filled type field isList ws)
      = Table.keys (r.filled type field isList vs) := by
  refine keys_filled ?_ (plain_of_judges hws) (fun w hw hs => ?_) (fun w hw kind hkind => ?_)
    fun hlist => ?_
  · rw [Table.has_eq_isSome, hvs.get?_input]
    rfl
  · obtain ⟨l, -, hlw⟩ := exists_left_of_mem hws hw
    exact (hlw.sorts hs).1
  · obtain ⟨v, hv, -, hsame, -⟩ := Decides.exists_before hapart hfillable hvs hws hw
    exact hvs.has_operator hv (hsame.trans hkind)
  · rw [Decides.drops_again hapart hfillable hvs hws, Table.has_eq_isSome, hvs.get?_enum, if_pos hlist]
    cases (r.planOf type field isList vs).drops <;> rfl

/-- **A second run changes nothing exactly if it leaves the condition input.** -/
theorem Decides.filled_again (hnodup : (Table.keys (r.filled type field isList vs)).Nodup) :
    (r.filled type field isList vs).filled type field isList ws = r.filled type field isList vs
      ↔ Table.get? ((r.filled type field isList vs).filled type field isList ws)
          (whereInputName type field)
        = Table.get? (r.filled type field isList vs) (whereInputName type field) := by
  have hkeys := Decides.keys_again hapart hfillable hvs hws
  refine ⟨fun h => by rw [h], fun h => Table.ext_of_keys hkeys (hkeys ▸ hnodup) fun n => ?_⟩
  by_cases hn : n = whereInputName type field
  · rw [hn, h]
  · exact Decides.get?_again hapart hfillable hvs hws hn

/-- The second run leaves a condition input that has lines. -/
theorem Decides.get?_input_again (hpopulated :
    (r.filled type field isList vs).isPopulated (whereInputName type field) = true) :
    Table.get? ((r.filled type field isList vs).filled type field isList ws)
        (whereInputName type field)
      = Table.get? (r.filled type field isList vs) (whereInputName type field) := by
  have hlines := Verdict.conditions_of_met fun w => Decides.met_again hapart hfillable hvs hws (w := w)
  rw [hws.get?_input, get?_eq_some_entry (has_of_isPopulated hpopulated), TypeEntry.asInput, if_neg]
  · exact congrArg some (congrArg (TypeEntry.mk _ _) hlines)
  · rw [isPopulated_eq] at hpopulated
    simpa using hpopulated

/-- The second run begins a condition input without lines once more. -/
theorem Decides.get?_input_emptied (hempty :
    (r.filled type field isList vs).isPopulated (whereInputName type field) = false) :
    Table.get? ((r.filled type field isList vs).filled type field isList ws)
        (whereInputName type field)
      = Table.get? (r.filled type field isList vs) (whereInputName type field)
    ↔ ((r.filled type field isList vs).entry (whereInputName type field)).kind = .input
      ∧ ∀ c ∈ connectives, c ∈ Table.keys (r.filterLines returned) := by
  have hhas : Table.has (r.filled type field isList vs) (whereInputName type field) = true := by
    rw [Table.has_eq_isSome, hvs.get?_input]
    rfl
  have hsame := hvs.outline?_returned hapart.other hfillable.known
  have hkeys : ws.map Verdict.key = Table.keys (r.filterLines returned) :=
    hws.keys.trans (keys_filterLines_of_outline? hsame)
  have hmet := fun w => Decides.met_again hapart hfillable hvs hws (w := w)
  have hlines : ((r.filled type field isList vs).entry (whereInputName type field)).lines = [] := by
    rw [isPopulated_eq] at hempty
    simpa using hempty
  rw [hlines] at hmet
  have hnone : ∀ w ∈ ws, w.kind? = none := fun w hw => (hmet w hw).kind?_eq_none
  have hgone : Verdict.conditions ws (TypeEntry.connectiveLines (whereInputName type field)) = []
      ↔ ∀ c ∈ connectives, c ∈ ws.map Verdict.key := Verdict.conditions_eq_nil_iff hnone
  rw [hws.get?_input, get?_eq_some_entry hhas, TypeEntry.asInput, hlines, List.isEmpty_nil,
    if_pos rfl, ← hkeys, Option.some_inj, ← hgone]
  constructor
  · intro heq
    exact ⟨(congrArg TypeEntry.kind heq).symm, (congrArg TypeEntry.lines heq).trans hlines⟩
  · rintro ⟨hkind, hconditions⟩
    rw [TypeEntry.onLines, hconditions, ← hlines, ← hkind]

end again

/-- An input that is new and left without lines was begun and lost its connectives. -/
theorem Decides.input_of_emptied (h : r.Decides type field returned isList vs)
    (hapart : Apart r type field returned)
    (hnew : r.isPopulated (whereInputName type field) = false)
    (hempty : (r.filled type field isList vs).isPopulated (whereInputName type field) = false) :
    ((r.filled type field isList vs).entry (whereInputName type field)).kind = .input
      ∧ ∀ c ∈ connectives, c ∈ Table.keys (r.filterLines returned) := by
  rw [isPopulated_eq, Bool.not_eq_false', List.isEmpty_iff] at hnew hempty
  rw [h.entry_input, TypeEntry.asInput, hnew, List.isEmpty_nil, if_pos rfl] at hempty ⊢
  have hmet := Verdict.met_conditions (hapart.nodup_keys h)
    (TypeEntry.connectiveLines (whereInputName type field))
  have hgone : Verdict.conditions vs (TypeEntry.connectiveLines (whereInputName type field)) = [] :=
    hempty
  rw [hgone] at hmet
  exact ⟨rfl, h.keys ▸ (Verdict.conditions_eq_nil_iff fun v hv => (hmet v hv).kind?_eq_none).mp hgone⟩

/-- Where nothing is filtered, an input keeps its lines. -/
theorem Decides.not_basic_of_emptied (h : r.Decides type field returned isList vs)
    (hold : r.isPopulated (whereInputName type field) = true)
    (hempty : (r.filled type field isList vs).isPopulated (whereInputName type field) = false) :
    returned ∉ basicTypes := by
  intro hbasic
  have hlines : r.filterLines returned = [] := if_pos (List.contains_iff_mem.mpr hbasic)
  have hnone : vs = [] := List.map_eq_nil_iff.mp (h.keys.trans (congrArg Table.keys hlines))
  rw [isPopulated_eq] at hold hempty
  rw [h.entry_input, hnone, TypeEntry.asInput, if_neg (by simpa using hold)] at hempty
  exact Bool.false_ne_true (hempty.symm.trans hold)

/-- **What writing filters changes, and when writing them again changes nothing.** -/
theorem addFilters_again_iff {u : PUnit} (honce : r.Once)
    (hother : returned ∉ derivedNames type field)
    (havoids : r.Avoids returned (· ∈ derivedNames type field))
    (hrun : addFilters type field returned isList r = (.ok u, r')) :
    Leaves type field r r'
    ∧ (addFilters type field returned isList r' = (.ok ⟨⟩, r')
      ↔ (r.isPopulated (whereInputName type field) = true →
        r'.isPopulated (whereInputName type field) = true
        ∨ (r'.entry (whereInputName type field)).kind = .input
          ∧ ∀ c ∈ connectives, c ∈ Table.keys (r.entry returned).lines)) := by
  have hapart : Apart r type field returned := ⟨hother, havoids, honce.entry returned⟩
  by_cases hboth : r.isPopulated (whereInputName type field) = true
      ∧ r.isPopulated (orderEnumName type field) = true
  · have hskip := addFilters_of_populated hboth.1 hboth.2 returned isList
    rw [hskip] at hrun
    cases hrun
    exact ⟨fun n _ => .inl rfl, fun _ hw => .inl hw, fun _ => hskip⟩
  · have hnodup := (writesFilters_addFilters type field returned isList r u r' hrun).nodup honce.types
    obtain ⟨hfillable, vs, hvs, rfl⟩ := hapart.decides hboth hrun
    refine ⟨hvs.leaves, ?_⟩
    by_cases hboth' : (r.filled type field isList vs).isPopulated (whereInputName type field) = true
        ∧ (r.filled type field isList vs).isPopulated (orderEnumName type field) = true
    · exact ⟨fun _ _ => .inl hboth'.1,
        fun _ => addFilters_of_populated hboth'.1 hboth'.2 returned isList⟩
    · have hsame := hvs.outline?_returned hother hfillable.known
      rcases addFilters_of_not_populated (hapart.of_outline? hsame) hboth' isList with
        ⟨-, ws, hws, hok⟩ | ⟨hbad, -⟩
      · rw [hok, Prod.mk.injEq, Decides.filled_again hapart hfillable hvs hws hnodup]
        cases hw' : (r.filled type field isList vs).isPopulated (whereInputName type field) with
        | true =>
          simp [Decides.get?_input_again hapart hfillable hvs hws hw']
        | false =>
          rw [Decides.get?_input_emptied hapart hfillable hvs hws hw']
          cases hw : r.isPopulated (whereInputName type field) with
          | true =>
            have hlines := filterLines_eq (r := r) (hvs.not_basic_of_emptied hw hw')
            simp [hlines]
          | false =>
            exact ⟨fun _ => nofun, fun _ => ⟨rfl, hvs.input_of_emptied hapart hw hw'⟩⟩
      · exact absurd ((hvs.widens.fillable_iff havoids hsame).mpr hfillable) hbad

/-- Items with filters on a query for one of them. -/
def fetched : Registry := (addFilters "Query" "item" "Item" false stock).2

/-- The filters of a single item are the same if they are written twice. -/
theorem addFilters_again_stock :
    addFilters "Query" "item" "Item" false stock = (.ok ⟨⟩, fetched)
    ∧ Leaves "Query" "item" stock fetched
    ∧ addFilters "Query" "item" "Item" false fetched = (.ok ⟨⟩, fetched) := by
  have hstock : stock.Once ∧ "Item" ∉ derivedNames "Query" "item"
      ∧ stock.Avoids "Item" (· ∈ derivedNames "Query" "item")
      ∧ (addFilters "Query" "item" "Item" false stock).1.isOk = true
      ∧ stock.isPopulated (whereInputName "Query" "item") = false := by
    decide +kernel
  obtain ⟨honce, hother, havoids, hok, hnew⟩ := hstock
  have hrun := Run.eq_of_isOk hok
  obtain ⟨hleaves, hagain⟩ := addFilters_again_iff honce hother havoids hrun
  refine ⟨hrun, hleaves, hagain.mpr fun hold => ?_⟩
  rw [hnew] at hold
  cases hold

/-- Items with variants, and conditions on their variants beforehand. -/
def prefilled : Registry :=
  [("Item", { lines := [("variants", { type := "[Item!]" })] }),
    ("QueryWhereOptionsItems",
      { kind := .input, lines := [("variants", { type := "GeneOperatorStringInput" })] })]

/-- The items after filters are written. -/
def emptied : Registry := (addFilters "Query" "items" "Item" true prefilled).2

/-- **A condition input that loses its only line is begun by the second run.** -/
theorem not_again_emptied :
    prefilled.Once ∧ "Item" ∉ derivedNames "Query" "items"
    ∧ prefilled.Avoids "Item" (· ∈ derivedNames "Query" "items")
    ∧ addFilters "Query" "items" "Item" true prefilled = (.ok ⟨⟩, emptied)
    ∧ (emptied.entry (whereInputName "Query" "items")).lines.isEmpty = true
    ∧ (addFilters "Query" "items" "Item" true emptied).1.isOk = true
    ∧ Table.keys ((addFilters "Query" "items" "Item" true emptied).2.entry
        (whereInputName "Query" "items")).lines = ["and", "or"] := by
  have hall : prefilled.Once ∧ "Item" ∉ derivedNames "Query" "items"
      ∧ prefilled.Avoids "Item" (· ∈ derivedNames "Query" "items")
      ∧ (addFilters "Query" "items" "Item" true prefilled).1.isOk = true
      ∧ (emptied.entry (whereInputName "Query" "items")).lines.isEmpty = true
      ∧ (addFilters "Query" "items" "Item" true emptied).1.isOk = true
      ∧ Table.keys ((addFilters "Query" "items" "Item" true emptied).2.entry
          (whereInputName "Query" "items")).lines = ["and", "or"] := by
    decide +kernel
  obtain ⟨honce, hother, havoids, hok, hrest⟩ := hall
  exact ⟨honce, hother, havoids, Run.eq_of_isOk hok, hrest⟩

end Registry
end SchemaForge

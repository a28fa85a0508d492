import SchemaForge.Proofs.Synthesis.Derived

/-!
# What stays hidden

A policy that leaves out an attribute leaves it out everywhere: the type does not have it as a
field, and where nothing but this type is returned, rows can neither be filtered nor sorted by
it. This holds for each name of a model by the policy of this name, for columns, virtual fields
and associations as for the attributes of classes.
-/
namespace SchemaForge
namespace Synthesis

open Registry

variable {b : Declarations} {x : Extensions} {s : ThunkState} {d' : Draft}

/-- What is contributed has a declared name. -/
theorem type_mem_names {c : Contribution} (hc : c ∈ b.contributions x.fields) :
    c.type ∈ b.names x.fields := by
  have hbrought : ∀ (p : PolicyOption), c ∈ p.brought.map (fun e => Contribution.mapping e.1 e.2) →
      c.type ∈ p.brought.map Prod.fst := by
    intro p hmem
    obtain ⟨e, he, rfl⟩ := List.mem_map.mp hmem
    exact List.mem_map_of_mem he
  rcases List.mem_append.mp hc with hc | hc
  · obtain ⟨named, hnamed, hc⟩ := List.mem_flatMap.mp hc
    refine List.mem_append_left _ (List.mem_append_right _ (List.mem_flatMap.mpr
      ⟨named, hnamed, ?_⟩))
    unfold Declarations.contributionsOf at hc
    dsimp only at hc
    split at hc
    · simp only [List.cons_append, List.mem_cons, List.mem_append, List.mem_flatMap] at hc
      simp only [Declarations.namesOf, List.cons_append, List.mem_cons, List.mem_append,
        List.mem_flatMap]
      rcases hc with rfl | hc | ⟨a, ha, rfl | hc⟩
      · exact .inl rfl
      · exact .inr (.inl (hbrought _ hc))
      · exact .inr (.inr ⟨a, ha, .inl rfl⟩)
      · exact .inr (.inr ⟨a, ha, .inr (hbrought _ hc)⟩)
    · split at hc
      · rw [List.mem_singleton.mp hc]
        exact List.mem_append_left _ List.mem_cons_self
      · cases hc
    · cases hc
  · obtain ⟨e, he, rfl⟩ := List.mem_map.mp hc
    exact List.mem_append_right _ (List.mem_map_of_mem he)

/-- A type of a model has no fields in the end but those that are contributed. -/
theorem contributed_of_synthesize (h : synthesize b (fresh x s) = (.ok ⟨⟩, d'))
    (hapart : d'.DerivesApart (b.names x.fields)) {plugin : Plugin} {type : String}
    {model : TypeDeclaration} {p : PolicyOption}
    (hc : .members plugin type model p ∈ b.contributions x.fields) {key : String}
    (hkey : key ∈ Table.keys (d'.registry.entry type).lines) :
    ∃ c ∈ b.contributions x.fields, c.type = type ∧ key ∈ c.fields b := by
  obtain ⟨d1, hfirst, hconfined⟩ := confined_of_synthesize h hapart
  have hfree : ¬d1.Derives type := fun hd => hapart.free type (type_mem_names hc)
    ((Draft.derives_iff hconfined.filtered.filterRequests_eq type).mpr hd)
  have hthere := has_firstPass hc _ _ d1 hfirst
  rw [keys_of_outline? (hconfined.framed type hfree (.inl hthere))] at hkey
  obtain ⟨l, hl, rfl⟩ := List.mem_map.mp hkey
  exact (under_fresh hfirst).lines type l hl

/-- **What the policy of a type rejects is neither a field of the type nor something to filter or
to sort by**, where nothing else adds it: not under the name of the model and not under an
alternate one, whichever fields return the type. -/
theorem hides_rejected (h : synthesize b (fresh x s) = (.ok ⟨⟩, d'))
    (hapart : d'.DerivesApart (b.names x.fields)) {plugin : Plugin} {type : String}
    {model : TypeDeclaration} {p : PolicyOption}
    (hc : .members plugin type model p ∈ b.contributions x.fields) {key : String}
    (hrejected : p.exposes key = .ok false) (hkey : Condition.isConnective key = false)
    (hothers : ∀ c ∈ b.contributions x.fields, c ≠ .members plugin type model p →
      c.type = type → key ∉ c.fields b) :
    key ∉ Table.keys (d'.registry.entry type).lines
      ∧ ∀ a ∈ d'.fetched, (∀ task ∈ d'.filterTasks, task.type = a.1 → task.field = a.2 →
          task.returned = type) →
        key ∉ Table.keys (d'.registry.entry (whereInputName a.1 a.2)).lines
        ∧ ∀ descending, OrderTerm.value key descending
            ∉ Table.keys (d'.registry.entry (orderEnumName a.1 a.2)).lines := by
  have hfield : key ∉ Table.keys (d'.registry.entry type).lines := by
    intro hmem
    obtain ⟨c, hmemc, htype, hfields⟩ := contributed_of_synthesize h hapart hc hmem
    by_cases hsame : c = .members plugin type model p
    · subst hsame
      rw [Declarations.exposes_of_mem_exposedOf hfields] at hrejected
      cases hrejected
    · exact hothers c hmemc hsame htype hfields
  obtain ⟨d1, -, hconfined⟩ := confined_of_synthesize h hapart
  have hrequests := hconfined.filtered.filterRequests_eq
  refine ⟨hfield, fun a ha hreturns => ?_⟩
  have hbounded := hconfined.bounded a (Draft.fetched_eq hrequests ▸ ha)
  -- All that is offered are fields of the type.
  have hoffered : ∀ task ∈ d'.filterTasks, task.type = a.1 → task.field = a.2 →
      ¬d'.Derives task.returned ∧ task.returned = type := fun task htask htype hf =>
    ⟨hreturns task htask htype hf ▸ hapart.free type (type_mem_names hc),
      hreturns task htask htype hf⟩
  constructor
  · intro hmem
    obtain ⟨l, hl, rfl⟩ := List.mem_map.mp hmem
    rcases hbounded.wheres l hl with hconnective | ⟨task, htask, htype, hf, hmem⟩
    · rw [hkey] at hconnective
      cases hconnective
    · obtain ⟨hplain, rfl⟩ := hoffered task htask htype hf
      exact hfield (hmem.resolve_left hplain)
  · intro descending hmem
    obtain ⟨l, hl, hvalue⟩ := List.mem_map.mp hmem
    obtain ⟨key', descending', hname, task, htask, htype, hf, hmem⟩ := hbounded.orders l hl
    obtain ⟨hplain, rfl⟩ := hoffered task htask htype hf
    obtain rfl := OrderTerm.value_inj (hvalue.symm.trans hname)
    exact hfield (hmem.resolve_left hplain).1

/-! ### Accounts -/

/-- Accounts with a secret. -/
def accountModel : Model where
  name := "Account"
  table := "accounts"
  columns := [{ key := "id", name := "id", type := .base "Integer", primary := true
                nullable := false, foreign := none },
              { key := "secret", name := "secret", type := .base "Integer", primary := false
                nullable := true, foreign := none }]
  virtuals := []
  associations := []

/-- A policy that keeps accounts secret, and an alternate name that does not. -/
def discreet : Policy :=
  { Policy.plain with drop := .list [.text "secret"], aliases := [("Ledger", .policy Policy.plain)] }

/-- A field that is fetched from the store. -/
def fetchedField (returnType : String) : FieldEntry :=
  .field (.config { returnType := .text returnType, resolver := .value (.text defaultWord) })

/-- Accounts under both names, each with a query for them. -/
def accounts : Declarations where
  types := [("Account", .mapped "Account"), ("Query", .inline (.fields
    [("accounts", fetchedField "[Account!]"), ("ledgers", fetchedField "[Ledger!]")]))]
  models := [("Account", accountModel)]
  policies := [("Account", .policy discreet)]
  plugins := [.store [] none]
  base := none
  columnTypes := []
  scalars := []

/-- What stands when accounts are declared. -/
def accountsDraft : Draft := (synthesize accounts (fresh {} {})).2

/-- The secret of an account is neither a field of accounts, nor in the conditions and orders of
the query for accounts; the query for ledgers is filtered by it. -/
theorem hides_rejected_accounts :
    synthesize accounts (fresh {} {}) = (.ok ⟨⟩, accountsDraft)
    ∧ accountsDraft.DerivesApart (accounts.names [])
    ∧ ("Query", "accounts") ∈ accountsDraft.fetched
    ∧ "secret" ∉ Table.keys (accountsDraft.registry.entry "Account").lines
    ∧ "secret" ∉ Table.keys (accountsDraft.registry.entry (whereInputName "Query" "accounts")).lines
    ∧ OrderTerm.value "secret" true
        ∉ Table.keys (accountsDraft.registry.entry (orderEnumName "Query" "accounts")).lines
    ∧ "secret" ∈ Table.keys (accountsDraft.registry.entry (whereInputName "Query" "ledgers")).lines := by
  have hall : (synthesize accounts (fresh {} {})).1.isOk = true
      ∧ accountsDraft.DerivesApart (accounts.names [])
      ∧ ("Query", "accounts") ∈ accountsDraft.fetched
      ∧ (∀ task ∈ accountsDraft.filterTasks, task.type = "Query" → task.field = "accounts" →
        task.returned = "Account")
      ∧ "secret" ∈ Table.keys
        (accountsDraft.registry.entry (whereInputName "Query" "ledgers")).lines := by
    decide +kernel
  obtain ⟨hok, hapart, hfetched, hreturned, hledgers⟩ := hall
  have hrun : synthesize accounts (fresh {} {}) = (.ok ⟨⟩, accountsDraft) := Run.eq_of_isOk hok
  have hothers : ∀ c ∈ accounts.contributions [],
      c ≠ .members (.store [] none) "Account" (.mapped "Account") (.policy discreet) →
      c.type = "Account" → "secret" ∉ c.fields accounts := by
    intro c hc hne htype
    rcases List.mem_cons.mp hc with rfl | hc
    · exact absurd rfl hne
    rcases List.mem_cons.mp hc with rfl | hc
    · exact absurd htype (by decide)
    · rw [List.mem_singleton.mp hc] at htype
      exact absurd htype (by decide)
  obtain ⟨hfield, hfilters⟩ := hides_rejected hrun hapart List.mem_cons_self
    rfl (by decide) hothers
  obtain ⟨hwhere, horder⟩ := hfilters _ hfetched hreturned
  exact ⟨hrun, hapart, hfetched, hfield, hwhere, horder true, hledgers⟩

end Synthesis
end SchemaForge

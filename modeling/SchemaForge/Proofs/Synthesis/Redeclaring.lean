import SchemaForge.Proofs.Synthesis.Exposure

/-!
# Fields that are declared again

When a fetched field is declared again, its line has the last return type, but the filters of
each declaration are asked for with the type that this one returns, those of extensions before
the others. So the derived types of the field hold fields of every type that some declaration
returns, and are those of the last one only where all declarations agree on the type; whether it
is a list may differ.
-/
namespace SchemaForge
namespace Synthesis

open Registry

/-- **The derived types of a fetched field are made of fields of the types that its declarations
return**, the order enum of those that can be sorted by; where all return one type, of fields of
this type alone. -/
theorem confined_to_returned {b : Declarations} {x : Extensions} {s : ThunkState} {d' : Draft}
    (h : synthesize b (fresh x s) = (.ok ⟨⟩, d')) (hapart : d'.DerivesApart (b.names x.fields))
    {type field : String} (hf : (type, field) ∈ d'.fetched) :
    d'.registry.Bounded type field (d'.Offers type field) (d'.OffersOrder type field)
      ∧ ∀ final, (∀ task ∈ d'.filterTasks, task.type = type → task.field = field →
          task.returned = final) → ¬d'.Derives final →
        (∀ l ∈ (d'.registry.entry final).lines, ∀ name,
          Signature.baseName l.2.type = .ok name → ¬IsDerived name) →
        d'.registry.Bounded type field (· ∈ Table.keys (d'.registry.entry final).lines)
          fun key => ∃ line, d'.registry.line? final key = some line
            ∧ d'.registry.isSortable line.type = .ok true := by
  obtain ⟨d1, -, hconfined⟩ := confined_of_synthesize h hapart
  have hrequests := hconfined.filtered.filterRequests_eq
  have hbounded := hconfined.bounded (type, field) (Draft.fetched_eq hrequests ▸ hf)
  refine ⟨hbounded, fun final hreturns hfinal hplain => hbounded.mono (fun key hkey => ?_)
    fun key hkey => ?_⟩
  · obtain ⟨task, htask, htype, hfield, hkey⟩ := hkey
    obtain rfl := hreturns task htask htype hfield
    exact hkey.resolve_left hfinal
  · obtain ⟨task, htask, htype, hfield, hkey⟩ := hkey
    obtain rfl := hreturns task htask htype hfield
    obtain ⟨-, line, hline, hsorts⟩ := hkey.resolve_left hfinal
    refine ⟨line, hline, hsorts.resolve_right fun ⟨name, hname, hderived⟩ => ?_⟩
    have hmem : (key, line) ∈ (d'.registry.entry task.returned).lines := by
      refine Table.mem_of_get? ?_
      rw [← hline, line?, entry]
      cases hget : Table.get? d'.registry task.returned with
      | some e => rfl
      | none =>
        rw [line?, hget] at hline
        cases hline
    exact hplain _ hmem name hname hderived

/-! ### A market -/

/-- A model with an identifier and further columns of integers. -/
def integerModel (name table : String) (columns : List String) : Model where
  name := name
  table := table
  columns := { key := "id", name := "id", type := .base "Integer", primary := true
               nullable := false, foreign := none }
    :: columns.map fun key => { key := key, name := key, type := .base "Integer", primary := false
                                nullable := true, foreign := none }
  virtuals := []
  associations := []

/-- Items with a price, orders without one, and a query that returns this. -/
def market (returnType : String) : Declarations where
  types := [("Item", .mapped "Item"), ("Order", .mapped "Order"),
    ("Query", .inline (.fields [("found", fetchedField returnType)]))]
  models := [("Item", integerModel "Item" "items" ["price"]),
    ("Order", integerModel "Order" "orders" [])]
  policies := []
  plugins := [.store [] none]
  base := none
  columnTypes := []
  scalars := []

/-- An extension that makes the query return something else. -/
def finding (returnType : String) : Extensions where
  fields := [("Query", [("found", fetchedField returnType)])]

/-- What stands when the query returns one thing and the extension makes it another. -/
def marketDraft (first last : String) : Draft :=
  (synthesize (market first) (fresh (finding last) {})).2

/-- An item that becomes a list of items is filtered and sorted by fields of items. -/
theorem confined_to_returned_items :
    synthesize (market "Item") (fresh (finding "[Item!]") {}) = (.ok ⟨⟩, marketDraft "Item" "[Item!]")
    ∧ ((marketDraft "Item" "[Item!]").registry.line "Query" "found").type = "[Item!]"
    ∧ (marketDraft "Item" "[Item!]").registry.Bounded "Query" "found"
        (· ∈ Table.keys ((marketDraft "Item" "[Item!]").registry.entry "Item").lines)
        fun key => ∃ line, (marketDraft "Item" "[Item!]").registry.line? "Item" key = some line
          ∧ (marketDraft "Item" "[Item!]").registry.isSortable line.type = .ok true := by
  have hall : (synthesize (market "Item") (fresh (finding "[Item!]") {})).1.isOk = true
      ∧ (marketDraft "Item" "[Item!]").DerivesApart
        ((market "Item").names (finding "[Item!]").fields)
      ∧ ((marketDraft "Item" "[Item!]").registry.line "Query" "found").type = "[Item!]"
      ∧ ("Query", "found") ∈ (marketDraft "Item" "[Item!]").fetched
      ∧ (∀ task ∈ (marketDraft "Item" "[Item!]").filterTasks, task.type = "Query" →
        task.field = "found" → task.returned = "Item")
      ∧ ∀ l ∈ ((marketDraft "Item" "[Item!]").registry.entry "Item").lines,
        (Signature.baseName l.2.type).toOption.all (fun name => decide (name.length < 11))
          = true := by
    decide +kernel
  obtain ⟨hok, hapart, htype, hfetched, hreturned, hlines⟩ := hall
  have hrun : synthesize (market "Item") (fresh (finding "[Item!]") {})
      = (.ok ⟨⟩, marketDraft "Item" "[Item!]") := Run.eq_of_isOk hok
  have hshort : ∀ name : String, name.length < 11 → ¬IsDerived name := fun name hlength hd =>
    absurd (length_of_isDerived hd) (by omega)
  refine ⟨hrun, htype, (confined_to_returned hrun hapart hfetched).2 "Item" hreturned
    (fun hd => hshort "Item" (by decide) (Draft.isDerived_of_derives hd))
    fun l hl name hname => hshort name ?_⟩
  have hlength := hlines l hl
  rw [hname] at hlength
  exact of_decide_eq_true hlength

/-- **An item that becomes an order keeps the filters of items.** The condition input still has
the price, which orders lack; and where the query returned a list of items before, it is sorted by
the price as well. -/
theorem not_confined_to_final :
    (synthesize (market "Item") (fresh (finding "Order") {}) = (.ok ⟨⟩, marketDraft "Item" "Order")
      ∧ (marketDraft "Item" "Order").DerivesApart ((market "Item").names (finding "Order").fields)
      ∧ ("Query", "found") ∈ (marketDraft "Item" "Order").fetched
      ∧ ((marketDraft "Item" "Order").registry.line "Query" "found").type = "Order"
      ∧ "price" ∉ Table.keys ((marketDraft "Item" "Order").registry.entry "Order").lines
      ∧ "price" ∈ Table.keys
          ((marketDraft "Item" "Order").registry.entry (whereInputName "Query" "found")).lines)
    ∧ synthesize (market "[Item!]") (fresh (finding "Order") {})
        = (.ok ⟨⟩, marketDraft "[Item!]" "Order")
      ∧ ((marketDraft "[Item!]" "Order").registry.line "Query" "found").type = "Order"
      ∧ OrderTerm.value "price" true ∈ Table.keys
          ((marketDraft "[Item!]" "Order").registry.entry (orderEnumName "Query" "found")).lines := by
  have hitem : (synthesize (market "Item") (fresh (finding "Order") {})).1.isOk = true
      ∧ (marketDraft "Item" "Order").DerivesApart ((market "Item").names (finding "Order").fields)
      ∧ ("Query", "found") ∈ (marketDraft "Item" "Order").fetched
      ∧ ((marketDraft "Item" "Order").registry.line "Query" "found").type = "Order"
      ∧ "price" ∉ Table.keys ((marketDraft "Item" "Order").registry.entry "Order").lines
      ∧ "price" ∈ Table.keys ((marketDraft "Item" "Order").registry.entry
          (whereInputName "Query" "found")).lines := by
    decide +kernel
  have hlist : (synthesize (market "[Item!]") (fresh (finding "Order") {})).1.isOk = true
      ∧ ((marketDraft "[Item!]" "Order").registry.line "Query" "found").type = "Order"
      ∧ OrderTerm.value "price" true ∈ Table.keys ((marketDraft "[Item!]" "Order").registry.entry
          (orderEnumName "Query" "found")).lines := by
    decide +kernel
  exact ⟨⟨Run.eq_of_isOk hitem.1, hitem.2⟩, Run.eq_of_isOk hlist.1, hlist.2⟩

end Synthesis
end SchemaForge

import SchemaForge.Declaration.Basic

/-!
# Extensions of types

Fields can be added to a type from anywhere. They are collected by type; a field that
is added again keeps its place and takes the new declaration. The collection also knows
the policy of every exposed type name, and for an alternate name the name that it stands
for.
-/
namespace SchemaForge

/-- What was registered. -/
structure Extensions where
  /-- Fields by type. -/
  fields : Table (List (String × FieldEntry)) := []
  /-- Policies by type. -/
  policies : Table PolicyOption := []
  /-- Primary names by alternate name. -/
  aliases : Table String := []
  deriving Inhabited

namespace Extensions

/-- Add fields to a type. -/
def extend (x : Extensions) (type : String) : FieldMap → Except Failure Extensions
  | .fields entries =>
    .ok { x with fields := x.fields.update type [] fun known => Table.putAll known entries }
  | .value _ => .error (.notAFieldMap type)

/-- Add fields to several types, one after the other, up to the first failure. -/
def extendAll (x : Extensions) : List (String × FieldMap) → Except Failure Unit × Extensions
  | [] => (.ok (), x)
  | (type, m) :: rest =>
    match x.extend type m with
    | .ok x => extendAll x rest
    | .error e => (.error e, x)

/-- Set the policy of a type and the name that it is an alternate for; null leaves what
is there. -/
def setPolicy (x : Extensions) (type : String) (p : PolicyOption) (primary : Option String) :
    Extensions :=
  let x := match primary with
    | some name => { x with aliases := x.aliases.put type name }
    | none => x
  match p with
  | .value .null => x
  | p => { x with policies := x.policies.put type p }

/-- The policy of a type. -/
def policy? (x : Extensions) (type : String) : Option PolicyOption := x.policies.get? type

/-- The name that a type is an alternate for. -/
def primary? (x : Extensions) (type : String) : Option String := x.aliases.get? type

theorem fields_setPolicy (x : Extensions) (type : String) (p : PolicyOption)
    (primary : Option String) : (x.setPolicy type p primary).fields = x.fields := by
  unfold setPolicy
  cases primary <;> dsimp only <;> split <;> rfl

theorem primary?_setPolicy (x : Extensions) (type other : String) (p : PolicyOption)
    (primary : Option String) :
    (x.setPolicy type p primary).primary? other
      = if type = other then primary.or (x.primary? other) else x.primary? other := by
  have haliases : (x.setPolicy type p primary).aliases
      = match primary with
        | some name => x.aliases.put type name
        | none => x.aliases := by
    unfold setPolicy
    cases primary <;> dsimp only <;> split <;> rfl
  rw [primary?, haliases]
  cases primary with
  | none => exact (ite_self _).symm
  | some name =>
    dsimp only
    rw [Table.get?_put]
    by_cases h : type = other
    · simp [h]
    · simp [h, Ne.symm h, primary?]

theorem policy?_setPolicy (x : Extensions) (type other : String) (p : PolicyOption)
    (primary : Option String) :
    (x.setPolicy type p primary).policy? other
      = if type = other then
          match p with
          | .value .null => x.policy? other
          | p => some p
        else x.policy? other := by
  have hpolicies : ∀ y : Extensions, y.policies = x.policies →
      (match p with
        | .value .null => y
        | p => { y with policies := y.policies.put type p }).policy? other
      = if type = other then
          match p with
          | .value .null => x.policy? other
          | p => some p
        else x.policy? other := by
    intro y hy
    split
    · rw [policy?, hy, ite_self]
      rfl
    · rw [policy?, hy, Table.get?_put]
      by_cases h : type = other
      · simp [h]
      · simp [h, Ne.symm h, policy?]
  unfold setPolicy
  cases primary with
  | none => exact hpolicies x rfl
  | some name => exact hpolicies { x with aliases := x.aliases.put type name } rfl

end Extensions
end SchemaForge

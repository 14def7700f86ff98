/-
Sets of values that share a width.

An abstract value is a set: of witnesses, or of witnesses with facts attached. Both kinds are one
type here, the members being anything that has a witness as its base. A set is built from members of
one width, which becomes its own. The empty set is the value of which nothing is known yet; its
width is 1, and it changes nothing when it is merged.
-/
import Provenance.Error
import Provenance.Order.OrderedSet

set_option autoImplicit false

namespace Provenance

/-- A type of members, each of which stands for a witness. -/
class HasBase (α : Type) where
  base : α → Witness

/-- A witness stands for itself. -/
instance : HasBase Witness := ⟨id⟩

/-- A set of values that share a width. -/
structure ValueSet (α : Type) [Coded α] where
  width : Nat
  members : OrderedSet α

/-- The places where a value may have been created. -/
abbrev PossibleValues := ValueSet Witness

namespace ValueSet

variable {α : Type} [Coded α]

theorem ext {s t : ValueSet α} (h : s.width = t.width) (k : s.members = t.members) : s = t := by
  cases s; cases t; simp_all

instance [DecidableEq α] : DecidableEq (ValueSet α) := fun s t =>
  decidable_of_iff (s.width = t.width ∧ s.members = t.members)
    ⟨fun h => ext h.1 h.2, fun h => h ▸ ⟨rfl, rfl⟩⟩

/-! ## Building sets -/

/-- The value of which nothing is known yet. -/
def empty : ValueSet α := ⟨1, ∅⟩

instance : Inhabited (ValueSet α) := ⟨empty⟩

def isEmpty (s : ValueSet α) : Bool := s.members.isEmpty

def size (s : ValueSet α) : Nat := s.members.size

instance : Membership α (ValueSet α) := ⟨fun s a => a ∈ s.members⟩

instance [DecidableEq α] (a : α) (s : ValueSet α) : Decidable (a ∈ s) :=
  inferInstanceAs (Decidable (a ∈ s.members))

variable [HasBase α]

/-- The width of a member is that of its witness. -/
def memberWidth (a : α) : Nat := (HasBase.base a).width

/-- The set of one member. -/
def single (a : α) : ValueSet α := ⟨memberWidth a, .singleton a⟩

/-- The set of some members, which must have one width. -/
def ofMembers : List α → Except AnalysisError (ValueSet α)
  | [] => .ok empty
  | a :: rest =>
    if rest.all fun b => memberWidth b = memberWidth a then
      .ok ⟨memberWidth a, .ofList (a :: rest)⟩
    else .error (.inconsistentWidths ((a :: rest).map HasBase.base))

/-! ## Merging -/

omit [HasBase α] in
/-- All members of two sets. A set without members gives way to the other, whatever its width. -/
def merge (s t : ValueSet α) : Except AnalysisError (ValueSet α) :=
  if s.isEmpty then .ok t
  else if t.isEmpty then .ok s
  else if s.width ≠ t.width then .error (.widthMismatch s.width t.width)
  else .ok ⟨s.width, s.members ∪ t.members⟩

end ValueSet

/-- Members between braces. -/
def braced (texts : List String) : String := "\x7b" ++ ", ".intercalate texts ++ "\x7d"

/-- The text of a set of witnesses, in their order. -/
def PossibleValues.text (s : PossibleValues) : String :=
  braced (s.members.toList.map Witness.text)

end Provenance

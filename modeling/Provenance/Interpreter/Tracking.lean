/-
The interpreter that tracks where values come from.

Every value that comes into being is the set of one witness: of its origin and its type. What moves
between slots stays as it is, and where values meet their sets are merged. The interpreter is the
same whether the members are witnesses or witnesses with something attached; a function says what
is attached when a witness comes into being.
-/
import Provenance.Interpreter.Basic
import Provenance.Interpreter.Produced
import Provenance.ValueSet

set_option autoImplicit false

namespace Provenance

instance {α : Type} [Coded α] : AbstractValue (ValueSet α) := ⟨ValueSet.width⟩

namespace Interpreter

variable {α : Type} [Coded α] [HasBase α]

/-- The value of a type that comes into being at an origin; void has none. -/
def createdAt (tag : Witness → α) (origin : Origin) (t : JType) : Option (ValueSet α) :=
  if t = .void then none else some (.single (tag ⟨origin, t⟩))

/-- The value that an instruction produces, by its type. -/
def createdBy (tag : Witness → α) (i : Instruction) (t : Option JType) : Option (ValueSet α) :=
  t.bind (createdAt tag (.instruction i.index))

/-- Tracks witnesses, each with what `tag` attaches to it. -/
def tracking (tag : Witness → α) : Interpreter (ValueSet α) where
  newValue t origin := .ok (createdAt tag origin t)
  produce i := i.producedFromNone.map (createdBy tag i)
  copy _ v := .ok v
  unary i _ := i.producedFromOne.map (createdBy tag i)
  binary i _ _ := i.producedFromTwo.map (createdBy tag i)
  ternary i _ _ _ := i.producedFromThree.map (createdBy tag i)
  nary i _ := i.producedFromMany.map (createdBy tag i)
  returned _ _ _ := .ok ()
  merge s t := s.merge t

/-- Tracks bare witnesses. -/
def possibleValues : Interpreter PossibleValues := tracking id

end Interpreter

end Provenance

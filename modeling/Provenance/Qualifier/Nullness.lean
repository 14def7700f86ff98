/-
Two dimensions in use: whether a value may be null, and whether it is written through.

Both draw on one type of facts. Nothing is known of nullness until something is asserted, and that a
value is not null sticks. A value counts as read-only until something writes through it.
-/
import Provenance.Qualifier.QualifiedValue

set_option autoImplicit false

namespace Provenance

/-- The facts of both dimensions. -/
inductive ValueFact where
  | unknown | nullable | notNull | readOnly | mutable
deriving DecidableEq, Repr

namespace ValueFact

def name : ValueFact → String
  | unknown => "Unknown"
  | nullable => "Nullable"
  | notNull => "NotNull"
  | readOnly => "ReadOnly"
  | mutable => "Mutable"

def all : List ValueFact := [unknown, nullable, notNull, readOnly, mutable]

/-- The fact with a name. -/
def ofName? (name : String) : Option ValueFact := all.find? fun fact => fact.name == name

instance : Fact ValueFact where
  code
    | unknown => [0]
    | nullable => [1]
    | notNull => [2]
    | readOnly => [3]
    | mutable => [4]
  code_append_inj {a b x y} h := by cases a <;> cases b <;> simp_all
  text := name

end ValueFact

namespace Dimension

open ValueFact

/-- Whether a value may be null. -/
def nullability : Dimension ValueFact where
  id := "nullability"
  initial := unknown
  impose
    | current, unknown => current
    | notNull, _ => notNull
    | _, imposed => imposed

/-- Whether a value is written through. -/
def mutability : Dimension ValueFact where
  id := "mutability"
  initial := readOnly
  impose
    | mutable, _ | _, mutable => mutable
    | current, _ => current

end Dimension

namespace Witness

/-- Only the null constant is known to be nullable. -/
def nullness (w : Witness) : ValueFact :=
  match w.producedType with
  | .null => .nullable
  | _ => .unknown

/-- Attaches the fact about nullness. -/
def withNullness (w : Witness) : Qualifier ValueFact :=
  .single Dimension.nullability.id w.nullness

/-- Attaches facts of several dimensions, of which only that about nullness is known at first. -/
def withFacts (w : Witness) : Qualifier ValueFact :=
  .multi (.ofList [(Dimension.nullability.id, w.nullness)])

end Witness

end Provenance

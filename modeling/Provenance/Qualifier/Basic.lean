/-
Qualifiers: facts about values.

A fact belongs to a dimension, an independent lattice with a name. A qualifier is what a value
carries: one fact of one dimension, or a fact for each of several dimensions. The rules of a
dimension say which fact is assumed where none is known, what becomes of a fact when another is
imposed, and which qualifiers are facts of the dimension.
-/
import Provenance.Error
import Provenance.Order.OrderedMap
import Provenance.Text.Quoted
import Provenance.ValueSet

set_option autoImplicit false

namespace Provenance

/-- A type of facts: they are ordered and have a text. -/
class Fact (Q : Type) extends Coded Q where
  text : Q → String

/-- The name of a dimension. -/
abbrev DimensionId := String

/-- One fact for each of several dimensions. -/
abbrev Facts (Q : Type) := OrderedMap DimensionId Q

/-- What a value carries: a fact of one dimension, or one fact for each of several. -/
inductive Qualifier (Q : Type) where
  | single (dimension : DimensionId) (fact : Q)
  | multi (facts : Facts Q)
deriving DecidableEq

namespace Qualifier

variable {Q : Type}

/-- Whether a qualifier is a fact of the dimension with a name and of no other. -/
def isSingleOf (id : DimensionId) : Qualifier Q → Bool
  | single dimension _ => dimension == id
  | multi _ => false

variable [Fact Q]

/-- The text of a fact with its dimension. -/
def factText (dimension : DimensionId) (fact : Q) : String := s!"{dimension}: {Fact.text fact}"

/-- The text of a qualifier. -/
def text : Qualifier Q → String
  | single dimension fact => factText dimension fact
  | multi facts => braced (facts.toList.map fun p => factText p.1 p.2)

/-- The text of a qualifier in an error, which spells out its parts. -/
def spelledOut (dimension : DimensionId) (fact : Q) : String :=
  let id := s!"DimensionId({Text.quoted dimension})"
  s!"Single \x7b dimension: {id}, value: {Fact.text fact} \x7d"

/-- Single facts come before several, then by dimension and fact. -/
instance : Coded (Qualifier Q) where
  code
    | single dimension fact => 1 :: (Coded.code dimension ++ Coded.code fact)
    | multi facts => 2 :: Coded.code facts.toList
  code_append_inj {a b x y} h := by
    cases a <;> cases b <;>
      simp only [List.cons_append, List.append_assoc, List.cons.injEq, Nat.reduceEqDiff,
        false_and, true_and] at h
    · obtain ⟨e, h⟩ := Coded.code_append_inj h
      obtain ⟨e', h⟩ := Coded.code_append_inj h
      exact ⟨by rw [e, e'], h⟩
    · obtain ⟨e, h⟩ := Coded.code_append_inj h
      exact ⟨by rw [OrderedMap.toList_injective e], h⟩

end Qualifier

/-! ## Dimensions -/

/-- The rules of a dimension. -/
structure Dimension (Q : Type) where
  id : DimensionId
  /-- What is assumed of a value that carries no fact yet. -/
  initial : Q
  /-- What becomes of a fact, the first argument, when another is imposed. -/
  impose : Q → Q → Q
  /-- Whether a qualifier is a fact of this dimension. -/
  contains : Qualifier Q → Bool := Qualifier.isSingleOf id

/-- A dimension whose facts are those that carry its name. -/
def Dimension.IsPlain {Q : Type} (D : Dimension Q) : Prop :=
  D.contains = Qualifier.isSingleOf D.id

namespace Qualifier

variable {Q : Type} [Fact Q]

/-- The refusal of a fact that is of another dimension. -/
def foreign {α : Type} (D : Dimension Q) (dimension : DimensionId) (fact : Q) :
    Except AnalysisError α :=
  .error (.foreignQualifier D.id (spelledOut dimension fact))

/-- The fact that a qualifier holds in a dimension. Several facts may hold none for it; a single
fact of another dimension is refused. -/
def extract (D : Dimension Q) (q : Qualifier Q) : Except AnalysisError (Option Q) :=
  match q with
  | single dimension fact => if D.contains q then .ok (some fact) else foreign D dimension fact
  | multi facts => .ok (facts.get? D.id)

/-- The qualifier with its fact in a dimension replaced. -/
def replaceFact (D : Dimension Q) (q : Qualifier Q) (fact : Q) :
    Except AnalysisError (Qualifier Q) :=
  match q with
  | single dimension old =>
    if D.contains q then .ok (single dimension fact) else foreign D dimension old
  | multi facts =>
    if D.contains q then .ok (single D.id fact) else .ok (multi (facts.insert D.id fact))

end Qualifier

end Provenance

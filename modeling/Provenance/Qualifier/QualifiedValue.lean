/-
Witnesses with qualifiers.

A qualified value is a witness and the qualifier it carries. Its identity is the origin of the
witness: with another qualifier it is another version of the same value. In one dimension, versions
with the same fact count as one, and the key of that dimension is what they share.
-/
import Provenance.Interpreter.Tracking
import Provenance.Qualifier.Basic

set_option autoImplicit false

namespace Provenance

/-- A witness and what it carries. -/
structure QualifiedValue (Q : Type) where
  base : Witness
  qualifier : Qualifier Q
deriving DecidableEq

/-- What a value is in one dimension: its origin, and its fact there. -/
structure DimensionKey (Q : Type) where
  origin : Origin
  fact : Option Q
deriving DecidableEq

namespace QualifiedValue

variable {Q : Type}

instance : HasBase (QualifiedValue Q) := ⟨base⟩

def origin (v : QualifiedValue Q) : Origin := v.base.origin

def width (v : QualifiedValue Q) : Nat := v.base.width

variable [Fact Q]

instance : Coded (QualifiedValue Q) where
  code v := Coded.code v.base ++ Coded.code v.qualifier
  code_append_inj {a b x y} h := by
    obtain ⟨o, t⟩ := a
    obtain ⟨o', t'⟩ := b
    simp only [List.append_assoc] at h
    obtain ⟨e, h⟩ := Coded.code_append_inj h
    obtain ⟨e', h⟩ := Coded.code_append_inj h
    exact ⟨by rw [e, e'], h⟩

def text (v : QualifiedValue Q) : String := s!"{v.base.text} {v.qualifier.text}"

/-- The version of a value with another fact in a dimension. -/
def withFact (D : Dimension Q) (v : QualifiedValue Q) (fact : Q) :
    Except AnalysisError (QualifiedValue Q) :=
  (v.qualifier.replaceFact D fact).map fun q => { v with qualifier := q }

/-- What a value is in a dimension. -/
def key (D : Dimension Q) (v : QualifiedValue Q) : Except AnalysisError (DimensionKey Q) :=
  (v.qualifier.extract D).map fun fact => ⟨v.origin, fact⟩

end QualifiedValue

/-- The qualified values that a slot may hold. -/
abbrev QualifiedValueSet (Q : Type) [Fact Q] := ValueSet (QualifiedValue Q)

namespace QualifiedValueSet

variable {Q : Type} [Fact Q]

/-- The text of a set, whose members come in the order of their texts. -/
def text (s : QualifiedValueSet Q) : String :=
  braced ((s.members.toList.map QualifiedValue.text).mergeSort fun a b => ¬ b < a)

/-- The value with an origin, if the set holds exactly one version of it. -/
def valueOf? (s : QualifiedValueSet Q) (origin : Origin) : Option (QualifiedValue Q) :=
  match s.members.toList.filter fun v => v.origin = origin with
  | [v] => some v
  | _ => none

/-- The witnesses of a set, what they carry left out. -/
def erase (s : QualifiedValueSet Q) : PossibleValues :=
  ⟨s.width, s.members.image QualifiedValue.base⟩

end QualifiedValueSet

/-- Tracks witnesses with qualifiers; `evaluate` says what a witness carries at first. -/
def Interpreter.qualifiedValues {Q : Type} [Fact Q] (evaluate : Witness → Qualifier Q) :
    Interpreter (QualifiedValueSet Q) :=
  .tracking fun w => ⟨w, evaluate w⟩

end Provenance

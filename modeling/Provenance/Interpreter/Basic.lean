/-
Interpreters: what values mean.

A frame moves values about and knows nothing of them but their width. Whatever has to be computed is
asked of an interpreter: the value that an instruction produces, the copy of a value that moves to
another slot, and the value that stands for two values meeting at one slot. Each question put to an
interpreter while a frame is executed or joined is a call, and calls are traced.
-/
import Provenance.Error
import Provenance.Traced

set_option autoImplicit false

namespace Provenance

/-- A type of abstract values, each of which takes one slot or two. -/
class AbstractValue (V : Type) where
  width : V → Nat

/-- What the values of an analysis mean. An operation answers no value if the instruction produces
none. -/
structure Interpreter (V : Type) where
  /-- A value that no instruction produces: a parameter, or a caught exception. -/
  newValue : JType → Origin → Except AnalysisError (Option V)
  /-- The value produced from nothing. -/
  produce : Instruction → Except AnalysisError (Option V)
  /-- The value that moves to another slot. -/
  copy : Instruction → V → Except AnalysisError V
  unary : Instruction → V → Except AnalysisError (Option V)
  binary : Instruction → V → V → Except AnalysisError (Option V)
  ternary : Instruction → V → V → V → Except AnalysisError (Option V)
  /-- The result of an invocation, the receiver being the first of the values, or the outermost of
  nested arrays. -/
  nary : Instruction → List V → Except AnalysisError (Option V)
  /-- A value that is returned where a type is expected. -/
  returned : Instruction → V → JType → Except AnalysisError Unit
  /-- The value that stands for two values meeting at one slot. -/
  merge : V → V → Except AnalysisError V

/-- A question put to an interpreter. -/
inductive Call (V : Type) where
  | produce (instruction : Instruction)
  | copy (instruction : Instruction) (value : V)
  | unary (instruction : Instruction) (value : V)
  | binary (instruction : Instruction) (first second : V)
  | ternary (instruction : Instruction) (first second third : V)
  | nary (instruction : Instruction) (values : List V)
  | returned (instruction : Instruction) (value : V) (expected : JType)
  | merge (value other : V)
deriving DecidableEq

/-- A computation on values that leaves its calls of the interpreter as a trace. -/
abbrev Executed (V α : Type) := Traced (Call V) AnalysisError α

namespace Interpreter

variable {V : Type} (I : Interpreter V)

/-! ## Traced calls -/

def askProduce (i : Instruction) : Executed V (Option V) := .record (.produce i) (I.produce i)

def askCopy (i : Instruction) (v : V) : Executed V V := .record (.copy i v) (I.copy i v)

def askUnary (i : Instruction) (v : V) : Executed V (Option V) :=
  .record (.unary i v) (I.unary i v)

def askBinary (i : Instruction) (v w : V) : Executed V (Option V) :=
  .record (.binary i v w) (I.binary i v w)

def askTernary (i : Instruction) (v w x : V) : Executed V (Option V) :=
  .record (.ternary i v w x) (I.ternary i v w x)

def askNary (i : Instruction) (vs : List V) : Executed V (Option V) :=
  .record (.nary i vs) (I.nary i vs)

def askReturned (i : Instruction) (v : V) (expected : JType) : Executed V Unit :=
  .record (.returned i v expected) (I.returned i v expected)

def askMerge (v w : V) : Executed V V := .record (.merge v w) (I.merge v w)

end Interpreter

end Provenance

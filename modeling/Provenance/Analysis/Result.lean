/-
Asking the result of an analysis.

Queries look at the frame before an instruction. The values that an invocation takes are found from
the top of the stack: the last argument is on top, and the receiver lies below the first.
-/
import Provenance.Analysis.Analyzer

set_option autoImplicit false

namespace Provenance

namespace AnalysisResult

variable {V : Type} (r : AnalysisResult V)

/-- The frame before the instruction at an index, if it is reached. -/
def frame? (index : Nat) : Option (Frame V) := r.frames[index]?.join

/-- The frame before an instruction, by its own index. -/
def frameOf? (i : Instruction) : Option (Frame V) := r.frame? i.index

/-- The stack entry at a depth below the top, before the instruction at an index. -/
def stackFromTop? (index depth : Nat) : Option V := do (← r.frame? index).top? depth

/-- The receiver of the invocation at an index, if it has one. -/
def receiver? (index : Nat) : Option V := do
  let i ← r.method.instruction? index
  if i.opcode.hasReceiver then
    let count ← i.argumentCount.toOption
    r.stackFromTop? index count
  else none

/-- The arguments of the invocation at an index, the first one first. -/
def arguments? (index : Nat) : Option (List V) := do
  let i ← r.method.instruction? index
  let count ← i.argumentCount.toOption
  (List.range count).reverse.mapM (r.stackFromTop? index)

end AnalysisResult

/-! ## All methods of a class -/

namespace Class

/-- Applies an analysis to every method. A method that fails does not stop the others; its error
says which method it was. -/
def analyzeEach {α : Type} (c : Class) (analysis : Method → Except AnalysisError α) :
    List (Method × Except AnalysisError α) :=
  c.methods.map fun m => (m, (analysis m).mapError (.inMethod m.text))

/-- The warnings about the methods that failed. -/
def warnings {α : Type} (results : List (Method × Except AnalysisError α)) : List LogLine :=
  results.filterMap fun r =>
    match r.2 with
    | .ok _ => none
    | .error e => some ⟨.warn, e.message⟩

end Class

end Provenance

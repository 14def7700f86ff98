/-
Where control goes.

The successors of an instruction are the next instruction, the targets of its operand, or both, in
the order of its edges. All of them must lie in the method, and an instruction that goes on must
have a next one. Exceptions add one edge to each handler that protects the instruction; those are
not among the successors.
-/
import Provenance.Error

set_option autoImplicit false

namespace Provenance.Method

/-- Where an instruction sends control, in the order of its edges, whether or not it lies in the
method. -/
def targets (m : Method) (i : Instruction) : Except AnalysisError (List Nat) :=
  match i.opcode.flow with
  | .leave | .raise => .ok []
  | .unsupported => .error (.unsupportedInstruction i)
  | .jump | .switch => .ok i.operand.jumpTargets
  | .next | .branch =>
    if m.size ≤ i.index + 1 then .error (.fallOffEnd i.index)
    else .ok ((i.index + 1) :: i.operand.jumpTargets)

/-- The normal successors of an instruction, in the order of its edges. -/
def successors (m : Method) (i : Instruction) : Except AnalysisError (List Nat) := do
  let targets ← m.targets i
  match targets.find? fun target => m.size ≤ target with
  | some target => throw (.invalidJumpTarget target)
  | none => return targets

end Provenance.Method

/-
Correcting frames on their way.

When control crosses a normal edge, a transformer may correct the frame that the interpreter
computed. It sees the instruction, which of its edges is crossed, the frame before and after, the
method, and the frames found so far. Nothing is corrected on the way to a handler.
-/
import Provenance.Analysis.FixedPoint
import Provenance.Frame.Basic
import Provenance.Qualifier.QualifiedValue

set_option autoImplicit false

namespace Provenance

/-- The crossing of a normal edge out of an instruction. -/
structure EdgeCrossing (V : Type) where
  instruction : Instruction
  /-- Which of the edges out of the instruction is crossed. -/
  edge : Nat
  /-- The frame before the instruction. -/
  before : Frame V
  /-- The frame that the interpreter computed. -/
  after : Frame V
  method : Method
  /-- The frames before all instructions, as far as they are known. -/
  frames : States (Frame V)

/-- The frame before an instruction, if it is known. -/
def EdgeCrossing.frame? {V : Type} (c : EdgeCrossing V) (index : Nat) : Option (Frame V) :=
  c.frames[index]?.join

/-- Answers the frame that flows along an edge. -/
abbrev FrameTransformer (V : Type) := EdgeCrossing V → Except AnalysisError (Frame V)

namespace FrameTransformer

/-- Corrects nothing. -/
def identity {V : Type} : FrameTransformer V := fun c => .ok c.after

/-- Keeps qualifiers across stores: on the first edge out of a store, the local holds a new set of
what was on top of the stack before. -/
def keepStored {Q : Type} [Fact Q] : FrameTransformer (QualifiedValueSet Q) := fun c =>
  if !c.instruction.opcode.isStore || c.edge ≠ 0 then .ok c.after
  else
    match c.instruction.operand.var? with
    | none => .error (.unsupportedInstruction c.instruction)
    | some index => do
      let stored ← match c.before.top? 0 with
        | none => pure none
        | some s => (ValueSet.ofMembers s.members.toList).map some
      c.after.setLocal index stored

end FrameTransformer

end Provenance

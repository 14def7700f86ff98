/-
Analysing a method.

The frames of a method are the states of a forward analysis whose locations are its instructions.
The frame at the entry holds the receiver and the arguments. A frame flows through an instruction by
being executed and corrected for each successor; to each handler flow the locals as they were before
the instruction, with the exception alone on the stack. Errors are located at the instruction where
they arise.
-/
import Provenance.Analysis.Flow
import Provenance.Analysis.Transformer
import Provenance.Bytecode.Descriptor
import Provenance.Frame.Execute
import Provenance.Frame.Join

set_option autoImplicit false

namespace Provenance

/-- A method with what is needed to analyse it. -/
structure Analyzer (V : Type) where
  method : Method
  interpreter : Interpreter V
  transformer : FrameTransformer V
  returnType : JType

/-- The frames before all instructions of a method; an instruction without one is not reached. -/
structure AnalysisResult (V : Type) where
  method : Method
  frames : States (Frame V)

namespace Analyzer

variable {V : Type}

/-- Prepares the analysis of a method, whose descriptor must name its result. -/
def prepare (method : Method) (interpreter : Interpreter V) (transformer : FrameTransformer V) :
    Except AnalysisError (Analyzer V) := do
  return { method, interpreter, transformer, returnType := ← method.returnType }

/-! ## The entry -/

variable (A : Analyzer V)

/-- Puts the arguments into the locals, each behind the slots of those before it. -/
def seed : List JType → Nat → Frame V → Except AnalysisError (Frame V)
  | [], _, f => .ok f
  | t :: rest, index, f => do
    let v ← A.interpreter.newValue t (.parameter index)
    let f ← f.setLocal index v
    seed rest (index + t.size) f

/-- The types that enter the method in its locals: its receiver, if it has one, and its
arguments. -/
def entryTypes : Except AnalysisError (List JType) := do
  let arguments ← A.method.argumentTypes
  return if A.method.isStatic then arguments else .object A.method.owner :: arguments

/-- The frame at the entry: the receiver and the arguments in the locals, nothing on the stack. -/
def initialFrame : Except AnalysisError (Frame V) := do
  let types ← A.entryTypes
  A.seed types 0 (.blank A.method.maxLocals A.method.maxStack)

/-! ## Flow through an instruction -/

variable [AbstractValue V]

/-- The frames that cross the edges to some successors, the first of which has a number. -/
def crossAll (i : Instruction) (before after : Frame V) (frames : States (Frame V)) :
    List Nat → Nat → Except AnalysisError (List (Nat × Frame V))
  | [], _ => .ok []
  | target :: rest, edge => do
    let f ← A.transformer
      { instruction := i, edge, before, after, method := A.method, frames }
    let flows ← crossAll i before after frames rest (edge + 1)
    return (target, f) :: flows

omit [AbstractValue V] in
/-- The frame that flows to a handler. -/
def toHandler (before : Frame V) (h : Handler) : Except AnalysisError (Nat × Frame V) := do
  match ← A.interpreter.newValue h.exceptionType (.handler h.entry) with
  | none => throw (.noExceptionValue h.entry)
  | some exception => return (h.entry, ← before.clearStack.push exception)

/-- The frames that flow out of an instruction, with where they flow to: along its normal edges,
then to its handlers. -/
def transfer (i : Instruction) (before : Frame V) (frames : States (Frame V)) :
    Except AnalysisError (List (Nat × Frame V)) := do
  let after ← (Frame.execute A.interpreter i A.returnType before).outcome
  let successors ← A.method.successors i
  let normal ← A.crossAll i before after frames successors 0
  let exceptional ← (A.method.handlersAt i.index).mapM (A.toHandler before)
  return normal ++ exceptional

/-! ## The analysis -/

/-- Locates the errors of a computation at an instruction. -/
def located {α : Type} (index : Nat) (i : Option Instruction) (x : Except AnalysisError α) :
    Except AnalysisError α :=
  x.mapError (.atInstruction index i)

/-- The flow of frames through the method. -/
def flow : ForwardAnalysis (Frame V) where
  transfer index before frames :=
    match A.method.instruction? index with
    | none => .error (.invalidJumpTarget index)
    | some i => located index (some i) (A.transfer i before frames)
  join index held arriving :=
    located index (A.method.instruction? index)
      (Frame.join A.interpreter held arriving).outcome

/-- Analyses the method; a method without instructions has no frames. Answers none if the fuel does
not last. -/
def analyze [DecidableEq V] (fuel : Nat) :
    Solving (Frame V) (Option (AnalysisResult V)) :=
  if A.method.size = 0 then return some ⟨A.method, #[]⟩
  else do
    let initial ← A.initialFrame
    let frames ← A.flow.solve fuel A.method.size 0 initial
    return frames.map (AnalysisResult.mk A.method)

end Analyzer

namespace Method

/-- Tracks where the values of a method come from. -/
def trackValues (m : Method) (fuel : Nat) :
    Solving (Frame PossibleValues) (Option (AnalysisResult PossibleValues)) := do
  let A ← Analyzer.prepare m .possibleValues .identity
  A.analyze fuel

/-- Tracks where the values of a method come from and what they carry. -/
def trackQualifiers {Q : Type} [DecidableEq Q] [Fact Q] (m : Method)
    (transformer : FrameTransformer (QualifiedValueSet Q)) (evaluate : Witness → Qualifier Q)
    (fuel : Nat) :
    Solving (Frame (QualifiedValueSet Q)) (Option (AnalysisResult (QualifiedValueSet Q))) := do
  let A ← Analyzer.prepare m (.qualifiedValues evaluate) transformer
  A.analyze fuel

end Method

end Provenance

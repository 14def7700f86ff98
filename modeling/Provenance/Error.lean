/-
What can go wrong.

An error says what was found, in the terms of the library; its wording is in one place, the
function `AnalysisError.message`. Errors of an analysis are wrapped twice: in the instruction at
which they arose, and in the method that was analysed.
-/
import Provenance.Bytecode.Method
import Provenance.Witness

set_option autoImplicit false

namespace Provenance

/-- Why an operation of the library fails. -/
inductive AnalysisError where
  /-- A text that is no descriptor; it is the part that could not be read. -/
  | invalidDescriptor (text : String)
  /-- An opcode that cannot be analysed, or one with an operand of another kind. -/
  | unsupportedInstruction (instruction : Instruction)
  /-- A constant that cannot be loaded. -/
  | illegalConstant (constant : Constant)
  /-- The code of an element type that there is not. -/
  | illegalArrayType (code : Int)
  /-- A shuffle of the stack that would take half of a wide value. -/
  | illegalStackOperation (opcode : Opcode)
  | stackUnderflow
  | stackOverflow (limit : Nat)
  /-- A local beyond the last one. -/
  | invalidLocal (index : Nat)
  /-- A local that is read before it is set. -/
  | uninitializedLocal (index : Nat)
  /-- An instruction that should have produced a value and did not. -/
  | noValueProduced (instruction : Instruction)
  /-- An instruction that returns a value from a method without one. -/
  | returnsFromVoid (instruction : Instruction)
  /-- An instruction that returns nothing from a method with a result. -/
  | returnsNothing (instruction : Instruction) (expected : JType)
  /-- A handler for whose exception there is no value. -/
  | noExceptionValue (entry : Nat)
  /-- Values of different widths in one set. -/
  | inconsistentWidths (witnesses : List Witness)
  /-- Two sets of different widths. -/
  | widthMismatch (left right : Nat)
  /-- Two frames with different heights of the stack. -/
  | incompatibleStackHeights (left right : Nat)
  /-- Two frames with different numbers of locals. -/
  | incompatibleLocalCounts (left right : Nat)
  /-- A qualifier, given by its text, that is of another dimension. -/
  | foreignQualifier (dimension : String) (qualifier : String)
  /-- A target beyond the last instruction. -/
  | invalidJumpTarget (index : Nat)
  /-- An instruction without a next one to go on to. -/
  | fallOffEnd (index : Nat)
  /-- A location to be visited for which no state is known. -/
  | queuedWithoutState (location : Nat)
  /-- A failure that the user of the library gives a text. -/
  | custom (text : String)
  /-- An error at an instruction; the instruction is missing if there is none at the index. -/
  | atInstruction (index : Nat) (instruction : Option Instruction) (cause : AnalysisError)
  /-- An error in a method, given by its text. -/
  | inMethod (method : String) (cause : AnalysisError)
deriving DecidableEq

namespace AnalysisError

/-- The text of the instruction at which an error arose. -/
def instructionText (instruction : Option Instruction) : String :=
  (instruction.map Instruction.text).getD ""

/-- The wording of an error. -/
def message : AnalysisError → String
  | invalidDescriptor text => s!"Invalid descriptor: {text}"
  | unsupportedInstruction instruction => s!"Unsupported instruction: {instruction.text}"
  | illegalConstant constant => s!"Illegal LDC constant: {constant.text}"
  | illegalArrayType code => s!"Incorrect array type: {code}"
  | illegalStackOperation opcode =>
    s!"Illegal stack operation {opcode.mnemonic}: operand has the wrong width"
  | stackUnderflow => "Stack underflow"
  | stackOverflow limit => s!"Stack overflow: maximum stack size is {limit}"
  | invalidLocal index => s!"Local index {index} out of range"
  | uninitializedLocal index => s!"Local {index} is not initialized"
  | noValueProduced instruction => s!"Analysis error: {instruction.text} produced no value"
  | returnsFromVoid instruction =>
    s!"Analysis error: {instruction.text} in a method returning void"
  | returnsNothing instruction expected =>
    s!"Analysis error: {instruction.text} in a method returning {expected.text}"
  | noExceptionValue entry => s!"Analysis error: no value for the exception caught at {entry}"
  | inconsistentWidths witnesses =>
    "Inconsistent widths: " ++ ", ".intercalate (witnesses.map Witness.text)
  | widthMismatch left right => s!"Widths don't match: {left} and {right}"
  | incompatibleStackHeights left right => s!"Incompatible stack heights: {left} and {right}"
  | incompatibleLocalCounts left right =>
    s!"Analysis error: Incompatible local counts: {left} and {right}"
  | foreignQualifier dimension qualifier =>
    s!"Can't extract qualifier for dimension {dimension} from {qualifier}"
  | invalidJumpTarget index => s!"Invalid jump target {index}"
  | fallOffEnd index => s!"Execution falls off the end of the method after instruction {index}"
  | queuedWithoutState location =>
    s!"Analysis error: location {location} was queued without a state"
  | custom text => text
  | atInstruction index instruction cause =>
    s!"Error processing instruction {index} ({instructionText instruction}): {cause.message}"
  | inMethod method cause => s!"Analysis of {method} failed: {cause.message}"

end AnalysisError

end Provenance

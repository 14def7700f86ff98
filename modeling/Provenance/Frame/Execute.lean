/-
Executing an instruction on a frame.

What an instruction does is decided by its effect. It takes values from the stack or a local, asks
the interpreter about them and puts the answers back. The order of these steps decides which of two
errors is found and which calls are made before one.

The nine shuffles look at the widths of what they take: an instruction that moves one slot refuses a
value of two slots, and one that moves two slots takes one wide value or two narrow ones. What they
put back in a new place is a copy made by the interpreter.
-/
import Provenance.Bytecode.Descriptor
import Provenance.Frame.Basic

set_option autoImplicit false

namespace Provenance.Frame

variable {V : Type} [AbstractValue V]

/-! ## Single steps -/

/-- The top of the stack, which must be a value of one slot. -/
def popNarrow (op : Opcode) (f : Frame V) : Except AnalysisError (V × Frame V) := do
  let (v, f) ← f.pop
  if AbstractValue.width v = 1 then return (v, f)
  else throw (.illegalStackOperation op)

omit [AbstractValue V] in
/-- Pushes several values, the last one to the top. -/
def pushAll (f : Frame V) : List V → Except AnalysisError (Frame V)
  | [] => .ok f
  | v :: rest => do (← f.push v).pushAll rest

omit [AbstractValue V] in
/-- Pushes the value that an instruction was to produce. -/
def pushResult (i : Instruction) (f : Frame V) : Option V → Except AnalysisError (Frame V)
  | some v => f.push v
  | none => .error (.noValueProduced i)

/-- The local that an operand names. -/
def varOf (i : Instruction) : Except AnalysisError Nat :=
  match i.operand.var? with
  | some index => .ok index
  | none => .error (.unsupportedInstruction i)

omit [AbstractValue V] in
/-- The value of a local that must be set. -/
def load (f : Frame V) (index : Nat) : Except AnalysisError V :=
  match f.local? index with
  | some v => .ok v
  | none => .error (.uninitializedLocal index)

/-- Unsets the local before an index if it holds a wide value, which the local at the index would
overlap. -/
def unsetOverlapping (f : Frame V) (index : Nat) : Except AnalysisError (Frame V) :=
  match index with
  | 0 => .ok f
  | before + 1 =>
    if (f.local? before).any fun v => AbstractValue.width v = 2 then f.setLocal before none
    else .ok f

/-- Sets a local, and unsets those that the value overlaps. -/
def store (f : Frame V) (index : Nat) (v : V) : Except AnalysisError (Frame V) := do
  let f ← f.setLocal index (some v)
  let f ← if AbstractValue.width v = 2 then f.setLocal (index + 1) none else pure f
  f.unsetOverlapping index

/-! ## Shuffles -/

variable (I : Interpreter V) (i : Instruction)

omit [AbstractValue V] in
/-- Pushes the copy of a value. -/
def pushCopy (f : Frame V) (v : V) : Executed V (Frame V) := do
  let copy ← I.askCopy i v
  f.push copy

/-- Moves stack entries about. -/
def shuffle (f : Frame V) : Shuffle → Executed V (Frame V)
  | .pop => do
    let (_, f) ← f.popNarrow i.opcode
    return f
  | .pop2 => do
    let (v, f) ← f.pop
    if AbstractValue.width v = 1 then
      let (_, f) ← f.popNarrow i.opcode
      return f
    else return f
  | .dup => do
    let (v, f) ← f.popNarrow i.opcode
    let copy ← I.askCopy i v
    f.pushAll [v, copy]
  | .dupX1 => do
    let (v, f) ← f.popNarrow i.opcode
    let (w, f) ← f.popNarrow i.opcode
    let f ← pushCopy I i f v
    f.pushAll [w, v]
  | .dupX2 => do
    let (v, f) ← f.popNarrow i.opcode
    let (w, f) ← f.pop
    if AbstractValue.width w = 1 then
      let (x, f) ← f.popNarrow i.opcode
      let f ← pushCopy I i f v
      f.pushAll [x, w, v]
    else
      let f ← pushCopy I i f v
      f.pushAll [w, v]
  | .dup2 => do
    let (v, f) ← f.pop
    if AbstractValue.width v = 1 then
      let (w, f) ← f.popNarrow i.opcode
      let copyBelow ← I.askCopy i w
      let copy ← I.askCopy i v
      f.pushAll [w, v, copyBelow, copy]
    else
      let copy ← I.askCopy i v
      f.pushAll [v, copy]
  | .dup2X1 => do
    let (v, f) ← f.pop
    if AbstractValue.width v = 1 then
      let (w, f) ← f.popNarrow i.opcode
      let (x, f) ← f.popNarrow i.opcode
      let f ← pushCopy I i f w
      let f ← pushCopy I i f v
      f.pushAll [x, w, v]
    else
      let (w, f) ← f.popNarrow i.opcode
      let f ← pushCopy I i f v
      f.pushAll [w, v]
  | .dup2X2 => do
    let (v, f) ← f.pop
    if AbstractValue.width v = 1 then
      let (w, f) ← f.popNarrow i.opcode
      let (x, f) ← f.pop
      if AbstractValue.width x = 1 then
        let (y, f) ← f.popNarrow i.opcode
        let f ← pushCopy I i f w
        let f ← pushCopy I i f v
        f.pushAll [y, x, w, v]
      else
        let f ← pushCopy I i f w
        let f ← pushCopy I i f v
        f.pushAll [x, w, v]
    else
      let (w, f) ← f.pop
      if AbstractValue.width w = 1 then
        let (x, f) ← f.popNarrow i.opcode
        let f ← pushCopy I i f v
        f.pushAll [x, w, v]
      else
        let f ← pushCopy I i f v
        f.pushAll [w, v]
  | .swap => do
    let (v, f) ← f.popNarrow i.opcode
    let (w, f) ← f.popNarrow i.opcode
    let f ← pushCopy I i f v
    pushCopy I i f w

/-! ## Instructions -/

omit [AbstractValue V] in
/-- Invokes a method: the receiver and the arguments are popped, and the result is pushed unless it
is void. -/
def invoke (f : Frame V) : Executed V (Frame V) := do
  let type ← i.methodType
  let arguments ← i.argumentCount
  let (values, f) ← f.popMany (if i.opcode.hasReceiver then arguments + 1 else arguments)
  let result ← I.askNary i values
  if type.result? = some .void then return f else f.pushResult i result

omit [AbstractValue V] in
/-- Creates nested arrays from their lengths. -/
def newArrays (f : Frame V) : Executed V (Frame V) := do
  match i.operand with
  | .newArrays _ dimensions =>
    let (values, f) ← f.popMany dimensions.toNat
    let result ← I.askNary i values
    f.pushResult i result
  | _ => throw (.unsupportedInstruction i)

/-- Executes an instruction on a frame, in a method with a result of some type. -/
def execute (returnType : JType) (f : Frame V) : Executed V (Frame V) :=
  match i.opcode.effect with
  | .idle => return f
  | .unsupported => throw (.unsupportedInstruction i)
  | .produce => do
    let result ← I.askProduce i
    f.pushResult i result
  | .load => do
    let index ← varOf i
    let v ← f.load index
    pushCopy I i f v
  | .store => do
    let index ← varOf i
    let (v, f) ← f.pop
    let copy ← I.askCopy i v
    f.store index copy
  | .storeElement => do
    let (x, f) ← f.pop
    let (w, f) ← f.pop
    let (v, f) ← f.pop
    let _ ← I.askTernary i v w x
    return f
  | .shuffle kind => shuffle I i f kind
  | .combine => do
    let (w, f) ← f.pop
    let (v, f) ← f.pop
    let result ← I.askBinary i v w
    f.pushResult i result
  | .transform => do
    let (v, f) ← f.pop
    let result ← I.askUnary i v
    f.pushResult i result
  | .increment => do
    let index ← varOf i
    let v ← f.load index
    match ← I.askUnary i v with
    | some result => f.setLocal index (some result)
    | none => throw (.noValueProduced i)
  | .consume => do
    let (v, f) ← f.pop
    let _ ← I.askUnary i v
    return f
  | .consumeTwo => do
    let (w, f) ← f.pop
    let (v, f) ← f.pop
    let _ ← I.askBinary i v w
    return f
  | .returnValue => do
    let (v, f) ← f.pop
    let _ ← I.askUnary i v
    if returnType = .void then throw (.returnsFromVoid i)
    else
      I.askReturned i v returnType
      return f
  | .returnVoid =>
    if returnType = .void then return f else throw (.returnsNothing i returnType)
  | .invoke => invoke I i f
  | .newArrays => newArrays I i f

end Provenance.Frame

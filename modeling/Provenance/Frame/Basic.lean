/-
Frames: the locals and the operand stack at one instruction.

A frame has a fixed number of locals, some of them unset, and a stack with a limit on its height. A
value of width 2 takes one entry of the stack; among the locals it is followed by an unset one. The
stack is a list with its top at the head; stack entries are counted from the bottom where a slot is
named, and from the top where a query says so.

Values are visited, and written, in one order: the set locals from the first to the last, then the
stack from the bottom to the top.
-/
import Provenance.Interpreter.Basic

set_option autoImplicit false

namespace Provenance

/-- A place in a frame that can hold a value. Stack entries are counted from the bottom. -/
inductive Slot where
  | var (index : Nat)
  | stack (height : Nat)
deriving DecidableEq, Repr

/-- The locals and the operand stack at one instruction. -/
structure Frame (V : Type) where
  locals : List (Option V)
  /-- The operand stack, its top first. -/
  stack : List V
  /-- How many entries the stack may have. -/
  maxStack : Nat
deriving DecidableEq

namespace Frame

variable {V : Type}

/-- A frame with every local unset and nothing on the stack. -/
def blank (maxLocals maxStack : Nat) : Frame V := ⟨List.replicate maxLocals none, [], maxStack⟩

/-! ## Slots -/

/-- The value of a local; none if it is unset or there is no such local. -/
def local? (f : Frame V) (index : Nat) : Option V := f.locals[index]?.join

/-- The stack entry at a height above the bottom. -/
def stackAt? (f : Frame V) (height : Nat) : Option V := f.stack.reverse[height]?

/-- The stack entry at a depth below the top, which is at depth 0. -/
def top? (f : Frame V) (depth : Nat) : Option V := f.stack[depth]?

/-- The value in a slot. -/
def get? (f : Frame V) : Slot → Option V
  | .var index => f.local? index
  | .stack height => f.stackAt? height

/-- The frame with a local set or unset. -/
def setLocal (f : Frame V) (index : Nat) (v : Option V) : Except AnalysisError (Frame V) :=
  if index < f.locals.length then .ok { f with locals := f.locals.set index v }
  else .error (.invalidLocal index)

/-! ## The stack -/

def push (f : Frame V) (v : V) : Except AnalysisError (Frame V) :=
  if f.stack.length < f.maxStack then .ok { f with stack := v :: f.stack }
  else .error (.stackOverflow f.maxStack)

/-- The top of the stack, and the frame without it. -/
def pop (f : Frame V) : Except AnalysisError (V × Frame V) :=
  match f.stack with
  | [] => .error .stackUnderflow
  | v :: rest => .ok (v, { f with stack := rest })

/-- The topmost entries of the stack, the deepest of them first, and the frame without them. -/
def popMany (f : Frame V) (count : Nat) : Except AnalysisError (List V × Frame V) :=
  if count ≤ f.stack.length then
    .ok ((f.stack.take count).reverse, { f with stack := f.stack.drop count })
  else .error .stackUnderflow

def clearStack (f : Frame V) : Frame V := { f with stack := [] }

/-! ## All values -/

/-- Every value of the frame, in the order of visits. -/
def values (f : Frame V) : List V := f.locals.filterMap id ++ f.stack.reverse

/-- The frame with every value replaced, in the order of visits. -/
def mapM {m : Type → Type} [Monad m] {W : Type} (visit : V → m W) (f : Frame V) :
    m (Frame W) := do
  let locals ← f.locals.mapM fun v =>
    match v with
    | none => pure none
    | some v => do return some (← visit v)
  let stack ← f.stack.reverse.mapM visit
  return { locals, stack := stack.reverse, maxStack := f.maxStack }

/-- The frame with every value replaced. -/
def map {W : Type} (visit : V → W) (f : Frame V) : Frame W :=
  ⟨f.locals.map (Option.map visit), f.stack.map visit, f.maxStack⟩

/-! ## Text -/

/-- The text of a frame: the locals, a dash for one that is unset, and the stack from the
bottom. -/
def text (valueText : V → String) (f : Frame V) : String :=
  let localTexts := f.locals.map fun v => (v.map valueText).getD "-"
  let stackTexts := f.stack.reverse.map valueText
  s!"locals: {bracketed localTexts} stack: {bracketed stackTexts}"

end Frame

end Provenance

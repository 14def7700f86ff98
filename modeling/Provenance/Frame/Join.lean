/-
Joining frames.

Two frames that reach one instruction are joined slot by slot. Their stacks must have the same
height, and their entries are merged. A local that is set in one frame only keeps its value, and one
that holds values of different widths is unset, because no instruction could use it.
-/
import Provenance.Frame.Basic

set_option autoImplicit false

namespace Provenance.Frame

variable {V : Type} [AbstractValue V] (I : Interpreter V)

/-- Joins a local of two frames. -/
def joinLocal : Option V → Option V → Executed V (Option V)
  | some v, some w =>
    if AbstractValue.width v = AbstractValue.width w then do return some (← I.askMerge v w)
    else pure none
  | some v, none => pure (some v)
  | none, some w => pure (some w)
  | none, none => pure none

/-- Joins locals, the first ones first. -/
def joinLocals : List (Option V) → List (Option V) → Executed V (List (Option V))
  | v :: vs, w :: ws => do
    let joined ← joinLocal I v w
    let rest ← joinLocals vs ws
    return joined :: rest
  | _, _ => pure []

omit [AbstractValue V] in
/-- Joins stacks given from the top, the deepest entries first. -/
def joinStacks : List V → List V → Executed V (List V)
  | v :: vs, w :: ws => do
    let rest ← joinStacks vs ws
    let merged ← I.askMerge v w
    return merged :: rest
  | _, _ => pure []

/-- Joins two frames that reach one instruction. -/
def join (f g : Frame V) : Executed V (Frame V) :=
  if f.stack.length ≠ g.stack.length then
    throw (.incompatibleStackHeights f.stack.length g.stack.length)
  else if f.locals.length ≠ g.locals.length then
    throw (.incompatibleLocalCounts f.locals.length g.locals.length)
  else do
    let locals ← joinLocals I f.locals g.locals
    let stack ← joinStacks I f.stack g.stack
    return { f with locals, stack }

end Provenance.Frame

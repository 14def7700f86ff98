/-
Witnesses: where a value comes from.

The analysis does not know what a value is, only where it may have been created: as an argument of
the method, as the result of an instruction, or as the exception caught by a handler. That place is
the value's origin, and an origin together with the type created there is a witness. A method has
finitely many origins, which keeps the sets of witnesses finite.
-/
import Provenance.Bytecode.Instruction

set_option autoImplicit false

namespace Provenance

/-- The place where a value is created. -/
inductive Origin where
  /-- The receiver or the argument that enters the method in this local. -/
  | parameter (slot : Nat)
  /-- The result of the instruction at this index. -/
  | instruction (index : Nat)
  /-- The exception caught by the handler that begins at this index. -/
  | handler (entry : Nat)
deriving DecidableEq, Repr

namespace Origin

def text : Origin → String
  | parameter slot => s!"parameter {slot}"
  | instruction index => s!"created at {index}"
  | handler entry => s!"caught at {entry}"

/-- Parameters come before instructions and instructions before handlers, then by number. -/
instance : Coded Origin where
  code
    | parameter slot => [1, slot]
    | instruction index => [2, index]
    | handler entry => [3, entry]
  code_append_inj {a b x y} h := by cases a <;> cases b <;> simp_all

end Origin

/-- Evidence that a value may have been created at an origin, with a type. -/
structure Witness where
  origin : Origin
  producedType : JType
deriving DecidableEq

namespace Witness

/-- The witness of what an instruction creates. -/
def atInstruction (t : JType) (i : Instruction) : Witness := ⟨.instruction i.index, t⟩

/-- The index of the instruction that creates the value, if one does. -/
def createdAt? (w : Witness) : Option Nat :=
  match w.origin with
  | .instruction index => some index
  | _ => none

/-- How many slots the value takes. -/
def width (w : Witness) : Nat := w.producedType.size

def text (w : Witness) : String := s!"[{w.producedType.text}; {w.origin.text}]"

/-- Witnesses come by origin, then by type. -/
instance : Coded Witness where
  code w := Coded.code w.origin ++ Coded.code w.producedType
  code_append_inj {a b x y} h := by
    obtain ⟨o, t⟩ := a
    obtain ⟨o', t'⟩ := b
    simp only [List.append_assoc] at h
    obtain ⟨e, h⟩ := Coded.code_append_inj h
    obtain ⟨e', h⟩ := Coded.code_append_inj h
    exact ⟨by rw [e, e'], h⟩

end Witness

end Provenance

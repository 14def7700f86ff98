/-
Methods and classes.

A method is its signature, the sizes of its frames, its instructions and its exception handlers.
Jump targets and handler boundaries are positions in the list of instructions. A class is a name
and a list of methods.
-/
import Provenance.Bytecode.Instruction

set_option autoImplicit false

namespace Provenance

/-- The access flags of a method, as bits. -/
structure MethodAccess where
  bits : UInt16
deriving DecidableEq, Inhabited

namespace MethodAccess

def isStatic (access : MethodAccess) : Bool := access.bits &&& 0x0008 ≠ 0

/-- The bits that have a meaning for methods. -/
def known : UInt16 := 0x1DFF

/-- The flags of some bits, those without a meaning dropped. -/
def ofBits (bits : UInt16) : MethodAccess := ⟨bits &&& known⟩

end MethodAccess

/-- An exception handler: it protects the instructions from `start` to before `stop`. -/
structure Handler where
  start : Nat
  stop : Nat
  /-- Where the handler begins. -/
  entry : Nat
  /-- The internal name of what is caught; everything is caught if there is none. -/
  catchType : Option String
deriving DecidableEq

namespace Handler

/-- Whether the handler protects the instruction at an index. -/
def covers (h : Handler) (index : Nat) : Bool := h.start ≤ index && index < h.stop

/-- The type of the exception on the stack at the entry. -/
def exceptionType (h : Handler) : JType := .object (h.catchType.getD "java/lang/Throwable")

end Handler

/-- A method with its decoded body. -/
structure Method where
  /-- The internal name of the class that declares the method. -/
  owner : String
  name : String
  descriptor : String
  access : MethodAccess
  maxLocals : Nat
  maxStack : Nat
  instructions : List Instruction
  handlers : List Handler
deriving DecidableEq

namespace Method

/-- A method without a body. -/
def declare (owner name descriptor : String) (access : MethodAccess) : Method :=
  { owner, name, descriptor, access, maxLocals := 0, maxStack := 0, instructions := [],
    handlers := [] }

/-- The text of a method: where it is declared, its name and its descriptor. -/
def text (m : Method) : String := s!"{m.owner}.{m.name}{m.descriptor}"

def isStatic (m : Method) : Bool := m.access.isStatic

/-- How many instructions the method has. -/
def size (m : Method) : Nat := m.instructions.length

def instruction? (m : Method) (index : Nat) : Option Instruction := m.instructions[index]?

/-- The method with an instruction added at the end, which gets the next index. -/
def push (m : Method) (opcode : Opcode) (operand : Operand) : Method :=
  { m with instructions := m.instructions ++ [⟨m.size, opcode, operand⟩] }

/-- The method with a handler added behind the others. -/
def addHandler (m : Method) (h : Handler) : Method := { m with handlers := m.handlers ++ [h] }

/-- The handlers that protect the instruction at an index, in their order. -/
def handlersAt (m : Method) (index : Nat) : List Handler :=
  m.handlers.filter fun h => h.covers index

/-- Every instruction sits at its own index. -/
def Indexed (m : Method) : Prop :=
  ∀ position i, m.instruction? position = some i → i.index = position

instance (m : Method) : Decidable m.Indexed :=
  decidable_of_iff
    (∀ position < m.size, (m.instruction? position).all fun i => i.index = position) <| by
    constructor
    · intro h position i hi
      have hlt : position < m.size := (List.getElem?_eq_some_iff.1 hi).1
      have hall := h position hlt
      rw [hi] at hall
      exact of_decide_eq_true hall
    · intro h position _
      cases hi : m.instruction? position with
      | none => rfl
      | some i => exact decide_eq_true (h position i hi)

end Method

/-- The methods of one class. -/
structure Class where
  name : String
  methods : List Method
deriving DecidableEq

/-- The first method with a name and a descriptor. -/
def Class.method? (c : Class) (name descriptor : String) : Option Method :=
  c.methods.find? fun m => m.name == name && m.descriptor == descriptor

end Provenance

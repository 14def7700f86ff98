/-
Loading a class.

A class is loaded from a JSON text, or from the bytes of such a text. Analyses address instructions
by their index and jump to handlers, so a class is refused unless every instruction sits at its own
index and every handler protects a range of instructions and begins at one. The first method with a
fault is named, its instructions before its handlers.
-/
import Provenance.Interchange.Read

set_option autoImplicit false

namespace Provenance

/-- Why a class cannot be loaded. -/
inductive LoadError where
  /-- The text cannot be read as a class. -/
  | unreadable (problem : Json.Problem)
  /-- There is no file. -/
  | noFile
  /-- The bytes are not the encoding of a text. -/
  | notText
  /-- An instruction whose index is not its position. -/
  | misplacedInstruction (method : Method) (index position : Nat)
  /-- A handler whose range or entry is not in the method. -/
  | malformedHandler (method : Method) (handler : Handler)
deriving DecidableEq

namespace LoadError

/-- The wording of a refusal of the class itself; the other errors are worded by their kind. -/
def message : LoadError → String
  | misplacedInstruction method index position =>
    s!"{method.text}: instruction {index} is stored at index {position}"
  | malformedHandler method handler =>
    s!"{method.text}: malformed exception handler {handler.start}..{handler.stop} -> "
      ++ Nat.repr handler.entry
  | unreadable .malformed => "the text is not JSON"
  | unreadable .truncated => "the text ends too early"
  | unreadable .unexpected => "the text is not a class"
  | noFile => "there is no file"
  | notText => "the file is not text"

end LoadError

namespace Handler

/-- Whether the range and the entry lie in a method of some size. -/
def fits (h : Handler) (size : Nat) : Bool :=
  h.start ≤ h.stop && h.stop ≤ size && h.entry < size

end Handler

namespace Method

/-- The first instruction that is not at its own index, counted from a position. -/
def misplaced? (m : Method) : Nat → List Instruction → Option LoadError
  | _, [] => none
  | position, i :: rest =>
    if i.index = position then m.misplaced? (position + 1) rest
    else some (.misplacedInstruction m i.index position)

/-- The first fault of a method. -/
def fault? (m : Method) : Option LoadError :=
  (m.misplaced? 0 m.instructions).or
    ((m.handlers.find? fun h => !h.fits m.size).map (.malformedHandler m))

end Method

namespace Class

/-- A class without faults. -/
def check (c : Class) : Except LoadError Class :=
  match c.methods.findSome? Method.fault? with
  | some e => .error e
  | none => .ok c

/-- Loads a class from a text. -/
def load (text : String) : Except LoadError Class :=
  match Json.readText Class.read text with
  | .error problem => .error (.unreadable problem)
  | .ok c => c.check

/-- Loads a class from the bytes of a file. -/
def loadBytes (bytes : ByteArray) : Except LoadError Class :=
  match String.fromUTF8? bytes with
  | none => .error .notText
  | some text => load text

/-- Loads a class from a file, if there is one. -/
def loadFile (file : Option ByteArray) : Except LoadError Class :=
  match file with
  | none => .error .noFile
  | some bytes => loadBytes bytes

end Class

end Provenance

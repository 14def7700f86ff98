/-
Classes and witnesses as JSON values.

Records are objects with their fields in order. A variant without content is its name, and one with
content an object with the name as its only key.
-/
import Provenance.Bytecode.Method
import Provenance.Json.Value
import Provenance.Witness

set_option autoImplicit false

namespace Provenance

namespace Json

/-- A natural number. -/
def natural (n : Nat) : Json := integer n

def naturals (l : List Nat) : Json := array (l.map natural)

/-- A variant with content. -/
def variant (name : String) (content : Json) : Json := object [(name, content)]

/-- A value or null. -/
def optional {α : Type} (write : α → Json) : Option α → Json
  | none => null
  | some a => write a

end Json

mutual

/-- A type as JSON. -/
def JType.toJson : JType → Json
  | .void => .string "Void"
  | .boolean => .string "Boolean"
  | .char => .string "Char"
  | .byte => .string "Byte"
  | .short => .string "Short"
  | .int => .string "Int"
  | .float => .string "Float"
  | .long => .string "Long"
  | .double => .string "Double"
  | .object name => .variant "Object" (.string name)
  | .array element => .variant "Array" element.toJson
  | .method arguments result =>
    .variant "Method"
      (.object [("arguments", .array (JType.allToJson arguments)), ("ret", result.toJson)])
  | .null => .string "Null"
  | .returnAddress => .string "ReturnAddress"

/-- Several types as JSON. -/
def JType.allToJson : List JType → List Json
  | [] => []
  | t :: rest => t.toJson :: JType.allToJson rest

end

/-- A constant as JSON. A number of 32 bits is written with the digits of the same number of 64
bits. -/
def Constant.toJson : Constant → Json
  | .int value => .variant "Int" (.integer value.toInt)
  | .long value => .variant "Long" (.integer value.toInt)
  | .float value => .variant "Float" (.real (value.convert Number.binary64))
  | .double value => .variant "Double" (.real value)
  | .string value => .variant "String" (.string value)
  | .type value => .variant "Type" value.toJson
  | .methodHandle owner name descriptor =>
    .variant "MethodHandle" (.object
      [("owner", .string owner), ("name", .string name), ("descriptor", .string descriptor)])
  | .dynamic name descriptor =>
    .variant "Dynamic" (.object [("name", .string name), ("descriptor", .string descriptor)])

/-- An operand as JSON. -/
def Operand.toJson : Operand → Json
  | .none => .string "None"
  | .int value => .variant "Int" (.integer value.toInt)
  | .var index => .variant "Var" (.natural index.toNat)
  | .increment index amount =>
    .variant "Iinc" (.object
      [("var", .natural index.toNat), ("increment", .integer amount.toInt)])
  | .type name => .variant "Type" (.string name)
  | .field owner name descriptor =>
    .variant "Field" (.object
      [("owner", .string owner), ("name", .string name), ("descriptor", .string descriptor)])
  | .method owner name descriptor ofInterface =>
    .variant "Method" (.object
      [("owner", .string owner), ("name", .string name), ("descriptor", .string descriptor),
        ("interface", .bool ofInterface)])
  | .invokeDynamic name descriptor =>
    .variant "InvokeDynamic" (.object
      [("name", .string name), ("descriptor", .string descriptor)])
  | .constant value => .variant "Ldc" value.toJson
  | .jump target => .variant "Jump" (.natural target)
  | .tableSwitch low high otherwise targets =>
    .variant "TableSwitch" (.object
      [("low", .integer low.toInt), ("high", .integer high.toInt),
        ("default", .natural otherwise), ("targets", .naturals targets)])
  | .lookupSwitch otherwise keys targets =>
    .variant "LookupSwitch" (.object
      [("default", .natural otherwise),
        ("keys", .array (keys.map fun key => .integer key.toInt)),
        ("targets", .naturals targets)])
  | .newArrays descriptor dimensions =>
    .variant "MultiANewArray" (.object
      [("descriptor", .string descriptor), ("dimensions", .natural dimensions.toNat)])

def Instruction.toJson (i : Instruction) : Json :=
  .object [("index", .natural i.index), ("opcode", .string i.opcode.name),
    ("operand", i.operand.toJson)]

def Handler.toJson (h : Handler) : Json :=
  .object [("start", .natural h.start), ("end", .natural h.stop), ("handler", .natural h.entry),
    ("catch_type", .optional .string h.catchType)]

def MethodAccess.toJson (access : MethodAccess) : Json :=
  .object [("bits", .natural access.bits.toNat)]

def Method.toJson (m : Method) : Json :=
  .object [("owner", .string m.owner), ("name", .string m.name),
    ("descriptor", .string m.descriptor), ("access", m.access.toJson),
    ("max_locals", .natural m.maxLocals), ("max_stack", .natural m.maxStack),
    ("instructions", .array (m.instructions.map Instruction.toJson)),
    ("try_catch_blocks", .array (m.handlers.map Handler.toJson))]

/-- A class as JSON. -/
def Class.toJson (c : Class) : Json :=
  .object [("name", .string c.name), ("methods", .array (c.methods.map Method.toJson))]

def Origin.toJson : Origin → Json
  | .parameter slot => .variant "Parameter" (.natural slot)
  | .instruction index => .variant "Instruction" (.natural index)
  | .handler entry => .variant "Handler" (.natural entry)

/-- A witness as JSON. -/
def Witness.toJson (w : Witness) : Json :=
  .object [("origin", w.origin.toJson), ("produced_type", w.producedType.toJson)]

end Provenance

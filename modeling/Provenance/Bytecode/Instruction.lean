/-
Decoded instructions.

An instruction is an opcode with an operand, addressed by its index in the method. Any operand may
stand with any opcode; what does not fit together is found out when the instruction is used. The
file holds constants, operands and instructions, their text, and what can be read off an operand
alone.
-/
import Provenance.Bytecode.JType
import Provenance.Bytecode.Opcode
import Provenance.Number.Shortest
import Provenance.Text.Quoted

set_option autoImplicit false

namespace Provenance

/-- Several texts between square brackets. -/
def bracketed (texts : List String) : String := "[" ++ ", ".intercalate texts ++ "]"

/-! ## Constants -/

/-- A constant that an instruction loads. -/
inductive Constant where
  | int (value : Int32)
  | long (value : Int64)
  | float (value : Number.Binary Number.binary32)
  | double (value : Number.Binary Number.binary64)
  | string (value : String)
  /-- A class literal, or a method type. -/
  | type (value : JType)
  | methodHandle (owner name descriptor : String)
  /-- A constant computed when it is first loaded. -/
  | dynamic (name descriptor : String)
deriving DecidableEq

/-- The text of a constant; numbers wider than an integer carry a letter. -/
def Constant.text : Constant → String
  | int value => toString value.toInt
  | long value => toString value.toInt ++ "L"
  | float value => value.text .plain ++ "F"
  | double value => value.text .plain ++ "D"
  | string value => Text.quoted value
  | type value => value.text
  | methodHandle owner name descriptor => s!"{owner}.{name}{descriptor}"
  | dynamic name descriptor => s!"dynamic {name}:{descriptor}"

/-! ## Operands -/

/-- The operand of an instruction. -/
inductive Operand where
  | none
  /-- A number to push, or the code of the element type of a new array. -/
  | int (value : Int32)
  /-- A local variable. -/
  | var (index : UInt16)
  /-- A local variable and what is added to it. -/
  | increment (index : UInt16) (amount : Int16)
  /-- A class by its internal name, or an array type by its descriptor. -/
  | type (name : String)
  | field (owner name descriptor : String)
  | method (owner name descriptor : String) (ofInterface : Bool)
  | invokeDynamic (name descriptor : String)
  | constant (value : Constant)
  /-- The index of the instruction to go to. -/
  | jump (target : Nat)
  | tableSwitch (low high : Int32) (otherwise : Nat) (targets : List Nat)
  | lookupSwitch (otherwise : Nat) (keys : List Int32) (targets : List Nat)
  | newArrays (descriptor : String) (dimensions : UInt8)
deriving DecidableEq

namespace Operand

/-- The text of an operand. -/
def text : Operand → String
  | none => ""
  | int value => toString value.toInt
  | var index => toString index.toNat
  | increment index amount => s!"{index.toNat} {amount.toInt}"
  | type name => name
  | field owner name descriptor => s!"{owner}.{name} : {descriptor}"
  | method owner name descriptor _ => s!"{owner}.{name}{descriptor}"
  | invokeDynamic name descriptor => s!"{name}{descriptor}"
  | constant value => value.text
  | jump target => s!"-> {target}"
  | tableSwitch low high otherwise targets =>
    s!"{low.toInt}..{high.toInt} {bracketed (targets.map Nat.repr)} default -> {otherwise}"
  | lookupSwitch otherwise keys targets =>
    let keyTexts := keys.map fun key => toString key.toInt
    s!"{bracketed keyTexts} -> {bracketed (targets.map Nat.repr)} default -> {otherwise}"
  | newArrays descriptor dimensions => s!"{descriptor} {dimensions.toNat}"

/-- The local variable of an operand. -/
def var? : Operand → Option Nat
  | var index | increment index _ => some index.toNat
  | _ => Option.none

/-- The descriptor of a field. -/
def fieldDescriptor? : Operand → Option String
  | field _ _ descriptor => some descriptor
  | _ => Option.none

/-- The descriptor of a method, named or found when it is first invoked. -/
def methodDescriptor? : Operand → Option String
  | method _ _ descriptor _ | invokeDynamic _ descriptor => some descriptor
  | _ => Option.none

/-- Where an operand sends control, a default target first. -/
def jumpTargets : Operand → List Nat
  | jump target => [target]
  | tableSwitch _ _ otherwise targets | lookupSwitch otherwise _ targets => otherwise :: targets
  | _ => []

end Operand

/-! ## Instructions -/

/-- An instruction at an index of a method. -/
structure Instruction where
  index : Nat
  opcode : Opcode
  operand : Operand
deriving DecidableEq

namespace Instruction

/-- An index with at least two digits. -/
def indexText (index : Nat) : String :=
  if index < 10 then "0" ++ Nat.repr index else Nat.repr index

/-- The text of an instruction. -/
def text (i : Instruction) : String :=
  match i.operand with
  | .none => s!"{indexText i.index} {i.opcode.mnemonic}"
  | operand => s!"{indexText i.index} {i.opcode.mnemonic} {operand.text}"

end Instruction

end Provenance

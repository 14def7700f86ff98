/-
Classes and witnesses read from JSON documents.

Each record has a draft, in which every field is optional, the list of its fields, and a way from a
complete draft to the record. The access flags and the handlers of a method may be left out, and so
may, in an object, the type that a handler catches.
-/
import Provenance.Bytecode.Method
import Provenance.Json.Decode
import Provenance.Witness

set_option autoImplicit false

namespace Provenance

open Json (Problem)

namespace Document

/-- The number of bits of an index. -/
def indexBits : Nat := 64

/-- An index of an instruction, a local or a stack entry. -/
def readIndex (d : Document) : Read Nat := d.readNat indexBits

def readInt32 (d : Document) : Read Int32 := (d.readSigned 32).map Int32.ofInt

def readInt16 (d : Document) : Read Int16 := (d.readSigned 16).map Int16.ofInt

def readInt64 (d : Document) : Read Int64 := (d.readSigned 64).map Int64.ofInt

def readUInt16 (d : Document) : Read UInt16 := (d.readNat 16).map UInt16.ofNat

def readUInt8 (d : Document) : Read UInt8 := (d.readNat 8).map UInt8.ofNat

def readIndices (levels : Nat) : Document → Read (List Nat) :=
  readList levels fun _ => readIndex

end Document

/-- A variant that holds a plain value. -/
def Variant.plain {α β : Type} (read : Document → Read α) (make : α → β) : Variant β :=
  .holding fun _ d => (read d).map make

/-- A variant that holds a record. -/
def Variant.record {σ α : Type} (fields : List (Field σ)) (empty : σ) (finish : σ → Option α) :
    Variant α :=
  .holding fun levels d => d.readRecord levels fields empty finish

/-- A field with a plain value. -/
def Field.plain {σ α : Type} (name : String) (get : σ → Option α) (set : α → σ → σ)
    (read : Document → Read α) : Field σ :=
  { name
    isSet := fun draft => (get draft).isSome
    read := fun _ d draft => (read d).map fun a => set a draft
    mayBeCut := false }

/-- A field whose value nests. -/
def Field.nested {σ α : Type} (name : String) (get : σ → Option α) (set : α → σ → σ)
    (read : Nat → Document → Read α) : Field σ :=
  { name
    isSet := fun draft => (get draft).isSome
    read := fun levels d draft => (read levels d).map fun a => set a draft
    mayBeCut := false }

/-- A field that may be left out. -/
def Field.orDefault {σ : Type} (field : Field σ) : Field σ := { field with mayBeCut := true }

/-! ## Types -/

structure JType.MethodDraft where
  arguments : Option (List JType)
  result : Option JType

/-- The variants of a type, the types inside being read by `inner`. -/
def JType.variant? (inner : Nat → Document → Read JType) : String → Option (Variant JType)
  | "Void" => some (.unit .void)
  | "Boolean" => some (.unit .boolean)
  | "Char" => some (.unit .char)
  | "Byte" => some (.unit .byte)
  | "Short" => some (.unit .short)
  | "Int" => some (.unit .int)
  | "Float" => some (.unit .float)
  | "Long" => some (.unit .long)
  | "Double" => some (.unit .double)
  | "Object" => some (.plain Document.readString .object)
  | "Array" => some (.holding fun levels d => (inner levels d).map .array)
  | "Method" => some (.record
      [.nested "arguments" (·.arguments) (fun a s => { s with arguments := some a })
        (fun levels => Document.readList levels inner),
       .nested "ret" (·.result) (fun a s => { s with result := some a }) inner]
      (JType.MethodDraft.mk none none)
      fun s => do return .method (← s.arguments) (← s.result))
  | "Null" => some (.unit .null)
  | "ReturnAddress" => some (.unit .returnAddress)
  | _ => none

/-- Reads a type whose nesting the fuel bounds. -/
def JType.readWithin : Nat → Nat → Document → Read JType
  | 0, _, _ => .error .malformed
  | fuel + 1, levels, d => d.readVariant levels (JType.variant? (JType.readWithin fuel))

/-- Reads a type. A type inside another is at least one level down. -/
def JType.read (levels : Nat) (d : Document) : Read JType := JType.readWithin (levels + 1) levels d

/-! ## Constants and operands -/

/-- Up to four names, of which a reference to a member consists. -/
structure MemberDraft where
  owner : Option String
  name : Option String
  descriptor : Option String
  ofInterface : Option Bool

namespace MemberDraft

def empty : MemberDraft := ⟨none, none, none, none⟩

def ownerField : Field MemberDraft :=
  .plain "owner" (·.owner) (fun a s => { s with owner := some a }) Document.readString

def nameField : Field MemberDraft :=
  .plain "name" (·.name) (fun a s => { s with name := some a }) Document.readString

def descriptorField : Field MemberDraft :=
  .plain "descriptor" (·.descriptor) (fun a s => { s with descriptor := some a })
    Document.readString

def interfaceField : Field MemberDraft :=
  .plain "interface" (·.ofInterface) (fun a s => { s with ofInterface := some a })
    Document.readBool

/-- A member by its class, its name and its descriptor. -/
def qualified {α : Type} (make : String → String → String → α) : Variant α :=
  .record [ownerField, nameField, descriptorField] empty
    fun s => do return make (← s.owner) (← s.name) (← s.descriptor)

/-- A member by its name and its descriptor. -/
def unqualified {α : Type} (make : String → String → α) : Variant α :=
  .record [nameField, descriptorField] empty
    fun s => do return make (← s.name) (← s.descriptor)

end MemberDraft

def Constant.variant? : String → Option (Variant Constant)
  | "Int" => some (.plain Document.readInt32 .int)
  | "Long" => some (.plain Document.readInt64 .long)
  | "Float" => some (.plain (Document.readBinary Number.binary32) .float)
  | "Double" => some (.plain (Document.readBinary Number.binary64) .double)
  | "String" => some (.plain Document.readString .string)
  | "Type" => some (.holding fun levels d => (JType.read levels d).map .type)
  | "MethodHandle" => some (MemberDraft.qualified .methodHandle)
  | "Dynamic" => some (MemberDraft.unqualified .dynamic)
  | _ => none

def Constant.read (levels : Nat) (d : Document) : Read Constant :=
  d.readVariant levels Constant.variant?

structure IncrementDraft where
  index : Option UInt16
  amount : Option Int16

def IncrementDraft.empty : IncrementDraft := ⟨none, none⟩

structure SwitchDraft where
  low : Option Int32
  high : Option Int32
  otherwise : Option Nat
  keys : Option (List Int32)
  targets : Option (List Nat)

namespace SwitchDraft

def empty : SwitchDraft := ⟨none, none, none, none, none⟩

def lowField : Field SwitchDraft :=
  .plain "low" (·.low) (fun a s => { s with low := some a }) Document.readInt32

def highField : Field SwitchDraft :=
  .plain "high" (·.high) (fun a s => { s with high := some a }) Document.readInt32

def otherwiseField : Field SwitchDraft :=
  .plain "default" (·.otherwise) (fun a s => { s with otherwise := some a }) Document.readIndex

def keysField : Field SwitchDraft :=
  .nested "keys" (·.keys) (fun a s => { s with keys := some a })
    fun levels => Document.readList levels fun _ => Document.readInt32

def targetsField : Field SwitchDraft :=
  .nested "targets" (·.targets) (fun a s => { s with targets := some a }) Document.readIndices

end SwitchDraft

structure NewArraysDraft where
  descriptor : Option String
  dimensions : Option UInt8

def NewArraysDraft.empty : NewArraysDraft := ⟨none, none⟩

def Operand.variant? : String → Option (Variant Operand)
  | "None" => some (.unit .none)
  | "Int" => some (.plain Document.readInt32 .int)
  | "Var" => some (.plain Document.readUInt16 .var)
  | "Iinc" => some (.record
      [.plain "var" (·.index) (fun a s => { s with index := some a }) Document.readUInt16,
       .plain "increment" (·.amount) (fun a s => { s with amount := some a }) Document.readInt16]
      IncrementDraft.empty
      fun s => do return .increment (← s.index) (← s.amount))
  | "Type" => some (.plain Document.readString .type)
  | "Field" => some (MemberDraft.qualified .field)
  | "Method" => some (.record
      [MemberDraft.ownerField, MemberDraft.nameField, MemberDraft.descriptorField,
       MemberDraft.interfaceField]
      MemberDraft.empty
      fun s => do return .method (← s.owner) (← s.name) (← s.descriptor) (← s.ofInterface))
  | "InvokeDynamic" => some (MemberDraft.unqualified .invokeDynamic)
  | "Ldc" => some (.holding fun levels d => (Constant.read levels d).map .constant)
  | "Jump" => some (.plain Document.readIndex .jump)
  | "TableSwitch" => some (.record
      [SwitchDraft.lowField, SwitchDraft.highField, SwitchDraft.otherwiseField,
       SwitchDraft.targetsField]
      SwitchDraft.empty
      fun s => do return .tableSwitch (← s.low) (← s.high) (← s.otherwise) (← s.targets))
  | "LookupSwitch" => some (.record
      [SwitchDraft.otherwiseField, SwitchDraft.keysField, SwitchDraft.targetsField]
      SwitchDraft.empty
      fun s => do return .lookupSwitch (← s.otherwise) (← s.keys) (← s.targets))
  | "MultiANewArray" => some (.record
      [.plain "descriptor" (·.descriptor) (fun a s => { s with descriptor := some a })
        Document.readString,
       .plain "dimensions" (·.dimensions) (fun a s => { s with dimensions := some a })
        Document.readUInt8]
      NewArraysDraft.empty
      fun s => do return .newArrays (← s.descriptor) (← s.dimensions))
  | _ => Option.none

def Operand.read (levels : Nat) (d : Document) : Read Operand :=
  d.readVariant levels Operand.variant?

/-! ## Instructions, methods and classes -/

def Opcode.read (levels : Nat) (d : Document) : Read Opcode :=
  d.readVariant levels fun name => (Opcode.ofName? name).map .unit

structure InstructionDraft where
  index : Option Nat
  opcode : Option Opcode
  operand : Option Operand

def Instruction.read (levels : Nat) (d : Document) : Read Instruction :=
  d.readRecord levels
    [.plain "index" (·.index) (fun a s => { s with index := some a }) Document.readIndex,
     .nested "opcode" (·.opcode) (fun a s => { s with opcode := some a }) Opcode.read,
     .nested "operand" (·.operand) (fun a s => { s with operand := some a }) Operand.read]
    (InstructionDraft.mk none none none)
    fun s => do return ⟨← s.index, ← s.opcode, ← s.operand⟩

structure HandlerDraft where
  start : Option Nat
  stop : Option Nat
  entry : Option Nat
  catchType : Option (Option String)

def Handler.read (levels : Nat) (d : Document) : Read Handler :=
  d.readRecord levels
    [.plain "start" (·.start) (fun a s => { s with start := some a }) Document.readIndex,
     .plain "end" (·.stop) (fun a s => { s with stop := some a }) Document.readIndex,
     .plain "handler" (·.entry) (fun a s => { s with entry := some a }) Document.readIndex,
     .plain "catch_type" (·.catchType) (fun a s => { s with catchType := some a })
       (Document.readOptional Document.readString)]
    (HandlerDraft.mk none none none none)
    fun s => do return ⟨← s.start, ← s.stop, ← s.entry, s.catchType.getD none⟩

structure AccessDraft where
  bits : Option UInt16

/-- Reads access flags; bits without a meaning are kept. -/
def MethodAccess.read (levels : Nat) (d : Document) : Read MethodAccess :=
  d.readRecord levels
    [.plain "bits" (·.bits) (fun a s => { s with bits := some a }) Document.readUInt16]
    (AccessDraft.mk none)
    fun s => do return ⟨← s.bits⟩

structure MethodDraft where
  owner : Option String
  name : Option String
  descriptor : Option String
  access : Option MethodAccess
  maxLocals : Option Nat
  maxStack : Option Nat
  instructions : Option (List Instruction)
  handlers : Option (List Handler)

def Method.read (levels : Nat) (d : Document) : Read Method :=
  d.readRecord levels
    [.plain "owner" (·.owner) (fun a s => { s with owner := some a }) Document.readString,
     .plain "name" (·.name) (fun a s => { s with name := some a }) Document.readString,
     .plain "descriptor" (·.descriptor) (fun a s => { s with descriptor := some a })
       Document.readString,
     (Field.nested "access" (·.access) (fun a s => { s with access := some a })
       MethodAccess.read).orDefault,
     .plain "max_locals" (·.maxLocals) (fun a s => { s with maxLocals := some a })
       Document.readIndex,
     .plain "max_stack" (·.maxStack) (fun a s => { s with maxStack := some a })
       Document.readIndex,
     .nested "instructions" (·.instructions) (fun a s => { s with instructions := some a })
       (fun levels => Document.readList levels Instruction.read),
     (Field.nested "try_catch_blocks" (·.handlers) (fun a s => { s with handlers := some a })
       (fun levels => Document.readList levels Handler.read)).orDefault]
    (MethodDraft.mk none none none none none none none none)
    fun s => do
      return { owner := ← s.owner, name := ← s.name, descriptor := ← s.descriptor,
               access := s.access.getD ⟨0⟩, maxLocals := ← s.maxLocals,
               maxStack := ← s.maxStack, instructions := ← s.instructions,
               handlers := s.handlers.getD [] }

structure ClassDraft where
  name : Option String
  methods : Option (List Method)

def Class.read (levels : Nat) (d : Document) : Read Class :=
  d.readRecord levels
    [.plain "name" (·.name) (fun a s => { s with name := some a }) Document.readString,
     .nested "methods" (·.methods) (fun a s => { s with methods := some a })
       (fun levels => Document.readList levels Method.read)]
    (ClassDraft.mk none none)
    fun s => do return ⟨← s.name, ← s.methods⟩

/-! ## Witnesses -/

def Origin.variant? : String → Option (Variant Origin)
  | "Parameter" => some (.plain Document.readIndex .parameter)
  | "Instruction" => some (.plain Document.readIndex .instruction)
  | "Handler" => some (.plain Document.readIndex .handler)
  | _ => none

def Origin.read (levels : Nat) (d : Document) : Read Origin :=
  d.readVariant levels Origin.variant?

structure WitnessDraft where
  origin : Option Origin
  producedType : Option JType

def Witness.read (levels : Nat) (d : Document) : Read Witness :=
  d.readRecord levels
    [.nested "origin" (·.origin) (fun a s => { s with origin := some a }) Origin.read,
     .nested "produced_type" (·.producedType) (fun a s => { s with producedType := some a })
       JType.read]
    (WitnessDraft.mk none none)
    fun s => do return ⟨← s.origin, ← s.producedType⟩

end Provenance

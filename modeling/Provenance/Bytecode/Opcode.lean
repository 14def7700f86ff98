/-
The instructions of the virtual machine.

The opcodes form a closed list. Short forms are folded into the opcode they abbreviate before an
instruction reaches this library: the load of a fixed local is a load with that local as operand,
the wide forms are absorbed by the instruction they modify.

One table says everything that depends on the opcode alone: its number, its mnemonic, what it does
to the locals and the operand stack, and where control goes after it. The look-ups by number and by
name search the list of all opcodes.
-/
set_option autoImplicit false

namespace Provenance

/-- The nine instructions that only move stack entries about. -/
inductive Shuffle where
  | pop | pop2 | dup | dupX1 | dupX2 | dup2 | dup2X1 | dup2X2 | swap
deriving DecidableEq, Repr

/-- What an instruction does to the locals and the operand stack. -/
inductive Effect where
  /-- Leaves both alone. -/
  | idle
  /-- Cannot be analysed. -/
  | unsupported
  /-- Pushes a new value. -/
  | produce
  /-- Pushes the value of a local. -/
  | load
  /-- Pops a value into a local. -/
  | store
  /-- Pops an array, an index and an element. -/
  | storeElement
  /-- Moves stack entries about. -/
  | shuffle (kind : Shuffle)
  /-- Pops two values and pushes one made of them. -/
  | combine
  /-- Pops a value and pushes one made of it. -/
  | transform
  /-- Replaces the value of a local by one made of it. -/
  | increment
  /-- Pops a value. -/
  | consume
  /-- Pops two values. -/
  | consumeTwo
  /-- Pops the value that the method returns. -/
  | returnValue
  /-- Returns without a value. -/
  | returnVoid
  /-- Pops a receiver, if there is one, and arguments, and pushes the result unless it is void. -/
  | invoke
  /-- Pops the lengths of nested arrays and pushes the outermost. -/
  | newArrays
deriving DecidableEq, Repr

/-- Where control goes after an instruction, exceptions apart. -/
inductive Flow where
  /-- To the next instruction. -/
  | next
  /-- To the next instruction or to the target. -/
  | branch
  /-- To the target. -/
  | jump
  /-- To one of several targets. -/
  | switch
  /-- Out of the method, normally. -/
  | leave
  /-- Out of the method or to a handler. -/
  | raise
  /-- To an address that is not known. -/
  | unsupported
deriving DecidableEq, Repr

/-- An instruction of the virtual machine, without its operand. -/
inductive Opcode where
  | nop | aconstNull | iconstM1 | iconst0 | iconst1 | iconst2 | iconst3 | iconst4 | iconst5
  | lconst0 | lconst1 | fconst0 | fconst1 | fconst2 | dconst0 | dconst1 | bipush | sipush | ldc
  | iload | lload | fload | dload | aload | iaload | laload | faload | daload | aaload | baload
  | caload | saload | istore | lstore | fstore | dstore | astore | iastore | lastore | fastore
  | dastore | aastore | bastore | castore | sastore | pop | pop2 | dup | dupX1 | dupX2 | dup2
  | dup2X1 | dup2X2 | swap | iadd | ladd | fadd | dadd | isub | lsub | fsub | dsub | imul | lmul
  | fmul | dmul | idiv | ldiv | fdiv | ddiv | irem | lrem | frem | drem | ineg | lneg | fneg
  | dneg | ishl | lshl | ishr | lshr | iushr | lushr | iand | land | ior | lor | ixor | lxor
  | iinc | i2l | i2f | i2d | l2i | l2f | l2d | f2i | f2l | f2d | d2i | d2l | d2f | i2b | i2c
  | i2s | lcmp | fcmpl | fcmpg | dcmpl | dcmpg | ifeq | ifne | iflt | ifge | ifgt | ifle
  | ifIcmpeq | ifIcmpne | ifIcmplt | ifIcmpge | ifIcmpgt | ifIcmple | ifAcmpeq | ifAcmpne | goto
  | jsr | ret | tableswitch | lookupswitch | ireturn | lreturn | freturn | dreturn | areturn
  | returnVoid | getstatic | putstatic | getfield | putfield | invokevirtual | invokespecial
  | invokestatic | invokeinterface | invokedynamic | new | newarray | anewarray | arraylength
  | athrow | checkcast | instanceof | monitorenter | monitorexit | multianewarray | ifnull
  | ifnonnull
deriving DecidableEq, Repr, Inhabited

/-- What depends on the opcode alone. -/
structure OpcodeInfo where
  /-- The number of the opcode in a class file. -/
  code : Nat
  /-- The name in assembly text. -/
  mnemonic : String
  effect : Effect
  flow : Flow

namespace Opcode

/-- The table of opcodes. -/
def info : Opcode → OpcodeInfo
  | nop => ⟨0x00, "nop", .idle, .next⟩
  | aconstNull => ⟨0x01, "aconst_null", .produce, .next⟩
  | iconstM1 => ⟨0x02, "iconst_m1", .produce, .next⟩
  | iconst0 => ⟨0x03, "iconst_0", .produce, .next⟩
  | iconst1 => ⟨0x04, "iconst_1", .produce, .next⟩
  | iconst2 => ⟨0x05, "iconst_2", .produce, .next⟩
  | iconst3 => ⟨0x06, "iconst_3", .produce, .next⟩
  | iconst4 => ⟨0x07, "iconst_4", .produce, .next⟩
  | iconst5 => ⟨0x08, "iconst_5", .produce, .next⟩
  | lconst0 => ⟨0x09, "lconst_0", .produce, .next⟩
  | lconst1 => ⟨0x0a, "lconst_1", .produce, .next⟩
  | fconst0 => ⟨0x0b, "fconst_0", .produce, .next⟩
  | fconst1 => ⟨0x0c, "fconst_1", .produce, .next⟩
  | fconst2 => ⟨0x0d, "fconst_2", .produce, .next⟩
  | dconst0 => ⟨0x0e, "dconst_0", .produce, .next⟩
  | dconst1 => ⟨0x0f, "dconst_1", .produce, .next⟩
  | bipush => ⟨0x10, "bipush", .produce, .next⟩
  | sipush => ⟨0x11, "sipush", .produce, .next⟩
  | ldc => ⟨0x12, "ldc", .produce, .next⟩
  | iload => ⟨0x15, "iload", .load, .next⟩
  | lload => ⟨0x16, "lload", .load, .next⟩
  | fload => ⟨0x17, "fload", .load, .next⟩
  | dload => ⟨0x18, "dload", .load, .next⟩
  | aload => ⟨0x19, "aload", .load, .next⟩
  | iaload => ⟨0x2e, "iaload", .combine, .next⟩
  | laload => ⟨0x2f, "laload", .combine, .next⟩
  | faload => ⟨0x30, "faload", .combine, .next⟩
  | daload => ⟨0x31, "daload", .combine, .next⟩
  | aaload => ⟨0x32, "aaload", .combine, .next⟩
  | baload => ⟨0x33, "baload", .combine, .next⟩
  | caload => ⟨0x34, "caload", .combine, .next⟩
  | saload => ⟨0x35, "saload", .combine, .next⟩
  | istore => ⟨0x36, "istore", .store, .next⟩
  | lstore => ⟨0x37, "lstore", .store, .next⟩
  | fstore => ⟨0x38, "fstore", .store, .next⟩
  | dstore => ⟨0x39, "dstore", .store, .next⟩
  | astore => ⟨0x3a, "astore", .store, .next⟩
  | iastore => ⟨0x4f, "iastore", .storeElement, .next⟩
  | lastore => ⟨0x50, "lastore", .storeElement, .next⟩
  | fastore => ⟨0x51, "fastore", .storeElement, .next⟩
  | dastore => ⟨0x52, "dastore", .storeElement, .next⟩
  | aastore => ⟨0x53, "aastore", .storeElement, .next⟩
  | bastore => ⟨0x54, "bastore", .storeElement, .next⟩
  | castore => ⟨0x55, "castore", .storeElement, .next⟩
  | sastore => ⟨0x56, "sastore", .storeElement, .next⟩
  | pop => ⟨0x57, "pop", .shuffle .pop, .next⟩
  | pop2 => ⟨0x58, "pop2", .shuffle .pop2, .next⟩
  | dup => ⟨0x59, "dup", .shuffle .dup, .next⟩
  | dupX1 => ⟨0x5a, "dup_x1", .shuffle .dupX1, .next⟩
  | dupX2 => ⟨0x5b, "dup_x2", .shuffle .dupX2, .next⟩
  | dup2 => ⟨0x5c, "dup2", .shuffle .dup2, .next⟩
  | dup2X1 => ⟨0x5d, "dup2_x1", .shuffle .dup2X1, .next⟩
  | dup2X2 => ⟨0x5e, "dup2_x2", .shuffle .dup2X2, .next⟩
  | swap => ⟨0x5f, "swap", .shuffle .swap, .next⟩
  | iadd => ⟨0x60, "iadd", .combine, .next⟩
  | ladd => ⟨0x61, "ladd", .combine, .next⟩
  | fadd => ⟨0x62, "fadd", .combine, .next⟩
  | dadd => ⟨0x63, "dadd", .combine, .next⟩
  | isub => ⟨0x64, "isub", .combine, .next⟩
  | lsub => ⟨0x65, "lsub", .combine, .next⟩
  | fsub => ⟨0x66, "fsub", .combine, .next⟩
  | dsub => ⟨0x67, "dsub", .combine, .next⟩
  | imul => ⟨0x68, "imul", .combine, .next⟩
  | lmul => ⟨0x69, "lmul", .combine, .next⟩
  | fmul => ⟨0x6a, "fmul", .combine, .next⟩
  | dmul => ⟨0x6b, "dmul", .combine, .next⟩
  | idiv => ⟨0x6c, "idiv", .combine, .next⟩
  | ldiv => ⟨0x6d, "ldiv", .combine, .next⟩
  | fdiv => ⟨0x6e, "fdiv", .combine, .next⟩
  | ddiv => ⟨0x6f, "ddiv", .combine, .next⟩
  | irem => ⟨0x70, "irem", .combine, .next⟩
  | lrem => ⟨0x71, "lrem", .combine, .next⟩
  | frem => ⟨0x72, "frem", .combine, .next⟩
  | drem => ⟨0x73, "drem", .combine, .next⟩
  | ineg => ⟨0x74, "ineg", .transform, .next⟩
  | lneg => ⟨0x75, "lneg", .transform, .next⟩
  | fneg => ⟨0x76, "fneg", .transform, .next⟩
  | dneg => ⟨0x77, "dneg", .transform, .next⟩
  | ishl => ⟨0x78, "ishl", .combine, .next⟩
  | lshl => ⟨0x79, "lshl", .combine, .next⟩
  | ishr => ⟨0x7a, "ishr", .combine, .next⟩
  | lshr => ⟨0x7b, "lshr", .combine, .next⟩
  | iushr => ⟨0x7c, "iushr", .combine, .next⟩
  | lushr => ⟨0x7d, "lushr", .combine, .next⟩
  | iand => ⟨0x7e, "iand", .combine, .next⟩
  | land => ⟨0x7f, "land", .combine, .next⟩
  | ior => ⟨0x80, "ior", .combine, .next⟩
  | lor => ⟨0x81, "lor", .combine, .next⟩
  | ixor => ⟨0x82, "ixor", .combine, .next⟩
  | lxor => ⟨0x83, "lxor", .combine, .next⟩
  | iinc => ⟨0x84, "iinc", .increment, .next⟩
  | i2l => ⟨0x85, "i2l", .transform, .next⟩
  | i2f => ⟨0x86, "i2f", .transform, .next⟩
  | i2d => ⟨0x87, "i2d", .transform, .next⟩
  | l2i => ⟨0x88, "l2i", .transform, .next⟩
  | l2f => ⟨0x89, "l2f", .transform, .next⟩
  | l2d => ⟨0x8a, "l2d", .transform, .next⟩
  | f2i => ⟨0x8b, "f2i", .transform, .next⟩
  | f2l => ⟨0x8c, "f2l", .transform, .next⟩
  | f2d => ⟨0x8d, "f2d", .transform, .next⟩
  | d2i => ⟨0x8e, "d2i", .transform, .next⟩
  | d2l => ⟨0x8f, "d2l", .transform, .next⟩
  | d2f => ⟨0x90, "d2f", .transform, .next⟩
  | i2b => ⟨0x91, "i2b", .transform, .next⟩
  | i2c => ⟨0x92, "i2c", .transform, .next⟩
  | i2s => ⟨0x93, "i2s", .transform, .next⟩
  | lcmp => ⟨0x94, "lcmp", .combine, .next⟩
  | fcmpl => ⟨0x95, "fcmpl", .combine, .next⟩
  | fcmpg => ⟨0x96, "fcmpg", .combine, .next⟩
  | dcmpl => ⟨0x97, "dcmpl", .combine, .next⟩
  | dcmpg => ⟨0x98, "dcmpg", .combine, .next⟩
  | ifeq => ⟨0x99, "ifeq", .consume, .branch⟩
  | ifne => ⟨0x9a, "ifne", .consume, .branch⟩
  | iflt => ⟨0x9b, "iflt", .consume, .branch⟩
  | ifge => ⟨0x9c, "ifge", .consume, .branch⟩
  | ifgt => ⟨0x9d, "ifgt", .consume, .branch⟩
  | ifle => ⟨0x9e, "ifle", .consume, .branch⟩
  | ifIcmpeq => ⟨0x9f, "if_icmpeq", .consumeTwo, .branch⟩
  | ifIcmpne => ⟨0xa0, "if_icmpne", .consumeTwo, .branch⟩
  | ifIcmplt => ⟨0xa1, "if_icmplt", .consumeTwo, .branch⟩
  | ifIcmpge => ⟨0xa2, "if_icmpge", .consumeTwo, .branch⟩
  | ifIcmpgt => ⟨0xa3, "if_icmpgt", .consumeTwo, .branch⟩
  | ifIcmple => ⟨0xa4, "if_icmple", .consumeTwo, .branch⟩
  | ifAcmpeq => ⟨0xa5, "if_acmpeq", .consumeTwo, .branch⟩
  | ifAcmpne => ⟨0xa6, "if_acmpne", .consumeTwo, .branch⟩
  | goto => ⟨0xa7, "goto", .idle, .jump⟩
  | jsr => ⟨0xa8, "jsr", .produce, .jump⟩
  | ret => ⟨0xa9, "ret", .unsupported, .unsupported⟩
  | tableswitch => ⟨0xaa, "tableswitch", .consume, .switch⟩
  | lookupswitch => ⟨0xab, "lookupswitch", .consume, .switch⟩
  | ireturn => ⟨0xac, "ireturn", .returnValue, .leave⟩
  | lreturn => ⟨0xad, "lreturn", .returnValue, .leave⟩
  | freturn => ⟨0xae, "freturn", .returnValue, .leave⟩
  | dreturn => ⟨0xaf, "dreturn", .returnValue, .leave⟩
  | areturn => ⟨0xb0, "areturn", .returnValue, .leave⟩
  | returnVoid => ⟨0xb1, "return", .returnVoid, .leave⟩
  | getstatic => ⟨0xb2, "getstatic", .produce, .next⟩
  | putstatic => ⟨0xb3, "putstatic", .consume, .next⟩
  | getfield => ⟨0xb4, "getfield", .transform, .next⟩
  | putfield => ⟨0xb5, "putfield", .consumeTwo, .next⟩
  | invokevirtual => ⟨0xb6, "invokevirtual", .invoke, .next⟩
  | invokespecial => ⟨0xb7, "invokespecial", .invoke, .next⟩
  | invokestatic => ⟨0xb8, "invokestatic", .invoke, .next⟩
  | invokeinterface => ⟨0xb9, "invokeinterface", .invoke, .next⟩
  | invokedynamic => ⟨0xba, "invokedynamic", .invoke, .next⟩
  | new => ⟨0xbb, "new", .produce, .next⟩
  | newarray => ⟨0xbc, "newarray", .transform, .next⟩
  | anewarray => ⟨0xbd, "anewarray", .transform, .next⟩
  | arraylength => ⟨0xbe, "arraylength", .transform, .next⟩
  | athrow => ⟨0xbf, "athrow", .consume, .raise⟩
  | checkcast => ⟨0xc0, "checkcast", .transform, .next⟩
  | instanceof => ⟨0xc1, "instanceof", .transform, .next⟩
  | monitorenter => ⟨0xc2, "monitorenter", .consume, .next⟩
  | monitorexit => ⟨0xc3, "monitorexit", .consume, .next⟩
  | multianewarray => ⟨0xc5, "multianewarray", .newArrays, .next⟩
  | ifnull => ⟨0xc6, "ifnull", .consume, .branch⟩
  | ifnonnull => ⟨0xc7, "ifnonnull", .consume, .branch⟩

/-- Every opcode, by number. -/
def all : List Opcode :=
  [.nop, .aconstNull, .iconstM1, .iconst0, .iconst1, .iconst2, .iconst3, .iconst4, .iconst5,
   .lconst0, .lconst1, .fconst0, .fconst1, .fconst2, .dconst0, .dconst1, .bipush, .sipush, .ldc,
   .iload, .lload, .fload, .dload, .aload, .iaload, .laload, .faload, .daload, .aaload, .baload,
   .caload, .saload, .istore, .lstore, .fstore, .dstore, .astore, .iastore, .lastore, .fastore,
   .dastore, .aastore, .bastore, .castore, .sastore, .pop, .pop2, .dup, .dupX1, .dupX2, .dup2,
   .dup2X1, .dup2X2, .swap, .iadd, .ladd, .fadd, .dadd, .isub, .lsub, .fsub, .dsub, .imul, .lmul,
   .fmul, .dmul, .idiv, .ldiv, .fdiv, .ddiv, .irem, .lrem, .frem, .drem, .ineg, .lneg, .fneg,
   .dneg, .ishl, .lshl, .ishr, .lshr, .iushr, .lushr, .iand, .land, .ior, .lor, .ixor, .lxor,
   .iinc, .i2l, .i2f, .i2d, .l2i, .l2f, .l2d, .f2i, .f2l, .f2d, .d2i, .d2l, .d2f, .i2b, .i2c,
   .i2s, .lcmp, .fcmpl, .fcmpg, .dcmpl, .dcmpg, .ifeq, .ifne, .iflt, .ifge, .ifgt, .ifle,
   .ifIcmpeq, .ifIcmpne, .ifIcmplt, .ifIcmpge, .ifIcmpgt, .ifIcmple, .ifAcmpeq, .ifAcmpne, .goto,
   .jsr, .ret, .tableswitch, .lookupswitch, .ireturn, .lreturn, .freturn, .dreturn, .areturn,
   .returnVoid, .getstatic, .putstatic, .getfield, .putfield, .invokevirtual, .invokespecial,
   .invokestatic, .invokeinterface, .invokedynamic, .new, .newarray, .anewarray, .arraylength,
   .athrow, .checkcast, .instanceof, .monitorenter, .monitorexit, .multianewarray, .ifnull,
   .ifnonnull]

def code (op : Opcode) : Nat := op.info.code

def mnemonic (op : Opcode) : String := op.info.mnemonic

def effect (op : Opcode) : Effect := op.info.effect

def flow (op : Opcode) : Flow := op.info.flow

/-- Joins the words between underscores, each with a capital. -/
def capitalizeWords (startsWord : Bool) : List Char → List Char
  | [] => []
  | '_' :: rest => capitalizeWords true rest
  | c :: rest => (if startsWord then c.toUpper else c) :: capitalizeWords false rest

/-- The name in a class written as JSON: the words of the mnemonic, each with a capital. -/
def name (op : Opcode) : String := String.ofList (capitalizeWords true op.mnemonic.toList)

/-- The opcode with a number. -/
def ofCode? (code : Nat) : Option Opcode := all.find? fun op => op.code == code

/-- The opcode with a name. -/
def ofName? (name : String) : Option Opcode := all.find? fun op => op.name == name

/-- Whether the instruction moves the top of the stack into a local. -/
def isStore (op : Opcode) : Bool := op.effect = .store

/-- Whether the instruction leaves the method normally. -/
def isReturn (op : Opcode) : Bool := op.flow = .leave

/-- Whether the instruction may branch and may also go on to the next one. -/
def isConditionalBranch (op : Opcode) : Bool := op.flow = .branch

/-- Whether the instruction invokes a method on a receiver. -/
def hasReceiver : Opcode → Bool
  | invokevirtual | invokespecial | invokeinterface => true
  | _ => false

theorem mem_all (op : Opcode) : op ∈ all := by cases op <;> decide

end Opcode

end Provenance

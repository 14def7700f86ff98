/-
The type of the value that an instruction produces.

Instructions are grouped by how many values they are given: none, one, two, three, or as many as
their operand says. For each group there is one function. It answers the type of the produced value,
or none for an instruction of the group that produces no value, and it refuses the instructions of
the other groups.
-/
import Provenance.Bytecode.Descriptor

set_option autoImplicit false

namespace Provenance

/-- The type of a constant when it is loaded. -/
def Constant.loadedType (c : Constant) : Except AnalysisError JType :=
  match c with
  | .int _ => .ok .int
  | .long _ => .ok .long
  | .float _ => .ok .float
  | .double _ => .ok .double
  | .string _ => .ok (.object "java/lang/String")
  | .type (.object _) | .type (.array _) => .ok (.object "java/lang/Class")
  | .type (.method ..) => .ok (.object "java/lang/invoke/MethodType")
  | .type _ => .error (.illegalConstant c)
  | .methodHandle .. => .ok (.object "java/lang/invoke/MethodHandle")
  | .dynamic .. => .error (.illegalConstant c)

/-- The type of an array of primitives, by the code of its elements. -/
def JType.primitiveArray (code : Int) : Except AnalysisError JType :=
  match code with
  | 4 => .ok (.array .boolean)
  | 5 => .ok (.array .char)
  | 6 => .ok (.array .float)
  | 7 => .ok (.array .double)
  | 8 => .ok (.array .byte)
  | 9 => .ok (.array .short)
  | 10 => .ok (.array .int)
  | 11 => .ok (.array .long)
  | _ => .error (.illegalArrayType code)

namespace Instruction

/-- The refusal of an instruction. -/
def refuse {α : Type} (i : Instruction) : Except AnalysisError α :=
  .error (.unsupportedInstruction i)

/-- The type that a type operand names. -/
def namedType (i : Instruction) : Except AnalysisError JType :=
  match i.operand with
  | .type name => Descriptor.parseInternalName name
  | _ => i.refuse

/-- The type of the field that an operand names. -/
def fieldType (i : Instruction) : Except AnalysisError JType :=
  match i.operand.fieldDescriptor? with
  | some descriptor => Descriptor.parse descriptor
  | none => i.refuse

/-- What an instruction produces from nothing. -/
def producedFromNone (i : Instruction) : Except AnalysisError (Option JType) :=
  match i.opcode with
  | .aconstNull => .ok (some .null)
  | .iconstM1 | .iconst0 | .iconst1 | .iconst2 | .iconst3 | .iconst4 | .iconst5
  | .bipush | .sipush => .ok (some .int)
  | .lconst0 | .lconst1 => .ok (some .long)
  | .fconst0 | .fconst1 | .fconst2 => .ok (some .float)
  | .dconst0 | .dconst1 => .ok (some .double)
  | .ldc =>
    match i.operand with
    | .constant c => c.loadedType.map some
    | _ => i.refuse
  | .jsr => .ok (some .returnAddress)
  | .getstatic => i.fieldType.map some
  | .new => i.namedType.map some
  | _ => i.refuse

/-- What an instruction produces from one value. -/
def producedFromOne (i : Instruction) : Except AnalysisError (Option JType) :=
  match i.opcode with
  | .ineg | .iinc | .l2i | .f2i | .d2i | .i2b | .i2c | .i2s | .arraylength | .instanceof =>
    .ok (some .int)
  | .fneg | .i2f | .l2f | .d2f => .ok (some .float)
  | .lneg | .i2l | .f2l | .d2l => .ok (some .long)
  | .dneg | .i2d | .l2d | .f2d => .ok (some .double)
  | .getfield => i.fieldType.map some
  | .newarray =>
    match i.operand with
    | .int code => (JType.primitiveArray code.toInt).map some
    | _ => i.refuse
  | .anewarray => i.namedType.map fun t => some (.array t)
  | .checkcast => i.namedType.map some
  | .ifeq | .ifne | .iflt | .ifge | .ifgt | .ifle | .ifnull | .ifnonnull
  | .tableswitch | .lookupswitch | .ireturn | .lreturn | .freturn | .dreturn | .areturn
  | .putstatic | .athrow | .monitorenter | .monitorexit => .ok none
  | _ => i.refuse

/-- What an instruction produces from two values. The elements of an array of references are only
known to be objects. -/
def producedFromTwo (i : Instruction) : Except AnalysisError (Option JType) :=
  match i.opcode with
  | .iaload | .baload | .caload | .saload | .iadd | .isub | .imul | .idiv | .irem | .ishl
  | .ishr | .iushr | .iand | .ior | .ixor | .lcmp | .fcmpl | .fcmpg | .dcmpl | .dcmpg =>
    .ok (some .int)
  | .faload | .fadd | .fsub | .fmul | .fdiv | .frem => .ok (some .float)
  | .laload | .ladd | .lsub | .lmul | .ldiv | .lrem | .lshl | .lshr | .lushr | .land | .lor
  | .lxor => .ok (some .long)
  | .daload | .dadd | .dsub | .dmul | .ddiv | .drem => .ok (some .double)
  | .aaload => .ok (some (.object "java/lang/Object"))
  | .ifIcmpeq | .ifIcmpne | .ifIcmplt | .ifIcmpge | .ifIcmpgt | .ifIcmple | .ifAcmpeq
  | .ifAcmpne | .putfield => .ok none
  | _ => i.refuse

/-- What an instruction produces from three values: stores into arrays produce nothing. -/
def producedFromThree (i : Instruction) : Except AnalysisError (Option JType) :=
  match i.opcode with
  | .iastore | .lastore | .fastore | .dastore | .aastore | .bastore | .castore | .sastore =>
    .ok none
  | _ => i.refuse

/-- What an instruction produces from as many values as its operand says: an invocation its result
unless it is void, a creation of nested arrays the outermost. -/
def producedFromMany (i : Instruction) : Except AnalysisError (Option JType) :=
  match i.opcode with
  | .multianewarray =>
    match i.operand with
    | .newArrays descriptor _ => (Descriptor.parse descriptor).map some
    | _ => i.refuse
  | .invokevirtual | .invokespecial | .invokestatic | .invokeinterface | .invokedynamic => do
    match (← i.methodType).result? with
    | some .void => return none
    | some t => return some t
    | none => i.refuse
  | _ => i.refuse

end Instruction

end Provenance

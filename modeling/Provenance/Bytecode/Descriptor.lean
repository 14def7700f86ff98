/-
Descriptors: types as text.

A field descriptor is a letter for a primitive, a class name between `L` and `;`, or `[` before
another field descriptor. A method descriptor is field descriptors between parentheses, and behind
them the result, which may also be void. Reading a field descriptor takes as much of a text as
belongs to it and leaves the rest.

When a text is refused, the error shows the part at which a descriptor had to begin, or the whole
text if something is left over behind a descriptor or the parentheses do not close.
-/
import Provenance.Error

set_option autoImplicit false

namespace Provenance.Descriptor

/-- The refusal of a part of a text. -/
def refuse {α : Type} (part : List Char) : Except AnalysisError α :=
  .error (.invalidDescriptor (String.ofList part))

/-- The primitive that a letter stands for. -/
def primitive? : Char → Option JType
  | 'Z' => some .boolean
  | 'C' => some .char
  | 'B' => some .byte
  | 'S' => some .short
  | 'I' => some .int
  | 'F' => some .float
  | 'J' => some .long
  | 'D' => some .double
  | _ => none

/-- Splits a text at the first semicolon: what is before it, and what is behind. -/
def splitAtSemicolon : List Char → Option (List Char × List Char)
  | [] => none
  | ';' :: rest => some ([], rest)
  | c :: rest => (splitAtSemicolon rest).map fun p => (c :: p.1, p.2)

theorem splitAtSemicolon_length {text name rest : List Char}
    (h : splitAtSemicolon text = some (name, rest)) : rest.length < text.length := by
  fun_induction splitAtSemicolon text generalizing name rest with
  | case1 => simp at h
  | case2 rest' =>
    obtain ⟨-, rfl⟩ := Prod.mk.inj (Option.some.inj h)
    exact Nat.lt_succ_self _
  | case3 c rest' _ ih =>
    obtain ⟨p, hp, e⟩ := Option.map_eq_some_iff.1 h
    obtain ⟨-, rfl⟩ := Prod.mk.inj e
    exact Nat.lt_succ_of_lt (ih hp)

/-- Reads a field descriptor at the beginning of a text. -/
def readField : List Char → Except AnalysisError (JType × List Char)
  | [] => refuse []
  | 'L' :: rest =>
    match splitAtSemicolon rest with
    | none | some ([], _) => refuse ('L' :: rest)
    | some (name, behind) => .ok (.object (String.ofList name), behind)
  | '[' :: rest => do
    let (element, behind) ← readField rest
    return (.array element, behind)
  | c :: rest =>
    match primitive? c with
    | some t => .ok (t, rest)
    | none => refuse (c :: rest)

/-- A field descriptor takes at least one character. -/
theorem readField_length {text rest : List Char} {t : JType}
    (h : readField text = .ok (t, rest)) : rest.length < text.length := by
  fun_induction readField text generalizing t rest with
  | case1 => cases h
  | case2 => cases h
  | case3 => cases h
  | case4 rest' name behind _ hs =>
    obtain ⟨-, rfl⟩ := Prod.mk.inj (Except.ok.inj h)
    exact Nat.lt_succ_of_lt (splitAtSemicolon_length hs)
  | case5 rest' ih =>
    cases hr : readField rest' with
    | error e => rw [hr] at h; cases h
    | ok p =>
      rw [hr] at h
      obtain ⟨-, rfl⟩ := Prod.mk.inj (Except.ok.inj h)
      exact Nat.lt_succ_of_lt (ih hr)
  | case6 =>
    obtain ⟨-, rfl⟩ := Prod.mk.inj (Except.ok.inj h)
    exact Nat.lt_succ_self _
  | case7 => cases h

/-- Reads field descriptors up to the closing parenthesis, and leaves what is behind it. The whole
text is the one refused if there is no closing parenthesis. -/
def readArguments (whole : List Char) : List Char →
    Except AnalysisError (List JType × List Char)
  | [] => refuse whole
  | ')' :: rest => .ok ([], rest)
  | c :: rest =>
    match h : readField (c :: rest) with
    | .error e => .error e
    | .ok (t, behind) =>
      have : behind.length < (c :: rest).length := readField_length h
      match readArguments whole behind with
      | .error e => .error e
      | .ok (arguments, behind) => .ok (t :: arguments, behind)
termination_by text => text.length
decreasing_by exact this

/-- Reads the result of a method, which takes up the rest of the text. -/
def readResult (whole : List Char) (text : List Char) : Except AnalysisError JType :=
  if text = ['V'] then .ok .void
  else
    match readField text with
    | .error e => .error e
    | .ok (t, []) => .ok t
    | .ok (_, _ :: _) => refuse whole

/-- Reads a method descriptor. -/
def readMethod (text : List Char) : Except AnalysisError JType :=
  match text with
  | '(' :: rest =>
    match readArguments text rest with
    | .error e => .error e
    | .ok (arguments, behind) =>
      match readResult text behind with
      | .error e => .error e
      | .ok result => .ok (.method arguments result)
  | _ => refuse text

/-- Reads a field or method descriptor. -/
def read (text : List Char) : Except AnalysisError JType :=
  match text with
  | '(' :: _ => readMethod text
  | _ =>
    match readField text with
    | .error e => .error e
    | .ok (t, []) => .ok t
    | .ok (_, _ :: _) => refuse text

/-- The type that a field or method descriptor names. -/
def parse (text : String) : Except AnalysisError JType := read text.toList

/-- The type that a method descriptor names. -/
def parseMethod (text : String) : Except AnalysisError JType := readMethod text.toList

/-- The type that the operand of a type instruction names: an array by its descriptor, a class by
its internal name. -/
def parseInternalName (name : String) : Except AnalysisError JType :=
  match name.toList with
  | [] => refuse []
  | '[' :: _ => parse name
  | _ => .ok (.object name)

end Provenance.Descriptor

namespace Provenance

/-! ## Descriptors of methods and invocations -/

namespace Method

/-- The type of a method. -/
def type (m : Method) : Except AnalysisError JType := Descriptor.parseMethod m.descriptor

/-- The types of the declared arguments, the receiver not among them. -/
def argumentTypes (m : Method) : Except AnalysisError (List JType) := do
  return ((← m.type).arguments?).getD []

/-- The type of the result. -/
def returnType (m : Method) : Except AnalysisError JType := do
  return ((← m.type).result?).getD .void

end Method

namespace Instruction

/-- The type of the method that an instruction invokes. -/
def methodType (i : Instruction) : Except AnalysisError JType :=
  match i.operand.methodDescriptor? with
  | some descriptor => Descriptor.parseMethod descriptor
  | none => .error (.unsupportedInstruction i)

/-- How many arguments an invocation takes, the receiver not among them. -/
def argumentCount (i : Instruction) : Except AnalysisError Nat := do
  return ((← i.methodType).arguments?.getD []).length

end Instruction

end Provenance

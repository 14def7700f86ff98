/-
Reading documents as values of given kinds.

A reader walks a document in the order of its text and stops at the first problem. Besides the
problems of the text there is one of its own: something else than was asked for. How deep lists and
objects may nest is limited; a reader is told how many levels are left, and values that nobody asks
for are passed over without that limit.

Records are objects with named fields in any order, or arrays of the fields in their order. Unknown
fields are passed over, a field given twice is unexpected, and so is the end of a record that lacks
a field. Variants are texts, or objects with a single member that is named for the variant and holds
its content.
-/
import Provenance.Json.Document

set_option autoImplicit false

namespace Provenance

open Json (Problem Ending)

/-- What reading a part of a document gives. -/
abbrev Read (α : Type) := Except Problem α

/-- How many levels of lists and objects may nest. -/
def Json.maxLevels : Nat := 127

namespace Json.Ending

/-- What a reader meets at the end of a list that it wants to read on. -/
def problem? : Ending → Option Problem
  | closed => none
  | missing | missingAfterComma => some .truncated
  | broken => some .malformed

/-- What a reader meets that expects the closing bracket. -/
def close : Ending → Read Unit
  | closed => .ok ()
  | missing => .error .truncated
  | missingAfterComma | broken => .error .malformed

end Json.Ending

/-! ## Passing over -/

mutual

/-- Passes over a value. -/
def Document.skip : Document → Read Unit
  | .absent => .error .truncated
  | .invalid problem => .error problem
  | .null | .bool _ => .ok ()
  | .number _ skipped | .string _ skipped => skipped
  | .array items => items.skip
  | .object members => members.skip

def Items.skip : Items → Read Unit
  | .stop ending =>
    match ending.problem? with
    | none => .ok ()
    | some problem => .error problem
  | .item value rest => do
    value.skip
    rest.skip

def Members.skip : Members → Read Unit
  | .stop ending =>
    match ending.problem? with
    | none => .ok ()
    | some problem => .error problem
  | .member key value rest =>
    match key with
    | .string _ skipped => do
      skipped
      value.skip
      rest.skip
    | _ => .error .malformed

end

namespace Document

/-! ## Plain values -/

/-- The problem of a value that is not of the kind asked for. A number or a text has its own
problems first. -/
def mismatch : Document → Problem
  | absent => .truncated
  | invalid problem => problem
  | number (.error problem) _ => problem
  | string (.error problem) _ => problem
  | _ => .unexpected

def readString : Document → Read String
  | string value _ => value
  | d => .error d.mismatch

def readBool : Document → Read Bool
  | bool value => .ok value
  | d => .error d.mismatch

def readNull : Document → Read Unit
  | null => .ok ()
  | d => .error d.mismatch

/-- An integer between two bounds. -/
def readInt (least greatest : Int) : Document → Read Int
  | number (.ok (.integer i)) _ =>
    if least ≤ i ∧ i ≤ greatest then .ok i else .error .unexpected
  | d => .error d.mismatch

/-- How many numbers so many bits tell apart. -/
def wordCount (bits : Nat) : Int := Int.ofNat (Nat.pow 2 bits)

/-- A natural number of at most so many bits. -/
def readNat (bits : Nat) (d : Document) : Read Nat :=
  (d.readInt 0 (wordCount bits - 1)).map Int.toNat

/-- A signed integer of so many bits. -/
def readSigned (bits : Nat) (d : Document) : Read Int :=
  d.readInt (-wordCount (bits - 1)) (wordCount (bits - 1) - 1)

/-- A number of a binary format; integers count as well. -/
def readBinary (f : Number.BinaryFormat) : Document → Read (Number.Binary f)
  | number (.ok (.integer i)) _ => .ok (Number.Binary.ofInt f i)
  | number (.ok (.real x)) _ => .ok (x.convert f)
  | d => .error d.mismatch

/-- A value, or null for none. -/
def readOptional {α : Type} (read : Document → Read α) : Document → Read (Option α)
  | null => .ok none
  | d => (read d).map some

/-! ## Lists and maps -/

/-- Goes one level down. -/
def descend {α : Type} (levels : Nat) (read : Nat → Read α) : Read α :=
  match levels with
  | 0 => .error .malformed
  | levels + 1 => read levels

end Document

/-- Reads every item. -/
def Items.readAll {α : Type} (read : Document → Read α) : Items → Read (List α)
  | .stop ending =>
    match ending.problem? with
    | none => .ok []
    | some problem => .error problem
  | .item value rest => do
    let a ← read value
    let l ← rest.readAll read
    return a :: l

/-- Reads every member, with its name. -/
def Members.readAll {α : Type} (read : Document → Read α) : Members → Read (List (String × α))
  | .stop ending =>
    match ending.problem? with
    | none => .ok []
    | some problem => .error problem
  | .member key value rest => do
    let name ← match key with
      | .string name _ => name
      | _ => .error .malformed
    let a ← read value
    let l ← rest.readAll read
    return (name, a) :: l

namespace Document

/-- A list, of which every item is read alike. -/
def readList {α : Type} (levels : Nat) (read : Nat → Document → Read α) :
    Document → Read (List α)
  | array items => descend levels fun levels => items.readAll (read levels)
  | d => .error d.mismatch

/-- An object with names for keys, of which every value is read alike. -/
def readEntries {α : Type} (levels : Nat) (read : Nat → Document → Read α) :
    Document → Read (List (String × α))
  | object members => descend levels fun levels => members.readAll (read levels)
  | d => .error d.mismatch

end Document

/-! ## Records -/

/-- A field of a record: how to read it into a draft of the record. -/
structure Field (σ : Type) where
  name : String
  /-- Whether the draft has the field already. -/
  isSet : σ → Bool
  /-- Reads the field into the draft, so many levels being left. -/
  read : Nat → Document → σ → Read σ
  /-- Whether a record written as an array may end before the field. -/
  mayBeCut : Bool

/-- Reads the fields of a record by their names. -/
def Members.readFields {σ : Type} (fields : List (Field σ)) (levels : Nat) :
    Members → σ → Read σ
  | .stop ending, draft =>
    match ending.problem? with
    | none => .ok draft
    | some problem => .error problem
  | .member key value rest, draft =>
    match key with
    | .string (.error problem) _ => .error problem
    | .string (.ok name) _ =>
      match fields.find? fun field => field.name == name with
      | none => do
        value.skip
        rest.readFields fields levels draft
      | some field =>
        if field.isSet draft then .error .unexpected
        else do
          let draft ← field.read levels value draft
          rest.readFields fields levels draft
    | _ => .error .malformed

/-- Reads the fields of a record in their order. -/
def Items.readFields {σ : Type} (levels : Nat) : List (Field σ) → Items → σ → Read σ
  | [], .stop ending, draft => ending.close.map fun _ => draft
  | [], .item _ _, _ => .error .malformed
  | field :: fields, .stop ending, draft =>
    match ending.problem? with
    | some problem => .error problem
    | none =>
      if field.mayBeCut then Items.readFields levels fields (.stop ending) draft
      else .error .unexpected
  | field :: fields, .item value rest, draft => do
    let draft ← field.read levels value draft
    rest.readFields levels fields draft

/-- Reads a record: its fields into a draft, and the draft into the record. -/
def Document.readRecord {σ α : Type} (levels : Nat) (fields : List (Field σ)) (empty : σ)
    (finish : σ → Option α) (d : Document) : Read α := do
  let draft ← match d with
    | .array items => descend levels fun levels => items.readFields levels fields empty
    | .object members => descend levels fun levels => members.readFields fields levels empty
    | d => .error d.mismatch
  match finish draft with
  | some a => .ok a
  | none => .error .unexpected

/-! ## Variants -/

/-- A variant: whether it stands alone, or what it holds. -/
inductive Variant (α : Type) where
  | unit (value : α)
  | holding (read : Nat → Document → Read α)

/-- Reads one of several variants. A key that is no text is malformed, whatever else it is. -/
def Document.readVariant {α : Type} (levels : Nat) (variant? : String → Option (Variant α)) :
    Document → Read α
  | .string value _ => do
    match variant? (← value) with
    | some (.unit a) => .ok a
    | _ => .error .unexpected
  | .object members =>
    descend levels fun levels =>
      match members with
      | .stop .closed => .error .malformed
      | .stop ending => ending.close.bind fun _ => .error .malformed
      | .member key value rest => do
        let name ← match key with
          | .string name _ => name
          | _ => .error .malformed
        match variant? name with
        | none => .error .unexpected
        | some variant =>
          let a ← match variant with
            | .unit a => value.readNull.map fun _ => a
            | .holding read => read levels value
          match rest with
          | .stop ending => ending.close.map fun _ => a
          | .member .. => .error .malformed
  | .absent => .error .truncated
  | _ => .error .malformed

namespace Json

/-- Reads a whole text, behind which nothing may follow. -/
def readText {α : Type} (read : Nat → Document → Read α) (text : String) : Read α := do
  let source := readSource text
  let a ← read maxLevels source.document
  if source.endsThere then .ok a else .error .malformed

end Json

end Provenance

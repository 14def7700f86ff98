/-
JSON texts, as far as they can be read.

Reading a text for a purpose stops at the first problem, and which problem comes first depends on
the purpose: a number that is too large matters where a number is asked for, and not where the
value is passed over. So a text is read once, without a purpose, into a document. A document is a
tree that ends where the text stops being JSON and says there how it ends. Whoever walks it in
reading order meets the problems of the text in their order, together with its own.

The file holds documents and the reading of a text. Nothing here looks at what a document means.
-/
import Provenance.Number.Literal

set_option autoImplicit false

namespace Provenance

namespace Json

/-- Why a text cannot be read as asked. -/
inductive Problem where
  /-- It is not JSON. -/
  | malformed
  /-- It ends too early. -/
  | truncated
  /-- It is JSON and holds something else than was asked for. -/
  | unexpected
deriving DecidableEq, Repr

/-- How a list of items or members ends. -/
inductive Ending where
  /-- With its closing bracket. -/
  | closed
  /-- The text ends where a comma or the closing bracket should be. -/
  | missing
  /-- The text ends behind a comma. -/
  | missingAfterComma
  /-- With a character that cannot stand there. -/
  | broken
deriving DecidableEq, Repr

end Json

open Json (Problem Ending)

mutual

/-- A JSON text as far as it can be read. -/
inductive Document where
  /-- The text ends before the value. -/
  | absent
  /-- The text has something here that is no value. -/
  | invalid (problem : Problem)
  | null
  | bool (value : Bool)
  /-- A number: its value if it is asked for, and whether it can be passed over. -/
  | number (value : Except Problem Number.Value) (skipped : Except Problem Unit)
  /-- A text in quotes: what it says if it is asked for, and whether it can be passed over. -/
  | string (value : Except Problem String) (skipped : Except Problem Unit)
  | array (items : Items)
  | object (members : Members)

/-- The items of an array. -/
inductive Items where
  | stop (ending : Ending)
  | item (value : Document) (rest : Items)

/-- The members of an object. A key that is no text is the last. -/
inductive Members where
  | stop (ending : Ending)
  | member (key value : Document) (rest : Members)

end

instance : Inhabited Document := ⟨.absent⟩

namespace Json

/-! ## Texts in quotes -/

/-- A character of a text in quotes, or a UTF-16 unit given by its number. -/
inductive Piece where
  | char (c : Char)
  | unit (n : Nat)

/-- The value of a hexadecimal digit. -/
def hexValue? (c : Char) : Option Nat :=
  if '0' ≤ c ∧ c ≤ '9' then some (c.toNat - '0'.toNat)
  else if 'a' ≤ c ∧ c ≤ 'f' then some (c.toNat - 'a'.toNat + 10)
  else if 'A' ≤ c ∧ c ≤ 'F' then some (c.toNat - 'A'.toNat + 10)
  else none

/-- The number that four hexadecimal digits give. -/
def hexUnit? (a b c d : Char) : Option Nat := do
  return (((← hexValue? a) * 16 + (← hexValue? b)) * 16 + (← hexValue? c)) * 16 + (← hexValue? d)

/-- How many bytes a text takes. -/
def byteSize (cs : List Char) : Nat := cs.foldr (fun c size => c.utf8Size + size) 0

/-- What stands for a character behind a backslash. -/
def escape? : Char → Option Char
  | '"' => some '"'
  | '\\' => some '\\'
  | '/' => some '/'
  | 'b' => some (Char.ofNat 0x08)
  | 'f' => some (Char.ofNat 0x0C)
  | 'n' => some '\n'
  | 'r' => some '\r'
  | 't' => some '\t'
  | _ => none

/-- Reads a text up to its closing quote: its pieces, and what is behind the quote. -/
def readPieces : List Char → List Piece × Except Problem (List Char)
  | [] => ([], .error .truncated)
  | '"' :: rest => ([], .ok rest)
  | '\\' :: 'u' :: a :: b :: c :: d :: rest =>
    match hexUnit? a b c d with
    | some n =>
      let (pieces, behind) := readPieces rest
      (.unit n :: pieces, behind)
    | none => ([], .error .malformed)
  | '\\' :: 'u' :: rest =>
    ([], .error (if byteSize rest < 4 then .truncated else .malformed))
  | '\\' :: c :: rest =>
    match escape? c with
    | some e =>
      let (pieces, behind) := readPieces rest
      (.char e :: pieces, behind)
    | none => ([], .error .malformed)
  | ['\\'] => ([], .error .truncated)
  | c :: rest =>
    if c.toNat < 0x20 then ([], .error .malformed)
    else
      let (pieces, behind) := readPieces rest
      (.char c :: pieces, behind)

def isHighSurrogate (n : Nat) : Bool := 0xD800 ≤ n && n ≤ 0xDBFF

def isLowSurrogate (n : Nat) : Bool := 0xDC00 ≤ n && n ≤ 0xDFFF

/-- The character that a pair of surrogates stands for. -/
def ofSurrogates (high low : Nat) : Char :=
  Char.ofNat (0x10000 + (high - 0xD800) * 0x400 + (low - 0xDC00))

/-- The characters that pieces stand for. A high surrogate must have a low one behind it, and a low
one a high one before it. The text behind the pieces is where its own problem is met. -/
def decodePieces (behind : Except Problem Unit) : List Piece → Except Problem (List Char)
  | [] => behind.map fun _ => []
  | .char c :: rest => (decodePieces behind rest).map (c :: ·)
  | .unit n :: rest =>
    if isLowSurrogate n then .error .malformed
    else if isHighSurrogate n then
      match rest with
      | .unit m :: rest =>
        if isLowSurrogate m then (decodePieces behind rest).map (ofSurrogates n m :: ·)
        else .error .malformed
      | .char _ :: _ => .error .malformed
      | [] =>
        match behind with
        | .ok _ => .error .malformed
        | .error problem => .error problem
    else (decodePieces behind rest).map (Char.ofNat n :: ·)

/-! ## Numbers -/

def isDigit (c : Char) : Bool := '0' ≤ c && c ≤ '9'

def digitValue (c : Char) : Nat := c.toNat - '0'.toNat

/-- The digits at the beginning of a text, and the rest. -/
def spanDigits : List Char → List Nat × List Char
  | [] => ([], [])
  | c :: rest =>
    if isDigit c then
      let (digits, behind) := spanDigits rest
      (digitValue c :: digits, behind)
    else ([], c :: rest)

/-- The problem of a number that breaks off: the text ends or has no digit there. -/
def noDigit {α : Type} : List Char → Except Problem α
  | [] => .error .truncated
  | _ :: _ => .error .malformed

/-- Reads the digits before the point; a zero stands alone. -/
def readWhole (cs : List Char) : Except Problem (List Nat × List Char) :=
  match spanDigits cs with
  | ([], rest) => noDigit rest
  | (0 :: _ :: _, _) => .error .malformed
  | (digits, rest) => .ok (digits, rest)

/-- Reads the point and the digits behind it, if there is a point. -/
def readFraction : List Char → Except Problem (Option (List Nat) × List Char)
  | '.' :: rest =>
    match spanDigits rest with
    | ([], rest) => noDigit rest
    | (digits, rest) => .ok (some digits, rest)
  | cs => .ok (none, cs)

/-- Reads a sign, if there is one. -/
def readSign : List Char → Bool × List Char
  | '+' :: rest => (false, rest)
  | '-' :: rest => (true, rest)
  | cs => (false, cs)

/-- Reads an exponent, if there is one. -/
def readExponent (cs : List Char) : Except Problem (Option Int × List Char) :=
  match cs with
  | c :: rest =>
    if c = 'e' ∨ c = 'E' then
      let (negative, rest) := readSign rest
      match spanDigits rest with
      | ([], rest) => noDigit rest
      | (digits, rest) =>
        let size : Nat := digits.foldl (fun n d => n * 10 + d) 0
        .ok (some (if negative then -size else size), rest)
    else .ok (none, cs)
  | [] => .ok (none, [])

/-- Reads a number. -/
def readLiteral (cs : List Char) : Except Problem (Number.Literal × List Char) := do
  let (negative, cs) := match cs with
    | '-' :: rest => (true, rest)
    | cs => (false, cs)
  let (whole, cs) ← readWhole cs
  let (fraction, cs) ← readFraction cs
  let (exponent, cs) ← readExponent cs
  return (⟨negative, whole, fraction, exponent⟩, cs)

/-- Reads a number into a document. A number that is too large can be passed over; one that breaks
off cannot, and is malformed where its value is not asked for. -/
def readNumber (cs : List Char) : Document × Option (List Char) :=
  match readLiteral cs with
  | .error problem => (.number (.error problem) (.error .malformed), none)
  | .ok (literal, rest) =>
    match literal.value? with
    | some value => (.number (.ok value) (.ok ()), some rest)
    | none => (.number (.error .malformed) (.ok ()), some rest)

/-! ## Values -/

def isBlank (c : Char) : Bool := c = ' ' || c = '\n' || c = '\t' || c = '\r'

def skipBlank (cs : List Char) : List Char := cs.dropWhile isBlank

/-- Reads a word that must be there, and gives its document. -/
def readWord (document : Document) : List Char → List Char → Document × Option (List Char)
  | [], rest => (document, some rest)
  | _ :: _, [] => (.invalid .truncated, none)
  | expected :: word, c :: rest =>
    if c = expected then readWord document word rest else (.invalid .malformed, none)

/-- Reads a text in quotes, the opening quote left out. -/
def readString (cs : List Char) : Document × Option (List Char) :=
  let (pieces, behind) := readPieces cs
  let skipped := behind.map fun _ => ()
  (.string ((decodePieces skipped pieces).map String.ofList) skipped, behind.toOption)

mutual

/-- Reads a value, and gives what is behind it unless the text cannot be read on. The fuel bounds
the length of the text. -/
def readValue : Nat → List Char → Document × Option (List Char)
  | 0, _ => (.invalid .malformed, none)
  | fuel + 1, cs =>
    match skipBlank cs with
    | [] => (.absent, none)
    | '"' :: rest => readString rest
    | '[' :: rest =>
      let (items, behind) := readItems fuel true rest
      (.array items, behind)
    | '\x7b' :: rest =>
      let (members, behind) := readMembers fuel true rest
      (.object members, behind)
    | 'n' :: rest => readWord .null "ull".toList rest
    | 't' :: rest => readWord (.bool true) "rue".toList rest
    | 'f' :: rest => readWord (.bool false) "alse".toList rest
    | c :: rest =>
      if c = '-' ∨ isDigit c then readNumber (c :: rest) else (.invalid .malformed, none)

/-- Reads the items of an array, the opening bracket left out. The first item has no comma before
it. -/
def readItems : Nat → Bool → List Char → Items × Option (List Char)
  | 0, _, _ => (.stop .broken, none)
  | fuel + 1, first, cs =>
    match skipBlank cs with
    | [] => (.stop .missing, none)
    | ']' :: rest => (.stop .closed, some rest)
    | c :: rest =>
      if first then readItem fuel (c :: rest)
      else if c = ',' then
        match skipBlank rest with
        | [] => (.stop .missingAfterComma, none)
        | ']' :: _ => (.stop .broken, none)
        | rest => readItem fuel rest
      else (.stop .broken, none)

/-- Reads an item and those behind it. -/
def readItem : Nat → List Char → Items × Option (List Char)
  | 0, _ => (.stop .broken, none)
  | fuel + 1, cs =>
    match readValue fuel cs with
    | (value, none) => (.item value (.stop .broken), none)
    | (value, some rest) =>
      let (items, behind) := readItems fuel false rest
      (.item value items, behind)

/-- Reads the members of an object, the opening brace left out. The first member has no comma
before it. -/
def readMembers : Nat → Bool → List Char → Members × Option (List Char)
  | 0, _, _ => (.stop .broken, none)
  | fuel + 1, first, cs =>
    match skipBlank cs with
    | [] => (.stop .missing, none)
    | '\x7d' :: rest => (.stop .closed, some rest)
    | c :: rest =>
      if first then readMember fuel (c :: rest)
      else if c = ',' then
        match skipBlank rest with
        | [] => (.stop .missingAfterComma, none)
        | '\x7d' :: _ => (.stop .broken, none)
        | rest => readMember fuel rest
      else (.stop .broken, none)

/-- Reads a member and those behind it. -/
def readMember : Nat → List Char → Members × Option (List Char)
  | 0, _ => (.stop .broken, none)
  | fuel + 1, cs =>
    match readValue fuel cs with
    | (.string key skipped, some rest) =>
      match skipBlank rest with
      | [] => (.member (.string key skipped) .absent (.stop .broken), none)
      | ':' :: rest =>
        match readValue fuel rest with
        | (value, none) => (.member (.string key skipped) value (.stop .broken), none)
        | (value, some rest) =>
          let (members, behind) := readMembers fuel false rest
          (.member (.string key skipped) value members, behind)
      | _ :: _ => (.member (.string key skipped) (.invalid .malformed) (.stop .broken), none)
    | (key, _) => (.member key (.invalid .malformed) (.stop .broken), none)

end

/-- A whole text: the document at its beginning, and whether only blanks are behind it. -/
structure Source where
  document : Document
  endsThere : Bool

/-- Reads a whole text. Every step of the reading takes a character or is followed by one that
does, so three steps for each character are enough. -/
def readSource (text : String) : Source :=
  let cs := text.toList
  match readValue (3 * cs.length + 3) cs with
  | (document, none) => ⟨document, false⟩
  | (document, some rest) => ⟨document, (skipBlank rest).isEmpty⟩

end Json

end Provenance

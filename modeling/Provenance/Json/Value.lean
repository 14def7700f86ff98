/-
JSON values and their compact text.

A value keeps the members of an object in their order. The compact text has no blanks; inside quotes
it escapes the quote, the backslash and the controls, and nothing else.
-/
import Provenance.Number.Shortest

set_option autoImplicit false

namespace Provenance

/-- A JSON value. -/
inductive Json where
  | null
  | bool (value : Bool)
  | integer (value : Int)
  | real (value : Number.Binary Number.binary64)
  | string (value : String)
  | array (items : List Json)
  | object (members : List (String × Json))
deriving Inhabited

namespace Json

/-- A digit in lower-case hexadecimal. -/
def hexDigit (n : Nat) : Char := Nat.digitChar n

/-- How one character stands inside quotes. -/
def escapedChar (c : Char) : List Char :=
  if c = '"' then ['\\', '"']
  else if c = '\\' then ['\\', '\\']
  else if c.toNat = 0x08 then ['\\', 'b']
  else if c.toNat = 0x0C then ['\\', 'f']
  else if c = '\n' then ['\\', 'n']
  else if c = '\r' then ['\\', 'r']
  else if c = '\t' then ['\\', 't']
  else if c.toNat < 0x20 then
    ['\\', 'u', '0', '0', hexDigit (c.toNat / 16), hexDigit (c.toNat % 16)]
  else [c]

/-- A text in quotes. -/
def quotedChars (s : String) : List Char :=
  '"' :: s.toList.flatMap escapedChar ++ ['"']

/-- A number as text. Infinity has no number in JSON. -/
def realChars (x : Number.Binary Number.binary64) : List Char :=
  if x.isInfinite then "null".toList else (x.text .scientific).toList

mutual

/-- The characters of the compact text. -/
def chars : Json → List Char
  | null => "null".toList
  | bool true => "true".toList
  | bool false => "false".toList
  | integer value => (toString value).toList
  | real value => realChars value
  | string value => quotedChars value
  | array items => '[' :: itemChars items ++ [']']
  | object members => '\x7b' :: memberChars members ++ ['\x7d']

/-- Items with commas between them. -/
def itemChars : List Json → List Char
  | [] => []
  | [item] => item.chars
  | item :: rest => item.chars ++ ',' :: itemChars rest

/-- Members with commas between them. -/
def memberChars : List (String × Json) → List Char
  | [] => []
  | [(key, value)] => quotedChars key ++ ':' :: value.chars
  | (key, value) :: rest => quotedChars key ++ ':' :: value.chars ++ ',' :: memberChars rest

end

/-- The compact text of a value. -/
def text (j : Json) : String := String.ofList j.chars

end Json

end Provenance

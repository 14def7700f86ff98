/-
Texts in double quotes.

A quoted text begins and ends with a quote. Inside it, a quote and a backslash stand behind a
backslash, line feed, carriage return, tab and NUL have letters of their own, and any other
character without a visible form is spelled by its code point in hexadecimal between braces.
-/
import Provenance.Text.Unprintable

set_option autoImplicit false

namespace Provenance.Text

/-- A code point in lower-case hexadecimal, without leading zeros. -/
def hexadecimal (n : Nat) : List Char := Nat.toDigits 16 n

/-- How one character stands inside quotes. -/
def quotedChar (c : Char) : List Char :=
  if c = '"' then ['\\', '"']
  else if c = '\\' then ['\\', '\\']
  else if c = '\n' then ['\\', 'n']
  else if c = '\r' then ['\\', 'r']
  else if c = '\t' then ['\\', 't']
  else if c = Char.ofNat 0 then ['\\', '0']
  else if isUnprintable c then ['\\', 'u', '\x7b'] ++ hexadecimal c.toNat ++ ['\x7d']
  else [c]

/-- A text in double quotes. -/
def quoted (s : String) : String :=
  String.ofList ('"' :: s.toList.flatMap quotedChar ++ ['"'])

end Provenance.Text

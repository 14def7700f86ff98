/-
The compact text of a JSON value, read again.

What is read off the text of a value is the document of that value (`Json.readSource_text`): every
escape stands for the character it was made of, and the digits of an integer stand for it as long as
it fits into 64 bits. Numbers with a point or an exponent are left out, for their text tells them
only up to rounding.

A value is read off the front of any text. Only a number must not go on behind its end; so what
follows must not look like more of it (`Json.EndsNumber`), and neither the commas nor the brackets
of the text do.
-/
import Provenance.Json.Decode
import Provenance.Json.Value

set_option autoImplicit false

namespace Provenance

open Json (Problem)

/-! ## The document of a value -/

mutual

/-- The document that the text of a value is read into. -/
def Document.ofJson : Json → Document
  | .null => .null
  | .bool value => .bool value
  | .integer value => .number (.ok (.integer value)) (.ok ())
  | .real value => .number (.ok (.real value)) (.ok ())
  | .string value => .string (.ok value) (.ok ())
  | .array items => .array (Items.ofJson items)
  | .object members => .object (Members.ofJson members)

def Items.ofJson : List Json → Items
  | [] => .stop .closed
  | item :: rest => .item (Document.ofJson item) (Items.ofJson rest)

def Members.ofJson : List (String × Json) → Members
  | [] => .stop .closed
  | (key, value) :: rest =>
    .member (.string (.ok key) (.ok ())) (Document.ofJson value) (Members.ofJson rest)

end

namespace Json

mutual

/-- All numbers in the value are integers of 64 bits, with or without a sign. -/
def IsExact : Json → Prop
  | integer value => -Document.wordCount 63 ≤ value ∧ value < Document.wordCount 64
  | real _ => False
  | array items => AllExact items
  | object members => MembersExact members
  | null | bool _ | string _ => True

def AllExact : List Json → Prop
  | [] => True
  | item :: rest => item.IsExact ∧ AllExact rest

def MembersExact : List (String × Json) → Prop
  | [] => True
  | (_, value) :: rest => value.IsExact ∧ MembersExact rest

end

/-! ## Strings -/

/-- A piece is decoded as a character, whatever is behind it. -/
def Piece.StandsFor (piece : Piece) (c : Char) : Prop :=
  ∀ behind rest, decodePieces behind (piece :: rest) = (decodePieces behind rest).map (c :: ·)

theorem Piece.char_standsFor (c : Char) : (Piece.char c).StandsFor c := fun _ _ => rfl

/-- The number of a control stands for it. -/
theorem Piece.unit_standsFor {c : Char} (hc : c.toNat < 0x20) :
    (Piece.unit c.toNat).StandsFor c := by
  intro behind rest
  have hlow : isLowSurrogate c.toNat = false := by
    unfold isLowSurrogate
    rw [decide_eq_false (by omega), Bool.false_and]
  have hhigh : isHighSurrogate c.toNat = false := by
    unfold isHighSurrogate
    rw [decide_eq_false (by omega), Bool.false_and]
  have hunit : decodePieces behind (.unit c.toNat :: rest)
      = (decodePieces behind rest).map (Char.ofNat c.toNat :: ·) := by
    rcases rest with _ | ⟨_ | _, rest⟩ <;> simp [decodePieces, hlow, hhigh]
  rw [hunit, Char.ofNat_toNat]

theorem hexUnit?_control : ∀ n < 0x20,
    hexUnit? '0' '0' (hexDigit (n / 16)) (hexDigit (n % 16)) = some n := by
  decide

theorem readPieces_short {letter c : Char} (hu : letter ≠ 'u') (h : escape? letter = some c)
    (rest : List Char) :
    readPieces ('\\' :: letter :: rest)
      = (.char c :: (readPieces rest).1, (readPieces rest).2) := by
  rw [readPieces.eq_5 letter rest (fun _ _ _ _ _ h _ => hu h) hu, h]

theorem readPieces_unit {a b d e : Char} {n : Nat} (h : hexUnit? a b d e = some n)
    (rest : List Char) : readPieces ('\\' :: 'u' :: a :: b :: d :: e :: rest)
      = (.unit n :: (readPieces rest).1, (readPieces rest).2) := by
  rw [readPieces, h]

theorem readPieces_plain {c : Char} (hquote : c ≠ '"') (hslash : c ≠ '\\') (hc : ¬ c.toNat < 0x20)
    (rest : List Char) :
    readPieces (c :: rest) = (.char c :: (readPieces rest).1, (readPieces rest).2) := by
  rw [readPieces.eq_7 c rest hquote (fun _ _ _ _ _ h _ => hslash h) (fun _ h _ => hslash h)
    (fun _ _ h _ => hslash h) (fun h _ => hslash h), if_neg hc]

/-- An escaped character is read as a piece that stands for it. -/
theorem readPieces_escapedChar (c : Char) (rest : List Char) :
    ∃ piece : Piece, piece.StandsFor c ∧ readPieces (escapedChar c ++ rest)
      = (piece :: (readPieces rest).1, (readPieces rest).2) := by
  have hshort : ∀ letter, letter ≠ 'u' → escape? letter = some c →
      ∃ piece : Piece, piece.StandsFor c ∧ readPieces (['\\', letter] ++ rest)
        = (piece :: (readPieces rest).1, (readPieces rest).2) := fun letter hu h =>
    ⟨.char c, Piece.char_standsFor c, readPieces_short hu h rest⟩
  have hofNat : ∀ n, c.toNat = n → some (Char.ofNat n) = some c := by
    rintro n rfl
    rw [Char.ofNat_toNat]
  unfold escapedChar
  by_cases hquote : c = '"'
  · rw [if_pos hquote]
    exact hshort '"' (by decide) (by rw [hquote]; rfl)
  rw [if_neg hquote]
  by_cases hslash : c = '\\'
  · rw [if_pos hslash]
    exact hshort '\\' (by decide) (by rw [hslash]; rfl)
  rw [if_neg hslash]
  by_cases hb : c.toNat = 0x08
  · rw [if_pos hb]
    exact hshort 'b' (by decide) (hofNat _ hb)
  rw [if_neg hb]
  by_cases hf : c.toNat = 0x0C
  · rw [if_pos hf]
    exact hshort 'f' (by decide) (hofNat _ hf)
  rw [if_neg hf]
  by_cases hn : c = '\n'
  · rw [if_pos hn]
    exact hshort 'n' (by decide) (by rw [hn]; rfl)
  rw [if_neg hn]
  by_cases hr : c = '\r'
  · rw [if_pos hr]
    exact hshort 'r' (by decide) (by rw [hr]; rfl)
  rw [if_neg hr]
  by_cases ht : c = '\t'
  · rw [if_pos ht]
    exact hshort 't' (by decide) (by rw [ht]; rfl)
  rw [if_neg ht]
  by_cases hc : c.toNat < 0x20
  · rw [if_pos hc]
    exact ⟨.unit c.toNat, Piece.unit_standsFor hc,
      readPieces_unit (hexUnit?_control c.toNat hc) rest⟩
  · rw [if_neg hc]
    exact ⟨.char c, Piece.char_standsFor c, readPieces_plain hquote hslash hc rest⟩

/-- The characters of a text are read up to the closing quote, and decoded. -/
theorem readPieces_escaped (cs rest : List Char) :
    ∃ pieces, readPieces (cs.flatMap escapedChar ++ '"' :: rest) = (pieces, .ok rest) ∧
      decodePieces (.ok ()) pieces = .ok cs := by
  induction cs with
  | nil => exact ⟨[], by rw [List.flatMap_nil, List.nil_append, readPieces], rfl⟩
  | cons c cs ih =>
    obtain ⟨pieces, hread, hdecode⟩ := ih
    obtain ⟨piece, hstands, hpiece⟩ :=
      readPieces_escapedChar c (cs.flatMap escapedChar ++ '"' :: rest)
    refine ⟨piece :: pieces, ?_, ?_⟩
    · rw [List.flatMap_cons, List.append_assoc, hpiece, hread]
    · rw [hstands, hdecode]
      rfl

theorem readString_quotedChars (s : String) (rest : List Char) :
    readString (s.toList.flatMap escapedChar ++ '"' :: rest)
      = (Document.ofJson (.string s), some rest) := by
  obtain ⟨pieces, hread, hdecode⟩ := readPieces_escaped s.toList rest
  have hs : (decodePieces (.ok ()) pieces).map String.ofList = .ok s := by
    rw [hdecode]
    exact congrArg Except.ok (String.ofList_toList)
  unfold readString
  rw [hread]
  show (Document.string ((decodePieces (.ok ()) pieces).map String.ofList) (.ok ()), some rest) = _
  rw [hs]
  rfl

/-! ## Integers -/

/-- What follows a number does not look like more of it. -/
def EndsNumber (rest : List Char) : Prop :=
  ∀ c cs, rest = c :: cs → isDigit c = false ∧ c ≠ '.' ∧ c ≠ 'e' ∧ c ≠ 'E'

theorem endsNumber_nil : EndsNumber [] := fun _ _ h => nomatch h

theorem endsNumber_cons {c : Char} (h : isDigit c = false ∧ c ≠ '.' ∧ c ≠ 'e' ∧ c ≠ 'E')
    (rest : List Char) : EndsNumber (c :: rest) := by
  intro d cs hcs
  obtain rfl := (List.cons.inj hcs).1
  exact h

theorem spanDigits_append {cs rest : List Char} (hcs : ∀ c ∈ cs, isDigit c = true)
    (hrest : EndsNumber rest) : spanDigits (cs ++ rest) = (cs.map digitValue, rest) := by
  induction cs with
  | nil =>
    cases rest with
    | nil => rfl
    | cons c rest =>
      show (if isDigit c then _ else ([], c :: rest)) = ([], c :: rest)
      rw [if_neg (by rw [(hrest c rest rfl).1]; exact Bool.false_ne_true)]
  | cons c cs ih =>
    obtain ⟨hc, hcs⟩ := List.forall_mem_cons.1 hcs
    rw [List.cons_append, spanDigits, if_pos hc, ih hcs]
    rfl

theorem isDigit_of_mem_toDigits {n : Nat} {c : Char} (h : c ∈ Nat.toDigits 10 n) :
    isDigit c = true :=
  Nat.isDigit_of_mem_toDigits (by decide) (by decide) h

/-- The digits of a number do not begin with a zero unless it is zero. -/
theorem toDigits_ne_zero_cons {n : Nat} (hn : 0 < n) (cs : List Char) :
    Nat.toDigits 10 n ≠ '0' :: cs := by
  induction n using Nat.base_induction 10 (by decide) generalizing cs with
  | single m hm =>
    rw [Nat.toDigits_of_lt_base hm]
    intro h
    have hzero := (List.cons.inj h).1
    rw [Nat.digitChar_eq_zero] at hzero
    omega
  | digit m k hk hm ih =>
    rw [← Nat.toDigits_append_toDigits (by decide) hm hk]
    intro h
    cases hdigits : Nat.toDigits 10 m with
    | nil => exact Nat.toDigits_ne_nil hdigits
    | cons c digits =>
      rw [hdigits] at h
      obtain rfl := (List.cons.inj h).1
      exact ih hm digits hdigits

theorem eq_zero_of_digitValue {c : Char} (hc : isDigit c = true) (h : digitValue c = 0) :
    c = '0' := by
  have hle : '0'.toNat ≤ c.toNat := by
    unfold isDigit at hc
    rw [Bool.and_eq_true, decide_eq_true_eq] at hc
    exact hc.1
  unfold digitValue at h
  exact Char.toNat_inj.1 (by omega)

/-- Digits before the point are read up to the end of the number. -/
theorem readWhole_toDigits (n : Nat) {rest : List Char} (hrest : EndsNumber rest) :
    readWhole (Nat.toDigits 10 n ++ rest) = .ok ((Nat.toDigits 10 n).map digitValue, rest) := by
  unfold readWhole
  rw [spanDigits_append (fun c hc => isDigit_of_mem_toDigits hc) hrest]
  cases hdigits : Nat.toDigits 10 n with
  | nil => exact absurd hdigits Nat.toDigits_ne_nil
  | cons c cs =>
    have hc : isDigit c = true := isDigit_of_mem_toDigits (hdigits ▸ List.mem_cons_self)
    rw [List.map_cons]
    cases hvalue : digitValue c with
    | succ value => rfl
    | zero =>
      cases cs with
      | nil => rfl
      | cons d cs =>
        -- a number of two digits is not zero
        obtain rfl := eq_zero_of_digitValue hc hvalue
        rcases Nat.eq_zero_or_pos n with rfl | hn
        · rw [Nat.toDigits_zero] at hdigits
          cases hdigits
        · exact absurd hdigits (toDigits_ne_zero_cons hn _)

theorem le_ofDigitChars (cs : List Char) (n : Nat) : n ≤ Nat.ofDigitChars 10 cs n := by
  rw [Nat.ofDigitChars_eq_ofDigitChars_zero]
  have hpow : 0 < 10 ^ cs.length := Nat.pow_pos (by decide)
  exact Nat.le_add_right_of_le (Nat.le_mul_of_pos_left n hpow)

/-- Digits that fit into 64 bits are read as the integer that they stand for. -/
theorem significand_readWhole {cs : List Char} {n : Nat} {exponent : Int}
    (h : Nat.ofDigitChars 10 cs n ≤ Number.maxWord) :
    Number.Significand.readWhole ⟨n, exponent⟩ (cs.map digitValue)
      = ⟨Nat.ofDigitChars 10 cs n, exponent⟩ := by
  induction cs generalizing n with
  | nil => rfl
  | cons c cs ih =>
    rw [Nat.ofDigitChars_cons] at h ⊢
    have hstep : n * 10 + digitValue c = 10 * n + (c.toNat - '0'.toNat) := by
      rw [Nat.mul_comm]
      rfl
    have htakes : (⟨n, exponent⟩ : Number.Significand).takes (digitValue c) = true :=
      decide_eq_true (hstep ▸ Nat.le_trans (le_ofDigitChars cs _) h)
    rw [List.map_cons, Number.Significand.readWhole, if_pos htakes, hstep]
    exact ih h

/-- The literal of an integer. -/
def literalOf (value : Int) : Number.Literal where
  negative := decide (value < 0)
  whole := (Nat.toDigits 10 value.natAbs).map digitValue
  fraction := none
  exponent := none

theorem value?_literalOf {value : Int} (h : (integer value).IsExact) :
    (literalOf value).value? = some (.integer value) := by
  have h63 : Document.wordCount 63 = 2 ^ 63 := rfl
  have h64 : Document.wordCount 64 = 2 ^ 64 := rfl
  obtain ⟨hleast, hgreatest⟩ : -Document.wordCount 63 ≤ value ∧ value < Document.wordCount 64 := h
  have hword : Nat.ofDigitChars 10 (Nat.toDigits 10 value.natAbs) 0 ≤ Number.maxWord := by
    rw [Nat.ofDigitChars_ten_toDigits]
    show value.natAbs ≤ 2 ^ 64 - 1
    omega
  unfold Number.Literal.value? literalOf
  dsimp only
  rw [significand_readWhole hword, Nat.ofDigitChars_ten_toDigits]
  by_cases hvalue : value < 0
  · have hzero : ¬ value.natAbs = 0 := by omega
    have hlarge : ¬ Nat.pow 2 63 < value.natAbs := by
      show ¬ 2 ^ 63 < value.natAbs
      omega
    have habs : -(value.natAbs : Int) = value := by omega
    simp only [Option.isNone_none, hvalue, hzero, hlarge, habs, decide_true, decide_false,
      Bool.or_self, Bool.and_false, Bool.not_false, Bool.and_self, if_true]
  · have habs : (value.natAbs : Int) = value := by omega
    simp only [Option.isNone_none, hvalue, habs, decide_true, decide_false, Bool.false_and,
      Bool.not_false, Bool.and_self, if_true, Bool.false_eq_true, if_false]

theorem chars_integer (value : Int) :
    (integer value).chars
      = if value < 0 then '-' :: Nat.toDigits 10 value.natAbs
        else Nat.toDigits 10 value.natAbs := by
  show (toString value).toList = _
  rw [Int.toString_eq_repr, Int.repr_eq_if]
  by_cases hvalue : value < 0
  · rw [if_pos hvalue, if_neg (by omega), String.toList_append, Nat.toList_repr]
    have habs : (-value).toNat = value.natAbs := by omega
    rw [habs]
    rfl
  · rw [if_neg hvalue, if_pos (by omega), Nat.toList_repr]
    have habs : value.toNat = value.natAbs := by omega
    rw [habs]

/-- Reads what is behind the sign of a number. -/
def readUnsigned (negative : Bool) (cs : List Char) :
    Except Problem (Number.Literal × List Char) := do
  let (whole, cs) ← readWhole cs
  let (fraction, cs) ← readFraction cs
  let (exponent, cs) ← readExponent cs
  return (⟨negative, whole, fraction, exponent⟩, cs)

theorem readLiteral_minus (cs : List Char) : readLiteral ('-' :: cs) = readUnsigned true cs := rfl

theorem readLiteral_digit {c : Char} (hc : isDigit c = true) (cs : List Char) :
    readLiteral (c :: cs) = readUnsigned false (c :: cs) := by
  unfold readLiteral
  split
  rename_i negative unsigned hsign
  split at hsign
  · -- a digit is no sign
    rename_i hminus
    obtain rfl := (List.cons.inj hminus).1
    cases hc
  · obtain ⟨rfl, rfl⟩ := Prod.mk.inj hsign
    rfl

theorem readUnsigned_toDigits (negative : Bool) (n : Nat) {rest : List Char}
    (hrest : EndsNumber rest) :
    readUnsigned negative (Nat.toDigits 10 n ++ rest)
      = .ok (⟨negative, (Nat.toDigits 10 n).map digitValue, none, none⟩, rest) := by
  have hfraction : readFraction rest = .ok (none, rest) := by
    cases rest with
    | nil => rfl
    | cons c rest => rw [readFraction.eq_2 _ fun _ h => (hrest c rest rfl).2.1 (List.cons.inj h).1]
  have hexponent : readExponent rest = .ok (none, rest) := by
    cases rest with
    | nil => rfl
    | cons c rest =>
      obtain ⟨-, -, he, hE⟩ := hrest c rest rfl
      exact if_neg (by rintro (rfl | rfl) <;> contradiction)
  unfold readUnsigned
  rw [readWhole_toDigits n hrest]
  show (readFraction rest >>= fun p => _) = _
  rw [hfraction]
  show (readExponent rest >>= fun p => _) = _
  rw [hexponent]
  rfl

theorem readLiteral_integer (value : Int) {rest : List Char} (hrest : EndsNumber rest) :
    readLiteral ((integer value).chars ++ rest) = .ok (literalOf value, rest) := by
  rw [chars_integer]
  unfold literalOf
  by_cases hvalue : value < 0
  · rw [if_pos hvalue, decide_eq_true hvalue, List.cons_append, readLiteral_minus,
      readUnsigned_toDigits true value.natAbs hrest]
  · rw [if_neg hvalue, decide_eq_false hvalue, ← readUnsigned_toDigits false value.natAbs hrest]
    cases hcs : Nat.toDigits 10 value.natAbs with
    | nil => exact absurd hcs Nat.toDigits_ne_nil
    | cons c cs =>
      exact readLiteral_digit (isDigit_of_mem_toDigits (hcs ▸ List.mem_cons_self)) (cs ++ rest)

theorem readNumber_integer {value : Int} (h : (integer value).IsExact)
    {rest : List Char} (hrest : EndsNumber rest) :
    readNumber ((integer value).chars ++ rest)
      = (Document.ofJson (.integer value), some rest) := by
  unfold readNumber
  rw [readLiteral_integer value hrest]
  dsimp only
  rw [value?_literalOf h]
  rfl

/-! ## Values -/

/-- How the text of a value may begin: not with a blank, and not as something that closes a list. -/
def Begins (c : Char) : Prop := isBlank c = false ∧ c ≠ ']' ∧ c ≠ '\x7d'

instance (c : Char) : Decidable (Begins c) :=
  inferInstanceAs (Decidable (isBlank c = false ∧ c ≠ ']' ∧ c ≠ '\x7d'))

theorem begins_of_isDigit {c : Char} (hc : isDigit c = true) : Begins c := by
  refine ⟨?_, ?_, ?_⟩
  · cases hblank : isBlank c with
    | false => rfl
    | true =>
      simp only [isBlank, Bool.or_eq_true, decide_eq_true_eq] at hblank
      rcases hblank with ((rfl | rfl) | rfl) | rfl <;> cases hc
  · rintro rfl
    cases hc
  · rintro rfl
    cases hc

/-- An integer begins with a sign or a digit. -/
theorem exists_chars_integer (value : Int) :
    ∃ c cs, (integer value).chars = c :: cs ∧ (c = '-' ∨ isDigit c = true) := by
  rw [chars_integer]
  split
  · exact ⟨'-', _, rfl, .inl rfl⟩
  · cases hcs : Nat.toDigits 10 value.natAbs with
    | nil => exact absurd hcs Nat.toDigits_ne_nil
    | cons c cs => exact ⟨c, cs, rfl, .inr (isDigit_of_mem_toDigits (hcs ▸ List.mem_cons_self))⟩

theorem exists_chars {j : Json} (hj : j.IsExact) : ∃ c cs, j.chars = c :: cs ∧ Begins c := by
  cases j with
  | null => exact ⟨'n', _, rfl, by decide⟩
  | bool value =>
    cases value with
    | true => exact ⟨'t', _, rfl, by decide⟩
    | false => exact ⟨'f', _, rfl, by decide⟩
  | integer value =>
    obtain ⟨c, cs, hchars, hc⟩ := exists_chars_integer value
    refine ⟨c, cs, hchars, ?_⟩
    rcases hc with rfl | hc
    · decide
    · exact begins_of_isDigit hc
  | real value => exact hj.elim
  | string value => exact ⟨'"', _, rfl, by decide⟩
  | array items => exact ⟨'[', _, rfl, by decide⟩
  | object members => exact ⟨'\x7b', _, rfl, by decide⟩

theorem length_chars_pos {j : Json} (hj : j.IsExact) : 0 < j.chars.length := by
  obtain ⟨c, cs, hchars, -⟩ := exists_chars hj
  rw [hchars]
  exact Nat.succ_pos _

theorem begins_quote : Begins '"' := by decide

theorem skipBlank_cons {c : Char} (hc : isBlank c = false) (rest : List Char) :
    skipBlank (c :: rest) = c :: rest := by
  unfold skipBlank
  rw [List.dropWhile_cons_of_neg (by rw [hc]; exact Bool.false_ne_true)]

/-- What begins like a number is read as a number. -/
theorem readValue_of_number {c : Char} (hc : c = '-' ∨ isDigit c = true) (fuel : Nat)
    (rest : List Char) : readValue (fuel + 1) (c :: rest) = readNumber (c :: rest) := by
  have hblank : isBlank c = false := by
    rcases hc with rfl | hc
    · decide
    · exact (begins_of_isDigit hc).1
  have hother : ∀ d, d ≠ '-' → isDigit d = false → c ≠ d := by
    rintro d hminus hdigit rfl
    rcases hc with hc | hc
    · exact hminus hc
    · rw [hdigit] at hc
      cases hc
  rw [readValue, skipBlank_cons hblank]
  split <;> rename_i hcs
  · cases hcs
  · exact absurd (List.cons.inj hcs).1 (hother _ (by decide) (by decide))
  · exact absurd (List.cons.inj hcs).1 (hother _ (by decide) (by decide))
  · exact absurd (List.cons.inj hcs).1 (hother _ (by decide) (by decide))
  · exact absurd (List.cons.inj hcs).1 (hother _ (by decide) (by decide))
  · exact absurd (List.cons.inj hcs).1 (hother _ (by decide) (by decide))
  · exact absurd (List.cons.inj hcs).1 (hother _ (by decide) (by decide))
  · obtain ⟨rfl, rfl⟩ := List.cons.inj hcs
    exact if_pos hc

theorem readValue_quotedChars (key : String) (fuel : Nat) (rest : List Char) :
    readValue (fuel + 1) (quotedChars key ++ rest)
      = (Document.ofJson (.string key), some rest) := by
  unfold quotedChars
  rw [List.cons_append, List.cons_append, List.append_assoc]
  exact readString_quotedChars key rest

/-! ## Items and members -/

theorem readValue_array {fuel : Nat} {cs rest : List Char} {items : Items}
    (h : readItems fuel true cs = (items, some rest)) :
    readValue (fuel + 1) ('[' :: cs) = (.array items, some rest) :=
  congrArg (fun p : Items × Option (List Char) => (Document.array p.1, p.2)) h

theorem readValue_object {fuel : Nat} {cs rest : List Char} {members : Members}
    (h : readMembers fuel true cs = (members, some rest)) :
    readValue (fuel + 1) ('\x7b' :: cs) = (.object members, some rest) :=
  congrArg (fun p : Members × Option (List Char) => (Document.object p.1, p.2)) h

theorem readItems_closed (fuel : Nat) (first : Bool) (rest : List Char) :
    readItems (fuel + 1) first (']' :: rest) = (.stop .closed, some rest) := rfl

theorem readMembers_closed (fuel : Nat) (first : Bool) (rest : List Char) :
    readMembers (fuel + 1) first ('\x7d' :: rest) = (.stop .closed, some rest) := rfl

theorem readItems_first {c : Char} (hc : Begins c) (fuel : Nat) (cs : List Char) :
    readItems (fuel + 1) true (c :: cs) = readItem fuel (c :: cs) := by
  rw [readItems, skipBlank_cons hc.1]
  split <;> rename_i hcs
  · cases hcs
  · exact absurd (List.cons.inj hcs).1 hc.2.1
  · obtain ⟨rfl, rfl⟩ := List.cons.inj hcs
    rfl

theorem readMembers_first {c : Char} (hc : Begins c) (fuel : Nat) (cs : List Char) :
    readMembers (fuel + 1) true (c :: cs) = readMember fuel (c :: cs) := by
  rw [readMembers, skipBlank_cons hc.1]
  split <;> rename_i hcs
  · cases hcs
  · exact absurd (List.cons.inj hcs).1 hc.2.2
  · obtain ⟨rfl, rfl⟩ := List.cons.inj hcs
    rfl

theorem readItems_comma {c : Char} (hc : Begins c) (fuel : Nat) (cs : List Char) :
    readItems (fuel + 1) false (',' :: c :: cs) = readItem fuel (c :: cs) := by
  rw [readItems, skipBlank_cons (by decide)]
  split <;> rename_i hcs
  · cases hcs
  · exact absurd (List.cons.inj hcs).1 (by decide)
  · obtain ⟨rfl, rfl⟩ := List.cons.inj hcs
    rw [if_neg Bool.false_ne_true, if_pos rfl, skipBlank_cons hc.1]
    split <;> rename_i hcs
    · cases hcs
    · exact absurd (List.cons.inj hcs).1 hc.2.1
    · rfl

theorem readMembers_comma {c : Char} (hc : Begins c) (fuel : Nat) (cs : List Char) :
    readMembers (fuel + 1) false (',' :: c :: cs) = readMember fuel (c :: cs) := by
  rw [readMembers, skipBlank_cons (by decide)]
  split <;> rename_i hcs
  · cases hcs
  · exact absurd (List.cons.inj hcs).1 (by decide)
  · obtain ⟨rfl, rfl⟩ := List.cons.inj hcs
    rw [if_neg Bool.false_ne_true, if_pos rfl, skipBlank_cons hc.1]
    split <;> rename_i hcs
    · cases hcs
    · exact absurd (List.cons.inj hcs).1 hc.2.2
    · rfl

theorem readItem_of_read {fuel : Nat} {cs rest behind : List Char} {value : Document}
    {items : Items} (hvalue : readValue fuel cs = (value, some rest))
    (hitems : readItems fuel false rest = (items, some behind)) :
    readItem (fuel + 1) cs = (.item value items, some behind) := by
  rw [readItem, hvalue]
  dsimp only
  rw [hitems]

theorem readMember_of_read {fuel : Nat} {key : String} {cs rest behind : List Char}
    {value : Document} {members : Members}
    (hvalue : readValue (fuel + 1) cs = (value, some rest))
    (hmembers : readMembers (fuel + 1) false rest = (members, some behind)) :
    readMember (fuel + 2) (quotedChars key ++ ':' :: cs)
      = (.member (Document.ofJson (.string key)) value members, some behind) := by
  rw [readMember, readValue_quotedChars, Document.ofJson]
  simp only [skipBlank_cons (show isBlank ':' = false by decide), hvalue, hmembers]

theorem itemChars_cons_cons (item next : Json) (items : List Json) :
    itemChars (item :: next :: items) = item.chars ++ ',' :: itemChars (next :: items) := rfl

theorem memberChars_cons_cons (key : String) (value : Json) (next : String × Json)
    (members : List (String × Json)) :
    memberChars ((key, value) :: next :: members)
      = quotedChars key ++ ':' :: value.chars ++ ',' :: memberChars (next :: members) := rfl

/-- Items begin like the first of them. -/
theorem exists_itemChars {items : List Json} (hitems : AllExact items) (hne : items ≠ []) :
    ∃ c cs, itemChars items = c :: cs ∧ Begins c := by
  match items with
  | [] => exact absurd rfl hne
  | [item] => exact exists_chars hitems.1
  | item :: next :: items =>
    obtain ⟨c, cs, hchars, hc⟩ := exists_chars hitems.1
    exact ⟨c, cs ++ ',' :: itemChars (next :: items), by rw [itemChars_cons_cons, hchars]; rfl, hc⟩

/-- Members begin with the quote of a key. -/
theorem exists_memberChars {members : List (String × Json)} (hne : members ≠ []) :
    ∃ cs, memberChars members = '"' :: cs := by
  match members with
  | [] => exact absurd rfl hne
  | [(key, value)] => exact ⟨_, rfl⟩
  | (key, value) :: next :: members => exact ⟨_, rfl⟩

theorem readItems_of_readItem {items : List Json} (hitems : AllExact items) {fuel : Nat}
    {rest : List Char}
    (h : items ≠ [] → readItem fuel (itemChars items ++ ']' :: rest)
      = (Items.ofJson items, some rest)) :
    readItems (fuel + 1) true (itemChars items ++ ']' :: rest)
      = (Items.ofJson items, some rest) := by
  by_cases hne : items = []
  · subst hne
    exact readItems_closed fuel true rest
  · obtain ⟨c, cs, hchars, hc⟩ := exists_itemChars hitems hne
    rw [← h hne, hchars, List.cons_append, readItems_first hc]

theorem readMembers_of_readMember {members : List (String × Json)} {fuel : Nat}
    {rest : List Char}
    (h : members ≠ [] → readMember fuel (memberChars members ++ '\x7d' :: rest)
      = (Members.ofJson members, some rest)) :
    readMembers (fuel + 1) true (memberChars members ++ '\x7d' :: rest)
      = (Members.ofJson members, some rest) := by
  by_cases hne : members = []
  · subst hne
    exact readMembers_closed fuel true rest
  · obtain ⟨cs, hchars⟩ := exists_memberChars hne
    rw [← h hne, hchars, List.cons_append, readMembers_first begins_quote]

/-! ## Reading back -/

mutual

/-- The text of a value is read as its document, whatever comes behind it. Three steps of the fuel
for each character are enough, since every level of the reading takes one. -/
theorem readValue_chars {j : Json} (hj : j.IsExact) {fuel : Nat} {rest : List Char}
    (hfuel : 3 * j.chars.length ≤ fuel) (hrest : EndsNumber rest) :
    readValue fuel (j.chars ++ rest) = (Document.ofJson j, some rest) := by
  have hlength := length_chars_pos hj
  obtain ⟨fuel, rfl⟩ : ∃ n, fuel = n + 1 := ⟨fuel - 1, by omega⟩
  match j with
  | .null => rfl
  | .bool true => rfl
  | .bool false => rfl
  | .integer value =>
    obtain ⟨d, ds, hdigits, hd⟩ := exists_chars_integer value
    -- the only value whose end is told by what follows
    rw [← readNumber_integer hj hrest, hdigits, List.cons_append, readValue_of_number hd]
  | .real value => exact hj.elim
  | .string value => exact readValue_quotedChars value fuel rest
  | .array items =>
    have hlist : (array items).chars.length = (itemChars items).length + 2 := by
      simp only [chars, List.length_append, List.length_cons, List.length_nil]
    obtain ⟨fuel, rfl⟩ : ∃ n, fuel = n + 1 := ⟨fuel - 1, by omega⟩
    have hitems : readItems (fuel + 1) true (itemChars items ++ ']' :: rest)
        = (Items.ofJson items, some rest) :=
      readItems_of_readItem hj fun hne => readItem_chars hj hne (by omega) rest
    rw [chars, List.cons_append, List.cons_append, List.append_assoc]
    exact readValue_array hitems
  | .object members =>
    have hlist : (object members).chars.length = (memberChars members).length + 2 := by
      simp only [chars, List.length_append, List.length_cons, List.length_nil]
    obtain ⟨fuel, rfl⟩ : ∃ n, fuel = n + 1 := ⟨fuel - 1, by omega⟩
    have hmembers : readMembers (fuel + 1) true (memberChars members ++ '\x7d' :: rest)
        = (Members.ofJson members, some rest) :=
      readMembers_of_readMember fun hne => readMember_chars hj hne (by omega) rest
    rw [chars, List.cons_append, List.cons_append, List.append_assoc]
    exact readValue_object hmembers

/-- The items of an array are read up to the closing bracket. -/
theorem readItem_chars {items : List Json} (hitems : AllExact items) (hne : items ≠ []) {fuel : Nat}
    (hfuel : 3 * (itemChars items).length + 1 ≤ fuel) (rest : List Char) :
    readItem fuel (itemChars items ++ ']' :: rest) = (Items.ofJson items, some rest) := by
  match items with
  | [] => exact absurd rfl hne
  | [item] =>
    have hlength := length_chars_pos hitems.1
    rw [itemChars] at hfuel ⊢
    obtain ⟨fuel, rfl⟩ : ∃ n, fuel = n + 2 := ⟨fuel - 2, by omega⟩
    exact readItem_of_read
      (readValue_chars hitems.1 (by omega) (endsNumber_cons (by decide) rest))
      (readItems_closed fuel false rest)
  | item :: next :: items =>
    have hlength := length_chars_pos hitems.1
    rw [itemChars_cons_cons, List.length_append, List.length_cons] at hfuel
    obtain ⟨fuel, rfl⟩ : ∃ n, fuel = n + 2 := ⟨fuel - 2, by omega⟩
    have hitems' : readItem fuel (itemChars (next :: items) ++ ']' :: rest)
        = (Items.ofJson (next :: items), some rest) :=
      readItem_chars hitems.2 (List.cons_ne_nil _ _) (by omega) rest
    obtain ⟨c, cs, hchars, hc⟩ := exists_itemChars hitems.2 (List.cons_ne_nil next items)
    rw [itemChars_cons_cons, List.append_assoc]
    refine readItem_of_read
      (readValue_chars hitems.1 (by omega) (endsNumber_cons (by decide) _)) ?_
    rw [← hitems', hchars, List.cons_append, List.cons_append, readItems_comma hc]

/-- The members of an object are read up to the closing brace. -/
theorem readMember_chars {members : List (String × Json)} (hmembers : MembersExact members)
    (hne : members ≠ []) {fuel : Nat}
    (hfuel : 3 * (memberChars members).length + 1 ≤ fuel) (rest : List Char) :
    readMember fuel (memberChars members ++ '\x7d' :: rest)
      = (Members.ofJson members, some rest) := by
  match members with
  | [] => exact absurd rfl hne
  | [(key, value)] =>
    rw [memberChars, List.length_append, List.length_cons] at hfuel
    obtain ⟨fuel, rfl⟩ : ∃ n, fuel = n + 2 := ⟨fuel - 2, by omega⟩
    rw [memberChars, List.append_assoc]
    exact readMember_of_read
      (readValue_chars hmembers.1 (by omega) (endsNumber_cons (by decide) rest))
      (readMembers_closed fuel false rest)
  | (key, value) :: next :: members =>
    rw [memberChars_cons_cons, List.length_append, List.length_append, List.length_cons,
      List.length_cons] at hfuel
    obtain ⟨fuel, rfl⟩ : ∃ n, fuel = n + 2 := ⟨fuel - 2, by omega⟩
    have hmembers' : readMember fuel (memberChars (next :: members) ++ '\x7d' :: rest)
        = (Members.ofJson (next :: members), some rest) :=
      readMember_chars hmembers.2 (List.cons_ne_nil _ _) (by omega) rest
    obtain ⟨cs, hchars⟩ := exists_memberChars (List.cons_ne_nil next members)
    rw [memberChars_cons_cons, List.append_assoc, List.append_assoc]
    refine readMember_of_read
      (readValue_chars hmembers.1 (by omega) (endsNumber_cons (by decide) _)) ?_
    rw [← hmembers', hchars, List.cons_append, List.cons_append, readMembers_comma begins_quote]

end

/-- What is read off the text of a value is its document, and nothing is left over. -/
theorem readSource_text {j : Json} (hj : j.IsExact) :
    readSource j.text = ⟨Document.ofJson j, true⟩ := by
  have hread : readValue (3 * j.chars.length + 3) j.chars = (Document.ofJson j, some []) := by
    have h := readValue_chars hj (Nat.le_add_right _ 3) endsNumber_nil
    rwa [List.append_nil] at h
  unfold readSource text
  dsimp only
  rw [String.toList_ofList, hread]
  rfl

end Json

end Provenance

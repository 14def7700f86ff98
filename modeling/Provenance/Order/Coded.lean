/-
Codes: one way to order everything.

The sets and maps of this library list their members in order, so that two sets with the same
members are the same set and have the same text. The order of a type is given by a code, a
sequence of numbers, and codes are compared like words in a dictionary. A code must be
self-delimiting: it can be told where it ends inside a longer sequence. Codes of parts can then be
written one after the other, and the code of the whole is self-delimiting again.

The file holds the class, the order a code induces, and the codes of numbers, texts, lists, pairs
and optional values. Types of the domain give their codes where they are defined.
-/
set_option autoImplicit false

namespace Provenance

/-- A type whose elements have self-delimiting codes. -/
class Coded (α : Type) where
  /-- The sequence of numbers that stands for an element. -/
  code : α → List Nat
  /-- A code can be split off a longer sequence in one way only. -/
  code_append_inj : ∀ {a b : α} {x y : List Nat}, code a ++ x = code b ++ y → a = b ∧ x = y

namespace Coded

variable {α : Type} [Coded α]

theorem code_injective {a b : α} (h : code a = code b) : a = b :=
  (code_append_inj (x := []) (y := []) (by simp [h])).1

theorem code_inj {a b : α} : code a = code b ↔ a = b :=
  ⟨code_injective, fun h => h ▸ rfl⟩

/-- Elements can be told apart by their codes. -/
@[reducible] def decEq (a b : α) : Decidable (a = b) :=
  decidable_of_iff (code a = code b) code_inj

/-! ## The order of codes -/

/-- The order of a type: its codes compared number by number, a shorter code before a longer one
that it begins. -/
def Before (a b : α) : Prop := code a < code b

instance (a b : α) : Decidable (Before a b) := inferInstanceAs (Decidable (code a < code b))

theorem Before.irrefl (a : α) : ¬ Before a a := List.lt_irrefl (code a)

theorem Before.trans {a b c : α} (h : Before a b) (k : Before b c) : Before a c :=
  List.lt_trans h k

theorem Before.asymm {a b : α} (h : Before a b) : ¬ Before b a := List.lt_asymm h

/-- Two elements of which neither comes first are the same. -/
theorem eq_of_not_before {a b : α} (h : ¬ Before a b) (k : ¬ Before b a) : a = b :=
  code_injective (List.le_antisymm (List.not_lt.1 k) (List.not_lt.1 h))

theorem Before.ne {a b : α} (h : Before a b) : a ≠ b := fun e => Before.irrefl b (e ▸ h)

end Coded

/-! ## Codes of numbers, texts, lists, pairs and optional values -/

instance : Coded Nat where
  code n := [n]
  code_append_inj h := by simpa using h

/-- A list is coded element by element, each behind a 1, and closed by a 0. -/
def codeList {α : Type} [Coded α] : List α → List Nat
  | [] => [0]
  | a :: rest => 1 :: (Coded.code a ++ codeList rest)

theorem codeList_append_inj {α : Type} [Coded α] {l m : List α} {x y : List Nat}
    (h : codeList l ++ x = codeList m ++ y) : l = m ∧ x = y := by
  induction l generalizing m with
  | nil =>
    cases m with
    | nil => simpa [codeList] using h
    | cons b m => simp [codeList] at h
  | cons a l ih =>
    cases m with
    | nil => simp [codeList] at h
    | cons b m =>
      simp only [codeList, List.cons_append, List.cons.injEq, true_and, List.append_assoc] at h
      obtain ⟨hab, hl⟩ := Coded.code_append_inj h
      obtain ⟨hlm, hxy⟩ := ih hl
      exact ⟨by rw [hab, hlm], hxy⟩

instance {α : Type} [Coded α] : Coded (List α) := ⟨codeList, codeList_append_inj⟩

/-- Characters are closed by a 0, so each is moved up by one. -/
def codeChars : List Char → List Nat
  | [] => [0]
  | c :: rest => (c.toNat + 1) :: codeChars rest

theorem codeChars_append_inj {l m : List Char} {x y : List Nat}
    (h : codeChars l ++ x = codeChars m ++ y) : l = m ∧ x = y := by
  induction l generalizing m with
  | nil =>
    cases m with
    | nil => simpa [codeChars] using h
    | cons b m => simp [codeChars] at h
  | cons a l ih =>
    cases m with
    | nil => simp [codeChars] at h
    | cons b m =>
      simp only [codeChars, List.cons_append, List.cons.injEq, Nat.add_right_cancel_iff] at h
      obtain ⟨hab, h⟩ := h
      obtain ⟨rfl, rfl⟩ := ih h
      exact ⟨by rw [Char.ext (UInt32.toNat_inj.1 hab)], rfl⟩

/-- Texts come in the order of their characters' code points. -/
instance : Coded String where
  code s := codeChars s.toList
  code_append_inj h :=
    let ⟨h, k⟩ := codeChars_append_inj h
    ⟨String.toList_injective h, k⟩

instance {α β : Type} [Coded α] [Coded β] : Coded (α × β) where
  code p := Coded.code p.1 ++ Coded.code p.2
  code_append_inj {a b x y} h := by
    simp only [List.append_assoc] at h
    obtain ⟨h₁, h⟩ := Coded.code_append_inj h
    obtain ⟨h₂, h⟩ := Coded.code_append_inj h
    exact ⟨Prod.ext h₁ h₂, h⟩

/-- No value comes before every value. -/
instance {α : Type} [Coded α] : Coded (Option α) where
  code
    | none => [0]
    | some a => 1 :: Coded.code a
  code_append_inj {a b x y} h := by
    cases a <;> cases b
    · simpa using h
    · simp at h
    · simp at h
    · simp only [List.cons_append, List.cons.injEq, true_and] at h
      obtain ⟨hab, hxy⟩ := Coded.code_append_inj h
      exact ⟨by rw [hab], hxy⟩

end Provenance

/-
The types of the virtual machine.

A type is what a descriptor names: void, a primitive, a class or interface, an array or a method.
Two more types have no descriptor: that of the null constant, and that of the address a subroutine
call pushes. The file holds the types, their width, their text and their order.
-/
import Provenance.Order.Coded

set_option autoImplicit false

namespace Provenance

/-- The type of a value, a field or a method. -/
inductive JType where
  | void | boolean | char | byte | short | int | float | long | double
  /-- A class or interface, by its internal name, such as `java/lang/String`. -/
  | object (name : String)
  | array (element : JType)
  | method (arguments : List JType) (result : JType)
  | null
  | returnAddress
deriving Inhabited

namespace JType

/-- How many slots a value of the type takes. -/
def size : JType → Nat
  | void => 0
  | long | double => 2
  | _ => 1

/-! ## Text -/

mutual

/-- The descriptor of a type; the two types without one have names of their own. -/
def chars : JType → List Char
  | void => ['V']
  | boolean => ['Z']
  | char => ['C']
  | byte => ['B']
  | short => ['S']
  | int => ['I']
  | float => ['F']
  | long => ['J']
  | double => ['D']
  | object name => 'L' :: name.toList ++ [';']
  | array element => '[' :: element.chars
  | method arguments result => '(' :: charsOfAll arguments ++ ')' :: result.chars
  | null => "null".toList
  | returnAddress => "retaddr".toList

/-- The descriptors of several types, one after the other. -/
def charsOfAll : List JType → List Char
  | [] => []
  | t :: rest => t.chars ++ charsOfAll rest

end

/-- The text of a type. -/
def text (t : JType) : String := String.ofList t.chars

/-- The arguments of a method type. -/
def arguments? : JType → Option (List JType)
  | method arguments _ => some arguments
  | _ => none

/-- The result of a method type. -/
def result? : JType → Option JType
  | method _ result => some result
  | _ => none

/-! ## Order

Types come in the order in which they are listed above. Classes come in the order of their names,
arrays in that of their elements, methods in that of their arguments and then of their results. -/

mutual

/-- The code of a type: its place in the list, then its parts. -/
def code : JType → List Nat
  | void => [1]
  | boolean => [2]
  | char => [3]
  | byte => [4]
  | short => [5]
  | int => [6]
  | float => [7]
  | long => [8]
  | double => [9]
  | object name => 10 :: Coded.code name
  | array element => 11 :: element.code
  | method arguments result => 12 :: (codeOfAll arguments ++ result.code)
  | null => [13]
  | returnAddress => [14]

/-- The code of a list of types. Codes of types begin above 0, which closes the list. -/
def codeOfAll : List JType → List Nat
  | [] => [0]
  | t :: rest => t.code ++ codeOfAll rest

end

theorem code_eq_cons (t : JType) : ∃ n rest, t.code = (n + 1) :: rest := by
  cases t <;> simp [code]

mutual

theorem code_append_inj {t u : JType} {x y : List Nat} (h : t.code ++ x = u.code ++ y) :
    t = u ∧ x = y := by
  cases t with
  | object name =>
    cases u <;> simp [code] at h
    rename_i other
    obtain ⟨e, k⟩ := Coded.code_append_inj h
    exact ⟨by rw [e], k⟩
  | array element =>
    cases u <;> simp [code] at h
    rename_i other
    obtain ⟨e, k⟩ := code_append_inj h
    exact ⟨by rw [e], k⟩
  | method arguments result =>
    cases u <;> simp only [code, List.cons_append, List.cons.injEq, List.append_assoc,
      List.nil_append, Nat.reduceEqDiff, false_and] at h
    rename_i otherArguments otherResult
    obtain ⟨e, k⟩ := codeOfAll_append_inj h.2
    obtain ⟨e', k'⟩ := code_append_inj k
    exact ⟨by rw [e, e'], k'⟩
  | _ =>
    cases u <;> simp [code] at h
    exact ⟨rfl, h⟩

theorem codeOfAll_append_inj {l m : List JType} {x y : List Nat}
    (h : codeOfAll l ++ x = codeOfAll m ++ y) : l = m ∧ x = y := by
  cases l with
  | nil =>
    cases m with
    | nil => simpa [codeOfAll] using h
    | cons u m =>
      obtain ⟨n, rest, e⟩ := code_eq_cons u
      simp [codeOfAll, e] at h
  | cons t l =>
    cases m with
    | nil =>
      obtain ⟨n, rest, e⟩ := code_eq_cons t
      simp [codeOfAll, e] at h
    | cons u m =>
      simp only [codeOfAll, List.append_assoc] at h
      obtain ⟨e, k⟩ := code_append_inj h
      obtain ⟨e', k'⟩ := codeOfAll_append_inj k
      exact ⟨by rw [e, e'], k'⟩

end

instance : Coded JType := ⟨code, code_append_inj⟩

instance : DecidableEq JType := Coded.decEq

end JType

end Provenance

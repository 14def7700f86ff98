/-
The grammar of descriptors.

A field type is a primitive, a class whose name can stand before a semicolon, or an array of a field
type. A descriptor names a field type, or a method type over field types whose result may also be
void. These are the types whose text can be read (`Descriptor.parse_eq_ok_iff`): reading a text
succeeds exactly if it is the text of such a type, and answers that type. So nothing else is accepted
and no two types share a descriptor.

A reader takes a part of a text and leaves the rest, so each of them is described by what it takes: the
text is what the type is written as, followed by what is left. What may be left is not restricted,
because a field descriptor says itself where it ends.
-/
import Provenance.Bytecode.Descriptor
import Provenance.Traced

set_option autoImplicit false

namespace Provenance

namespace JType

/-- The types that are written as one letter, void apart. -/
def primitives : List JType := [boolean, char, byte, short, int, float, long, double]

/-- A type that a field descriptor names. -/
inductive IsField : JType → Prop
  | primitive {t : JType} (h : t ∈ primitives) : IsField t
  /-- The name ends at the first semicolon, and there must be one. -/
  | object {name : String} (hne : name ≠ "") (hsemicolon : ';' ∉ name.toList) :
    IsField (object name)
  | array {element : JType} (h : IsField element) : IsField (array element)

/-- A type that a method descriptor names. -/
inductive IsMethod : JType → Prop
  | method {arguments : List JType} {result : JType} (ha : ∀ t ∈ arguments, t.IsField)
    (hr : result = void ∨ result.IsField) : IsMethod (method arguments result)

/-- A type that a descriptor of either kind names. -/
def IsDescriptor (t : JType) : Prop := t.IsField ∨ t.IsMethod

/-- What a field type is written as begins neither like a method nor like the end of its
arguments. -/
theorem IsField.exists_cons {t : JType} (h : t.IsField) :
    ∃ c rest, t.chars = c :: rest ∧ c ≠ '(' ∧ c ≠ ')' := by
  cases h with
  | primitive h =>
    simp only [primitives, List.mem_cons, List.not_mem_nil, or_false] at h
    rcases h with rfl | rfl | rfl | rfl | rfl | rfl | rfl | rfl <;>
      exact ⟨_, [], rfl, by decide, by decide⟩
  | object => exact ⟨'L', _, rfl, by decide, by decide⟩
  | array => exact ⟨'[', _, rfl, by decide, by decide⟩

/-- Void is no field type, and no field type is written like it. -/
theorem IsField.chars_ne_void {t : JType} (h : t.IsField) : t.chars ≠ ['V'] := by
  intro hv
  cases h with
  | primitive h =>
    simp only [primitives, List.mem_cons, List.not_mem_nil, or_false] at h
    rcases h with rfl | rfl | rfl | rfl | rfl | rfl | rfl | rfl <;>
      exact absurd hv (by decide)
  | object => exact absurd (List.cons.inj hv).1 (by decide)
  | array => exact absurd (List.cons.inj hv).1 (by decide)

/-- A class is written with its name up to the semicolon, whatever follows. -/
theorem chars_object_append (name : String) (rest : List Char) :
    (object name).chars ++ rest = 'L' :: (name.toList ++ ';' :: rest) := by
  show 'L' :: (name.toList ++ [';']) ++ rest = _
  rw [List.cons_append, List.append_assoc]
  rfl

end JType

namespace Descriptor

open JType

/-! ## Letters and names -/

/-- The letters are what primitives are written as. -/
theorem primitive?_eq_some {c : Char} {t : JType} :
    primitive? c = some t ↔ t ∈ primitives ∧ t.chars = [c] := by
  constructor
  · intro h
    unfold primitive? at h
    split at h <;> simp only [Option.some.injEq, reduceCtorEq] at h <;> subst h <;>
      exact ⟨by simp [primitives], rfl⟩
  · rintro ⟨h, hc⟩
    simp only [primitives, List.mem_cons, List.not_mem_nil, or_false] at h
    rcases h with rfl | rfl | rfl | rfl | rfl | rfl | rfl | rfl <;>
      exact (List.cons.inj hc).1 ▸ rfl

/-- The first semicolon is the one with none before it. -/
theorem splitAtSemicolon_eq_some {text name rest : List Char} :
    splitAtSemicolon text = some (name, rest) ↔ ';' ∉ name ∧ text = name ++ ';' :: rest := by
  induction text generalizing name with
  | nil => simp [splitAtSemicolon]
  | cons c text ih =>
    by_cases hc : c = ';'
    · subst hc
      have hsplit : splitAtSemicolon (';' :: text) = some ([], text) := rfl
      rw [hsplit]
      constructor
      · intro h
        obtain ⟨rfl, rfl⟩ := Prod.mk.inj (Option.some.inj h)
        exact ⟨List.not_mem_nil, rfl⟩
      · rintro ⟨hname, h⟩
        -- a name with a first character would have the semicolon in it
        cases name with
        | nil =>
          obtain ⟨-, rfl⟩ := List.cons.inj h
          rfl
        | cons d name =>
          obtain ⟨rfl, -⟩ := List.cons.inj h
          exact absurd List.mem_cons_self hname
    · have hsplit : splitAtSemicolon (c :: text)
          = (splitAtSemicolon text).map fun p => (c :: p.1, p.2) := by
        rw [splitAtSemicolon]
        exact hc
      rw [hsplit, Option.map_eq_some_iff]
      constructor
      · rintro ⟨⟨name', rest'⟩, h, he⟩
        obtain ⟨rfl, rfl⟩ := Prod.mk.inj he
        obtain ⟨hname, rfl⟩ := ih.1 h
        refine ⟨?_, rfl⟩
        rw [List.mem_cons, not_or]
        exact ⟨Ne.symm hc, hname⟩
      · rintro ⟨hname, h⟩
        cases name with
        | nil => exact absurd (List.cons.inj h).1 hc
        | cons d name =>
          obtain ⟨rfl, rfl⟩ := List.cons.inj h
          rw [List.mem_cons, not_or] at hname
          exact ⟨(name, rest), ih.2 ⟨hname.2, rfl⟩, rfl⟩

/-! ## Field descriptors -/

/-- What a field type is written as is read back, whatever follows. -/
theorem readField_chars {t : JType} (h : t.IsField) (rest : List Char) :
    readField (t.chars ++ rest) = .ok (t, rest) := by
  induction h with
  | primitive h =>
    simp only [primitives, List.mem_cons, List.not_mem_nil, or_false] at h
    rcases h with rfl | rfl | rfl | rfl | rfl | rfl | rfl | rfl <;> rfl
  | @object name hne hsemicolon =>
    have hsplit : splitAtSemicolon (name.toList ++ ';' :: rest) = some (name.toList, rest) :=
      splitAtSemicolon_eq_some.2 ⟨hsemicolon, rfl⟩
    have hchars : (object name).chars ++ rest = 'L' :: (name.toList ++ ';' :: rest) :=
      chars_object_append name rest
    have hname : name.toList ≠ [] := by
      intro h
      exact hne (String.toList_eq_nil_iff.1 h)
    rw [hchars, readField, hsplit]
    cases hc : name.toList with
    | nil => exact absurd hc hname
    | cons c cs =>
      dsimp only
      rw [← hc, String.ofList_toList]
  | @array element _ ih =>
    have hchars : (array element).chars ++ rest = '[' :: (element.chars ++ rest) := rfl
    rw [hchars, readField, ih]
    rfl

/-- What is read is a field type, and the text is what that type is written as, followed by what is
left. -/
theorem of_readField {text rest : List Char} {t : JType} (h : readField text = .ok (t, rest)) :
    t.IsField ∧ text = t.chars ++ rest := by
  fun_induction readField text generalizing t rest with
  | case1 => cases h
  | case2 => cases h
  | case3 => cases h
  | case4 rest' name behind hne hs =>
    obtain ⟨rfl, rfl⟩ := Prod.mk.inj (Except.ok.inj h)
    obtain ⟨hname, rfl⟩ := splitAtSemicolon_eq_some.1 hs
    have hnonempty : String.ofList name ≠ "" := by
      intro he
      have hnil : name = [] := by
        rw [← String.toList_ofList (l := name), he]
        rfl
      exact hne hnil
    have hsemicolon : ';' ∉ (String.ofList name).toList := by
      rw [String.toList_ofList]
      exact hname
    refine ⟨.object hnonempty hsemicolon, ?_⟩
    rw [chars_object_append, String.toList_ofList]
  | case5 rest' ih =>
    obtain ⟨⟨element, behind⟩, hr, h⟩ := bind_eq_ok.1 h
    obtain ⟨rfl, rfl⟩ := Prod.mk.inj (Except.ok.inj h)
    obtain ⟨hfield, rfl⟩ := ih hr
    exact ⟨.array hfield, rfl⟩
  | case6 c rest' t' _ _ hp =>
    obtain ⟨rfl, rfl⟩ := Prod.mk.inj (Except.ok.inj h)
    obtain ⟨hmem, hchars⟩ := primitive?_eq_some.1 hp
    rw [hchars]
    exact ⟨.primitive hmem, rfl⟩
  | case7 => cases h

/-- Reading a field descriptor takes exactly what a field type is written as. -/
theorem readField_eq_ok {text rest : List Char} {t : JType} :
    readField text = .ok (t, rest) ↔ t.IsField ∧ text = t.chars ++ rest := by
  constructor
  · exact of_readField
  · rintro ⟨h, rfl⟩
    exact readField_chars h rest

/-! ## Method descriptors -/

/-- Before the closing parenthesis the arguments are read one by one. -/
theorem readArguments_cons {whole rest : List Char} {c : Char} (hc : c ≠ ')') :
    readArguments whole (c :: rest) = (do
      let (t, behind) ← readField (c :: rest)
      let (arguments, behind) ← readArguments whole behind
      return (t :: arguments, behind)) := by
  rw [readArguments]
  · split
    · rename_i e he
      rw [he]
      rfl
    · rename_i t behind ht
      -- the proof that less is left stands in the way of rewriting
      dsimp only
      rw [ht]
      show _ = (readArguments whole behind >>= _)
      cases readArguments whole behind <;> rfl
  · exact hc

theorem readArguments_chars {whole rest : List Char} {arguments : List JType}
    (h : ∀ t ∈ arguments, t.IsField) :
    readArguments whole (charsOfAll arguments ++ ')' :: rest) = .ok (arguments, rest) := by
  induction arguments with
  | nil =>
    rw [charsOfAll, List.nil_append, readArguments]
  | cons t arguments ih =>
    have ht : t.IsField := h t List.mem_cons_self
    have hread : readField (t.chars ++ (charsOfAll arguments ++ ')' :: rest))
        = .ok (t, charsOfAll arguments ++ ')' :: rest) := readField_chars ht _
    have hrest := ih fun u hu => h u (List.mem_cons_of_mem _ hu)
    obtain ⟨c, cs, hchars, -, hc⟩ := ht.exists_cons
    rw [charsOfAll, List.append_assoc]
    rw [hchars, List.cons_append] at hread ⊢
    rw [readArguments_cons hc, hread]
    show (readArguments whole _ >>= _) = _
    rw [hrest]
    rfl

theorem of_readArguments {whole text rest : List Char} {arguments : List JType}
    (h : readArguments whole text = .ok (arguments, rest)) :
    (∀ t ∈ arguments, t.IsField) ∧ text = charsOfAll arguments ++ ')' :: rest := by
  fun_induction readArguments whole text generalizing arguments rest with
  | case1 => cases h
  | case2 rest' =>
    obtain ⟨rfl, rfl⟩ := Prod.mk.inj (Except.ok.inj h)
    exact ⟨List.forall_mem_nil _, rfl⟩
  | case3 => cases h
  | case4 => cases h
  | case5 c rest' _ t behind hread _ others behind' hothers ih =>
    obtain ⟨rfl, rfl⟩ := Prod.mk.inj (Except.ok.inj h)
    obtain ⟨hfields, rfl⟩ := ih hothers
    obtain ⟨ht, hchars⟩ := of_readField hread
    refine ⟨List.forall_mem_cons.2 ⟨ht, hfields⟩, ?_⟩
    rw [hchars, charsOfAll, List.append_assoc]

/-- Reading the result takes what is left, as long as that is the whole of it. -/
theorem readResult_eq_ok {whole text : List Char} {t : JType} :
    readResult whole text = .ok t ↔ (t = void ∨ t.IsField) ∧ text = t.chars := by
  unfold readResult
  by_cases hv : text = ['V']
  · rw [if_pos hv]
    constructor
    · intro h
      obtain rfl := Except.ok.inj h
      exact ⟨.inl rfl, hv⟩
    · rintro ⟨rfl | ht, h⟩
      · rfl
      · exact absurd (h.symm.trans hv) ht.chars_ne_void
  · rw [if_neg hv]
    constructor
    · intro h
      split at h
      · cases h
      · rename_i u hread
        obtain rfl := Except.ok.inj h
        obtain ⟨hu, rfl⟩ := of_readField hread
        rw [List.append_nil]
        exact ⟨.inr hu, rfl⟩
      · cases h
    · rintro ⟨rfl | ht, rfl⟩
      · exact absurd rfl hv
      · have hread : readField t.chars = .ok (t, []) := by
          have := readField_chars ht []
          rwa [List.append_nil] at this
        rw [hread]

/-- Reading a method descriptor takes exactly what a method type is written as. -/
theorem readMethod_eq_ok {text : List Char} {t : JType} :
    readMethod text = .ok t ↔ t.IsMethod ∧ text = t.chars := by
  constructor
  · intro h
    unfold readMethod at h
    split at h
    · rename_i rest
      split at h
      · cases h
      · rename_i arguments behind hread
        split at h
        · cases h
        · rename_i result hresult
          obtain rfl := Except.ok.inj h
          obtain ⟨ha, rfl⟩ := of_readArguments hread
          obtain ⟨hr, rfl⟩ := readResult_eq_ok.1 hresult
          exact ⟨.method ha hr, rfl⟩
    · cases h
  · rintro ⟨@⟨arguments, result, ha, hr⟩, rfl⟩
    have hchars : (method arguments result).chars
        = '(' :: (charsOfAll arguments ++ ')' :: result.chars) := rfl
    rw [hchars, readMethod, readArguments_chars ha]
    dsimp only
    rw [readResult_eq_ok.2 ⟨hr, rfl⟩]

/-- Reading a descriptor takes exactly what a type that has one is written as. -/
theorem read_eq_ok {text : List Char} {t : JType} :
    read text = .ok t ↔ t.IsDescriptor ∧ text = t.chars := by
  unfold read
  split
  · -- only method types are written with a parenthesis first
    rename_i rest
    rw [readMethod_eq_ok]
    constructor
    · rintro ⟨h, hchars⟩
      exact ⟨.inr h, hchars⟩
    · rintro ⟨h | h, hchars⟩
      · obtain ⟨c, cs, hcons, hc, -⟩ := h.exists_cons
        rw [hcons] at hchars
        exact absurd (List.cons.inj hchars).1.symm hc
      · exact ⟨h, hchars⟩
  · rename_i hparen
    constructor
    · intro h
      split at h
      · cases h
      · rename_i u hread
        obtain rfl := Except.ok.inj h
        obtain ⟨hu, rfl⟩ := of_readField hread
        rw [List.append_nil]
        exact ⟨.inl hu, rfl⟩
      · cases h
    · rintro ⟨h | h, rfl⟩
      · have hread : readField t.chars = .ok (t, []) :=
          readField_eq_ok.2 ⟨h, (List.append_nil _).symm⟩
        rw [hread]
      · cases h
        exact absurd rfl (hparen _)

/-! ## Descriptors -/

/-- A text is read as a type exactly if the type can be named by a descriptor and the text is that of
the type; as a method type, exactly if the type is a method type besides. -/
theorem parse_eq_ok_iff (d : String) (t : JType) :
    (parse d = .ok t ↔ t.IsDescriptor ∧ t.text = d) ∧
      (parseMethod d = .ok t ↔ t.IsMethod ∧ t.text = d) := by
  have htext : d.toList = t.chars ↔ t.text = d := by
    constructor
    · intro h
      unfold JType.text
      rw [← h, String.ofList_toList]
    · intro h
      rw [← h]
      exact String.toList_ofList
  constructor
  · rw [← htext]
    exact read_eq_ok
  · rw [← htext]
    exact readMethod_eq_ok

/-- A class name may hold any character but a semicolon. -/
example : (parse "([La)b(é;)V").toOption = some (.method [.array (.object "a)b(é")] .void) := by
  decide +kernel

end Descriptor

end Provenance

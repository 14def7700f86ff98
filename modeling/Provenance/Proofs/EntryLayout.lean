/-
Where the arguments of a method lie.

The receiver of an instance method enters in the first local and the arguments behind it, each behind
all locals of those before it. `Begins` says in which local an argument begins, by the arguments that
come before it; the frame at the entry holds the argument there and nothing anywhere else
(`Analyzer.initialFrame_layout`).

The entry fails if there are too few locals, but with one exception: only the first local of a wide
argument is written, so the second half of the last argument may lie behind the locals (`HalfOut`).
A store of the same value is refused there.
-/
import Provenance.Proofs.Justification
import Provenance.Proofs.StackEffects

set_option autoImplicit false

namespace Provenance

/-! ## Values that lie one behind the other -/

/-- The last of the values is wide, and the locals end between its halves. -/
def HalfOut (types : List JType) (first size : Nat) : Prop :=
  ∃ before t, types = before ++ [t] ∧ t.size = 2 ∧ first + localsTaken before + 1 = size

section Begins

variable {types : List JType} {first index size : Nat} {t u : JType}

theorem localsTaken_append (before behind : List JType) :
    localsTaken (before ++ behind) = localsTaken before + localsTaken behind := by
  induction before with
  | nil => rw [List.nil_append, localsTaken, Nat.zero_add]
  | cons t before ih => rw [List.cons_append, localsTaken, localsTaken, ih, Nat.add_assoc]

theorem not_begins_nil : ¬ Begins [] first index t := by
  rintro ⟨before, behind, h, -⟩
  cases before <;> cases h

theorem Begins.le (h : Begins types first index t) : first ≤ index := by
  obtain ⟨before, behind, -, rfl⟩ := h
  exact Nat.le_add_right _ _

/-- No value begins behind the last one. -/
theorem Begins.le_last {before : List JType} (h : Begins (before ++ [u]) first index t) :
    index ≤ first + localsTaken before := by
  obtain ⟨before', behind, h, rfl⟩ := h
  rcases List.eq_nil_or_concat behind with rfl | ⟨between, v, rfl⟩
  · obtain ⟨rfl, -⟩ := List.append_inj' h rfl
    exact Nat.le_refl _
  · have h' : before ++ [u] = (before' ++ t :: between) ++ [v] := by
      rw [h, List.concat_eq_append, List.append_assoc, List.cons_append]
    obtain ⟨rfl, -⟩ := List.append_inj' h' rfl
    rw [localsTaken_append]
    omega

/-- All values begin within the locals exactly if they all have room or the last one is half out. -/
theorem begin_within_iff (htypes : ∀ t ∈ types, t ≠ .void) (hfirst : first ≤ size) :
    (∀ index t, Begins types first index t → index < size) ↔
      first + localsTaken types ≤ size ∨ HalfOut types first size := by
  rcases List.eq_nil_or_concat types with rfl | ⟨before, u, rfl⟩
  · exact ⟨fun _ => .inl hfirst, fun _ _ _ h => absurd h not_begins_nil⟩
  rw [List.concat_eq_append] at htypes ⊢
  have hlast : (∀ index t, Begins (before ++ [u]) first index t → index < size) ↔
      first + localsTaken before < size :=
    ⟨fun h => h _ u ⟨before, [], rfl, rfl⟩, fun h _ _ hb => Nat.lt_of_le_of_lt hb.le_last h⟩
  have hhalf : HalfOut (before ++ [u]) first size ↔
      u.size = 2 ∧ first + localsTaken before + 1 = size := by
    constructor
    · rintro ⟨before', t, h, hwide, hsize⟩
      obtain ⟨rfl, hlast⟩ := List.append_inj' h rfl
      obtain rfl := List.singleton_inj.1 hlast
      exact ⟨hwide, hsize⟩
    · rintro ⟨hwide, hsize⟩
      exact ⟨before, u, rfl, hwide, hsize⟩
  have htaken : localsTaken (before ++ [u]) = localsTaken before + u.size :=
    localsTaken_append before [u]
  have hu := JType.size_of_ne_void (htypes u (by simp))
  rw [hlast, hhalf, htaken]
  omega

end Begins

/-- An argument is never void. -/
theorem Method.ne_void_of_argumentTypes {m : Method} {arguments : List JType}
    (h : m.argumentTypes = .ok arguments) : ∀ t ∈ arguments, t ≠ .void := by
  obtain ⟨type, htype, h⟩ := bind_eq_ok.1 h
  obtain rfl := Except.ok.inj h
  obtain ⟨hmethod, -⟩ := Descriptor.readMethod_eq_ok.1 htype
  cases hmethod with
  | method ha hr => exact fun t ht => JType.IsDescriptor.ne_void (.inl (ha t ht))

namespace Analyzer

variable {A : Analyzer PossibleValues}

/-! ## Arguments that enter -/

/-- Values of some types have come into being in the locals where they begin, and nothing else has
changed. -/
structure Entered (types : List JType) (first : Nat) (f g : Frame PossibleValues) : Prop where
  size : g.locals.length = f.locals.length
  stack : g.stack = f.stack
  held : ∀ index t, Begins types first index t →
    g.local? index = some (.single ⟨.parameter index, t⟩)
  kept : ∀ index, (∀ t, ¬ Begins types first index t) → g.local? index = f.local? index

variable {types : List JType} {first : Nat} {f g : Frame PossibleValues}

theorem newValue_of_ne_void (hI : A.interpreter = .possibleValues) {t : JType} (ht : t ≠ .void)
    (origin : Origin) : A.interpreter.newValue t origin = .ok (some (.single ⟨origin, t⟩)) := by
  rw [hI]
  exact congrArg Except.ok (if_neg ht)

/-- Values enter exactly if the locals where they begin are there. -/
theorem exists_seed_iff (hI : A.interpreter = .possibleValues) (htypes : ∀ t ∈ types, t ≠ .void) :
    (∃ g, A.seed types first f = .ok g) ↔
      ∀ index t, Begins types first index t → index < f.locals.length := by
  induction types generalizing first f with
  | nil => exact ⟨fun _ _ _ h => absurd h not_begins_nil, fun _ => ⟨f, rfl⟩⟩
  | cons u rest ih =>
    obtain ⟨hu, hrest⟩ := List.forall_mem_cons.1 htypes
    simp only [seed_cons_eq_ok, newValue_of_ne_void hI hu]
    constructor
    · rintro ⟨g, v, -, hlt, h⟩ index t hb
      rcases begins_cons.1 hb with ⟨rfl, -⟩ | hb
      · exact hlt
      · have hwithin := (ih hrest).1 ⟨g, h⟩ index t hb
        rwa [List.length_set] at hwithin
    · intro h
      have hlt : first < f.locals.length := h first u (begins_cons.2 (.inl ⟨rfl, rfl⟩))
      let f' := { f with locals := f.locals.set first (some (.single ⟨.parameter first, u⟩)) }
      have hwithin : ∀ index t, Begins rest (first + u.size) index t →
          index < f'.locals.length := by
        intro index t hb
        rw [List.length_set]
        exact h index t (begins_cons.2 (.inr hb))
      obtain ⟨g, hg⟩ := (ih hrest).2 hwithin
      exact ⟨g, _, rfl, hlt, hg⟩

/-- Values that enter lie where they begin. -/
theorem entered_of_seed (hI : A.interpreter = .possibleValues) (htypes : ∀ t ∈ types, t ≠ .void)
    (h : A.seed types first f = .ok g) : Entered types first f g := by
  induction types generalizing first f with
  | nil =>
    obtain rfl := Except.ok.inj h
    exact ⟨rfl, rfl, fun _ _ hb => absurd hb not_begins_nil, fun _ _ => rfl⟩
  | cons u rest ih =>
    obtain ⟨hu, hrest⟩ := List.forall_mem_cons.1 htypes
    obtain ⟨v, hv, hlt, h⟩ := seed_cons_eq_ok.1 h
    rw [newValue_of_ne_void hI hu] at hv
    obtain rfl := Except.ok.inj hv
    have hentered := ih hrest h
    have hsize := JType.size_of_ne_void hu
    refine ⟨hentered.size.trans List.length_set, hentered.stack, fun index t hb => ?_,
      fun index hb => ?_⟩
    · rcases begins_cons.1 hb with ⟨rfl, rfl⟩ | hb
      · -- the others begin behind it
        rw [hentered.kept index fun t' hb' => by have := hb'.le; omega, Frame.local?_set hlt,
          if_pos rfl]
      · exact hentered.held index t hb
    · have hne : index ≠ first := fun h => hb u (begins_cons.2 (.inl ⟨h, rfl⟩))
      rw [hentered.kept index fun t hb' => hb t (begins_cons.2 (.inr hb')), Frame.local?_set hlt,
        if_neg hne]

end Analyzer

/-! ## The frame at the entry -/

namespace Method

/-- The local of the first argument; the receiver of an instance method takes the one before. -/
def firstArgument (m : Method) : Nat := if m.isStatic then 0 else 1

/-- The receiver and the arguments of a method lie where they enter, and nothing else is in the
frame. -/
structure EntryLayout (m : Method) (arguments : List JType) (f : Frame PossibleValues) : Prop where
  size : f.locals.length = m.maxLocals
  stack : f.stack = []
  receiver : m.isStatic = false → f.local? 0 = some (.single ⟨.parameter 0, .object m.owner⟩)
  argument : ∀ index t, Begins arguments m.firstArgument index t →
    f.local? index = some (.single ⟨.parameter index, t⟩)
  unset : ∀ index, (m.isStatic = false → index ≠ 0) →
    (∀ t, ¬ Begins arguments m.firstArgument index t) → f.local? index = none

/-- What enters a method with some arguments. -/
def entering (m : Method) (arguments : List JType) : List JType :=
  if m.isStatic then arguments else .object m.owner :: arguments

/-- The receiver begins in the first local, and the arguments behind it. -/
theorem begins_entering {m : Method} {arguments : List JType} {index : Nat} {t : JType} :
    Begins (m.entering arguments) 0 index t ↔
      (m.isStatic = false ∧ index = 0 ∧ t = .object m.owner) ∨
        Begins arguments m.firstArgument index t := by
  unfold entering firstArgument
  cases m.isStatic with
  | true => simp
  | false =>
    rw [if_neg Bool.false_ne_true, if_neg Bool.false_ne_true, begins_cons]
    simp [JType.size]

theorem ne_void_of_mem_entering {m : Method} {arguments : List JType}
    (h : ∀ t ∈ arguments, t ≠ .void) : ∀ t ∈ m.entering arguments, t ≠ .void := by
  unfold entering
  split
  · exact h
  · exact List.forall_mem_cons.2 ⟨nofun, h⟩

/-- What enters begins within the locals exactly if there is room for it, or the last argument is
half out. -/
theorem entering_within_iff {m : Method} {arguments : List JType}
    (h : ∀ t ∈ arguments, t ≠ .void) :
    (∀ index t, Begins (m.entering arguments) 0 index t → index < m.maxLocals) ↔
      m.firstArgument + localsTaken arguments ≤ m.maxLocals ∨
        HalfOut arguments m.firstArgument m.maxLocals := by
  constructor
  · intro hwithin
    -- the receiver has room, so the arguments may begin behind it
    have hfirst : m.firstArgument ≤ m.maxLocals := by
      unfold firstArgument
      cases hstatic : m.isStatic with
      | true => exact Nat.zero_le _
      | false => exact hwithin 0 _ (begins_entering.2 (.inl ⟨hstatic, rfl, rfl⟩))
    exact (begin_within_iff h hfirst).1 fun index t hb =>
      hwithin index t (begins_entering.2 (.inr hb))
  · intro hroom index t hb
    have hfirst : m.firstArgument ≤ m.maxLocals := by
      rcases hroom with hroom | ⟨before, u, -, -, hsize⟩ <;> omega
    rcases begins_entering.1 hb with ⟨hstatic, rfl, -⟩ | hb
    · unfold firstArgument at hfirst
      rw [hstatic, if_neg Bool.false_ne_true] at hfirst
      exact hfirst
    · exact (begin_within_iff h hfirst).2 hroom index t hb

end Method

namespace Analyzer

variable {A : Analyzer PossibleValues}

theorem initialFrame_eq {arguments : List JType} (h : A.method.argumentTypes = .ok arguments) :
    A.initialFrame = A.seed (A.method.entering arguments) 0
      (.blank A.method.maxLocals A.method.maxStack) := by
  unfold initialFrame entryTypes
  rw [h]
  rfl

/-- The frame at the entry exists exactly if the receiver and the arguments have room in the locals,
or all but the second half of the last argument has; and it holds each where it enters. -/
theorem initialFrame_layout (hI : A.interpreter = .possibleValues) {arguments : List JType}
    (harguments : A.method.argumentTypes = .ok arguments) :
    ((∃ f, A.initialFrame = .ok f) ↔
        A.method.firstArgument + localsTaken arguments ≤ A.method.maxLocals ∨
          HalfOut arguments A.method.firstArgument A.method.maxLocals) ∧
      ∀ f, A.initialFrame = .ok f → A.method.EntryLayout arguments f := by
  have hne := Method.ne_void_of_argumentTypes harguments
  have htypes := Method.ne_void_of_mem_entering (m := A.method) hne
  rw [initialFrame_eq harguments]
  constructor
  · rw [exists_seed_iff hI htypes, ← Method.entering_within_iff hne]
    have hsize : (Frame.blank A.method.maxLocals A.method.maxStack :
        Frame PossibleValues).locals.length = A.method.maxLocals := List.length_replicate
    rw [hsize]
  · intro f hf
    have hentered := entered_of_seed hI htypes hf
    refine ⟨hentered.size.trans List.length_replicate, hentered.stack, fun hstatic => ?_,
      fun index t hb => ?_, fun index hindex hb => ?_⟩
    · exact hentered.held 0 _ (Method.begins_entering.2 (.inl ⟨hstatic, rfl, rfl⟩))
    · exact hentered.held index t (Method.begins_entering.2 (.inr hb))
    · rw [hentered.kept index fun t ht => ?_, Frame.local?_blank]
      rcases Method.begins_entering.1 ht with ⟨hstatic, rfl, -⟩ | ht
      · exact hindex hstatic rfl
      · exact hb t ht

end Analyzer

namespace Method

/-- Takes a long number and another one besides the receiver. -/
def takesBoth : Method where
  owner := "Sample"
  name := "takesBoth"
  descriptor := "(JI)V"
  access := ⟨0⟩
  maxLocals := 5
  maxStack := 0
  instructions := [⟨0, .returnVoid, .none⟩]
  handlers := []

/-- Has one local, where a long number begins that takes two. -/
def halfOut : Method where
  owner := "Sample"
  name := "halfOut"
  descriptor := "(J)V"
  access := ⟨8⟩
  maxLocals := 1
  maxStack := 0
  instructions := [⟨0, .returnVoid, .none⟩]
  handlers := []

end Method

namespace Analyzer

/-- The number behind the long one is in local 3. -/
theorem initialFrame_layout_takesBoth :
    ∃ f, (⟨.takesBoth, .possibleValues, .identity, .void⟩ : Analyzer PossibleValues).initialFrame
        = .ok f ∧ f.local? 3 = some (.single ⟨.parameter 3, .int⟩) := by
  have harguments : Method.takesBoth.argumentTypes = .ok [.long, .int] :=
    eq_ok_of_toOption (by decide +kernel)
  obtain ⟨hexists, hlayout⟩ := initialFrame_layout
    (A := ⟨.takesBoth, .possibleValues, .identity, .void⟩) rfl harguments
  obtain ⟨f, hf⟩ := hexists.2 (.inl (by decide))
  exact ⟨f, hf, (hlayout f hf).argument 3 .int ⟨[.long], [], rfl, by decide⟩⟩

/-- One local is enough for a long argument, though not for a store of it. -/
theorem not_room_halfOut :
    Method.halfOut.argumentTypes = .ok [.long] ∧
      ¬ ((∃ f, (⟨.halfOut, .possibleValues, .identity, .void⟩ :
          Analyzer PossibleValues).initialFrame = .ok f) ↔
        Method.halfOut.firstArgument + localsTaken [.long] ≤ Method.halfOut.maxLocals) ∧
      (Frame.blank 1 0).store 0 (ValueSet.single (⟨.parameter 0, .long⟩ : Witness))
        = .error (.invalidLocal 1) := by
  refine ⟨eq_ok_of_toOption (by decide +kernel), fun h => ?_, rfl⟩
  have hroom := h.1 ⟨⟨[some (.single ⟨.parameter 0, .long⟩)], [], 0⟩,
    eq_ok_of_toOption (by decide +kernel)⟩
  exact absurd hroom (by decide)

end Analyzer

end Provenance

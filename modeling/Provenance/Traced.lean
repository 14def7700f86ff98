/-
Computations that leave a trace.

A traced computation has a list of things it did, in order, and ends in a value or in an error. What
was done before an error stays in the trace. Frames are executed and fixed points are run this way,
so that what was asked of an interpreter, or joined on the way, is a part of the answer and can be
reasoned about.
-/
set_option autoImplicit false

namespace Provenance

/-- A sequence succeeds if its parts do, one after the other. -/
theorem bind_eq_ok {ε α β : Type} {x : Except ε α} {f : α → Except ε β} {b : β} :
    x >>= f = .ok b ↔ ∃ a, x = .ok a ∧ f a = .ok b := by
  cases x with
  | error e => exact ⟨nofun, fun ⟨_, h, _⟩ => nomatch h⟩
  | ok a => exact ⟨fun h => ⟨a, rfl, h⟩, fun ⟨_, h, k⟩ => Except.ok.inj h ▸ k⟩

theorem map_eq_ok {ε α β : Type} {x : Except ε α} {f : α → β} {b : β} :
    x.map f = .ok b ↔ ∃ a, x = .ok a ∧ f a = b := by
  cases x with
  | error e => exact ⟨nofun, fun ⟨_, h, _⟩ => nomatch h⟩
  | ok a => exact ⟨fun h => ⟨a, rfl, Except.ok.inj h⟩, fun ⟨_, h, k⟩ => Except.ok.inj h ▸ k ▸ rfl⟩

/-- An outcome can be told by its value. -/
theorem eq_ok_of_toOption {ε α : Type} {x : Except ε α} {a : α} (h : x.toOption = some a) :
    x = .ok a := by
  cases x with
  | error e => cases h
  | ok b => exact congrArg Except.ok (Option.some.inj h)

/-- What a computation did, and how it ended. -/
structure Traced (κ ε α : Type) where
  trace : List κ
  outcome : Except ε α

namespace Traced

variable {κ ε α β : Type}

protected def pure (a : α) : Traced κ ε α := ⟨[], .ok a⟩

/-- One computation after another; an error ends both. -/
protected def bind (x : Traced κ ε α) (f : α → Traced κ ε β) : Traced κ ε β :=
  match x.outcome with
  | .error e => ⟨x.trace, .error e⟩
  | .ok a =>
    let y := f a
    ⟨x.trace ++ y.trace, y.outcome⟩

instance : Monad (Traced κ ε) where
  pure := Traced.pure
  bind := Traced.bind

instance : MonadExceptOf ε (Traced κ ε) where
  throw e := ⟨[], .error e⟩
  tryCatch x handler :=
    match x.outcome with
    | .error e =>
      let y := handler e
      ⟨x.trace ++ y.trace, y.outcome⟩
    | .ok _ => x

/-- Does one thing that is worth a trace. -/
def record (entry : κ) (outcome : Except ε α) : Traced κ ε α := ⟨[entry], outcome⟩

/-- Notes something in the trace. -/
def note (entry : κ) : Traced κ ε Unit := ⟨[entry], .ok ()⟩

/-- A computation that does nothing worth a trace. -/
def quiet (outcome : Except ε α) : Traced κ ε α := ⟨[], outcome⟩

instance : MonadLift (Except ε) (Traced κ ε) := ⟨quiet⟩

/-! ## How traces and outcomes combine -/

@[simp] theorem pure_trace (a : α) : (pure a : Traced κ ε α).trace = [] := rfl

@[simp] theorem pure_outcome (a : α) : (pure a : Traced κ ε α).outcome = .ok a := rfl

@[simp] theorem throw_trace (e : ε) : (throw e : Traced κ ε α).trace = [] := rfl

@[simp] theorem throw_outcome (e : ε) : (throw e : Traced κ ε α).outcome = .error e := rfl

@[simp] theorem record_trace (k : κ) (o : Except ε α) : (record k o).trace = [k] := rfl

@[simp] theorem record_outcome (k : κ) (o : Except ε α) : (record k o).outcome = o := rfl

@[simp] theorem note_trace (k : κ) : (note k : Traced κ ε Unit).trace = [k] := rfl

@[simp] theorem note_outcome (k : κ) : (note k : Traced κ ε Unit).outcome = .ok () := rfl

@[simp] theorem quiet_trace (o : Except ε α) : (quiet o : Traced κ ε α).trace = [] := rfl

@[simp] theorem quiet_outcome (o : Except ε α) : (quiet o : Traced κ ε α).outcome = o := rfl

theorem bind_def (x : Traced κ ε α) (f : α → Traced κ ε β) : (x >>= f) = Traced.bind x f := rfl

/-- The outcome of a sequence is the sequence of the outcomes. -/
@[simp] theorem bind_outcome (x : Traced κ ε α) (f : α → Traced κ ε β) :
    (x >>= f).outcome = x.outcome >>= fun a => (f a).outcome := by
  rw [bind_def, Traced.bind]
  split <;> rename_i h <;> rw [h] <;> rfl

/-- A sequence succeeds if its parts do, one after the other. -/
theorem bind_outcome_eq_ok {x : Traced κ ε α} {f : α → Traced κ ε β} {b : β} :
    (x >>= f).outcome = .ok b ↔ ∃ a, x.outcome = .ok a ∧ (f a).outcome = .ok b := by
  rw [bind_outcome, bind_eq_ok]

theorem bind_of_ok {x : Traced κ ε α} {a : α} (h : x.outcome = .ok a)
    (f : α → Traced κ ε β) : (x >>= f) = ⟨x.trace ++ (f a).trace, (f a).outcome⟩ := by
  rw [bind_def, Traced.bind, h]

theorem bind_of_error {x : Traced κ ε α} {e : ε} (h : x.outcome = .error e)
    (f : α → Traced κ ε β) : (x >>= f) = ⟨x.trace, .error e⟩ := by
  rw [bind_def, Traced.bind, h]

/-- A sequence fails if one of its parts does, those before it having succeeded. -/
theorem bind_outcome_eq_error {x : Traced κ ε α} {f : α → Traced κ ε β} {e : ε} :
    (x >>= f).outcome = .error e ↔
      x.outcome = .error e ∨ ∃ a, x.outcome = .ok a ∧ (f a).outcome = .error e := by
  rw [bind_outcome]
  cases x.outcome with
  | error e' =>
    constructor
    · intro h
      exact .inl (congrArg Except.error (Except.error.inj h))
    · rintro (h | ⟨_, h, _⟩)
      · exact congrArg Except.error (Except.error.inj h)
      · cases h
  | ok a =>
    constructor
    · intro h
      exact .inr ⟨a, rfl, h⟩
    · rintro (h | ⟨_, h, k⟩)
      · cases h
      · obtain rfl := Except.ok.inj h
        exact k

theorem mem_bind_of_mem_left {x : Traced κ ε α} {k : κ} (h : k ∈ x.trace)
    (f : α → Traced κ ε β) : k ∈ (x >>= f).trace := by
  cases hx : x.outcome with
  | error e =>
    rw [bind_of_error hx]
    exact h
  | ok a =>
    rw [bind_of_ok hx]
    exact List.mem_append_left _ h

theorem mem_bind_of_mem_right {x : Traced κ ε α} {a : α} (hx : x.outcome = .ok a) {k : κ}
    {f : α → Traced κ ε β} (h : k ∈ (f a).trace) : k ∈ (x >>= f).trace := by
  rw [bind_of_ok hx]
  exact List.mem_append_right _ h

/-- A computation whose value is changed afterwards. -/
theorem bind_pure_eq (x : Traced κ ε α) (f : α → β) :
    (x >>= fun a => pure (f a)) = ⟨x.trace, x.outcome.map f⟩ := by
  obtain ⟨t, o⟩ := x
  cases o with
  | error e => rfl
  | ok a => exact (bind_of_ok rfl _).trans (congrArg (Traced.mk · _) (List.append_nil t))

theorem bind_assoc (x : Traced κ ε α) (f : α → Traced κ ε β) {γ : Type}
    (g : β → Traced κ ε γ) : (x >>= f) >>= g = x >>= fun a => f a >>= g := by
  obtain ⟨t, o⟩ := x
  cases o with
  | error e => rfl
  | ok a =>
    show Traced.bind (Traced.bind ⟨t, .ok a⟩ f) g
      = Traced.bind ⟨t, .ok a⟩ fun a => Traced.bind (f a) g
    simp only [Traced.bind]
    cases (f a).outcome <;> simp

instance : LawfulMonad (Traced κ ε) := LawfulMonad.mk' _
  (fun x => by
    obtain ⟨t, o⟩ := x
    cases o <;> simp [Functor.map, Traced.bind, Traced.pure])
  (fun a f => by
    show Traced.bind (Traced.pure a) f = f a
    simp [Traced.bind, Traced.pure])
  (fun x f g => bind_assoc x f g)

end Traced

end Provenance

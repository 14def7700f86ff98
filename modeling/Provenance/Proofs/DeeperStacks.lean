/-
Stacks with more below.

An instruction takes entries from the top of the stack and puts others back, and sees nothing of what
lies deeper. So more entries at the bottom make no difference to it, as long as the limit of the stack
is raised by as many: what an instruction does to a frame it does to the frame so raised, and it asks
the interpreter the same questions about the same values (`Frame.execute_raised`).

Only success carries over. A pop that finds nothing may well find something on the raised frame, so
the two executions are compared up to any error of the first.
-/
import Provenance.Interpreter.Tracking
import Provenance.Proofs.Locals

set_option autoImplicit false

namespace Provenance

/-- Calls that ask the same about the same values are the same. -/
theorem Call.Related.eq {V : Type} {c d : Call V} (h : Call.Related Eq c d) : c = d := by
  cases h with
  | produce | copy | unary | binary | ternary | returned | merge =>
    subst_vars
    rfl
  | nary i hvalues =>
    rw [List.forall₂_eq_eq_eq] at hvalues
    rw [hvalues]

namespace Frame

variable {V : Type}

/-- The frame with more entries at the bottom of its stack, the lowest of them first, and room for as
many more. -/
def raised (f : Frame V) (below : List V) : Frame V :=
  { f with stack := f.stack ++ below.reverse, maxStack := f.maxStack + below.length }

@[simp] theorem raised_locals (f : Frame V) (below : List V) :
    (f.raised below).locals = f.locals := rfl

/-! ## Locals of a raised frame -/

theorem setLocal_raised (f : Frame V) (below : List V) (index : Nat) (v : Option V) :
    (f.raised below).setLocal index v = (f.setLocal index v).map (·.raised below) := by
  unfold setLocal
  rw [raised_locals]
  split <;> rfl

theorem store_raised [AbstractValue V] (f : Frame V) (below : List V) (index : Nat) (v : V) :
    (f.raised below).store index v = (f.store index v).map (·.raised below) := by
  rw [store_eq, store_eq, raised_locals]
  split
  · rfl
  · split <;> rfl

end Frame

namespace Simulation

variable {V : Type} {below : List V} {limit : Nat} {f g : Frame V}

/-- The comparison of a frame with the one raised by some entries. -/
def raising (below : List V) (limit : Nat) : Simulation V V where
  values := Eq
  locals := Eq
  floor := below.reverse
  limit := limit
  tolerated _ := True

theorem raising_frames :
    (raising below limit).Frames f g ↔ f.maxStack = limit ∧ g = f.raised below := by
  constructor
  · rintro ⟨hlocals, ⟨top, hstack, hvalues⟩, hlimit, hlimit'⟩
    have htop : f.stack = top := List.forall₂_eq_eq_eq ▸ hvalues
    have hlocals : f.locals = g.locals := hlocals
    have hstack : g.stack = f.stack ++ below.reverse := htop ▸ hstack
    have hlimit' : g.maxStack = f.maxStack + below.length := by
      rw [hlimit', hlimit]
      exact congrArg _ List.length_reverse
    refine ⟨hlimit, ?_⟩
    cases g
    subst hlocals hstack hlimit'
    rfl
  · rintro ⟨hlimit, rfl⟩
    refine ⟨rfl, ⟨f.stack, rfl, List.forall₂_same.2 fun _ _ => rfl⟩, hlimit, ?_⟩
    show f.maxStack + below.length = limit + below.reverse.length
    rw [hlimit, List.length_reverse]

/-- Answers to one question about the same values agree. -/
theorem raising_answers (x : Except AnalysisError (Option V)) :
    (raising below limit).Answers (Option.Rel Eq) x x :=
  .same (fun a => by cases a <;> constructor; rfl) x

/-- What changes the locals of a frame changes those of the raised frame alike. -/
theorem raising_changes {x : Except AnalysisError (Frame V)}
    (h : ∀ g, x = .ok g → g.maxStack = limit) :
    (raising below limit).Answers (raising below limit).Frames x (x.map (·.raised below)) := by
  cases x with
  | error e => exact .throw e
  | ok g => exact .pure (raising_frames.2 ⟨h g rfl, rfl⟩)

variable [AbstractValue V]

/-- Every interpreter respects the comparison with a raised frame. -/
theorem raising_respected (I : Interpreter V) (i : Instruction) (below : List V) (limit : Nat) :
    (raising below limit).Respected I I i where
  width h := congrArg _ h
  floor := .inr fun _ => trivial
  produce := raising_answers _
  copy := by
    rintro v _ rfl
    exact .same (fun _ => rfl) _
  unary := by
    rintro v _ rfl
    exact raising_answers _
  binary := by
    rintro v v' _ _ rfl rfl
    exact raising_answers _
  ternary := by
    rintro v v' v'' _ _ _ rfl rfl rfl
    exact raising_answers _
  nary := by
    intro vs ws h
    obtain rfl : vs = ws := List.forall₂_eq_eq_eq ▸ h
    exact raising_answers _
  returned := by
    rintro v _ t rfl
    exact .same (fun _ => trivial) _
  load := by
    intro f g index h
    obtain ⟨-, rfl⟩ := raising_frames.1 h
    exact .same (fun _ => rfl) (f.load index)
  store := by
    rintro f g v _ index h rfl
    obtain ⟨hlimit, rfl⟩ := raising_frames.1 h
    rw [Frame.store_raised]
    refine raising_changes fun g hg => ?_
    obtain ⟨-, rfl⟩ := Frame.store_eq_ok.1 hg
    exact hlimit
  increment := by
    rintro f g v w _ index - h hload - rfl
    obtain ⟨hlimit, rfl⟩ := raising_frames.1 h
    rw [Frame.setLocal_raised, Frame.setLocal_of_lt (Frame.lt_of_load hload)]
    exact raising_changes fun g hg => Except.ok.inj hg ▸ hlimit

end Simulation

namespace Frame

variable {V : Type} [AbstractValue V] {I : Interpreter V} {i : Instruction} {returnType : JType}
  {f g : Frame V}

/-- What an instruction does to a frame it does to the same frame with more entries at the bottom of
the stack, which it leaves there, and it asks the interpreter the same. -/
theorem execute_raised (h : (execute I i returnType f).outcome = .ok g) (below : List V) :
    g.maxStack = f.maxStack ∧
      execute I i returnType (f.raised below)
        = ⟨(execute I i returnType f).trace, .ok (g.raised below)⟩ := by
  have hf : (Simulation.raising below f.maxStack).Frames f (f.raised below) :=
    Simulation.raising_frames.2 ⟨rfl, rfl⟩
  obtain ⟨g', houtcome, hg, hcalls⟩ :=
    ((Simulation.raising_respected I i below f.maxStack).execute hf returnType).of_left h
  obtain ⟨hlimit, rfl⟩ := Simulation.raising_frames.1 hg
  have htrace : (execute I i returnType f).trace
      = (execute I i returnType (f.raised below)).trace :=
    List.forall₂_eq_eq_eq ▸ hcalls.imp fun _ _ hcall => hcall.eq
  refine ⟨hlimit, ?_⟩
  rw [htrace, ← houtcome]

/-- A long value on top of a number. -/
def longOverInt : Frame PossibleValues where
  locals := []
  stack := [.single ⟨.instruction 1, .long⟩, .single ⟨.instruction 0, .int⟩]
  maxStack := 3

/-- Two numbers below stay where they are, and the only call is for the copy of the long value. -/
theorem execute_raised_longOverInt :
    ∃ g, (execute .possibleValues ⟨2, .dup2X1, .none⟩ .void longOverInt).outcome = .ok g ∧
      execute .possibleValues ⟨2, .dup2X1, .none⟩ .void (longOverInt.raised
          [.single ⟨.parameter 0, .int⟩, .single ⟨.parameter 1, .int⟩])
        = ⟨[.copy ⟨2, .dup2X1, .none⟩ (.single ⟨.instruction 1, .long⟩)], .ok ⟨[], g.stack ++
            [.single ⟨.parameter 1, .int⟩, .single ⟨.parameter 0, .int⟩], 5⟩⟩ := by
  have hg : (execute .possibleValues ⟨2, .dup2X1, .none⟩ .void longOverInt).outcome
      = .ok ⟨[], [.single ⟨.instruction 1, .long⟩, .single ⟨.instruction 0, .int⟩,
        .single ⟨.instruction 1, .long⟩], 3⟩ := rfl
  obtain ⟨-, hraised⟩ :=
    execute_raised hg [.single ⟨.parameter 0, .int⟩, .single ⟨.parameter 1, .int⟩]
  exact ⟨_, hg, hraised⟩

/-- Failure does not carry over: on an empty stack there is no entry to pop, below it there is. -/
example : (execute .possibleValues ⟨0, .pop, .none⟩ .void (.blank 0 0)).outcome
      = .error .stackUnderflow ∧
    (execute .possibleValues ⟨0, .pop, .none⟩ .void ((Frame.blank 0 0).raised
      [.single ⟨.parameter 0, .int⟩])).outcome = .ok (.blank 0 1) := ⟨rfl, rfl⟩

end Frame

end Provenance

/-
Forward fixed points over numbered locations.

An analysis says how the state at a location flows to other locations, and how two states that
arrive at one location are joined. The worklist holds the locations whose state has changed since
they were last visited. A run takes them one by one, passes their state on and stops when none is
left; then every state is stable.

A run need not end, so it is given fuel, one unit for each visit; running out of it is an answer of
its own and never an error. Everything a run does is an event of its trace: which location is
visited, which state is passed on, which states are joined.
-/
import Provenance.Error
import Provenance.Traced

set_option autoImplicit false

namespace Provenance

/-- The states of all locations; a location without one was not reached. -/
abbrev States (σ : Type) := Array (Option σ)

/-- How states flow. -/
structure ForwardAnalysis (σ : Type) where
  /-- The states that flow on from a location with a state, each with the location it flows to. The
  states of all locations are shown. -/
  transfer : Nat → σ → States σ → Except AnalysisError (List (Nat × σ))
  /-- The state that stands for the one held at a location and one that arrives there. -/
  join : Nat → σ → σ → Except AnalysisError σ

/-- Something that a run does. -/
inductive Event (σ : Type) where
  /-- Takes a location from the worklist. -/
  | visit (location : Nat)
  /-- Passes on the state of a location; the states of all locations at that time. -/
  | transfer (location : Nat) (state : σ) (states : States σ)
  /-- Joins the state held at a location with one that arrives. -/
  | join (location : Nat) (held arriving : σ)
  /-- Ends because no location is left to visit. -/
  | converged (iterations locations : Nat)

/-- A computation that leaves the events of a run as a trace. -/
abbrev Solving (σ α : Type) := Traced (Event σ) AnalysisError α

/-- Where a run stands. -/
structure Worklist (σ : Type) where
  states : States σ
  /-- The locations to visit, the next one first. -/
  queue : List Nat
  /-- For each location, whether it is to be visited. -/
  queued : Array Bool
  /-- How many visits were made. -/
  iterations : Nat

namespace Worklist

variable {σ : Type}

/-- The beginning of a run: the entry has a state and is to be visited. -/
def start (locations entry : Nat) (initial : σ) : Worklist σ where
  states := (Array.replicate locations none).setIfInBounds entry (some initial)
  queue := [entry]
  queued := (Array.replicate locations false).setIfInBounds entry true
  iterations := 0

/-- The state of a location, if it was reached. -/
def state? (w : Worklist σ) (location : Nat) : Option σ := w.states[location]?.join

def isQueued (w : Worklist σ) (location : Nat) : Bool := w.queued[location]?.getD false

/-- Gives a location a new state, for which it must be visited. -/
def update (w : Worklist σ) (location : Nat) (state : σ) : Worklist σ where
  states := w.states.setIfInBounds location (some state)
  queue := if w.isQueued location then w.queue else w.queue ++ [location]
  queued := w.queued.setIfInBounds location true
  iterations := w.iterations

/-- Takes the next location from the queue. -/
def take (w : Worklist σ) (location : Nat) (rest : List Nat) : Worklist σ where
  states := w.states
  queue := rest
  queued := w.queued.setIfInBounds location false
  iterations := w.iterations + 1

end Worklist

namespace ForwardAnalysis

variable {σ : Type} [DecidableEq σ] (A : ForwardAnalysis σ)

/-- A state arrives at a location. The first one is held; later ones are joined with the one held,
and the location has to be visited again if that changes it. -/
def arrive (w : Worklist σ) (location : Nat) (state : σ) : Solving σ (Worklist σ) :=
  if w.states.size ≤ location then throw (.invalidJumpTarget location)
  else
    match w.state? location with
    | none => return w.update location state
    | some held => do
      let joined ← Traced.record (.join location held state) (A.join location held state)
      return if joined = held then w else w.update location joined

/-- Several states arrive, one after the other. -/
def arriveAll (w : Worklist σ) : List (Nat × σ) → Solving σ (Worklist σ)
  | [] => return w
  | (location, state) :: rest => do
    let w ← A.arrive w location state
    arriveAll w rest

/-- Visits the first location of the queue: its state is passed on to others. -/
def visit (w : Worklist σ) (location : Nat) (rest : List Nat) : Solving σ (Worklist σ) := do
  let w := w.take location rest
  Traced.note (.visit location)
  match w.state? location with
  | none => throw (.queuedWithoutState location)
  | some state =>
    let flows ← Traced.record (.transfer location state w.states)
      (A.transfer location state w.states)
    A.arriveAll w flows

omit [DecidableEq σ] in
/-- Ends a run in which no location is left to visit. -/
def finish (w : Worklist σ) : Solving σ (Option (States σ)) := do
  Traced.note (.converged w.iterations w.states.size)
  return some w.states

/-- Visits locations until none is left, and answers the states then; answers none if the fuel does
not last. -/
def run : Nat → Worklist σ → Solving σ (Option (States σ))
  | 0, w =>
    match w.queue with
    | [] => finish w
    | _ :: _ => return none
  | fuel + 1, w =>
    match w.queue with
    | [] => finish w
    | location :: rest => do
      let w ← A.visit w location rest
      run fuel w

/-- The stable states that follow from an initial state at the entry. -/
def solve (fuel locations entry : Nat) (initial : σ) : Solving σ (Option (States σ)) :=
  if locations ≤ entry then throw (.invalidJumpTarget entry)
  else A.run fuel (.start locations entry initial)

end ForwardAnalysis

/-! ## The log of a run -/

/-- How important a line of a log is. -/
inductive LogLevel where
  | trace | debug | warn
deriving DecidableEq, Repr

def LogLevel.text : LogLevel → String
  | trace => "TRACE"
  | debug => "DEBUG"
  | warn => "WARN"

/-- A line of a log. -/
structure LogLine where
  level : LogLevel
  message : String
deriving DecidableEq, Repr

def LogLine.text (l : LogLine) : String := s!"{l.level.text} {l.message}"

/-- What is logged of an event. -/
def Event.logLine? {σ : Type} : Event σ → Option LogLine
  | visit location => some ⟨.trace, s!"visiting location {location}"⟩
  | converged iterations locations =>
    some ⟨.debug, s!"fixed point reached after {iterations} iterations over {locations} locations"⟩
  | transfer .. | join .. => none

end Provenance

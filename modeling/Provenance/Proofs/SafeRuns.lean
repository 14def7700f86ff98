/-
Runs fail only where their analysis does.

The worklist has two errors of its own: a state that arrives beyond the last location, and a location
that is due for a visit without having a state. If transfers flow to locations that there are, neither
occurs, for a location enters the queue together with its state and no state is ever taken away. What
remains are the errors of transfers and joins. They are made on states of which an invariant is known,
so the invariant can tell what the errors are like (`ForwardAnalysis.ends_solve`).

The argument follows the data: what an arrival does to a worklist that is stocked with states, then
several arrivals, a visit and a run. Success and failure are handled in one statement, since what a
step may fail with depends on what the steps before it have kept.
-/
import Provenance.Proofs.Outcomes
import Provenance.Proofs.Runs

set_option autoImplicit false

namespace Provenance

variable {σ : Type} {P : Nat → σ → Prop} {locations : Nat}

namespace Worklist

variable {w : Worklist σ} {location : Nat} {state : σ}

/-! ## Worklists that are stocked with states -/

/-- A worklist for some locations has a state for each location that is due for a visit, and something
holds of all its states. -/
structure Stocked (P : Nat → σ → Prop) (locations : Nat) (w : Worklist σ) : Prop where
  size : w.states.size = locations
  states : ∀ l s, w.state? l = some s → P l s
  queue : ∀ l ∈ w.queue, ∃ s, w.state? l = some s

theorem Stocked.start {entry : Nat} (h : entry < locations) {initial : σ}
    (h0 : P entry initial) : (Worklist.start locations entry initial).Stocked P locations where
  size := size_start locations entry initial
  states := holds_start h h0
  queue l hl := by
    obtain rfl : l = entry := List.mem_singleton.1 hl
    refine ⟨initial, ?_⟩
    rw [state?_start h, if_pos rfl]

/-- An update adds its own location to the queue and no other. -/
theorem of_mem_queue_update {l : Nat} (h : l ∈ (w.update location state).queue) :
    l ∈ w.queue ∨ l = location := by
  have h' : l ∈ if w.isQueued location then w.queue else w.queue ++ [location] := h
  split at h'
  · exact .inl h'
  · rcases List.mem_append.1 h' with hold | hnew
    · exact .inl hold
    · exact .inr (List.mem_singleton.1 hnew)

/-- A new state is there before its location is due for a visit. -/
theorem Stocked.update (hw : w.Stocked P locations) (hl : location < locations)
    (hs : P location state) : (w.update location state).Stocked P locations where
  size := Array.size_setIfInBounds.trans hw.size
  states l s h := by
    rw [state?_update (hw.size ▸ hl)] at h
    by_cases he : l = location
    · rw [if_pos he] at h
      obtain rfl := Option.some.inj h
      exact he ▸ hs
    · rw [if_neg he] at h
      exact hw.states l s h
  queue l h := by
    rw [state?_update (hw.size ▸ hl)]
    by_cases he : l = location
    · exact ⟨state, if_pos he⟩
    · rw [if_neg he]
      exact hw.queue l ((of_mem_queue_update h).resolve_right he)

theorem Stocked.take (hw : w.Stocked P locations) {rest : List Nat}
    (hq : w.queue = location :: rest) : (w.take location rest).Stocked P locations where
  size := hw.size
  states := hw.states
  queue l hl := hw.queue l (hq ▸ List.mem_cons_of_mem location hl)

end Worklist

namespace ForwardAnalysis

variable [DecidableEq σ] {A : ForwardAnalysis σ} {w : Worklist σ} {errors : AnalysisError → Prop}

/-! ## How steps end -/

omit [DecidableEq σ] in
/-- What holds of states at locations that there are is passed on by transfers and kept by joins.
Whatever fails, fails in some ways only. -/
structure Safe (A : ForwardAnalysis σ) (errors : AnalysisError → Prop) (P : Nat → σ → Prop)
    (locations : Nat) : Prop where
  inside : ∀ l s, P l s → l < locations
  transfer : ∀ l s shown, P l s →
    Ends errors (fun flows => ∀ p ∈ flows, P p.1 p.2) (A.transfer l s shown)
  join : ∀ l held arriving, P l held → P l arriving →
    Ends errors (P l) (A.join l held arriving)

theorem ends_arrive (hA : A.Safe errors P locations) (hw : w.Stocked P locations)
    {location : Nat} {state : σ} (hs : P location state) :
    Ends errors (Worklist.Stocked P locations) (A.arrive w location state).outcome := by
  have hl : location < locations := hA.inside location state hs
  have hsize : ¬ w.states.size ≤ location := by
    rw [hw.size]
    exact Nat.not_le.2 hl
  unfold arrive
  rw [if_neg hsize]
  cases hheld : w.state? location with
  | none => exact .ok (hw.update hl hs)
  | some held =>
    have hjoin := hA.join location held state (hw.states location held hheld) hs
    refine hjoin.bind_outcome (x := Traced.record _ _) fun joined hjoined => ?_
    -- the state is written back only if the join has changed it
    by_cases he : joined = held
    · rw [if_pos he]
      exact .ok hw
    · rw [if_neg he]
      exact .ok (hw.update hl hjoined)

theorem ends_arriveAll (hA : A.Safe errors P locations) (hw : w.Stocked P locations)
    {flows : List (Nat × σ)} (hflows : ∀ p ∈ flows, P p.1 p.2) :
    Ends errors (Worklist.Stocked P locations) (A.arriveAll w flows).outcome := by
  induction flows generalizing w with
  | nil => exact .ok hw
  | cons p flows ih =>
    have hs : P p.1 p.2 := hflows p List.mem_cons_self
    rw [arriveAll]
    refine (ends_arrive hA hw hs).bind_outcome fun u hu => ?_
    exact ih hu fun q hq => hflows q (List.mem_cons_of_mem p hq)

theorem ends_visit (hA : A.Safe errors P locations) (hw : w.Stocked P locations)
    {location : Nat} {rest : List Nat} (hq : w.queue = location :: rest) :
    Ends errors (Worklist.Stocked P locations) (A.visit w location rest).outcome := by
  have htake : (w.take location rest).Stocked P locations := hw.take hq
  obtain ⟨state, hstate⟩ := hw.queue location (hq ▸ List.mem_cons_self)
  have hstate' : (w.take location rest).state? location = some state := hstate
  unfold visit
  -- taking the location off the queue leaves its state where it is
  have hnote : Ends errors (fun _ => True)
      (Traced.note (.visit location) : Solving σ Unit).outcome := .ok trivial
  refine hnote.bind_outcome fun _ _ => ?_
  rw [hstate']
  have htransfer := hA.transfer location state (w.take location rest).states
    (hw.states location state hstate)
  refine htransfer.bind_outcome (x := Traced.record _ _) fun flows hflows => ?_
  exact ends_arriveAll hA htake hflows

/-! ## How runs end -/

/-- A run from a worklist that is stocked with states fails only as a transfer or a join fails. -/
theorem ends_run (hA : A.Safe errors P locations) (fuel : Nat) (hw : w.Stocked P locations) :
    Ends errors (fun _ => True) (A.run fuel w).outcome := by
  induction fuel generalizing w with
  | zero =>
    unfold run
    split
    · exact .ok trivial
    · exact .ok trivial
  | succ fuel ih =>
    unfold run
    split
    · exact .ok trivial
    · rename_i location rest hq
      exact (ends_visit hA hw hq).bind_outcome fun u hu => ih hu

/-- A solver fails only as the transfers and the joins of its analysis fail, if what they keep holds at
the entry. -/
theorem ends_solve (hA : A.Safe errors P locations) (fuel : Nat) {entry : Nat} {initial : σ}
    (h0 : P entry initial) :
    Ends errors (fun _ => True) (A.solve fuel locations entry initial).outcome := by
  have hentry : entry < locations := hA.inside entry initial h0
  rw [solve_of_lt hentry]
  exact ends_run hA fuel (.start hentry h0)

end ForwardAnalysis

end Provenance

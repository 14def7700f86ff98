/-
Two runs in lockstep.

Two analyses that do the same on related states run in lockstep: from related states they visit the
same locations in the same order, the states stay related at every location, and they end together,
in related states or in the same error, or run on together when the fuel is spent. What makes it so
is that a run looks at a state in one way only: it asks whether a join has changed it. So the
relation must tell states apart on one side as on the other (`ForwardAnalysis.Lockstep.same`).
-/
import Provenance.Analysis.FixedPoint
import Provenance.Proofs.Agreement

set_option autoImplicit false

namespace Provenance

variable {σ τ : Type} {R : σ → τ → Prop}

/-! ## Related states and worklists -/

/-- States are told by what they are at each location. -/
theorem States.ext_of_state? {states states' : States σ} (hsize : states.size = states'.size)
    (h : ∀ l : Nat, states[l]?.join = states'[l]?.join) : states = states' := by
  refine Array.ext hsize fun l hl hl' => ?_
  have hstate := h l
  rwa [Array.getElem?_eq_getElem hl, Array.getElem?_eq_getElem hl'] at hstate

/-- Two runs have reached the same locations, with related states. -/
structure States.Related (R : σ → τ → Prop) (states : States σ) (states' : States τ) : Prop where
  size : states.size = states'.size
  each : ∀ l : Nat, Option.Rel R (states[l]?.join) (states'[l]?.join)

theorem States.Related.set {states : States σ} {states' : States τ}
    (h : States.Related R states states') (location : Nat) {s : Option σ} {t : Option τ}
    (hst : Option.Rel R s t) :
    States.Related R (states.setIfInBounds location s) (states'.setIfInBounds location t) := by
  refine ⟨by rw [Array.size_setIfInBounds, Array.size_setIfInBounds, h.size], fun l => ?_⟩
  rw [Array.getElem?_setIfInBounds, Array.getElem?_setIfInBounds, ← h.size]
  by_cases hl : location = l
  · rw [if_pos hl, if_pos hl]
    by_cases hlt : location < states.size
    · rw [if_pos hlt, if_pos hlt]
      exact hst
    · rw [if_neg hlt, if_neg hlt]
      exact .none
  · rw [if_neg hl, if_neg hl]
    exact h.each l

/-- The same thing done with related states. -/
inductive Event.Related (R : σ → τ → Prop) : Event σ → Event τ → Prop
  | visit (location) : Related R (.visit location) (.visit location)
  | transfer (location) {s t states states'} (h : R s t)
    (hs : States.Related R states states') :
    Related R (.transfer location s states) (.transfer location t states')
  | join (location) {s t s' t'} (h : R s t) (h' : R s' t') :
    Related R (.join location s s') (.join location t t')
  | converged (iterations locations) :
    Related R (.converged iterations locations) (.converged iterations locations)

section Same

variable {S : σ → σ → Prop} (hS : ∀ s t, S s t → s = t)
include hS

/-- States that are related by nothing but sameness are the same. -/
theorem States.Related.eq {states states' : States σ} (h : States.Related S states states') :
    states = states' := by
  refine States.ext_of_state? h.size fun l => ?_
  have hrel := h.each l
  generalize states[l]?.join = s at hrel ⊢
  generalize states'[l]?.join = t at hrel ⊢
  cases hrel with
  | none => rfl
  | some hst => exact congrArg some (hS _ _ hst)

/-- So are the things done with them. -/
theorem Event.Related.eq {e e' : Event σ} (h : Event.Related S e e') : e = e' := by
  cases h with
  | visit | converged => rfl
  | transfer location h hs => rw [hS _ _ h, hs.eq hS]
  | join location h h' => rw [hS _ _ h, hS _ _ h']

end Same

namespace Worklist

/-- Two runs stand at the same place, with related states. -/
structure Related (R : σ → τ → Prop) (w : Worklist σ) (v : Worklist τ) : Prop where
  states : States.Related R w.states v.states
  queue : w.queue = v.queue
  queued : w.queued = v.queued
  iterations : w.iterations = v.iterations

variable {w : Worklist σ} {v : Worklist τ}

theorem Related.start (locations entry : Nat) {s : σ} {t : τ} (h : R s t) :
    Related R (.start locations entry s) (.start locations entry t) := by
  have hblank : States.Related R (Array.replicate locations none)
      (Array.replicate locations none) := by
    refine ⟨by rw [Array.size_replicate, Array.size_replicate], fun l => ?_⟩
    rw [Array.getElem?_replicate, Array.getElem?_replicate]
    split <;> exact .none
  exact ⟨hblank.set entry (.some h), rfl, rfl, rfl⟩

theorem Related.update (h : Related R w v) (location : Nat) {s : σ} {t : τ} (hst : R s t) :
    Related R (w.update location s) (v.update location t) := by
  have hmark : w.isQueued location = v.isQueued location := by
    unfold isQueued
    rw [h.queued]
  refine ⟨h.states.set location (.some hst), ?_, ?_, h.iterations⟩
  · unfold Worklist.update
    dsimp only
    rw [hmark, h.queue]
  · unfold Worklist.update
    dsimp only
    rw [h.queued]

theorem Related.take (h : Related R w v) (location : Nat) (rest : List Nat) :
    Related R (w.take location rest) (v.take location rest) := by
  refine ⟨h.states, rfl, ?_, congrArg (· + 1) h.iterations⟩
  unfold Worklist.take
  dsimp only
  rw [h.queued]

end Worklist

namespace ForwardAnalysis

/-- States that flow to the same locations, one after the other, and are related. -/
abbrev RelatedFlows (R : σ → τ → Prop) : List (Nat × σ) → List (Nat × τ) → Prop :=
  List.Forall₂ fun p q => p.1 = q.1 ∧ R p.2 q.2

/-- Two analyses that do the same on related states. -/
structure Lockstep (A : ForwardAnalysis σ) (B : ForwardAnalysis τ) (R : σ → τ → Prop) : Prop where
  same : ∀ {s s' t t'}, R s t → R s' t' → (s = s' ↔ t = t')
  transfer : ∀ (l) {s t states states'}, R s t → States.Related R states states' →
    Traced.Match (Event.Related R) (RelatedFlows R) (.quiet (A.transfer l s states))
      (.quiet (B.transfer l t states'))
  join : ∀ (l) {s t s' t'}, R s t → R s' t' →
    Traced.Match (Event.Related R) R (.quiet (A.join l s s')) (.quiet (B.join l t t'))

namespace Lockstep

variable [DecidableEq σ] [DecidableEq τ] {A : ForwardAnalysis σ} {B : ForwardAnalysis τ}
  {w : Worklist σ} {v : Worklist τ}

/-! ## Runs -/

theorem arrive (h : A.Lockstep B R) (hw : Worklist.Related R w v) (location : Nat) {s : σ} {t : τ}
    (hst : R s t) :
    Traced.Match (Event.Related R) (Worklist.Related R) (A.arrive w location s)
      (B.arrive v location t) := by
  unfold ForwardAnalysis.arrive
  rw [← hw.states.size]
  by_cases hl : w.states.size ≤ location
  · rw [if_pos hl, if_pos hl]
    exact .throw _
  rw [if_neg hl, if_neg hl]
  have hstate : Option.Rel R (w.state? location) (v.state? location) := hw.states.each location
  generalize w.state? location = held at hstate ⊢
  generalize v.state? location = held' at hstate ⊢
  cases hstate with
  | none => exact .pure (hw.update location hst)
  | @some held held' hheld =>
    refine .bind (.record (.join location hheld hst) (h.join location hheld hst)) ?_
    intro joined joined' hjoined
    -- both runs see a change or neither does
    by_cases hsame : joined = held
    · rw [if_pos hsame, if_pos ((h.same hjoined hheld).1 hsame)]
      exact .pure hw
    · rw [if_neg hsame, if_neg fun hsame' => hsame ((h.same hjoined hheld).2 hsame')]
      exact .pure (hw.update location hjoined)

theorem arriveAll (h : A.Lockstep B R) (hw : Worklist.Related R w v) {flows : List (Nat × σ)}
    {flows' : List (Nat × τ)} (hflows : RelatedFlows R flows flows') :
    Traced.Match (Event.Related R) (Worklist.Related R) (A.arriveAll w flows)
      (B.arriveAll v flows') := by
  induction hflows generalizing w v with
  | nil => exact .pure hw
  | @cons p q flows flows' hpq _ ih =>
    obtain ⟨location, s⟩ := p
    obtain ⟨location', t⟩ := q
    obtain ⟨rfl, hst⟩ : location = location' ∧ R s t := hpq
    exact .bind (h.arrive hw location hst) fun _ _ hw => ih hw

theorem visit (h : A.Lockstep B R) (hw : Worklist.Related R w v) (location : Nat)
    (rest : List Nat) :
    Traced.Match (Event.Related R) (Worklist.Related R) (A.visit w location rest)
      (B.visit v location rest) := by
  unfold ForwardAnalysis.visit
  have htake := hw.take location rest
  refine .bind (.record (.visit location) (.pure rfl)) fun _ _ (_ : () = ()) => ?_
  have hstate : Option.Rel R ((w.take location rest).state? location)
      ((v.take location rest).state? location) := htake.states.each location
  generalize (w.take location rest).state? location = state at hstate ⊢
  generalize (v.take location rest).state? location = state' at hstate ⊢
  cases hstate with
  | none => exact .throw _
  | some hst =>
    refine .bind (.record (.transfer location hst htake.states)
      (h.transfer location hst htake.states)) ?_
    intro flows flows' hflows
    exact h.arriveAll htake hflows

omit [DecidableEq σ] [DecidableEq τ] in
theorem finish (hw : Worklist.Related R w v) :
    Traced.Match (Event.Related R) (Option.Rel (States.Related R))
      (ForwardAnalysis.finish w : Solving σ _) (ForwardAnalysis.finish v : Solving τ _) := by
  unfold ForwardAnalysis.finish
  rw [hw.iterations, hw.states.size]
  refine .bind (.record (.converged _ _) (.pure rfl)) fun _ _ (_ : () = ()) => ?_
  exact .pure (.some hw.states)

/-- Runs from related worklists are in lockstep. -/
theorem run (h : A.Lockstep B R) (hw : Worklist.Related R w v) (fuel : Nat) :
    Traced.Match (Event.Related R) (Option.Rel (States.Related R)) (A.run fuel w)
      (B.run fuel v) := by
  induction fuel generalizing w v with
  | zero =>
    unfold ForwardAnalysis.run
    rw [← hw.queue]
    cases w.queue with
    | nil => exact finish hw
    | cons location rest => exact .pure .none
  | succ fuel ih =>
    unfold ForwardAnalysis.run
    rw [← hw.queue]
    cases w.queue with
    | nil => exact finish hw
    | cons location rest => exact .bind (h.visit hw location rest) fun _ _ hw => ih hw

/-- Solvers from related initial states are in lockstep. -/
theorem solve (h : A.Lockstep B R) (fuel locations entry : Nat) {s : σ} {t : τ} (hst : R s t) :
    Traced.Match (Event.Related R) (Option.Rel (States.Related R))
      (A.solve fuel locations entry s) (B.solve fuel locations entry t) := by
  unfold ForwardAnalysis.solve
  split
  · exact .throw _
  · exact h.run (.start locations entry hst) fuel

end Lockstep

end ForwardAnalysis

end Provenance

/-
Runs that end.

A run without an end would change states without an end, because a visit that changes none leaves a
shorter queue. So a run ends if changes cannot go on: every location is reached for the first time
once, and if a number that depends on the state goes down at every join that changes a state, it can
do so only a limited number of times in between (`ForwardAnalysis.run_ends`). It may end in an error.

More fuel than it takes to end changes nothing (`ForwardAnalysis.run_add`). In the other direction,
what a run does up to one of its heads is what it begins with whenever there is fuel enough
(`ForwardAnalysis.Head.run`).
-/
import Mathlib.Algebra.BigOperators.Group.Finset.Basic
import Mathlib.Algebra.Order.BigOperators.Group.Finset
import Mathlib.Data.Prod.Lex
import Mathlib.Order.WellFounded
import Provenance.Proofs.Runs

set_option autoImplicit false

namespace Provenance

/-! ## What is left to do -/

namespace Worklist

variable {σ : Type} {w : Worklist σ} {location : Nat} {new : σ} {cost : Option σ → Nat}

/-- The cost of the states of all locations together. -/
def total (w : Worklist σ) (cost : Option σ → Nat) : Nat :=
  ∑ l ∈ Finset.range w.states.size, cost (w.state? l)

/-- A location costs something as long as it is not reached. -/
def unreachedCost (s : Option σ) : Nat := if s.isNone then 1 else 0

/-- A state costs what its joins can still take from it. -/
def reachedCost (deficit : σ → Nat) (s : Option σ) : Nat := (s.map deficit).getD 0

theorem size_update : (w.update location new).states.size = w.states.size :=
  Array.size_setIfInBounds

theorem total_update_le (hl : location < w.states.size)
    (h : cost (some new) ≤ cost (w.state? location)) :
    (w.update location new).total cost ≤ w.total cost := by
  unfold total
  rw [size_update]
  refine Finset.sum_le_sum fun l _ => ?_
  rw [state?_update hl]
  by_cases he : l = location
  · rw [if_pos he, he]
    exact h
  · rw [if_neg he]

theorem total_update_lt (hl : location < w.states.size)
    (h : cost (some new) < cost (w.state? location)) :
    (w.update location new).total cost < w.total cost := by
  unfold total
  rw [size_update]
  refine Finset.sum_lt_sum (fun l _ => ?_) ⟨location, Finset.mem_range.2 hl, ?_⟩
  · rw [state?_update hl]
    by_cases he : l = location
    · rw [if_pos he, he]
      exact h.le
    · rw [if_neg he]
  · rw [state?_update hl, if_pos rfl]
    exact h

/-- What the states leave to be done: locations to be reached, and then changes of states. -/
def outstanding (w : Worklist σ) (deficit : σ → Nat) : Nat ×ₗ Nat :=
  toLex (w.total unreachedCost, w.total (reachedCost deficit))

end Worklist

namespace ForwardAnalysis

variable {σ : Type} [DecidableEq σ] {A : ForwardAnalysis σ} {w w' : Worklist σ}
  {deficit : σ → Nat}

/-- Among some events, every join that changes a state takes something from its deficit. -/
def JoinsLower (A : ForwardAnalysis σ) (deficit : σ → Nat) (events : List (Event σ)) : Prop :=
  ∀ l held arriving joined, .join l held arriving ∈ events →
    A.join l held arriving = .ok joined → joined ≠ held → deficit joined < deficit held

omit [DecidableEq σ] in
/-- An arrival leaves less to be done, or nothing happens. -/
theorem Arrives.outstanding_lt {location : Nat} {state : σ} {events : List (Event σ)}
    (h : A.Arrives w location state w' events) (hJ : A.JoinsLower deficit events) :
    w' = w ∨ w'.outstanding deficit < w.outstanding deficit := by
  cases h with
  | first hl hs =>
    -- one location fewer is to be reached
    refine .inr (Prod.Lex.toLex_lt_toLex.2 (.inl (Worklist.total_update_lt hl ?_)))
    rw [hs]
    exact Nat.one_pos
  | absorbed hs hj => exact .inl rfl
  | @grown held joined hl hs hj hne =>
    have hlower : deficit joined < deficit held :=
      hJ _ _ _ _ (List.mem_singleton_self _) hj hne
    have hreached : (w.update location joined).total Worklist.unreachedCost
        ≤ w.total Worklist.unreachedCost := by
      refine Worklist.total_update_le hl ?_
      rw [hs]
      exact Nat.le_refl _
    have hless : (w.update location joined).total (Worklist.reachedCost deficit)
        < w.total (Worklist.reachedCost deficit) := by
      refine Worklist.total_update_lt hl ?_
      rw [hs]
      exact hlower
    rcases hreached.lt_or_eq with hlt | heq
    · exact .inr (Prod.Lex.toLex_lt_toLex.2 (.inl hlt))
    · exact .inr (Prod.Lex.toLex_lt_toLex.2 (.inr ⟨heq, hless⟩))

theorem arriveAll_outstanding_lt {flows : List (Nat × σ)}
    (h : (A.arriveAll w flows).outcome = .ok w')
    (hJ : A.JoinsLower deficit (A.arriveAll w flows).trace) :
    w' = w ∨ w'.outstanding deficit < w.outstanding deficit := by
  induction flows generalizing w with
  | nil =>
    obtain rfl := Except.ok.inj h
    exact .inl rfl
  | cons p flows ih =>
    obtain ⟨location, state⟩ := p
    obtain ⟨u, hu, h, htrace⟩ := arriveAll_cons h
    rw [htrace] at hJ
    have hfirst : u = w ∨ u.outstanding deficit < w.outstanding deficit :=
      hu.outstanding_lt fun l held arriving joined he =>
        hJ l held arriving joined (List.mem_append_left _ he)
    have hrest : w' = u ∨ w'.outstanding deficit < u.outstanding deficit :=
      ih h fun l held arriving joined he =>
        hJ l held arriving joined (List.mem_append_right _ he)
    rcases hfirst with rfl | hfirst
    · exact hrest
    · rcases hrest with rfl | hrest
      · exact .inr hfirst
      · exact .inr (hrest.trans hfirst)

/-- A visit leaves less to be done, or the states as they are and a shorter queue. -/
theorem visit_outstanding_lt {location : Nat} {rest : List Nat} (hq : w.queue = location :: rest)
    (h : (A.visit w location rest).outcome = .ok w')
    (hJ : A.JoinsLower deficit (A.visit w location rest).trace) :
    toLex (w'.outstanding deficit, w'.queue.length)
      < toLex (w.outstanding deficit, w.queue.length) := by
  obtain ⟨state, flows, -, -, harrive, htrace⟩ := visit_eq_ok h
  have hJ' : A.JoinsLower deficit (A.arriveAll (w.take location rest) flows).trace := by
    intro l held arriving joined he
    refine hJ l held arriving joined ?_
    rw [htrace]
    exact List.mem_cons_of_mem _ (List.mem_cons_of_mem _ he)
  rcases arriveAll_outstanding_lt harrive hJ' with rfl | hlt
  · refine Prod.Lex.toLex_lt_toLex.2 (.inr ⟨rfl, ?_⟩)
    show rest.length < w.queue.length
    rw [hq, List.length_cons]
    exact Nat.lt_succ_self _
  · exact Prod.Lex.toLex_lt_toLex.2 (.inl hlt)

/-! ## Runs -/

/-- With nothing left to visit a run has an answer. -/
theorem run_ne_none_of_nil (hq : w.queue = []) (fuel : Nat) : (A.run fuel w).outcome ≠ .ok none := by
  rw [run_of_nil hq]
  intro h
  cases finish_eq_ok h

/-- If joins take something from a deficit whenever they change a state, a run comes to an end. -/
theorem run_ends (w : Worklist σ) (hJ : ∀ u events, A.Head w u events →
      A.JoinsLower deficit events) : ∃ fuel, (A.run fuel w).outcome ≠ .ok none := by
  cases hq : w.queue with
  | nil => exact ⟨0, run_ne_none_of_nil hq 0⟩
  | cons location rest =>
    cases hv : (A.visit w location rest).outcome with
    | error e =>
      refine ⟨1, ?_⟩
      rw [run_succ_of_cons hq, Traced.bind_of_error hv]
      intro h
      cases h
    | ok w' =>
      have hhead : A.Head w w' (A.visit w location rest).trace := Head.start.visit hq hv
      have hless := visit_outstanding_lt hq hv (hJ w' _ hhead)
      obtain ⟨fuel, hfuel⟩ := run_ends w' fun u events hu l held arriving joined he =>
        hJ u _ (hhead.trans hu) l held arriving joined (List.mem_append_right _ he)
      refine ⟨fuel + 1, ?_⟩
      rw [run_succ_of_cons hq, Traced.bind_of_ok hv]
      exact hfuel
termination_by toLex (w.outstanding deficit, w.queue.length)
decreasing_by exact hless

/-- More fuel than a run takes to its end changes nothing. -/
theorem run_add {fuel : Nat} (h : (A.run fuel w).outcome ≠ .ok none) (more : Nat) :
    A.run (fuel + more) w = A.run fuel w := by
  induction fuel generalizing w with
  | zero =>
    cases hq : w.queue with
    | nil => rw [run_of_nil hq, run_of_nil hq]
    | cons location rest =>
      rw [run_zero_of_cons hq] at h
      exact absurd rfl h
  | succ fuel ih =>
    rw [Nat.succ_add]
    cases hq : w.queue with
    | nil => rw [run_of_nil hq, run_of_nil hq]
    | cons location rest =>
      rw [run_succ_of_cons hq] at h
      rw [run_succ_of_cons hq, run_succ_of_cons hq]
      cases hv : (A.visit w location rest).outcome with
      | error e => rw [Traced.bind_of_error hv, Traced.bind_of_error hv]
      | ok w' =>
        rw [Traced.bind_of_ok hv] at h
        rw [Traced.bind_of_ok hv, Traced.bind_of_ok hv, ih h]

/-- A run with fuel enough comes by a head, and goes on from there. -/
theorem Head.run {u : Worklist σ} {events : List (Event σ)} (h : A.Head w u events) :
    ∃ visits, ∀ fuel, A.run (visits + fuel) w
      = ⟨events ++ (A.run fuel u).trace, (A.run fuel u).outcome⟩ := by
  induction h with
  | start => exact ⟨0, fun fuel => by rw [Nat.zero_add, List.nil_append]⟩
  | @visit u events location rest u' _ hq hv ih =>
    obtain ⟨visits, hrun⟩ := ih
    refine ⟨visits + 1, fun fuel => ?_⟩
    have hgo : A.run (fuel + 1) u = ⟨(A.visit u location rest).trace ++ (A.run fuel u').trace,
        (A.run fuel u').outcome⟩ := by
      rw [run_succ_of_cons hq, Traced.bind_of_ok hv]
    rw [Nat.add_assoc, Nat.add_comm 1 fuel, hrun, hgo, List.append_assoc]

end ForwardAnalysis

end Provenance

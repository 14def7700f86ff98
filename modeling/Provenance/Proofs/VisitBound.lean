/-
How many visits a run can take.

Suppose that states have a rank, that no rank is above a bound, and that a join which changes the state
held at a location raises its rank (`ForwardAnalysis.Ranked`). Nothing else is asked of the analysis.
What flows out of a location may depend on the states that are shown, and need not grow with the state
that is passed on; and a join may answer the state that is held for one that is merely as good, which
is no change.

Then a location changes `bound + 1` times at most: once when it is reached, and once for each rank that
its state goes up. It gets in line only when it changes, and every visit takes one location out of the
line. So what all states may still rise and the length of the queue, added up (`Worklist.remaining`),
do not grow by an arrival, and go down by every visit. They make `locations * (bound + 1)` at most when
a run begins, and after so many visits every run has ended (`ForwardAnalysis.solve_ends_within`).

That a run ends at all is known of more analyses (`ForwardAnalysis.run_ends`): the ranks at which
locations are reached need no common bound for it, and then no number of visits is read off.
-/
import Provenance.Proofs.LastVisits
import Provenance.Proofs.Termination

set_option autoImplicit false

namespace Provenance

/-! ## What is left of a run -/

namespace Worklist

variable {σ : Type} {w : Worklist σ} {location : Nat} {new : σ} {rank : σ → Nat} {bound : Nat}

/-- How often the state of a location may still change: once for each rank that is left above it, and
once more if there is none yet. -/
def rise (rank : σ → Nat) (bound : Nat) : Option σ → Nat
  | none => bound + 1
  | some s => bound - rank s

/-- How many visits are left at most: those in line, and one for each change of a state. -/
def remaining (w : Worklist σ) (rank : σ → Nat) (bound : Nat) : Nat :=
  w.total (rise rank bound) + w.queue.length

theorem rise_le (s : Option σ) : rise rank bound s ≤ bound + 1 := by
  cases s with
  | none => exact Nat.le_refl _
  | some s =>
    show bound - rank s ≤ bound + 1
    omega

theorem length_queue_update_le : (w.update location new).queue.length ≤ w.queue.length + 1 := by
  show (if w.isQueued location then w.queue else w.queue ++ [location]).length ≤ _
  split
  · exact Nat.le_succ _
  · simp

/-- A location that changes gets in line, and has one change less before it. -/
theorem remaining_update_le (hl : location < w.states.size)
    (h : rise rank bound (some new) < rise rank bound (w.state? location)) :
    (w.update location new).remaining rank bound ≤ w.remaining rank bound := by
  have htotal : (w.update location new).total (rise rank bound) < w.total (rise rank bound) :=
    total_update_lt hl h
  have hqueue : (w.update location new).queue.length ≤ w.queue.length + 1 := length_queue_update_le
  unfold remaining
  omega

/-- The location that is taken leaves the line, and no state changes. -/
theorem remaining_take {rest : List Nat} (hq : w.queue = location :: rest) :
    (w.take location rest).remaining rank bound + 1 = w.remaining rank bound := by
  show w.total (rise rank bound) + rest.length + 1 = w.total (rise rank bound) + w.queue.length
  rw [hq, List.length_cons, Nat.add_assoc]

/-- At first the entry is in line, and has a state; no other location has one. -/
theorem remaining_start_le {locations entry : Nat} (h : entry < locations) (initial : σ) :
    (start locations entry initial).remaining rank bound ≤ locations * (bound + 1) := by
  have hentry : rise rank bound ((start locations entry initial).state? entry) < bound + 1 := by
    rw [state?_start h, if_pos rfl]
    show bound - rank initial < bound + 1
    omega
  have htotal : (start locations entry initial).total (rise rank bound)
      < ∑ _l ∈ Finset.range locations, (bound + 1) := by
    unfold total
    rw [size_start]
    apply Finset.sum_lt_sum
    · intro l _
      exact rise_le _
    · exact ⟨entry, Finset.mem_range.2 h, hentry⟩
  rw [Finset.sum_const_nat fun _ _ => rfl, Finset.card_range] at htotal
  -- the sum stays below the bound by one, which leaves room for the entry in line
  show (start locations entry initial).total (rise rank bound) + 1 ≤ locations * (bound + 1)
  exact htotal

end Worklist

namespace ForwardAnalysis

variable {σ : Type} {A : ForwardAnalysis σ} {w w' : Worklist σ} {rank : σ → Nat} {bound : Nat}

/-- No state ranks above the bound, and a join that changes a state raises its rank. -/
structure Ranked (A : ForwardAnalysis σ) (rank : σ → Nat) (bound : Nat) : Prop where
  le_bound : ∀ s, rank s ≤ bound
  lt_join : ∀ l held arriving joined, A.join l held arriving = .ok joined → joined ≠ held →
    rank held < rank joined

/-! ## From one arrival to a run -/

/-- Whatever arrives, no more visits are left than before. -/
theorem Arrives.remaining_le {location : Nat} {state : σ} {events : List (Event σ)}
    (h : A.Arrives w location state w' events) (hA : A.Ranked rank bound) :
    w'.remaining rank bound ≤ w.remaining rank bound := by
  cases h with
  | first hl hs =>
    refine Worklist.remaining_update_le hl ?_
    rw [hs]
    show bound - rank state < bound + 1
    omega
  | absorbed => exact Nat.le_refl _
  | @grown held joined hl hs hj hne =>
    have hrises : rank held < rank joined := hA.lt_join _ _ _ _ hj hne
    -- above the bound a rank could rise with nothing left to take from
    have hbound : rank joined ≤ bound := hA.le_bound joined
    refine Worklist.remaining_update_le hl ?_
    rw [hs]
    show bound - rank joined < bound - rank held
    omega

variable [DecidableEq σ]

theorem arriveAll_remaining_le (hA : A.Ranked rank bound) {flows : List (Nat × σ)}
    (h : (A.arriveAll w flows).outcome = .ok w') :
    w'.remaining rank bound ≤ w.remaining rank bound := by
  induction flows generalizing w with
  | nil =>
    obtain rfl := Except.ok.inj h
    exact Nat.le_refl _
  | cons p flows ih =>
    obtain ⟨u, hu, h, -⟩ := arriveAll_cons h
    exact (ih h).trans (hu.remaining_le hA)

/-- A visit is one of those that were left. -/
theorem visit_remaining_lt (hA : A.Ranked rank bound) {location : Nat} {rest : List Nat}
    (hq : w.queue = location :: rest) (h : (A.visit w location rest).outcome = .ok w') :
    w'.remaining rank bound < w.remaining rank bound := by
  obtain ⟨state, flows, -, -, harrive, -⟩ := visit_eq_ok h
  have hle : w'.remaining rank bound ≤ (w.take location rest).remaining rank bound :=
    arriveAll_remaining_le hA harrive
  have htake : (w.take location rest).remaining rank bound + 1 = w.remaining rank bound :=
    Worklist.remaining_take hq
  omega

/-- Fuel for as many visits as are left lasts to the end. -/
theorem run_ends_within (hA : A.Ranked rank bound) {fuel : Nat}
    (hfuel : w.remaining rank bound ≤ fuel) : (A.run fuel w).outcome ≠ .ok none := by
  induction fuel generalizing w with
  | zero =>
    cases hq : w.queue with
    | nil => exact run_ne_none_of_nil hq 0
    | cons location rest =>
      -- something is in line, so there is a visit left
      have htake : (w.take location rest).remaining rank bound + 1 = w.remaining rank bound :=
        Worklist.remaining_take hq
      omega
  | succ fuel ih =>
    cases hq : w.queue with
    | nil => exact run_ne_none_of_nil hq (fuel + 1)
    | cons location rest =>
      rw [run_succ_of_cons hq]
      cases hv : (A.visit w location rest).outcome with
      | error e =>
        rw [Traced.bind_of_error hv]
        intro h
        cases h
      | ok u =>
        rw [Traced.bind_of_ok hv]
        have hless : u.remaining rank bound < w.remaining rank bound :=
          visit_remaining_lt hA hq hv
        apply ih
        omega

/-! ## The solver -/

/-- If ranks are bounded and joins that change a state raise its rank, all runs come to the same end
as long as their fuel allows for `bound + 1` visits of each location. At the end there are states, or
an error that comes from the entry or from the analysis. -/
theorem solve_ends_within (hA : A.Ranked rank bound) (locations entry : Nat) (initial : σ) :
    ∃ solved : Solving σ (Option (States σ)),
      (∀ fuel, locations * (bound + 1) ≤ fuel → A.solve fuel locations entry initial = solved) ∧
      ((∃ states, solved.outcome = .ok (some states)) ∨
        ∃ e, solved.outcome = .error e ∧
          (locations ≤ entry ∧ e = .invalidJumpTarget entry ∨
            A.FailsAs locations solved.trace e)) := by
  by_cases hlt : entry < locations
  · have hends : (A.run (locations * (bound + 1)) (.start locations entry initial)).outcome
        ≠ .ok none := run_ends_within hA (Worklist.remaining_start_le hlt initial)
    refine ⟨A.run (locations * (bound + 1)) (.start locations entry initial), ?_, ?_⟩
    · intro fuel hfuel
      obtain ⟨more, rfl⟩ := Nat.exists_eq_add_of_le hfuel
      rw [solve_of_lt hlt, run_add hends more]
    · cases ho : (A.run (locations * (bound + 1)) (.start locations entry initial)).outcome with
      | ok answer =>
        cases answer with
        | none => exact absurd ho hends
        | some states => exact .inl ⟨states, rfl⟩
      | error e =>
        have hfails := run_eq_error (.start hlt initial) ho
        rw [Worklist.size_start] at hfails
        exact .inr ⟨e, rfl, .inr hfails⟩
  · have hout : locations ≤ entry := Nat.le_of_not_lt hlt
    refine ⟨throw (.invalidJumpTarget entry), fun fuel _ => ?_, .inr ⟨_, rfl, .inl ⟨hout, rfl⟩⟩⟩
    unfold solve
    rw [if_pos hout]

/-- Two locations take turns: each raises the state of the other by one, up to three. What flows is
found in the states that are shown, and not in the one that is passed on. -/
def takesTurns : ForwardAnalysis (Fin 4) where
  transfer l _ shown :=
    match shown[1 - l]?.join with
    | none => .ok [(1 - l, 0)]
    | some s => .ok [(1 - l, if s = 3 then s else s + 1)]
  join _ s t := .ok (max s t)

theorem ranked_takesTurns : takesTurns.Ranked Fin.val 3 where
  le_bound s := Nat.le_of_lt_succ s.isLt
  lt_join l held arriving joined hj hne := by
    obtain rfl : max held arriving = joined := Except.ok.inj hj
    have hle : held ≤ max held arriving := le_max_left held arriving
    exact Fin.lt_def.1 (lt_of_le_of_ne hle (Ne.symm hne))

/-- Each of the two locations is visited once with every rank, so that it takes all of the eight
visits. -/
theorem solve_ends_within_takesTurns :
    takesTurns.Ranked Fin.val 3 ∧
      (takesTurns.solve 7 2 0 0).outcome = .ok none ∧
      ∀ fuel, 8 ≤ fuel → (takesTurns.solve fuel 2 0 0).outcome = .ok (some #[some 3, some 3]) := by
  obtain ⟨solved, hsolved, -⟩ := solve_ends_within ranked_takesTurns 2 0 0
  have hlast : (takesTurns.solve 8 2 0 0).outcome = .ok (some #[some 3, some 3]) :=
    eq_ok_of_toOption (by decide +kernel)
  refine ⟨ranked_takesTurns, eq_ok_of_toOption (by decide +kernel), fun fuel hfuel => ?_⟩
  rw [hsolved fuel hfuel, ← hsolved 8 (Nat.le_refl 8)]
  exact hlast

end ForwardAnalysis

end Provenance

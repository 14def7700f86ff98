/-
Least solutions.

Suppose that states are ordered, that what flows from a larger state is larger, and that a join is
the least state above both of the states it joins. A solution holds the initial state at the entry,
and every state of it can be passed on into the others. What a run ends with is a solution, and no
other solution is smaller at any location (`ForwardAnalysis.solve_isLeast`).

Both halves are read off what is known of runs. Joins that are upper bounds go up, so at the end all
that flows has been taken up; and a state that lies below a solution stays below it when it is passed
on, because transfers are monotone, and when it is joined, because joins are least.
-/
import Mathlib.Data.Finset.Lattice.Basic
import Mathlib.Data.Finset.Insert
import Mathlib.Order.Bounds.Basic
import Provenance.Proofs.Runs

set_option autoImplicit false

namespace Provenance.ForwardAnalysis

variable {σ : Type}

section Order

variable [PartialOrder σ]

/-- An analysis that goes along with the order of its states: it passes a state on without looking at
the others, passes more on from more, and joins to least upper bounds. -/
structure Ordered (A : ForwardAnalysis σ) : Prop where
  shown : ∀ l s states states', A.transfer l s states = A.transfer l s states'
  /-- As far as both states can be passed on. -/
  monotone : ∀ l s t states flows flows', s ≤ t → A.transfer l s states = .ok flows →
    A.transfer l t states = .ok flows' → ∀ p ∈ flows, ∃ q ∈ flows', q.1 = p.1 ∧ p.2 ≤ q.2
  lub : ∀ l s t u, A.join l s t = .ok u → IsLUB {s, t} u

/-- States at some locations hold the initial state at the entry, and each of them can be passed on
into what the others hold. -/
structure Solves (A : ForwardAnalysis σ) (entry : Nat) (initial : σ)
    (state? : Nat → Option σ) : Prop where
  entry : ∃ t, state? entry = some t ∧ initial ≤ t
  flow : ∀ l s, state? l = some s → ∃ flows, (∀ states, A.transfer l s states = .ok flows) ∧
    ∀ p ∈ flows, ∃ t, state? p.1 = some t ∧ p.2 ≤ t

variable {A : ForwardAnalysis σ} {entry : Nat} {initial : σ}

/-- Least upper bounds lie above what is joined. -/
theorem Ordered.joinsGoUp [DecidableEq σ] (hA : A.Ordered) (events : List (Event σ)) :
    A.JoinsGoUp (fun _ => (· ≤ ·)) events := by
  intro l held arriving joined _ hj
  have hlub : IsLUB {held, arriving} joined := hA.lub l held arriving joined hj
  exact ⟨hlub.1 (Set.mem_insert _ _), hlub.1 (Set.mem_insert_of_mem _ rfl)⟩

/-- What flows from a state below a solution lies below the solution. -/
theorem Solves.flow_le (hA : A.Ordered) {state? : Nat → Option σ}
    (h : A.Solves entry initial state?) {l : Nat} {s x : σ} (hx : state? l = some x)
    (hsx : s ≤ x) {states : States σ} {flows : List (Nat × σ)}
    (hflows : A.transfer l s states = .ok flows) :
    ∀ p ∈ flows, ∃ t, state? p.1 = some t ∧ p.2 ≤ t := by
  obtain ⟨flows', hflows', htaken⟩ := h.flow l x hx
  intro p hp
  obtain ⟨q, hq, hqp, hle⟩ :=
    hA.monotone l s x states flows flows' hsx hflows (hflows' states) p hp
  obtain ⟨t, ht, hqt⟩ := htaken q hq
  rw [hqp] at ht
  exact ⟨t, ht, hle.trans hqt⟩

/-- The join of two states below a solution lies below the solution. -/
theorem Ordered.join_le (hA : A.Ordered) {state? : Nat → Option σ} {l : Nat}
    {held arriving joined : σ} (hheld : ∃ t, state? l = some t ∧ held ≤ t)
    (harriving : ∃ t, state? l = some t ∧ arriving ≤ t)
    (hj : A.join l held arriving = .ok joined) : ∃ t, state? l = some t ∧ joined ≤ t := by
  obtain ⟨t, ht, hheld⟩ := hheld
  obtain ⟨t', ht', harriving⟩ := harriving
  obtain rfl : t = t' := Option.some.inj (ht.symm.trans ht')
  refine ⟨t, ht, (hA.lub l held arriving joined hj).2 ?_⟩
  intro s hs
  rcases hs with rfl | rfl
  · exact hheld
  · exact harriving

variable [DecidableEq σ] {fuel locations : Nat} {states : States σ}

/-- What a run ends with is the least solution: it solves the analysis from the entry, and wherever
it has a state, every solution has one that is no smaller. -/
theorem solve_isLeast (hA : A.Ordered)
    (h : (A.solve fuel locations entry initial).outcome = .ok (some states)) :
    A.Solves entry initial (fun l => states[l]?.join) ∧
      ∀ other, A.Solves entry initial other →
        ∀ l s, states[l]?.join = some s → ∃ t, other l = some t ∧ s ≤ t := by
  constructor
  · obtain ⟨hentry, hflow⟩ := solve_settled (R := fun _ => (· ≤ ·)) (fun _ s => le_refl s)
      (fun _ _ _ _ => le_trans) h (hA.joinsGoUp _)
    refine ⟨hentry, fun l s hs => ?_⟩
    obtain ⟨shown, flows, hflows, htaken⟩ := hflow l s hs
    exact ⟨flows, fun other => hA.shown l s other shown ▸ hflows, htaken⟩
  · intro other hother
    -- being below the other solution holds of the initial state, and every step keeps it
    have hbelow := solve_keeps (P := fun l s => ∃ t, other l = some t ∧ s ≤ t) h hother.entry
      (fun l s shown flows _ ⟨x, hx, hsx⟩ hflows => hother.flow_le hA hx hsx hflows)
      (fun l held arriving joined _ hheld harriving hj => hA.join_le hheld harriving hj)
    exact hbelow.1

end Order

/-- Which locations have been passed on the way: every location adds itself to what it was reached
with and passes that on to its successors. -/
def reaching (successors : List (List Nat)) : ForwardAnalysis (Finset Nat) where
  transfer l s _ := .ok ((successors.getD l []).map fun k => (k, insert l s))
  join _ s t := .ok (s ∪ t)

theorem ordered_reaching (successors : List (List Nat)) : (reaching successors).Ordered where
  shown _ _ _ _ := rfl
  monotone l s t states flows flows' hst hflows hflows' p hp := by
    obtain rfl := Except.ok.inj hflows
    obtain rfl := Except.ok.inj hflows'
    obtain ⟨k, hk, rfl⟩ := List.mem_map.1 hp
    exact ⟨(k, insert l t), List.mem_map.2 ⟨k, hk, rfl⟩, rfl, Finset.insert_subset_insert l hst⟩
  lub l s t u hu := by
    obtain rfl := Except.ok.inj hu
    rw [← Finset.sup_eq_union]
    exact isLUB_pair

/-- A loop between two locations, with an exit and a location that is not reached. -/
theorem solve_isLeast_reaching :
    ∃ states, ((reaching [[1], [2], [1, 3], [], [3]]).solve 10 5 0 ∅).outcome
        = .ok (some states) ∧
      states = #[some ∅, some {0, 1, 2}, some {0, 1, 2}, some {0, 1, 2}, none] ∧
      (reaching [[1], [2], [1, 3], [], [3]]).Solves 0 ∅ (fun l => states[l]?.join) ∧
      ∀ other, (reaching [[1], [2], [1, 3], [], [3]]).Solves 0 ∅ other →
        ∀ l s, states[l]?.join = some s → ∃ t, other l = some t ∧ s ≤ t := by
  have h : ((reaching [[1], [2], [1, 3], [], [3]]).solve 10 5 0 ∅).outcome
      = .ok (some #[some ∅, some {0, 1, 2}, some {0, 1, 2}, some {0, 1, 2}, none]) :=
    eq_ok_of_toOption (by decide +kernel)
  obtain ⟨hsolves, hleast⟩ := solve_isLeast (ordered_reaching _) h
  exact ⟨_, h, rfl, hsolves, hleast⟩

end Provenance.ForwardAnalysis

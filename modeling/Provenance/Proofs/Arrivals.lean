/-
What arrives in a run.

A transfer is shown the states of all locations, and what it answers may depend on them. So what flows
from a state is not settled by the state. What does count is what a run was answered: at a location
arrive the initial state, if it is the entry, and the states that transfers of the run answered for it
(`ForwardAnalysis.Arrived`). If joins go up, all of them stay taken up (`solve_arrived`), and the state
that a solution has at a location was passed on in the run, which showed it the states of that time.
-/
import Provenance.Proofs.Runs

set_option autoImplicit false

namespace Provenance.ForwardAnalysis

variable {σ : Type} [DecidableEq σ] {A : ForwardAnalysis σ} {w w' : Worklist σ}

/-- A state arrives at a location in the course of some events: it is there at first, or a transfer
answers it. -/
inductive Arrived (A : ForwardAnalysis σ) (entry : Nat) (initial : σ) (events : List (Event σ)) :
    Nat → σ → Prop
  | initial : Arrived A entry initial events entry initial
  | flow {l s shown flows target t} (he : .transfer l s shown ∈ events)
    (hT : A.transfer l s shown = .ok flows) (ht : (target, t) ∈ flows) :
    Arrived A entry initial events target t

/-! ## Transfers among the events -/

/-- All that happens while states arrive are joins. -/
theorem eq_join_of_mem_arriveAll {flows : List (Nat × σ)}
    (h : (A.arriveAll w flows).outcome = .ok w') {e : Event σ}
    (he : e ∈ (A.arriveAll w flows).trace) : ∃ l held arriving, e = .join l held arriving := by
  induction flows generalizing w with
  | nil => cases he
  | cons p flows ih =>
    obtain ⟨u, hu, h, htrace⟩ := arriveAll_cons h
    rw [htrace] at he
    rcases List.mem_append.1 he with he | he
    · generalize (A.arrive w p.1 p.2).trace = events at hu he
      cases hu with
      | first => cases he
      | absorbed | grown => exact ⟨_, _, _, List.mem_singleton.1 he⟩
    · exact ih h he

/-- A visit makes one transfer, of the state that the location has. -/
theorem transfer_mem_visit {location : Nat} {rest : List Nat}
    (h : (A.visit w location rest).outcome = .ok w') {l : Nat} {s : σ} {shown : States σ} :
    .transfer l s shown ∈ (A.visit w location rest).trace ↔
      l = location ∧ w.state? location = some s ∧ shown = w.states := by
  obtain ⟨state, flows, hstate, -, harrive, htrace⟩ := visit_eq_ok h
  rw [htrace]
  constructor
  · intro he
    rcases List.mem_cons.1 he with he | he
    · cases he
    · rcases List.mem_cons.1 he with he | he
      · cases he
        exact ⟨rfl, hstate, rfl⟩
      · obtain ⟨_, _, _, he⟩ := eq_join_of_mem_arriveAll harrive he
        cases he
  · rintro ⟨rfl, hs, rfl⟩
    obtain rfl := Option.some.inj (hstate.symm.trans hs)
    exact List.mem_cons_of_mem _ List.mem_cons_self

omit [DecidableEq σ] in
/-- What arrives in the course of more events arrived before or flows in one of those. -/
theorem Arrived.of_append {entry : Nat} {initial : σ} {s t : List (Event σ)} {l : Nat} {state : σ}
    (h : A.Arrived entry initial (s ++ t) l state) :
    A.Arrived entry initial s l state ∨ ∃ k u shown flows, .transfer k u shown ∈ t ∧
      A.transfer k u shown = .ok flows ∧ (l, state) ∈ flows := by
  cases h with
  | initial => exact .inl .initial
  | flow he hT ht =>
    rcases List.mem_append.1 he with he | he
    · exact .inl (.flow he hT ht)
    · exact .inr ⟨_, _, _, _, he, hT, ht⟩

/-! ## What transfers are shown -/

/-- If what holds of all states at hand holds of what flows from them, it holds of every state that a
transfer is shown. -/
theorem Head.shown {P : Nat → σ → Prop} {events : List (Event σ)} (h : A.Head w w' events)
    (hw : ∀ l s, w.state? l = some s → P l s)
    (hT : ∀ l s shown flows, P l s → (∀ k t, shown[k]?.join = some t → P k t) →
      A.transfer l s shown = .ok flows → ∀ p ∈ flows, P p.1 p.2)
    (hJ : ∀ l held arriving joined, P l held → P l arriving →
      A.join l held arriving = .ok joined → P l joined) :
    ∀ l s shown, .transfer l s shown ∈ events → ∀ k t, shown[k]?.join = some t → P k t := by
  induction h with
  | start => exact fun _ _ _ he => nomatch he
  | @visit u events location rest u' h hq hv ih =>
    obtain ⟨hu, -⟩ := h.keeps hw
      (fun l s shown flows he hs hflows => hT l s shown flows hs (ih l s shown he) hflows)
      (fun l held arriving joined _ => hJ l held arriving joined)
    intro l s shown he
    rcases List.mem_append.1 he with he | he
    · exact ih l s shown he
    · obtain ⟨-, -, rfl⟩ := (transfer_mem_visit hv).1 he
      exact hu

/-! ## What stays taken up -/

section Order

variable {R : Nat → σ → σ → Prop} (hrefl : ∀ l s, R l s s)
  (htrans : ∀ l s t u, R l s t → R l t u → R l s u) {locations entry : Nat} {initial : σ}
include hrefl htrans

/-- At every head all that arrived has been taken up, and a location that is not due for a visit has
been passed on as it is. -/
theorem Head.arrived {events : List (Event σ)}
    (h : A.Head (.start locations entry initial) w events) (hlt : entry < locations)
    (hJ : A.JoinsGoUp R events) :
    (∀ l s, A.Arrived entry initial events l s → ∃ t, w.state? l = some t ∧ R l s t) ∧ w.Marked ∧
      ∀ l s, w.state? l = some s → l ∈ w.queue ∨
        ∃ shown flows, .transfer l s shown ∈ events ∧ A.transfer l s shown = .ok flows := by
  induction h with
  | start =>
    have hfirst : ∀ l s, (Worklist.start locations entry initial).state? l = some s →
        l ∈ (Worklist.start locations entry initial).queue :=
      Worklist.holds_start hlt (List.mem_singleton_self entry)
    refine ⟨fun l s hs => ?_, .start initial, fun l s hs => .inl (hfirst l s hs)⟩
    cases hs with
    | initial => exact ⟨initial, by rw [Worklist.state?_start hlt, if_pos rfl], hrefl _ _⟩
    | flow he => cases he
  | @visit u events location rest u' h hq hv ih =>
    obtain ⟨hup, hmarked, hpassed⟩ := ih fun l held arriving joined he =>
      hJ l held arriving joined (List.mem_append_left _ he)
    obtain ⟨state, flows, hstate, hflows, harrive, htrace⟩ := visit_eq_ok hv
    have hJ' : A.JoinsGoUp R (A.arriveAll (u.take location rest) flows).trace := by
      intro l held arriving joined he
      refine hJ l held arriving joined (List.mem_append_right _ ?_)
      rw [htrace]
      exact List.mem_cons_of_mem _ (List.mem_cons_of_mem _ he)
    obtain ⟨hgrows, htaken⟩ := arriveAll_grows hrefl htrans harrive hJ'
    refine ⟨fun l s hs => ?_, hgrows.marked (hmarked.take hq), fun l s hs => ?_⟩
    · rcases hs.of_append with hs | ⟨k, t, shown, flows', he, hT, ht⟩
      · -- what was taken up before this visit may have grown
        obtain ⟨t, ht, hst⟩ := hup l s hs
        obtain ⟨t', ht', htt'⟩ := hgrows.up l t ht
        exact ⟨t', ht', htrans l s t t' hst htt'⟩
      · obtain ⟨rfl, hk, rfl⟩ := (transfer_mem_visit hv).1 he
        obtain rfl := Option.some.inj (hstate.symm.trans hk)
        obtain rfl := Except.ok.inj (hflows.symm.trans hT)
        exact htaken _ ht
    · rcases hgrows.changed (hmarked.take hq) l with heq | hmem
      · -- the state of the location did not change, so it is the one last passed on
        rw [hs] at heq
        have hold : u.state? l = some s := heq.symm
        by_cases hl : l = location
        · subst hl
          obtain rfl := Option.some.inj (hstate.symm.trans hold)
          exact .inr ⟨u.states, flows, List.mem_append_right _
            ((transfer_mem_visit hv).2 ⟨rfl, hold, rfl⟩), hflows⟩
        · rcases hpassed l s hold with hmem | ⟨shown, flows', he, hT⟩
          · rw [hq] at hmem
            exact .inl (hgrows.queue l ((List.mem_cons.1 hmem).resolve_left hl))
          · exact .inr ⟨shown, flows', List.mem_append_left _ he, hT⟩
      · exact .inl hmem

/-- If the joins that were made go up, a solution has taken up all that arrived, and every state of it
was passed on in the run. -/
theorem solve_arrived {fuel : Nat} {states : States σ}
    (h : (A.solve fuel locations entry initial).outcome = .ok (some states))
    (hJ : A.JoinsGoUp R (A.solve fuel locations entry initial).trace) :
    (∀ l s, A.Arrived entry initial (A.solve fuel locations entry initial).trace l s →
        ∃ t, states[l]?.join = some t ∧ R l s t) ∧
      ∀ l s, states[l]?.join = some s → ∃ shown flows,
        .transfer l s shown ∈ (A.solve fuel locations entry initial).trace ∧
          A.transfer l s shown = .ok flows := by
  obtain ⟨hlt, u, events, hu, hnil, rfl, htrace⟩ := solve_eq_ok h
  rw [htrace] at hJ ⊢
  obtain ⟨hup, -, hpassed⟩ := hu.arrived hrefl htrans hlt fun l held arriving joined he =>
    hJ l held arriving joined (List.mem_append_left _ he)
  refine ⟨fun l s hs => ?_, fun l s hs => ?_⟩
  · rcases hs.of_append with hs | ⟨k, t, shown, flows, he, -⟩
    · exact hup l s hs
    · cases List.mem_singleton.1 he
  · rcases hpassed l s hs with hmem | ⟨shown, flows, he, hT⟩
    · -- nothing is due at the end
      rw [hnil] at hmem
      cases hmem
    · exact ⟨shown, flows, List.mem_append_left _ he, hT⟩

end Order

/-- What holds of the initial state, of what flows from states of which it holds when such states are
shown, and of joins holds of every state that a transfer of the run was shown. -/
theorem solve_shown {P : Nat → σ → Prop} {fuel locations entry : Nat} {initial : σ}
    {states : States σ} (h : (A.solve fuel locations entry initial).outcome = .ok (some states))
    (h0 : P entry initial)
    (hT : ∀ l s shown flows, P l s → (∀ k t, shown[k]?.join = some t → P k t) →
      A.transfer l s shown = .ok flows → ∀ p ∈ flows, P p.1 p.2)
    (hJ : ∀ l held arriving joined, P l held → P l arriving →
      A.join l held arriving = .ok joined → P l joined) :
    ∀ l s shown, .transfer l s shown ∈ (A.solve fuel locations entry initial).trace →
      ∀ k t, shown[k]?.join = some t → P k t := by
  obtain ⟨hlt, u, events, hu, -, -, htrace⟩ := solve_eq_ok h
  rw [htrace]
  intro l s shown he
  rcases List.mem_append.1 he with he | he
  · exact hu.shown (Worklist.holds_start hlt h0) hT hJ l s shown he
  · cases List.mem_singleton.1 he

end Provenance.ForwardAnalysis

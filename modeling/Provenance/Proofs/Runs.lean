/-
Runs of a worklist.

A run stands at one head of its loop after another; a head is a worklist together with the events
that led to it (`ForwardAnalysis.Head`). Between two heads lies a visit, and a visit is a number of
arrivals. There are three kinds of arrivals (`Arrives`), and whatever is said of runs here is said of
an arrival first, then of several, then of heads.

Two things are shown of every head. What holds of the initial state and goes through transfers and
through the joins that are made holds of every state that the run sees (`Head.keeps`). And if the
joins that are made go up in an order, which may be another one at each location, then the states do,
and the states that flow from a location that is not in the queue have been taken up
(`Head.settled`); at the end the queue is empty.
-/
import Provenance.Analysis.FixedPoint

set_option autoImplicit false

namespace Provenance

/-- A property of states, location by location, holds of what an event shows. -/
def Event.Holds {σ : Type} (P : Nat → σ → Prop) : Event σ → Prop
  | transfer location state _ => P location state
  | join location held arriving => P location held ∧ P location arriving
  | visit _ | converged .. => True

namespace Worklist

variable {σ : Type} {w : Worklist σ} {location l : Nat} {state : σ}

/-! ## Worklists -/

theorem state?_update (h : location < w.states.size) (l : Nat) :
    (w.update location state).state? l = if l = location then some state else w.state? l := by
  show (w.states.setIfInBounds location (some state))[l]?.join = _
  rw [Array.getElem?_setIfInBounds]
  by_cases hl : l = location
  · rw [if_pos hl.symm, if_pos h, if_pos hl]
    rfl
  · rw [if_neg (Ne.symm hl), if_neg hl]
    rfl

/-- Every location that is marked to be visited is in the queue. -/
def Marked (w : Worklist σ) : Prop := ∀ l, w.isQueued l → l ∈ w.queue

theorem mem_queue_update_of_mem (h : l ∈ w.queue) : l ∈ (w.update location state).queue := by
  show l ∈ if w.isQueued location then w.queue else w.queue ++ [location]
  split
  · exact h
  · exact List.mem_append_left _ h

theorem mem_queue_update_self (hw : w.Marked) : location ∈ (w.update location state).queue := by
  show location ∈ if w.isQueued location then w.queue else w.queue ++ [location]
  split
  · rename_i hq
    exact hw location hq
  · exact List.mem_append_right _ (List.mem_singleton_self location)

theorem Marked.update (hw : w.Marked) : (w.update location state).Marked := by
  intro l hl
  by_cases hne : l = location
  · rw [hne]
    exact mem_queue_update_self hw
  · refine mem_queue_update_of_mem (hw l ?_)
    have hl' : (w.queued.setIfInBounds location true)[l]?.getD false = true := hl
    rw [Array.getElem?_setIfInBounds, if_neg (Ne.symm hne)] at hl'
    exact hl'

theorem Marked.take (hw : w.Marked) {rest : List Nat} (hq : w.queue = location :: rest) :
    (w.take location rest).Marked := by
  intro l hl
  have hl' : (w.queued.setIfInBounds location false)[l]?.getD false = true := hl
  rw [Array.getElem?_setIfInBounds] at hl'
  by_cases hne : l = location
  · rw [if_pos hne.symm] at hl'
    split at hl' <;> cases hl'
  · rw [if_neg (Ne.symm hne)] at hl'
    have hmem := hw l hl'
    rw [hq] at hmem
    exact (List.mem_cons.1 hmem).resolve_left hne

theorem state?_start {locations entry : Nat} (h : entry < locations) (initial : σ) (l : Nat) :
    (start locations entry initial).state? l = if l = entry then some initial else none := by
  show ((Array.replicate locations none).setIfInBounds entry (some initial))[l]?.join = _
  rw [Array.getElem?_setIfInBounds, Array.size_replicate]
  by_cases hl : l = entry
  · rw [if_pos hl.symm, if_pos h, if_pos hl]
    rfl
  · rw [if_neg (Ne.symm hl), if_neg hl, Array.getElem?_replicate]
    split <;> rfl

theorem size_start (locations entry : Nat) (initial : σ) :
    (start locations entry initial).states.size = locations := by
  show ((Array.replicate locations none).setIfInBounds entry (some initial)).size = locations
  rw [Array.size_setIfInBounds, Array.size_replicate]

/-- At first only the entry has a state. -/
theorem holds_start {P : Nat → σ → Prop} {locations entry : Nat} (h : entry < locations)
    {initial : σ} (h0 : P entry initial) (l : Nat) (s : σ)
    (hs : (start locations entry initial).state? l = some s) : P l s := by
  rw [state?_start h] at hs
  by_cases he : l = entry
  · rw [if_pos he] at hs
    obtain rfl := Option.some.inj hs
    exact he ▸ h0
  · rw [if_neg he] at hs
    cases hs

theorem Marked.start {locations entry : Nat} (initial : σ) :
    (start locations entry initial).Marked := by
  intro l hl
  have hl' : ((Array.replicate locations false).setIfInBounds entry true)[l]?.getD false
    = true := hl
  rw [Array.getElem?_setIfInBounds] at hl'
  by_cases hne : entry = l
  · rw [hne]
    exact List.mem_singleton_self l
  · rw [if_neg hne, Array.getElem?_replicate] at hl'
    split at hl' <;> cases hl'

end Worklist

namespace ForwardAnalysis

variable {σ : Type} [DecidableEq σ] {A : ForwardAnalysis σ} {w w' : Worklist σ}

/-! ## What a run does -/

/-- An arrival at a location, with the worklist it leaves and its events. -/
inductive Arrives (A : ForwardAnalysis σ) (w : Worklist σ) (location : Nat) (state : σ) :
    Worklist σ → List (Event σ) → Prop
  /-- The first state is held. -/
  | first (hl : location < w.states.size) (h : w.state? location = none) :
    Arrives A w location state (w.update location state) []
  /-- A state changes nothing. -/
  | absorbed {held : σ} (h : w.state? location = some held)
    (hj : A.join location held state = .ok held) :
    Arrives A w location state w [.join location held state]
  /-- A state changes the one that is held. -/
  | grown {held joined : σ} (hl : location < w.states.size) (h : w.state? location = some held)
    (hj : A.join location held state = .ok joined) (hne : joined ≠ held) :
    Arrives A w location state (w.update location joined) [.join location held state]

theorem arrives_of_ok {location : Nat} {state : σ}
    (h : (A.arrive w location state).outcome = .ok w') :
    A.Arrives w location state w' (A.arrive w location state).trace := by
  unfold arrive at h ⊢
  by_cases hl : w.states.size ≤ location
  · rw [if_pos hl] at h
    cases h
  rw [if_neg hl] at h ⊢
  cases hs : w.state? location with
  | none =>
    rw [hs] at h
    obtain rfl := Except.ok.inj h
    exact .first (by omega) hs
  | some held =>
    rw [hs] at h
    obtain ⟨joined, hj, h⟩ := Traced.bind_outcome_eq_ok.1 h
    have hj' : A.join location held state = .ok joined := hj
    dsimp only
    rw [Traced.bind_of_ok hj]
    obtain rfl := Except.ok.inj h
    by_cases he : joined = held
    · rw [if_pos he]
      exact .absorbed hs (he ▸ hj')
    · rw [if_neg he]
      exact .grown (by omega) hs hj' he

theorem arriveAll_cons {location : Nat} {state : σ} {flows : List (Nat × σ)}
    (h : (A.arriveAll w ((location, state) :: flows)).outcome = .ok w') :
    ∃ u, A.Arrives w location state u (A.arrive w location state).trace ∧
      (A.arriveAll u flows).outcome = .ok w' ∧
      (A.arriveAll w ((location, state) :: flows)).trace
        = (A.arrive w location state).trace ++ (A.arriveAll u flows).trace := by
  rw [arriveAll] at h ⊢
  obtain ⟨u, hu, h⟩ := Traced.bind_outcome_eq_ok.1 h
  refine ⟨u, arrives_of_ok hu, h, ?_⟩
  rw [Traced.bind_of_ok hu]

theorem visit_eq_ok {location : Nat} {rest : List Nat}
    (h : (A.visit w location rest).outcome = .ok w') :
    ∃ state flows, w.state? location = some state ∧
      A.transfer location state w.states = .ok flows ∧
      (A.arriveAll (w.take location rest) flows).outcome = .ok w' ∧
      (A.visit w location rest).trace = .visit location :: .transfer location state w.states ::
        (A.arriveAll (w.take location rest) flows).trace := by
  unfold visit at h ⊢
  obtain ⟨_, hn, h⟩ := Traced.bind_outcome_eq_ok.1 h
  dsimp only
  rw [Traced.bind_of_ok hn]
  cases hs : (w.take location rest).state? location with
  | none =>
    rw [hs] at h
    cases h
  | some state =>
    rw [hs] at h
    obtain ⟨flows, hf, h⟩ := Traced.bind_outcome_eq_ok.1 h
    refine ⟨state, flows, hs, hf, h, ?_⟩
    dsimp only
    rw [Traced.bind_of_ok hf]
    rfl

/-- A head of the loop: where a run may stand between two visits, and what it did so far. -/
inductive Head (A : ForwardAnalysis σ) (w : Worklist σ) : Worklist σ → List (Event σ) → Prop
  | start : Head A w w []
  | visit {u : Worklist σ} {events : List (Event σ)} {location : Nat} {rest : List Nat}
    {u' : Worklist σ} (h : Head A w u events) (hq : u.queue = location :: rest)
    (hv : (A.visit u location rest).outcome = .ok u') :
    Head A w u' (events ++ (A.visit u location rest).trace)

theorem Head.trans {u v : Worklist σ} {s t : List (Event σ)} (h : A.Head w u s)
    (k : A.Head u v t) : A.Head w v (s ++ t) := by
  induction k with
  | start => rwa [List.append_nil]
  | visit _ hq hv ih =>
    rw [← List.append_assoc]
    exact ih.visit hq hv

omit [DecidableEq σ] in
/-- The answer of a run that comes to its end is its states. -/
theorem finish_eq_ok {answer : Option (States σ)}
    (h : (finish w : Solving σ _).outcome = .ok answer) : answer = some w.states :=
  (Except.ok.inj h).symm

/-- With nothing left to visit a run ends, whether or not there is fuel left. -/
theorem run_of_nil (hq : w.queue = []) (fuel : Nat) : A.run fuel w = finish w := by
  cases fuel with
  | zero =>
    unfold run
    rw [hq]
  | succ fuel =>
    unfold run
    rw [hq]

/-- Without fuel a run has no answer as long as something is left to visit. -/
theorem run_zero_of_cons {location : Nat} {rest : List Nat} (hq : w.queue = location :: rest) :
    A.run 0 w = pure none := by
  unfold run
  rw [hq]

/-- A run visits what is first in the queue, and goes on from there. -/
theorem run_succ_of_cons {location : Nat} {rest : List Nat} (hq : w.queue = location :: rest)
    (fuel : Nat) : A.run (fuel + 1) w = A.visit w location rest >>= A.run fuel := by
  rw [run, hq]

/-- A run that ends is at a head with nothing left to visit. -/
theorem run_eq_ok {fuel : Nat} {states : States σ}
    (h : (A.run fuel w).outcome = .ok (some states)) :
    ∃ u events, A.Head w u events ∧ u.queue = [] ∧ u.states = states ∧
      (A.run fuel w).trace = events ++ [.converged u.iterations u.states.size] := by
  have hfinish : ∀ fuel v, v.queue = [] → (A.run fuel v).outcome = .ok (some states) →
      ∃ u events, A.Head v u events ∧ u.queue = [] ∧ u.states = states ∧
        (A.run fuel v).trace = events ++ [.converged u.iterations u.states.size] := by
    intro fuel v hv ho
    rw [run_of_nil hv] at ho ⊢
    exact ⟨v, [], .start, hv, (Option.some.inj (finish_eq_ok ho)).symm, rfl⟩
  induction fuel generalizing w with
  | zero =>
    cases hq : w.queue with
    | nil => exact hfinish 0 w hq h
    | cons location rest =>
      rw [run_zero_of_cons hq] at h
      cases h
  | succ fuel ih =>
    cases hq : w.queue with
    | nil => exact hfinish (fuel + 1) w hq h
    | cons location rest =>
      rw [run_succ_of_cons hq] at h ⊢
      obtain ⟨v, hv, h⟩ := Traced.bind_outcome_eq_ok.1 h
      obtain ⟨u, events, hu, hnil, hstates, htrace⟩ := ih h
      -- heads go on at the end, and this visit is the first of all
      refine ⟨u, _, (Head.start.visit hq hv).trans hu, hnil, hstates, ?_⟩
      rw [Traced.bind_of_ok hv, htrace, List.nil_append, List.append_assoc]

/-! ## The number of locations -/

omit [DecidableEq σ] in
theorem Arrives.size {location : Nat} {state : σ} {events : List (Event σ)}
    (h : A.Arrives w location state w' events) : w'.states.size = w.states.size := by
  cases h with
  | first | grown => exact Array.size_setIfInBounds
  | absorbed => rfl

theorem arriveAll_size {flows : List (Nat × σ)} (h : (A.arriveAll w flows).outcome = .ok w') :
    w'.states.size = w.states.size := by
  induction flows generalizing w with
  | nil =>
    obtain rfl := Except.ok.inj h
    rfl
  | cons p flows ih =>
    obtain ⟨u, hu, h, -⟩ := arriveAll_cons h
    exact (ih h).trans hu.size

/-- A run keeps to the locations it has. -/
theorem Head.size {events : List (Event σ)} (h : A.Head w w' events) :
    w'.states.size = w.states.size := by
  induction h with
  | start => rfl
  | visit _ _ hv ih =>
    obtain ⟨state, flows, -, -, harrive, -⟩ := visit_eq_ok hv
    exact (arriveAll_size harrive).trans ih

/-! ## What goes through transfers and joins -/

omit [DecidableEq σ] in
/-- What holds of the states of a worklist and of one that arrives holds afterwards. -/
theorem Arrives.keeps {P : Nat → σ → Prop} {location : Nat} {state : σ}
    {events : List (Event σ)} (h : A.Arrives w location state w' events)
    (hw : ∀ l s, w.state? l = some s → P l s) (hs : P location state)
    (hJ : ∀ l held arriving joined, .join l held arriving ∈ events → P l held → P l arriving →
      A.join l held arriving = .ok joined → P l joined) :
    (∀ l s, w'.state? l = some s → P l s) ∧ ∀ e ∈ events, e.Holds P := by
  -- an arrival writes one location at most, and shows at most one join there
  have hupdate : ∀ new, location < w.states.size → P location new →
      ∀ l s, (w.update location new).state? l = some s → P l s := by
    intro new hl hnew l s hls
    rw [Worklist.state?_update hl] at hls
    by_cases he : l = location
    · rw [if_pos he] at hls
      obtain rfl := Option.some.inj hls
      exact he ▸ hnew
    · rw [if_neg he] at hls
      exact hw l s hls
  have hevent : ∀ held, w.state? location = some held →
      ∀ e ∈ [Event.join location held state], e.Holds P := by
    intro held hheld e he
    obtain rfl := List.mem_singleton.1 he
    exact ⟨hw location held hheld, hs⟩
  cases h with
  | first hl _ => exact ⟨hupdate state hl hs, fun e he => nomatch he⟩
  | absorbed hheld hj => exact ⟨hw, hevent _ hheld⟩
  | grown hl hheld hj =>
    refine ⟨hupdate _ hl ?_, hevent _ hheld⟩
    exact hJ _ _ _ _ (List.mem_singleton_self _) (hw _ _ hheld) hs hj

theorem arriveAll_keeps {P : Nat → σ → Prop} {flows : List (Nat × σ)}
    (h : (A.arriveAll w flows).outcome = .ok w')
    (hw : ∀ l s, w.state? l = some s → P l s) (hs : ∀ p ∈ flows, P p.1 p.2)
    (hJ : ∀ l held arriving joined, .join l held arriving ∈ (A.arriveAll w flows).trace →
      P l held → P l arriving → A.join l held arriving = .ok joined → P l joined) :
    (∀ l s, w'.state? l = some s → P l s) ∧ ∀ e ∈ (A.arriveAll w flows).trace, e.Holds P := by
  induction flows generalizing w with
  | nil =>
    obtain rfl := Except.ok.inj h
    exact ⟨hw, fun e he => nomatch he⟩
  | cons p flows ih =>
    obtain ⟨location, state⟩ := p
    obtain ⟨u, hu, h, htrace⟩ := arriveAll_cons h
    rw [htrace] at hJ ⊢
    -- the other states arrive at what the first has left
    obtain ⟨hpu, hpe⟩ := hu.keeps hw (hs _ List.mem_cons_self) fun l held arriving joined he =>
      hJ l held arriving joined (List.mem_append_left _ he)
    obtain ⟨hpw, hpe'⟩ := ih h hpu (fun p hp => hs p (List.mem_cons_of_mem _ hp))
      fun l held arriving joined he => hJ l held arriving joined (List.mem_append_right _ he)
    refine ⟨hpw, fun e he => ?_⟩
    rcases List.mem_append.1 he with he | he
    · exact hpe e he
    · exact hpe' e he

/-- What holds of the first states, and goes through the transfers and the joins of a run, holds of
every state that the run sees. -/
theorem Head.keeps {P : Nat → σ → Prop} {events : List (Event σ)} (h : A.Head w w' events)
    (hw : ∀ l s, w.state? l = some s → P l s)
    (hT : ∀ l s states flows, .transfer l s states ∈ events → P l s →
      A.transfer l s states = .ok flows → ∀ p ∈ flows, P p.1 p.2)
    (hJ : ∀ l held arriving joined, .join l held arriving ∈ events → P l held → P l arriving →
      A.join l held arriving = .ok joined → P l joined) :
    (∀ l s, w'.state? l = some s → P l s) ∧ ∀ e ∈ events, e.Holds P := by
  induction h with
  | start => exact ⟨hw, fun e he => nomatch he⟩
  | @visit u events location rest u' _ hq hv ih =>
    obtain ⟨hpu, hpe⟩ := ih
      (fun l s states flows he => hT l s states flows (List.mem_append_left _ he))
      (fun l held arriving joined he => hJ l held arriving joined (List.mem_append_left _ he))
    obtain ⟨state, flows, hstate, hflows, harrive, htrace⟩ := visit_eq_ok hv
    rw [htrace] at hT hJ ⊢
    -- the state of the location is passed on, and taking it off the queue changes no state
    have hps : P location state := hpu location state hstate
    have hpf : ∀ p ∈ flows, P p.1 p.2 :=
      hT location state u.states flows
        (List.mem_append_right _ (List.mem_cons_of_mem _ List.mem_cons_self)) hps hflows
    obtain ⟨hpw, hpe'⟩ := arriveAll_keeps harrive hpu hpf fun l held arriving joined he =>
      hJ l held arriving joined (List.mem_append_right _
        (List.mem_cons_of_mem _ (List.mem_cons_of_mem _ he)))
    refine ⟨hpw, fun e he => ?_⟩
    rcases List.mem_append.1 he with he | he
    · exact hpe e he
    · rcases List.mem_cons.1 he with rfl | he
      · exact trivial
      · rcases List.mem_cons.1 he with rfl | he
        · exact hps
        · exact hpe' e he

/-! ## What is taken up -/

/-- The joins among some events go up in an order, location by location. -/
def JoinsGoUp (A : ForwardAnalysis σ) (R : Nat → σ → σ → Prop) (events : List (Event σ)) : Prop :=
  ∀ l held arriving joined, .join l held arriving ∈ events →
    A.join l held arriving = .ok joined → R l held joined ∧ R l arriving joined

/-- The states of one worklist grew out of those of another: none went down, the queue lost
nothing, and where a state changed a visit is due. -/
structure Grows (R : Nat → σ → σ → Prop) (w w' : Worklist σ) : Prop where
  up : ∀ l s, w.state? l = some s → ∃ t, w'.state? l = some t ∧ R l s t
  queue : ∀ l ∈ w.queue, l ∈ w'.queue
  marked : w.Marked → w'.Marked
  changed : w.Marked → ∀ l, w'.state? l = w.state? l ∨ l ∈ w'.queue

section Order

variable {R : Nat → σ → σ → Prop} (hrefl : ∀ l s, R l s s)
  (htrans : ∀ l s t u, R l s t → R l t u → R l s u)

omit [DecidableEq σ] in
include hrefl in
theorem Grows.refl (w : Worklist σ) : Grows R w w where
  up l s hs := ⟨s, hs, hrefl l s⟩
  queue _ h := h
  marked h := h
  changed _ _ := .inl rfl

omit [DecidableEq σ] in
include htrans in
theorem Grows.trans {u : Worklist σ} (h : Grows R w u) (k : Grows R u w') : Grows R w w' where
  up l s hs := by
    obtain ⟨t, ht, hst⟩ := h.up l s hs
    obtain ⟨t', ht', htt'⟩ := k.up l t ht
    exact ⟨t', ht', htrans l s t t' hst htt'⟩
  queue l hl := k.queue l (h.queue l hl)
  marked hw := k.marked (h.marked hw)
  changed hw l := by
    rcases k.changed (h.marked hw) l with hk | hk
    · rcases h.changed hw l with hh | hh
      · exact .inl (hk.trans hh)
      · exact .inr (k.queue l hh)
    · exact .inr hk

omit [DecidableEq σ] in
include hrefl in
/-- A worklist grows if a location is given a state above the one it has. -/
theorem Grows.update {location : Nat} {new : σ} (hl : location < w.states.size)
    (hnew : ∀ s, w.state? location = some s → R location s new) :
    Grows R w (w.update location new) where
  up l s hs := by
    rw [Worklist.state?_update hl]
    by_cases he : l = location
    · rw [if_pos he]
      exact ⟨new, rfl, he ▸ hnew s (he ▸ hs)⟩
    · rw [if_neg he]
      exact ⟨s, hs, hrefl l s⟩
  queue l hq := Worklist.mem_queue_update_of_mem hq
  marked hw := hw.update
  changed hw l := by
    rw [Worklist.state?_update hl]
    by_cases he : l = location
    · rw [he]
      exact .inr (Worklist.mem_queue_update_self hw)
    · rw [if_neg he]
      exact .inl rfl

omit [DecidableEq σ] in
include hrefl in
/-- What arrives is taken up, and the states grow. -/
theorem Arrives.grows {location : Nat} {state : σ} {events : List (Event σ)}
    (h : A.Arrives w location state w' events) (hJ : A.JoinsGoUp R events) :
    Grows R w w' ∧ ∃ t, w'.state? location = some t ∧ R location state t := by
  have hself : ∀ new, location < w.states.size →
      (w.update location new).state? location = some new := by
    intro new hl
    rw [Worklist.state?_update hl, if_pos rfl]
  cases h with
  | first hl hs =>
    refine ⟨.update hrefl hl fun s hs' => ?_, state, hself state hl, hrefl location state⟩
    rw [hs] at hs'
    cases hs'
  | absorbed hs hj =>
    obtain ⟨-, hup⟩ := hJ _ _ _ _ (List.mem_singleton_self _) hj
    exact ⟨.refl hrefl w, _, hs, hup⟩
  | @grown held joined hl hs hj =>
    obtain ⟨hup, hup'⟩ := hJ _ _ _ _ (List.mem_singleton_self _) hj
    refine ⟨.update hrefl hl fun s hs' => ?_, joined, hself joined hl, hup'⟩
    rw [hs] at hs'
    obtain rfl := Option.some.inj hs'
    exact hup

include hrefl htrans in
theorem arriveAll_grows {flows : List (Nat × σ)} (h : (A.arriveAll w flows).outcome = .ok w')
    (hJ : A.JoinsGoUp R (A.arriveAll w flows).trace) :
    Grows R w w' ∧ ∀ p ∈ flows, ∃ t, w'.state? p.1 = some t ∧ R p.1 p.2 t := by
  induction flows generalizing w with
  | nil =>
    obtain rfl := Except.ok.inj h
    exact ⟨.refl hrefl w, fun p hp => nomatch hp⟩
  | cons p flows ih =>
    obtain ⟨location, state⟩ := p
    obtain ⟨u, hu, h, htrace⟩ := arriveAll_cons h
    rw [htrace] at hJ
    obtain ⟨hwu, t, ht, hst⟩ := hu.grows hrefl fun l held arriving joined he =>
      hJ l held arriving joined (List.mem_append_left _ he)
    obtain ⟨huw, hflows⟩ := ih h fun l held arriving joined he =>
      hJ l held arriving joined (List.mem_append_right _ he)
    refine ⟨hwu.trans htrans huw, fun p hp => ?_⟩
    rcases List.mem_cons.1 hp with rfl | hp
    · -- what was taken up first may have grown since
      obtain ⟨t', ht', htt'⟩ := huw.up location t ht
      exact ⟨t', ht', htrans location state t t' hst htt'⟩
    · exact hflows p hp

/-- The states that flow from a state, at some time, have been taken up by the states of a
worklist. -/
def TakenUp (A : ForwardAnalysis σ) (R : Nat → σ → σ → Prop) (w : Worklist σ) (location : Nat)
    (state : σ) : Prop :=
  ∃ states flows, A.transfer location state states = .ok flows ∧
    ∀ p ∈ flows, ∃ t, w.state? p.1 = some t ∧ R p.1 p.2 t

include htrans in
omit [DecidableEq σ] in
theorem TakenUp.grows {location : Nat} {state : σ} (h : A.TakenUp R w location state)
    (hw : Grows R w w') : A.TakenUp R w' location state := by
  obtain ⟨states, flows, hT, hup⟩ := h
  refine ⟨states, flows, hT, fun p hp => ?_⟩
  obtain ⟨t, ht, hpt⟩ := hup p hp
  obtain ⟨t', ht', htt'⟩ := hw.up p.1 t ht
  exact ⟨t', ht', htrans p.1 p.2 t t' hpt htt'⟩

include hrefl htrans in
/-- At every head the states have grown, and a location that is not due for a visit has flowed into
the others. -/
theorem Head.settled {events : List (Event σ)} (h : A.Head w w' events) (hw : w.Marked)
    (hfirst : ∀ l s, w.state? l = some s → l ∈ w.queue) (hJ : A.JoinsGoUp R events) :
    (∀ l s, w.state? l = some s → ∃ t, w'.state? l = some t ∧ R l s t) ∧ w'.Marked ∧
      ∀ l s, w'.state? l = some s → l ∈ w'.queue ∨ A.TakenUp R w' l s := by
  induction h with
  | start => exact ⟨fun l s hs => ⟨s, hs, hrefl l s⟩, hw, fun l s hs => .inl (hfirst l s hs)⟩
  | @visit u events location rest u' _ hq hv ih =>
    obtain ⟨hup, hmarked, hsettled⟩ := ih fun l held arriving joined he =>
      hJ l held arriving joined (List.mem_append_left _ he)
    obtain ⟨state, flows, hstate, hflows, harrive, htrace⟩ := visit_eq_ok hv
    have hJ' : A.JoinsGoUp R (A.arriveAll (u.take location rest) flows).trace := by
      intro l held arriving joined he
      refine hJ l held arriving joined (List.mem_append_right _ ?_)
      rw [htrace]
      exact List.mem_cons_of_mem _ (List.mem_cons_of_mem _ he)
    obtain ⟨hgrows, htaken⟩ := arriveAll_grows hrefl htrans harrive hJ'
    have htake : (u.take location rest).Marked := hmarked.take hq
    have hstates : ∀ l, (u.take location rest).state? l = u.state? l := fun _ => rfl
    refine ⟨fun l s hs => ?_, hgrows.marked htake, fun l s hs => ?_⟩
    · obtain ⟨t, ht, hst⟩ := hup l s hs
      obtain ⟨t', ht', htt'⟩ := hgrows.up l t ht
      exact ⟨t', ht', htrans l s t t' hst htt'⟩
    · rcases hgrows.changed htake l with heq | hmem
      · -- the state of the location did not change, so it is the one last passed on
        rw [hs, hstates] at heq
        by_cases hl : l = location
        · rw [hl, hstate] at heq
          obtain rfl := Option.some.inj heq
          rw [hl]
          exact .inr ⟨u.states, flows, hflows, htaken⟩
        · -- it was due before this visit or had flowed on, and either is still so
          rcases hsettled l s heq.symm with hmem | hold
          · rw [hq] at hmem
            have hrest : l ∈ rest := (List.mem_cons.1 hmem).resolve_left hl
            exact .inl (hgrows.queue l hrest)
          · have hold' : A.TakenUp R (u.take location rest) l s := hold
            exact .inr (hold'.grows htrans hgrows)
      · exact .inl hmem

end Order

/-! ## Solutions -/

variable {fuel locations entry : Nat} {initial : σ} {states : States σ}

/-- From an entry that is one of the locations, solving is a run from the start. -/
theorem solve_of_lt (h : entry < locations) (fuel : Nat) :
    A.solve fuel locations entry initial = A.run fuel (.start locations entry initial) := by
  unfold solve
  rw [if_neg (Nat.not_le.2 h)]

/-- A solver that ends has been at a head with nothing left to visit. -/
theorem solve_eq_ok (h : (A.solve fuel locations entry initial).outcome = .ok (some states)) :
    entry < locations ∧ ∃ u events, A.Head (.start locations entry initial) u events ∧
      u.queue = [] ∧ u.states = states ∧
      (A.solve fuel locations entry initial).trace
        = events ++ [.converged u.iterations u.states.size] := by
  by_cases hlt : entry < locations
  · rw [solve_of_lt hlt] at h ⊢
    exact ⟨hlt, run_eq_ok h⟩
  · unfold solve at h
    rw [if_pos (Nat.le_of_not_lt hlt)] at h
    cases h

/-- A solution has as many locations as there are. -/
theorem solve_size (h : (A.solve fuel locations entry initial).outcome = .ok (some states)) :
    states.size = locations := by
  obtain ⟨-, u, events, hu, -, rfl, -⟩ := solve_eq_ok h
  rw [hu.size, Worklist.size_start]

/-- What holds of the initial state, and goes through transfers and the joins that were made, holds
of the solution and of every state on the way to it. -/
theorem solve_keeps {P : Nat → σ → Prop}
    (h : (A.solve fuel locations entry initial).outcome = .ok (some states))
    (h0 : P entry initial)
    (hT : ∀ l s shown flows, .transfer l s shown ∈ (A.solve fuel locations entry initial).trace →
      P l s → A.transfer l s shown = .ok flows → ∀ p ∈ flows, P p.1 p.2)
    (hJ : ∀ l held arriving joined,
      .join l held arriving ∈ (A.solve fuel locations entry initial).trace →
      P l held → P l arriving → A.join l held arriving = .ok joined → P l joined) :
    (∀ l s, states[l]?.join = some s → P l s) ∧
      ∀ e ∈ (A.solve fuel locations entry initial).trace, e.Holds P := by
  obtain ⟨hlt, u, events, hu, -, rfl, htrace⟩ := solve_eq_ok h
  rw [htrace] at hT hJ ⊢
  obtain ⟨hstates, hevents⟩ := hu.keeps (Worklist.holds_start hlt h0)
    (fun l s shown flows he => hT l s shown flows (List.mem_append_left _ he))
    (fun l held arriving joined he => hJ l held arriving joined (List.mem_append_left _ he))
  refine ⟨hstates, fun e he => ?_⟩
  rcases List.mem_append.1 he with he | he
  · exact hevents e he
  · obtain rfl := List.mem_singleton.1 he
    exact trivial

/-- If the joins that were made go up in an order, location by location, the solution has taken up the
initial state and all that flows from its own states. -/
theorem solve_settled {R : Nat → σ → σ → Prop} (hrefl : ∀ l s, R l s s)
    (htrans : ∀ l s t u, R l s t → R l t u → R l s u)
    (h : (A.solve fuel locations entry initial).outcome = .ok (some states))
    (hJ : A.JoinsGoUp R (A.solve fuel locations entry initial).trace) :
    (∃ t, states[entry]?.join = some t ∧ R entry initial t) ∧
      ∀ l s, states[l]?.join = some s → ∃ shown flows, A.transfer l s shown = .ok flows ∧
        ∀ p ∈ flows, ∃ t, states[p.1]?.join = some t ∧ R p.1 p.2 t := by
  obtain ⟨hlt, u, events, hu, hnil, rfl, htrace⟩ := solve_eq_ok h
  rw [htrace] at hJ
  have hfirst : ∀ l s, (Worklist.start locations entry initial).state? l = some s →
      l ∈ (Worklist.start locations entry initial).queue :=
    Worklist.holds_start hlt (List.mem_singleton_self entry)
  obtain ⟨hup, -, hsettled⟩ := hu.settled hrefl htrans (.start initial) hfirst
    fun l held arriving joined he => hJ l held arriving joined (List.mem_append_left _ he)
  refine ⟨hup entry initial ?_, fun l s hs => ?_⟩
  · rw [Worklist.state?_start hlt, if_pos rfl]
  · rcases hsettled l s hs with hmem | htaken
    · -- nothing is due at the end
      rw [hnil] at hmem
      cases hmem
    · exact htaken

end ForwardAnalysis

end Provenance

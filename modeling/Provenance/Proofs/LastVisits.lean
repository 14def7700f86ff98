/-
What is due for a visit, and what the last visits saw.

A worklist says in three places which locations are due: by its queue, by the marks that stand beside
the queue, and by the states that have changed. An arrival writes them one after the other, and within
one visit a location may be written several times, the visited one included. At every head of a run
the three agree. The queue holds a location once and the marked ones only, and each of them has a state
(`Worklist.Orderly`); and a location with a state that is not in the queue had this very state when it
was last visited (`Head.upToDate`).

So a location that is taken from the queue has a state, and a run fails only as its analysis fails: in
a transfer or a join that the run made, or because a transfer flows out of the locations
(`run_eq_error`). When nothing is due any more, every state is the one that was last passed on.

Nothing is asked of the analysis. In particular a join may answer the state that is held for one that
is merely as good, which then counts as no change.
-/
import Provenance.Proofs.Arrivals
import Provenance.Proofs.LeastSolution

set_option autoImplicit false

namespace Provenance

variable {σ : Type}

/-- At the last visit of a location among some events, a state was passed on. -/
def Event.LastVisited (events : List (Event σ)) (location : Nat) (state : σ) : Prop :=
  ∃ before shown after, events = before ++ .visit location :: .transfer location state shown :: after ∧
    .visit location ∉ after

/-- Events that visit other locations leave the last visit of a location as it is. -/
theorem Event.LastVisited.append {events later : List (Event σ)} {location : Nat} {state : σ}
    (h : LastVisited events location state) (hlater : .visit location ∉ later) :
    LastVisited (events ++ later) location state := by
  obtain ⟨before, shown, after, rfl, hafter⟩ := h
  refine ⟨before, shown, after ++ later, ?_, fun he => ?_⟩
  · rw [List.append_assoc, List.cons_append, List.cons_append]
  · exact (List.mem_append.1 he).elim hafter hlater

namespace Worklist

variable {w : Worklist σ} {location : Nat} {state : σ}

/-! ## Queues and marks -/

/-- The queue holds every location once, and those that are marked; each of them has a state. -/
structure Orderly (w : Worklist σ) : Prop where
  size : w.queued.size = w.states.size
  nodup : w.queue.Nodup
  marked : ∀ l, w.isQueued l = true ↔ l ∈ w.queue
  held : ∀ l ∈ w.queue, ∃ s, w.state? l = some s

theorem isQueued_update (h : location < w.queued.size) (l : Nat) :
    (w.update location state).isQueued l = if l = location then true else w.isQueued l := by
  show (w.queued.setIfInBounds location true)[l]?.getD false = _
  rw [Array.getElem?_setIfInBounds]
  by_cases hl : l = location
  · rw [if_pos hl.symm, if_pos h, if_pos hl]
    rfl
  · rw [if_neg (Ne.symm hl), if_neg hl]
    rfl

theorem isQueued_take {rest : List Nat} (l : Nat) :
    (w.take location rest).isQueued l = if l = location then false else w.isQueued l := by
  show (w.queued.setIfInBounds location false)[l]?.getD false = _
  rw [Array.getElem?_setIfInBounds]
  by_cases hl : l = location
  · rw [if_pos hl.symm, if_pos hl]
    split <;> rfl
  · rw [if_neg (Ne.symm hl), if_neg hl]
    rfl

theorem isQueued_start {locations entry : Nat} (h : entry < locations) (initial : σ) (l : Nat) :
    (start locations entry initial).isQueued l = decide (l = entry) := by
  show ((Array.replicate locations false).setIfInBounds entry true)[l]?.getD false = _
  rw [Array.getElem?_setIfInBounds, Array.size_replicate]
  by_cases hl : l = entry
  · rw [if_pos hl.symm, if_pos h, decide_eq_true hl]
    rfl
  · rw [if_neg (Ne.symm hl), Array.getElem?_replicate, decide_eq_false hl]
    split <;> rfl

theorem mem_queue_update (hw : w.Orderly) {l : Nat} :
    l ∈ (w.update location state).queue ↔ l = location ∨ l ∈ w.queue := by
  have hmarked : w.Marked := fun k => (hw.marked k).1
  constructor
  · intro hl
    have hl' : l ∈ if w.isQueued location then w.queue else w.queue ++ [location] := hl
    split at hl'
    · exact .inr hl'
    · exact (List.mem_append.1 hl').symm.imp_left List.mem_singleton.1
  · rintro (rfl | hl)
    · exact mem_queue_update_self hmarked
    · exact mem_queue_update_of_mem hl

theorem Orderly.start {locations entry : Nat} (h : entry < locations) (initial : σ) :
    (start locations entry initial).Orderly where
  size := by
    show ((Array.replicate locations false).setIfInBounds entry true).size
      = ((Array.replicate locations none).setIfInBounds entry (some initial)).size
    simp only [Array.size_setIfInBounds, Array.size_replicate]
  nodup := List.nodup_singleton entry
  marked l := by
    rw [isQueued_start h, decide_eq_true_iff]
    exact List.mem_singleton.symm
  held l hl := by
    obtain rfl : l = entry := List.mem_singleton.1 hl
    exact ⟨initial, by rw [state?_start h, if_pos rfl]⟩

/-- A location that is given a state gets in line, unless it stands there. -/
theorem Orderly.update (hw : w.Orderly) (hl : location < w.states.size) :
    (w.update location state).Orderly where
  size := by
    show (w.queued.setIfInBounds location true).size
      = (w.states.setIfInBounds location (some state)).size
    rw [Array.size_setIfInBounds, Array.size_setIfInBounds, hw.size]
  nodup := by
    show (if w.isQueued location then w.queue else w.queue ++ [location]).Nodup
    by_cases hq : w.isQueued location = true
    · rw [if_pos hq]
      exact hw.nodup
    · rw [if_neg hq]
      have hnew : location ∉ w.queue := fun h => hq ((hw.marked location).2 h)
      exact List.nodup_append_comm.1 (List.nodup_cons.2 ⟨hnew, hw.nodup⟩)
  marked l := by
    rw [isQueued_update (hw.size ▸ hl), mem_queue_update hw, ← hw.marked l]
    by_cases he : l = location
    · rw [if_pos he]
      exact iff_of_true rfl (.inl he)
    · rw [if_neg he, or_iff_right he]
  held l h := by
    rw [state?_update hl]
    by_cases he : l = location
    · exact ⟨state, if_pos he⟩
    · rw [if_neg he]
      exact hw.held l (((mem_queue_update hw).1 h).resolve_left he)

/-- The location that is taken was in line once, so that it is in line no more. -/
theorem Orderly.take (hw : w.Orderly) {rest : List Nat} (hq : w.queue = location :: rest) :
    (w.take location rest).Orderly where
  size := Array.size_setIfInBounds.trans hw.size
  nodup := (List.nodup_cons.1 (hq ▸ hw.nodup)).2
  marked l := by
    have hout : location ∉ rest := (List.nodup_cons.1 (hq ▸ hw.nodup)).1
    show _ ↔ l ∈ rest
    rw [isQueued_take]
    by_cases he : l = location
    · rw [if_pos he, he]
      exact iff_of_false Bool.false_ne_true hout
    · rw [if_neg he, hw.marked l, hq, List.mem_cons, or_iff_right he]
  held l hl := hw.held l (hq ▸ List.mem_cons_of_mem location hl)

end Worklist

namespace ForwardAnalysis

variable [DecidableEq σ] {A : ForwardAnalysis σ} {w w' : Worklist σ}

/-! ## Heads -/

omit [DecidableEq σ] in
theorem Arrives.orderly {location : Nat} {state : σ} {events : List (Event σ)}
    (h : A.Arrives w location state w' events) (hw : w.Orderly) : w'.Orderly := by
  cases h with
  | first hl => exact hw.update hl
  | absorbed => exact hw
  | grown hl => exact hw.update hl

theorem arriveAll_orderly {flows : List (Nat × σ)} (h : (A.arriveAll w flows).outcome = .ok w')
    (hw : w.Orderly) : w'.Orderly := by
  induction flows generalizing w with
  | nil =>
    obtain rfl := Except.ok.inj h
    exact hw
  | cons p flows ih =>
    obtain ⟨u, hu, h, -⟩ := arriveAll_cons h
    exact ih h (hu.orderly hw)

/-- A visit visits its own location. -/
theorem visit_mem_visit {location : Nat} {rest : List Nat}
    (h : (A.visit w location rest).outcome = .ok w') {l : Nat} :
    .visit l ∈ (A.visit w location rest).trace ↔ l = location := by
  obtain ⟨state, flows, -, -, harrive, htrace⟩ := visit_eq_ok h
  rw [htrace]
  constructor
  · intro he
    rcases List.mem_cons.1 he with he | he
    · exact Event.visit.inj he
    · rcases List.mem_cons.1 he with he | he
      · cases he
      · obtain ⟨_, _, _, he⟩ := eq_join_of_mem_arriveAll harrive he
        cases he
  · rintro rfl
    exact List.mem_cons_self

/-- The locations in the queue are in order, and all others were last visited with the state that they
have. -/
structure UpToDate (w : Worklist σ) (events : List (Event σ)) : Prop where
  orderly : w.Orderly
  lastVisited : ∀ l s, w.state? l = some s → l ∉ w.queue → Event.LastVisited events l s

/-- A visit leaves the worklist up to date. -/
theorem UpToDate.visit {events : List (Event σ)} (hw : UpToDate w events) {location : Nat}
    {rest : List Nat} (hq : w.queue = location :: rest)
    (h : (A.visit w location rest).outcome = .ok w') :
    UpToDate w' (events ++ (A.visit w location rest).trace) := by
  have hjoins : ∀ events, A.JoinsGoUp (fun _ _ _ => True) events :=
    fun _ _ _ _ _ _ _ => ⟨trivial, trivial⟩
  have htake : (w.take location rest).Orderly := hw.orderly.take hq
  obtain ⟨state, flows, hstate, -, harrive, htrace⟩ := visit_eq_ok h
  obtain ⟨hgrows, -⟩ := arriveAll_grows (fun _ _ => trivial) (fun _ _ _ _ _ _ => trivial)
    harrive (hjoins _)
  refine ⟨arriveAll_orderly harrive htake, fun l s hs hl => ?_⟩
  -- the location is not in line, so what it has now it had before the arrivals
  have hsame : w'.state? l = (w.take location rest).state? l :=
    (hgrows.changed (fun k => (htake.marked k).1) l).resolve_right hl
  have hold : w.state? l = some s := hsame.symm.trans hs
  by_cases hlocation : l = location
  · subst hlocation
    obtain rfl := Option.some.inj (hstate.symm.trans hold)
    refine ⟨events, w.states, _, by rw [htrace], fun he => ?_⟩
    obtain ⟨_, _, _, he⟩ := eq_join_of_mem_arriveAll harrive he
    cases he
  · have hout : l ∉ w.queue := by
      rw [hq, List.mem_cons]
      rintro (he | he)
      · exact hlocation he
      · exact hl (hgrows.queue l he)
    exact (hw.lastVisited l s hold hout).append fun he => hlocation ((visit_mem_visit h).1 he)

/-- Every head is up to date. -/
theorem Head.upToDate {locations entry : Nat} {initial : σ} {events : List (Event σ)}
    (h : A.Head (.start locations entry initial) w events) (hentry : entry < locations) :
    UpToDate w events := by
  induction h with
  | start =>
    refine ⟨.start hentry initial, fun l s hs hl => absurd ?_ hl⟩
    exact Worklist.holds_start (P := fun l _ => l ∈ [entry]) hentry (List.mem_singleton_self entry)
      l s hs
  | visit _ hq hv ih => exact ih.visit hq hv

/-- From one head to a later one no location loses its state. -/
theorem Head.exists_state? {events : List (Event σ)} (h : A.Head w w' events) {l : Nat} {s : σ}
    (hs : w.state? l = some s) : ∃ t, w'.state? l = some t := by
  induction h with
  | start => exact ⟨s, hs⟩
  | @visit u events location rest u' h hq hv ih =>
    obtain ⟨t, ht⟩ := ih
    obtain ⟨state, flows, -, -, harrive, -⟩ := visit_eq_ok hv
    obtain ⟨hgrows, -⟩ := arriveAll_grows (R := fun _ _ _ => True) (fun _ _ => trivial)
      (fun _ _ _ _ _ _ => trivial) harrive fun _ _ _ _ _ _ => ⟨trivial, trivial⟩
    obtain ⟨t', ht', -⟩ := hgrows.up l t ht
    exact ⟨t', ht'⟩

/-! ## Failures -/

omit [DecidableEq σ] in
/-- How a run over some locations may fail: in one of its transfers, in one of its joins, or because a
transfer flows out of the locations. -/
inductive FailsAs (A : ForwardAnalysis σ) (locations : Nat) (events : List (Event σ)) :
    AnalysisError → Prop
  | transfer {l : Nat} {s : σ} {shown : States σ} {e : AnalysisError}
    (h : .transfer l s shown ∈ events) (he : A.transfer l s shown = .error e) :
    FailsAs A locations events e
  | join {l : Nat} {held arriving : σ} {e : AnalysisError} (h : .join l held arriving ∈ events)
    (he : A.join l held arriving = .error e) : FailsAs A locations events e
  | outside {l : Nat} {s : σ} {shown : States σ} {flows : List (Nat × σ)} {p : Nat × σ}
    (h : .transfer l s shown ∈ events) (hflows : A.transfer l s shown = .ok flows)
    (hp : p ∈ flows) (hout : locations ≤ p.1) :
    FailsAs A locations events (.invalidJumpTarget p.1)

omit [DecidableEq σ] in
theorem FailsAs.mono {locations : Nat} {events more : List (Event σ)} {e : AnalysisError}
    (h : A.FailsAs locations events e) (hmore : ∀ x ∈ events, x ∈ more) :
    A.FailsAs locations more e := by
  cases h with
  | transfer h he => exact .transfer (hmore _ h) he
  | join h he => exact .join (hmore _ h) he
  | outside h hflows hp hout => exact .outside (hmore _ h) hflows hp hout

theorem arrive_eq_error {location : Nat} {state : σ} {e : AnalysisError}
    (h : (A.arrive w location state).outcome = .error e) :
    (w.states.size ≤ location ∧ e = .invalidJumpTarget location) ∨
      ∃ held, .join location held state ∈ (A.arrive w location state).trace ∧
        A.join location held state = .error e := by
  unfold arrive at h ⊢
  by_cases hl : w.states.size ≤ location
  · rw [if_pos hl] at h
    exact .inl ⟨hl, (Except.error.inj h).symm⟩
  rw [if_neg hl] at h ⊢
  cases hs : w.state? location with
  | none =>
    rw [hs] at h
    cases h
  | some held =>
    rw [hs] at h
    rcases Traced.bind_outcome_eq_error.1 h with hj | ⟨joined, -, h⟩
    · exact .inr ⟨held, Traced.mem_bind_of_mem_left (List.mem_singleton_self _) _, hj⟩
    · cases h

theorem arriveAll_eq_error {flows : List (Nat × σ)} {e : AnalysisError}
    (h : (A.arriveAll w flows).outcome = .error e) :
    (∃ p ∈ flows, w.states.size ≤ p.1 ∧ e = .invalidJumpTarget p.1) ∨
      ∃ l held arriving, .join l held arriving ∈ (A.arriveAll w flows).trace ∧
        A.join l held arriving = .error e := by
  induction flows generalizing w with
  | nil => cases h
  | cons p flows ih =>
    rw [arriveAll] at h ⊢
    rcases Traced.bind_outcome_eq_error.1 h with hp | ⟨u, hu, h⟩
    · rcases arrive_eq_error hp with ⟨hout, he⟩ | ⟨held, hmem, he⟩
      · exact .inl ⟨p, List.mem_cons_self, hout, he⟩
      · exact .inr ⟨p.1, held, p.2, Traced.mem_bind_of_mem_left hmem _, he⟩
    · have hsize : u.states.size = w.states.size := (arrives_of_ok hu).size
      rcases ih h with ⟨q, hq, hout, he⟩ | ⟨l, held, arriving, hmem, he⟩
      · exact .inl ⟨q, List.mem_cons_of_mem p hq, hsize ▸ hout, he⟩
      · exact .inr ⟨l, held, arriving, Traced.mem_bind_of_mem_right hu hmem, he⟩

/-- Visiting a location that has a state fails only as the analysis does. -/
theorem visit_eq_error {location : Nat} {rest : List Nat} {state : σ} {e : AnalysisError}
    (hs : w.state? location = some state) (h : (A.visit w location rest).outcome = .error e) :
    A.FailsAs w.states.size (A.visit w location rest).trace e := by
  have hs' : (w.take location rest).state? location = some state := hs
  unfold visit at h ⊢
  dsimp only at h ⊢
  rcases Traced.bind_outcome_eq_error.1 h with h | ⟨_, hnote, h⟩
  · cases h
  rw [hs'] at h ⊢
  have htransfer : ∀ f : List (Nat × σ) → Solving σ (Worklist σ),
      .transfer location state w.states ∈ (Traced.record (.transfer location state w.states)
        (A.transfer location state w.states) >>= f).trace :=
    Traced.mem_bind_of_mem_left (List.mem_singleton_self _)
  rcases Traced.bind_outcome_eq_error.1 h with hf | ⟨flows, hf, h⟩
  · exact .transfer (Traced.mem_bind_of_mem_right hnote (htransfer _)) hf
  · rcases arriveAll_eq_error h with ⟨p, hp, hout, rfl⟩ | ⟨l, held, arriving, hmem, he⟩
    · exact .outside (Traced.mem_bind_of_mem_right hnote (htransfer _)) hf hp hout
    · exact .join (Traced.mem_bind_of_mem_right hnote
        (Traced.mem_bind_of_mem_right hf hmem)) he

/-- A run from an orderly worklist fails only as its analysis does. -/
theorem run_eq_error {fuel : Nat} {e : AnalysisError} (hw : w.Orderly)
    (h : (A.run fuel w).outcome = .error e) :
    A.FailsAs w.states.size (A.run fuel w).trace e := by
  induction fuel generalizing w with
  | zero =>
    cases hq : w.queue with
    | nil =>
      rw [run_of_nil hq] at h
      cases h
    | cons location rest =>
      rw [run_zero_of_cons hq] at h
      cases h
  | succ fuel ih =>
    cases hq : w.queue with
    | nil =>
      rw [run_of_nil hq] at h
      cases h
    | cons location rest =>
      rw [run_succ_of_cons hq] at h ⊢
      rcases Traced.bind_outcome_eq_error.1 h with hv | ⟨u, hv, h⟩
      · obtain ⟨state, hstate⟩ := hw.held location (hq ▸ List.mem_cons_self)
        exact (visit_eq_error hstate hv).mono fun x hx => Traced.mem_bind_of_mem_left hx _
      · obtain ⟨state, flows, -, -, harrive, -⟩ := visit_eq_ok hv
        have hu : u.Orderly := arriveAll_orderly harrive (hw.take hq)
        have hsize : u.states.size = (w.take location rest).states.size := arriveAll_size harrive
        have hfails : A.FailsAs w.states.size (A.run fuel u).trace e := hsize ▸ ih hu h
        exact hfails.mono fun x hx => Traced.mem_bind_of_mem_right hv hx

/-! ## The solver -/

variable {locations entry : Nat} {initial : σ}

/-- At every head of a run the queue is in order, no state has been lost since any earlier head, and
the locations that are not in the queue were last visited with the states that they have. A solver
fails only as its analysis does, so it never finds a location due for a visit that has no state; and
every state that it ends with is the one that its location was last visited with. -/
theorem solve_lastVisited (hentry : entry < locations) :
    (∀ w events, A.Head (.start locations entry initial) w events → UpToDate w events ∧
        ∀ w' later, A.Head w w' later →
          ∀ l s, w.state? l = some s → ∃ t, w'.state? l = some t) ∧
      (∀ fuel e, (A.solve fuel locations entry initial).outcome = .error e →
        A.FailsAs locations (A.solve fuel locations entry initial).trace e) ∧
      ∀ fuel states, (A.solve fuel locations entry initial).outcome = .ok (some states) →
        ∀ l s, states[l]?.join = some s →
          Event.LastVisited (A.solve fuel locations entry initial).trace l s := by
  have hstart : (Worklist.start locations entry initial).Orderly := .start hentry initial
  refine ⟨fun w events h => ?_, fun fuel e h => ?_, fun fuel states h l s hs => ?_⟩
  · have hw : UpToDate w events := h.upToDate hentry
    exact ⟨hw, fun w' later hlater l s hs => hlater.exists_state? hs⟩
  · unfold solve at h ⊢
    rw [if_neg (Nat.not_le.2 hentry)] at h ⊢
    have hfails := run_eq_error hstart h
    rwa [Worklist.size_start] at hfails
  · obtain ⟨-, u, events, hu, hnil, rfl, htrace⟩ := solve_eq_ok h
    -- at the last head nothing is in the queue, and no visit comes behind it
    have hlast : Event.LastVisited events l s := by
      refine (hu.upToDate hentry).lastVisited l s hs ?_
      rw [hnil]
      exact List.not_mem_nil
    rw [htrace]
    refine hlast.append fun he => ?_
    cases List.mem_singleton.1 he

/-- A location that flows into itself is visited twice, the second time with the state that its own
first visit has changed. -/
theorem solve_lastVisited_reaching :
    ∃ states, ((reaching [[0, 1], []]).solve 10 2 0 ∅).outcome = .ok (some states) ∧
      states = #[some {0}, some {0}] ∧
      Event.LastVisited ((reaching [[0, 1], []]).solve 10 2 0 ∅).trace 0 {0} ∧
      Event.LastVisited ((reaching [[0, 1], []]).solve 10 2 0 ∅).trace 1 {0} := by
  have hentry : 0 < 2 := by decide
  have h : ((reaching [[0, 1], []]).solve 10 2 0 ∅).outcome
      = .ok (some #[some {0}, some {0}]) := eq_ok_of_toOption (by decide +kernel)
  have hlast : ∀ l s, (#[some {0}, some {0}] : States (Finset Nat))[l]?.join = some s →
      Event.LastVisited ((reaching [[0, 1], []]).solve 10 2 0 ∅).trace l s :=
    (solve_lastVisited hentry).2.2 10 _ h
  exact ⟨_, h, rfl, hlast 0 {0} rfl, hlast 1 {0} rfl⟩

end ForwardAnalysis

end Provenance

/-
Analyses of methods as runs over edges.

What is known of runs is said again here in the terms of a method: a property of frames holds of all
frames of an analysis if it holds at the entry and goes along edges and through joins
(`Analyzer.analyze_keeps`), and if the joins go up in an order, then the frames of the result have
taken up the entry and all that flows along the edges between them (`Analyzer.analyze_settled`).
Both are for analyses that correct nothing on the way. Whatever is corrected, every frame of the
result was passed on, and what flowed from it has arrived (`Analyzer.analyze_passed_on`).
-/
import Provenance.Analysis.Result
import Provenance.Proofs.Edges
import Provenance.Proofs.Joins
import Provenance.Proofs.Runs

set_option autoImplicit false

namespace Provenance

/-- A result for no instructions has no frames. -/
theorem AnalysisResult.frame?_of_empty {V : Type} {r : AnalysisResult V} (h : r.frames = #[])
    (l : Nat) : r.frame? l = none := by
  unfold AnalysisResult.frame?
  rw [h]
  rfl

namespace Analyzer

variable {V : Type} [AbstractValue V] {A : Analyzer V}

omit [AbstractValue V] in
/-- The first argument goes into a local that there is, and the others behind it. -/
theorem seed_cons_eq_ok {t : JType} {rest : List JType} {index : Nat} {f g : Frame V} :
    A.seed (t :: rest) index f = .ok g ↔
      ∃ v, A.interpreter.newValue t (.parameter index) = .ok v ∧ index < f.locals.length ∧
        A.seed rest (index + t.size) { f with locals := f.locals.set index v } = .ok g := by
  show (A.interpreter.newValue t (.parameter index) >>= fun v =>
    f.setLocal index v >>= A.seed rest (index + t.size)) = .ok g ↔ _
  rw [bind_eq_ok]
  refine exists_congr fun v => and_congr_right fun _ => ?_
  by_cases hlt : index < f.locals.length
  · rw [Frame.setLocal_of_lt hlt]
    exact ⟨fun h => ⟨hlt, h⟩, And.right⟩
  · rw [Frame.setLocal_of_le (by omega)]
    exact ⟨nofun, fun h => absurd h.1 hlt⟩

theorem flow_transfer_eq_ok {l : Nat} {f : Frame V} {shown : States (Frame V)}
    {flows : List (Nat × Frame V)} :
    A.flow.transfer l f shown = .ok flows ↔
      ∃ i, A.method.instruction? l = some i ∧ A.transfer i f shown = .ok flows := by
  unfold flow
  dsimp only
  cases A.method.instruction? l with
  | none => exact ⟨nofun, fun ⟨_, h, _⟩ => nomatch h⟩
  | some i =>
    rw [located_eq_ok]
    exact ⟨fun h => ⟨i, rfl, h⟩, fun ⟨_, h, k⟩ => Option.some.inj h ▸ k⟩

theorem flow_join_eq_ok {l : Nat} {held arriving joined : Frame V} :
    A.flow.join l held arriving = .ok joined ↔
      Frame.Joined A.interpreter held arriving joined := by
  unfold flow
  dsimp only
  rw [located_eq_ok, Frame.join_eq_ok]

variable [DecidableEq V] {fuel : Nat} {r : AnalysisResult V}

/-- An analysis that ends has solved its flow from the entry, unless there is no entry. -/
theorem analyze_eq_ok (h : (A.analyze fuel).outcome = .ok (some r)) :
    r.method = A.method ∧
      ((A.method.size = 0 ∧ r.frames = #[] ∧ (A.analyze fuel).trace = []) ∨
        ∃ initial, 0 < A.method.size ∧ A.initialFrame = .ok initial ∧
          (A.flow.solve fuel A.method.size 0 initial).outcome = .ok (some r.frames) ∧
          (A.analyze fuel).trace = (A.flow.solve fuel A.method.size 0 initial).trace) := by
  unfold analyze at h ⊢
  by_cases hm : A.method.size = 0
  · rw [if_pos hm] at h ⊢
    obtain rfl := Option.some.inj (Except.ok.inj h)
    exact ⟨rfl, .inl ⟨hm, rfl, rfl⟩⟩
  · rw [if_neg hm] at h ⊢
    obtain ⟨initial, hi, h⟩ := Traced.bind_outcome_eq_ok.1 h
    obtain ⟨frames, hf, h⟩ := Traced.bind_outcome_eq_ok.1 h
    have hr : frames.map (AnalysisResult.mk A.method) = some r := Except.ok.inj h
    cases frames with
    | none => cases hr
    | some frames =>
      obtain rfl := Option.some.inj hr
      refine ⟨rfl, .inr ⟨initial, by omega, hi, hf, ?_⟩⟩
      -- nothing else is recorded around the solving of the flow
      rw [Traced.bind_of_ok hi, Traced.bind_of_ok hf]
      exact List.append_nil _

/-- What holds at the entry, goes along edges and goes through the joins that were made holds of the
frames of the result and of all frames that were seen. -/
theorem analyze_keeps {P : Nat → Frame V → Prop} (hA : A.transformer = .identity)
    (h : (A.analyze fuel).outcome = .ok (some r))
    (hentry : 0 < A.method.size → ∀ f, A.initialFrame = .ok f → P 0 f)
    (hedge : ∀ l i f target g, A.method.instruction? l = some i → P l f →
      A.Edge i f target g → P target g)
    (hjoin : ∀ l held arriving joined, .join l held arriving ∈ (A.analyze fuel).trace →
      P l held → P l arriving → Frame.Joined A.interpreter held arriving joined →
      P l joined) :
    (∀ l f, r.frame? l = some f → P l f) ∧ ∀ e ∈ (A.analyze fuel).trace, e.Holds P := by
  obtain ⟨-, ⟨-, hr, htrace⟩ | ⟨initial, hm, hi, hsolve, htrace⟩⟩ := analyze_eq_ok h
  · refine ⟨fun l f hf => ?_, fun e he => ?_⟩
    · rw [AnalysisResult.frame?_of_empty hr] at hf
      cases hf
    · rw [htrace] at he
      cases he
  · rw [htrace] at hjoin ⊢
    refine ForwardAnalysis.solve_keeps hsolve (hentry hm initial hi) ?_ ?_
    · intro l f shown flows _ hf hflows p hp
      obtain ⟨i, hl, hflows⟩ := flow_transfer_eq_ok.1 hflows
      exact hedge l i f p.1 p.2 hl hf ((mem_transfer hA hflows).1 hp)
    · intro l held arriving joined he hheld harriving hj
      exact hjoin l held arriving joined he hheld harriving (flow_join_eq_ok.1 hj)

/-- If the joins that were made go up in an order, location by location, then the result has taken up
the entry, every reached instruction could be passed, and what flows from it has been taken up. -/
theorem analyze_settled {R : Nat → Frame V → Frame V → Prop} (hrefl : ∀ l f, R l f f)
    (htrans : ∀ l f g h, R l f g → R l g h → R l f h) (hA : A.transformer = .identity)
    (h : (A.analyze fuel).outcome = .ok (some r))
    (hjoin : ∀ l held arriving joined, .join l held arriving ∈ (A.analyze fuel).trace →
      Frame.Joined A.interpreter held arriving joined → R l held joined ∧ R l arriving joined) :
    (0 < A.method.size → ∀ f, A.initialFrame = .ok f → ∃ g, r.frame? 0 = some g ∧ R 0 f g) ∧
      ∀ l f, r.frame? l = some f → ∃ i flows, A.method.instruction? l = some i ∧
        (∀ shown, A.transfer i f shown = .ok flows) ∧
        ∀ p ∈ flows, ∃ g, r.frame? p.1 = some g ∧ R p.1 p.2 g := by
  obtain ⟨-, ⟨hm, hr, -⟩ | ⟨initial, -, hi, hsolve, htrace⟩⟩ := analyze_eq_ok h
  · refine ⟨fun hm' => by omega, fun l f hf => ?_⟩
    rw [AnalysisResult.frame?_of_empty hr] at hf
    cases hf
  · rw [htrace] at hjoin
    obtain ⟨hentry, hflow⟩ := ForwardAnalysis.solve_settled hrefl htrans hsolve
      fun l held arriving joined he hj =>
        hjoin l held arriving joined he (flow_join_eq_ok.1 hj)
    refine ⟨fun _ f hf => ?_, fun l f hf => ?_⟩
    · obtain rfl := Except.ok.inj (hi.symm.trans hf)
      exact hentry
    · obtain ⟨shown, flows, hflows, htaken⟩ := hflow l f hf
      obtain ⟨i, hl, hflows⟩ := flow_transfer_eq_ok.1 hflows
      exact ⟨i, flows, hl, fun other => transfer_shown hA other ▸ hflows, htaken⟩

/-- The first instruction has a frame. Every frame of a result was passed on as it is, and there is a
frame wherever something flowed to, whatever is corrected on the way. -/
theorem analyze_passed_on (h : (A.analyze fuel).outcome = .ok (some r)) :
    (0 < A.method.size → (r.frame? 0).isSome) ∧
      ∀ l f, r.frame? l = some f → ∃ i shown flows, A.method.instruction? l = some i ∧
        A.transfer i f shown = .ok flows ∧ ∀ p ∈ flows, (r.frame? p.1).isSome := by
  obtain ⟨-, ⟨hm, hr, -⟩ | ⟨initial, -, -, hsolve, -⟩⟩ := analyze_eq_ok h
  · refine ⟨fun hm' => by omega, fun l f hf => ?_⟩
    rw [AnalysisResult.frame?_of_empty hr] at hf
    cases hf
  -- nothing is asked of the joins, so the order relates all frames
  obtain ⟨⟨g, hg, -⟩, hflow⟩ := ForwardAnalysis.solve_settled (R := fun _ _ _ => True)
    (fun _ _ => trivial) (fun _ _ _ _ _ _ => trivial) hsolve
    (fun _ _ _ _ _ _ => ⟨trivial, trivial⟩)
  refine ⟨fun _ => Option.isSome_iff_exists.2 ⟨g, hg⟩, fun l f hf => ?_⟩
  obtain ⟨shown, flows, hflows, htaken⟩ := hflow l f hf
  obtain ⟨i, hi, hflows⟩ := flow_transfer_eq_ok.1 hflows
  refine ⟨i, shown, flows, hi, hflows, fun p hp => ?_⟩
  obtain ⟨g, hg, -⟩ := htaken p hp
  exact Option.isSome_iff_exists.2 ⟨g, hg⟩

end Analyzer

/-- Whether an analysis has a result can be computed. -/
theorem AnalysisResult.exists_of_isSome {V : Type}
    {x : Solving (Frame V) (Option (AnalysisResult V))}
    (h : x.outcome.toOption.join.isSome = true) : ∃ r, x.outcome = .ok (some r) := by
  cases hx : x.outcome with
  | error e =>
    rw [hx] at h
    cases h
  | ok result =>
    rw [hx] at h
    obtain ⟨r, hr⟩ := Option.isSome_iff_exists.1 h
    exact ⟨r, congrArg Except.ok hr⟩

/-- So can the frame that a result has at a location. -/
theorem AnalysisResult.frame?_eq {V : Type} {x : Solving (Frame V) (Option (AnalysisResult V))}
    {r : AnalysisResult V} (hr : x.outcome = .ok (some r)) {l : Nat} {f : Option (Frame V)}
    (h : x.outcome.toOption.join.bind (·.frame? l) = f) : r.frame? l = f := by
  rw [hr] at h
  exact h

namespace Method

/-- Tracking values is the analysis that is prepared for it. -/
theorem trackValues_eq {m : Method} {A : Analyzer PossibleValues}
    (hA : Analyzer.prepare m .possibleValues .identity = .ok A) (fuel : Nat) :
    m.trackValues fuel = A.analyze fuel := by
  unfold trackValues
  rw [hA]
  show (pure A >>= fun A : Analyzer PossibleValues => A.analyze fuel) = _
  rw [pure_bind]

/-- If tracking values has a result, the analysis could be prepared. -/
theorem prepare_of_trackValues {m : Method} {fuel : Nat} {r : AnalysisResult PossibleValues}
    (h : (m.trackValues fuel).outcome = .ok (some r)) :
    ∃ A, Analyzer.prepare m .possibleValues .identity = .ok A := by
  unfold trackValues at h
  obtain ⟨A, hA, -⟩ := Traced.bind_outcome_eq_ok.1 h
  exact ⟨A, hA⟩

/-- The result of tracking values is about the method. -/
theorem method_of_trackValues {m : Method} {fuel : Nat} {r : AnalysisResult PossibleValues}
    (h : (m.trackValues fuel).outcome = .ok (some r)) : r.method = m := by
  obtain ⟨A, hA⟩ := prepare_of_trackValues h
  rw [trackValues_eq hA] at h
  obtain ⟨t, -, rfl⟩ := Analyzer.prepare_eq_ok.1 hA
  exact (Analyzer.analyze_eq_ok h).1

end Method

end Provenance

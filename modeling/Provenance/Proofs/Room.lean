/-
Tracking values ends.

A method can create finitely many witnesses, so a set can take on finitely many more, and so can a
frame: its room is how many, an unset local having room for one thing more than for all witnesses,
namely to be set. A frame that another one lies within has no more room than that one, and less room
if it is not the same (`Frame.Within.room_lt`).

A join at which the widths agree lies above the frame that is held, so it leaves less room whenever
it changes that frame. Hence an analysis none of whose joins meets a local with different widths
comes to an end (`Analyzer.analyze_ends`).
-/
import Mathlib.Algebra.GroupWithZero.Nat
import Provenance.Proofs.Created
import Provenance.Proofs.Termination

set_option autoImplicit false

namespace Provenance

section Room

variable {α : Type} [Coded α] [DecidableEq α] {U : Finset α}

/-! ## The room of sets -/

namespace ValueSet

/-- How many members of a universe a set has not taken on. -/
def room (U : Finset α) (s : ValueSet α) : Nat := (U.filter fun a => ¬ a ∈ s).card

variable {s t : ValueSet α}

theorem room_le_card (s : ValueSet α) : s.room U ≤ U.card := Finset.card_filter_le _ _

theorem Within.room_le (h : s.Within t) : t.room U ≤ s.room U := by
  refine Finset.card_le_card fun a ha => ?_
  obtain ⟨hU, hat⟩ := Finset.mem_filter.1 ha
  exact Finset.mem_filter.2 ⟨hU, fun has => hat (h.members a has)⟩

/-- A set within another that has no more room has all its members. -/
theorem Within.eq_of_room_le (h : s.Within t) (ht : ∀ a ∈ t, a ∈ U) (hroom : s.room U ≤ t.room U) :
    s = t := by
  have hsub : (U.filter fun a => ¬ a ∈ t) ⊆ U.filter fun a => ¬ a ∈ s := by
    intro a ha
    obtain ⟨hU, hat⟩ := Finset.mem_filter.1 ha
    exact Finset.mem_filter.2 ⟨hU, fun has => hat (h.members a has)⟩
  have hsame := Finset.eq_of_subset_of_card_le hsub hroom
  refine h.antisymm ⟨h.width.symm, fun a hat => ?_⟩
  by_contra has
  have hmem : a ∈ U.filter fun a => ¬ a ∈ t :=
    hsame ▸ Finset.mem_filter.2 ⟨ht a hat, has⟩
  exact (Finset.mem_filter.1 hmem).2 hat

end ValueSet

/-! ## The room of frames -/

/-- Lists of which one has nowhere a larger cost than the other. -/
theorem sum_le_of_forall₂ {β : Type} {cost : β → Nat} {l r : List β}
    (h : List.Forall₂ (fun a b => cost b ≤ cost a) l r) :
    (r.map cost).sum ≤ (l.map cost).sum := by
  induction h with
  | nil => exact Nat.le_refl _
  | cons hab _ ih =>
    rw [List.map_cons, List.map_cons, List.sum_cons, List.sum_cons]
    omega

/-- If they cost the same together, they cost the same everywhere. -/
theorem eq_of_sum_le {β : Type} {cost : β → Nat} {l r : List β}
    (h : List.Forall₂ (fun a b => cost b ≤ cost a ∧ (cost a ≤ cost b → a = b)) l r)
    (hsum : (l.map cost).sum ≤ (r.map cost).sum) : l = r := by
  induction h with
  | nil => rfl
  | cons hab hrest ih =>
    have hle := sum_le_of_forall₂ (hrest.imp fun _ _ h => h.1)
    rw [List.map_cons, List.map_cons, List.sum_cons, List.sum_cons] at hsum
    rw [hab.2 (by have := hab.1; omega), ih (by have := hab.1; omega)]

namespace Frame

/-- How much a local can still take on; if it is unset, a value first of all. -/
def localRoom (U : Finset α) : Option (ValueSet α) → Nat
  | none => U.card + 1
  | some s => s.room U

/-- How much a frame can still take on. -/
def room (U : Finset α) (f : Frame (ValueSet α)) : Nat :=
  (f.locals.map (localRoom U)).sum + (f.stack.map (ValueSet.room U)).sum

variable {f g : Frame (ValueSet α)}

/-- The locals of a larger frame have no more room, and are the same if they have as much. -/
theorem Within.localRoom_le (h : f.Within g) (hg : g.Members (· ∈ U)) :
    List.Forall₂ (fun v w => localRoom U w ≤ localRoom U v ∧
      (localRoom U v ≤ localRoom U w → v = w)) f.locals g.locals := by
  refine List.forall₂_iff_get.2 ⟨h.size, fun k hk hk' => ?_⟩
  have hf : f.local? k = f.locals[k] := by
    unfold Frame.local?
    rw [List.getElem?_eq_getElem hk]
    rfl
  have hgk : g.local? k = g.locals[k] := by
    unfold Frame.local?
    rw [List.getElem?_eq_getElem hk']
    rfl
  show localRoom U g.locals[k] ≤ localRoom U f.locals[k] ∧
    (localRoom U f.locals[k] ≤ localRoom U g.locals[k] → f.locals[k] = g.locals[k])
  rw [← hf, ← hgk]
  cases hv : f.local? k with
  | some v =>
    obtain ⟨w, hw, hvw⟩ := h.locals k v hv
    rw [hw]
    exact ⟨hvw.room_le, fun hroom => congrArg some (hvw.eq_of_room_le (hg.locals k w hw) hroom)⟩
  | none =>
    cases g.local? k with
    | none => exact ⟨Nat.le_refl _, fun _ => rfl⟩
    | some w =>
      -- setting a local takes away more than any set could
      have hw := w.room_le_card (U := U)
      show w.room U ≤ U.card + 1 ∧ (U.card + 1 ≤ w.room U → none = some w)
      exact ⟨by omega, fun hroom => by omega⟩

theorem Within.stackRoom_le (h : f.Within g) (hg : g.Members (· ∈ U)) :
    List.Forall₂ (fun v w => ValueSet.room U w ≤ ValueSet.room U v ∧
      (ValueSet.room U v ≤ ValueSet.room U w → v = w)) f.stack g.stack := by
  refine List.forall₂_iff_get.2 ⟨h.stack.length_eq, fun k hk hk' => ?_⟩
  have hvw := h.stack.get hk hk'
  exact ⟨hvw.room_le, fun hroom =>
    hvw.eq_of_room_le (hg.stack _ (List.getElem_mem hk')) hroom⟩

/-- A larger frame has less room. -/
theorem Within.room_lt (h : f.Within g) (hg : g.Members (· ∈ U)) (hne : g ≠ f) :
    g.room U < f.room U := by
  have hlocals := h.localRoom_le hg
  have hstack := h.stackRoom_le hg
  have hle := sum_le_of_forall₂ (hlocals.imp fun _ _ h => h.1)
  have hle' := sum_le_of_forall₂ (hstack.imp fun _ _ h => h.1)
  unfold room
  by_contra hnot
  -- as much room in all means as much room everywhere
  have hl : f.locals = g.locals := eq_of_sum_le hlocals (by omega)
  have hs : f.stack = g.stack := eq_of_sum_le hstack (by omega)
  refine hne ?_
  have hm := h.limit
  cases f
  cases g
  subst hl hs hm
  rfl

end Frame

/-! ## Analyses that end -/

namespace Analyzer

variable [HasBase α] {A : Analyzer (ValueSet α)} {tag : Witness → α} {initial : Frame (ValueSet α)}

/-- All that the method can create, with what is attached. -/
def creatable (A : Analyzer (ValueSet α)) (tag : Witness → α) : Finset α :=
  (A.witnesses.map tag).toFinset

/-- At every head of a run the frames are proper and hold what the method creates. -/
theorem head_keeps (hA : A.Tracks tag) (hi : A.initialFrame = .ok initial)
    (hm : 0 < A.method.size) {u : Worklist (Frame (ValueSet α))}
    {events : List (Event (Frame (ValueSet α)))}
    (h : A.flow.Head (.start A.method.size 0 initial) u events) :
    ∀ e ∈ events, e.Holds fun _ f => A.ProperFrame f ∧ f.Members (· ∈ A.creatable tag) := by
  have hM : ∀ w ∈ A.witnesses, tag w ∈ A.creatable tag := fun w hw =>
    List.mem_toFinset.2 (List.mem_map_of_mem hw)
  have hentry : A.ProperFrame initial ∧ initial.Members (· ∈ A.creatable tag) :=
    ⟨(proper_initialFrame hA hi).1, members_initialFrame hM hA.interpreter hi⟩
  refine (h.keeps (Worklist.holds_start hm hentry) ?_ ?_).2
  · rintro l f shown flows - ⟨hproper, hmembers⟩ hflows p hp
    obtain ⟨i, hl, hflows⟩ := flow_transfer_eq_ok.1 hflows
    have hedge := (mem_transfer hA.transformer hflows).1 hp
    exact ⟨hedge.proper hA hproper, hedge.members hM hA hl hmembers⟩
  · rintro l held arriving joined - ⟨hheld, hheldM⟩ ⟨harriving, harrivingM⟩ hj
    have hjoined := flow_join_eq_ok.1 hj
    rw [hA.interpreter] at hjoined
    exact ⟨hheld.join harriving hjoined, hheldM.join harrivingM hjoined⟩

/-- If widths agree at the joins on the way to a head, each of them that changes a frame leaves it
less room. -/
theorem joinsLower_room (hA : A.Tracks tag) (hi : A.initialFrame = .ok initial)
    (hm : 0 < A.method.size) {u : Worklist (Frame (ValueSet α))}
    {events : List (Event (Frame (ValueSet α)))}
    (h : A.flow.Head (.start A.method.size 0 initial) u events)
    (hw : ∀ e ∈ events, e.WidthsAgree) :
    A.flow.JoinsLower (Frame.room (A.creatable tag)) events := by
  intro l held arriving joined he hj hne
  have hjoined := flow_join_eq_ok.1 hj
  rw [hA.interpreter] at hjoined
  obtain ⟨⟨hheld, hheldM⟩, harriving, harrivingM⟩ := head_keeps hA hi hm h _ he
  have hwidths : held.WidthsAgree arriving := hw _ he
  have hwithin : held.Within joined := Frame.within_join_left hheld harriving hwidths hjoined
  exact hwithin.room_lt (hheldM.join harrivingM hjoined) hne

omit [HasBase α] in
/-- An analysis of a method with instructions is a run from its entry. -/
theorem analyze_eq_run (hm : 0 < A.method.size) (hi : A.initialFrame = .ok initial) (fuel : Nat) :
    A.analyze fuel = ⟨(A.flow.run fuel (.start A.method.size 0 initial)).trace,
      (A.flow.run fuel (.start A.method.size 0 initial)).outcome.map
        (Option.map (AnalysisResult.mk A.method))⟩ := by
  unfold analyze
  rw [if_neg (by omega), Traced.bind_of_ok hi, ForwardAnalysis.solve_of_lt hm,
    Traced.bind_pure_eq]
  rfl

omit [HasBase α] in
/-- An analysis that cannot begin, or has nothing to analyse, does not depend on the fuel. -/
theorem analyze_cases (A : Analyzer (ValueSet α)) :
    (∃ x : Solving _ _, x.outcome ≠ .ok none ∧ ∀ fuel, A.analyze fuel = x) ∨
      ∃ initial, 0 < A.method.size ∧ A.initialFrame = .ok initial := by
  unfold analyze
  by_cases hm : A.method.size = 0
  · refine .inl ⟨⟨[], .ok (some ⟨A.method, #[]⟩)⟩, ?_, fun fuel => ?_⟩
    · exact fun h => nomatch Except.ok.inj h
    · rw [if_pos hm]
      rfl
  cases hi : A.initialFrame with
  | error e =>
    refine .inl ⟨⟨[], .error e⟩, nofun, fun fuel => ?_⟩
    rw [if_neg hm]
    rfl
  | ok initial => exact .inr ⟨initial, by omega, rfl⟩

omit [HasBase α] in
theorem run_of_analyze (hm : 0 < A.method.size) (hi : A.initialFrame = .ok initial) {fuel : Nat} :
    (A.analyze fuel).outcome ≠ .ok none ↔
      (A.flow.run fuel (.start A.method.size 0 initial)).outcome ≠ .ok none := by
  rw [analyze_eq_run hm hi]
  refine not_congr ⟨fun h => ?_, fun h => ?_⟩
  · obtain ⟨frames, hframes, hnone⟩ := map_eq_ok.1 h
    cases frames with
    | none => exact hframes
    | some frames => cases hnone
  · exact map_eq_ok.2 ⟨none, h, rfl⟩

omit [HasBase α] in
/-- More fuel than an analysis takes to its end changes nothing. -/
theorem analyze_add {fuel : Nat} (h : (A.analyze fuel).outcome ≠ .ok none) (more : Nat) :
    A.analyze (fuel + more) = A.analyze fuel := by
  rcases A.analyze_cases with ⟨x, -, hx⟩ | ⟨initial, hm, hi⟩
  · rw [hx, hx]
  · have hrun := (run_of_analyze hm hi).1 h
    rw [analyze_eq_run hm hi, analyze_eq_run hm hi, ForwardAnalysis.run_add hrun]

/-- If no join, however long the analysis is run, meets a local that is set on both sides with
different widths, then the analysis ends. -/
theorem analyze_ends (hA : A.Tracks tag)
    (hw : ∀ fuel, ∀ e ∈ (A.analyze fuel).trace, e.WidthsAgree) :
    ∃ fuel, (A.analyze fuel).outcome ≠ .ok none := by
  rcases A.analyze_cases with ⟨x, hends, hx⟩ | ⟨initial, hm, hi⟩
  · exact ⟨0, hx 0 ▸ hends⟩
  -- the joins on the way to a head are among those of an analysis with fuel enough
  have hheads : ∀ u events, A.flow.Head (.start A.method.size 0 initial) u events →
      A.flow.JoinsLower (Frame.room (A.creatable tag)) events := by
    intro u events hu
    refine joinsLower_room hA hi hm hu fun e he => ?_
    obtain ⟨visits, hvisits⟩ := hu.run
    refine hw (visits + 0) e ?_
    rw [analyze_eq_run hm hi, hvisits]
    exact List.mem_append_left _ he
  obtain ⟨fuel, hfuel⟩ := ForwardAnalysis.run_ends _ hheads
  exact ⟨fuel, (run_of_analyze hm hi).2 hfuel⟩

end Analyzer

end Room

namespace Method

/-- More fuel than tracking values takes to its end changes nothing. -/
theorem trackValues_add {m : Method} {fuel : Nat} (h : (m.trackValues fuel).outcome ≠ .ok none)
    (more : Nat) : m.trackValues (fuel + more) = m.trackValues fuel := by
  cases hA : Analyzer.prepare m .possibleValues .identity with
  | error e =>
    unfold trackValues
    rw [hA]
    rfl
  | ok A =>
    rw [trackValues_eq hA] at h
    rw [trackValues_eq hA, trackValues_eq hA, Analyzer.analyze_add h]

/-- Tracking values ends, with a result or an error, if no join on the way, however far it is
followed, meets a local that is set on both sides with different widths: after some number of visits
it has an answer, which any more fuel leaves as it is. -/
theorem trackValues_ends (m : Method)
    (hw : ∀ fuel, ∀ e ∈ (m.trackValues fuel).trace, e.WidthsAgree) :
    ∃ fuel, (m.trackValues fuel).outcome ≠ .ok none ∧
      ∀ more, m.trackValues (fuel + more) = m.trackValues fuel := by
  suffices hends : ∃ fuel, (m.trackValues fuel).outcome ≠ .ok none by
    obtain ⟨fuel, hfuel⟩ := hends
    exact ⟨fuel, hfuel, trackValues_add hfuel⟩
  cases hA : Analyzer.prepare m .possibleValues .identity with
  | error e =>
    refine ⟨0, ?_⟩
    unfold trackValues
    rw [hA]
    exact nofun
  | ok A =>
    have hanalyze := trackValues_eq hA
    obtain ⟨fuel, hfuel⟩ := Analyzer.analyze_ends (Analyzer.tracks_possibleValues hA)
      fun fuel => hanalyze fuel ▸ hw fuel
    exact ⟨fuel, hanalyze fuel ▸ hfuel⟩

/-- A loop that counts down its argument, and begins again when something goes wrong. -/
def countsDownAgain : Method where
  owner := "Sample"
  name := "countsDownAgain"
  descriptor := "(I)V"
  access := ⟨8⟩
  maxLocals := 1
  maxStack := 2
  instructions := [⟨0, .iload, .var 0⟩, ⟨1, .ifeq, .jump 7⟩, ⟨2, .iload, .var 0⟩,
    ⟨3, .iconst1, .none⟩, ⟨4, .isub, .none⟩, ⟨5, .istore, .var 0⟩, ⟨6, .goto, .jump 0⟩,
    ⟨7, .returnVoid, .none⟩, ⟨8, .pop, .none⟩, ⟨9, .goto, .jump 0⟩]
  handlers := [⟨2, 6, 8, none⟩]

/-- The counter is narrow wherever it comes from, so the joins at the head of the loop agree, and they
do so however far the loop is followed. -/
theorem trackValues_ends_countsDownAgain :
    (∀ fuel, ∀ e ∈ (countsDownAgain.trackValues fuel).trace, e.WidthsAgree) ∧
      ∃ fuel, (countsDownAgain.trackValues fuel).outcome ≠ .ok none ∧
        ∀ more, countsDownAgain.trackValues (fuel + more) = countsDownAgain.trackValues fuel := by
  have hfirst : ∀ fuel < 20, ∀ e ∈ (countsDownAgain.trackValues fuel).trace, e.WidthsAgree := by
    decide +kernel
  obtain ⟨r, hr⟩ : ∃ r, (countsDownAgain.trackValues 19).outcome = .ok (some r) :=
    AnalysisResult.exists_of_isSome (by decide +kernel)
  have hw : ∀ fuel, ∀ e ∈ (countsDownAgain.trackValues fuel).trace, e.WidthsAgree := by
    intro fuel
    by_cases hfuel : fuel < 20
    · exact hfirst fuel hfuel
    · -- the analysis has ended by then
      obtain ⟨more, rfl⟩ := Nat.exists_eq_add_of_le (show 19 ≤ fuel by omega)
      rw [trackValues_add (by rw [hr]; exact nofun)]
      exact hfirst 19 (by omega)
  exact ⟨hw, trackValues_ends countsDownAgain hw⟩

end Method

end Provenance

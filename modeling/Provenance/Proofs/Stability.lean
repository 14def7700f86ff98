/-
When the frames of an analysis are stable.

One more pass over a result passes every frame on once more and joins what arrives with the frame
that is there. A stable result is changed by none of these joins. It might be thought that a worklist
that runs empty leaves its result stable; but a join that meets a local with values of different
widths leaves it unset, and so forgets what made it visit the location. The next frame to arrive may
set the local again, to what that frame says alone, and nobody is told.

So the result is stable, and has taken up the entry, exactly if no join of the run met different
widths. In one direction the joins go up, so that what was taken up once stays taken up. In the other
every frame of the run lies within the stable one at its location, and two such frames cannot disagree
about a width. That the entry stays taken up depends on the joins at the first instruction only; as
long as these met no different widths, stability alone says as much.
-/
import Provenance.Proofs.Solutions

set_option autoImplicit false

namespace Provenance

namespace Analyzer

variable {V : Type} [AbstractValue V]

/-- One more pass changes nothing: from every reached instruction its frame can be passed on, and
what arrives anywhere leaves the frame there as it is. -/
def Stable (A : Analyzer V) (r : AnalysisResult V) : Prop :=
  ∀ l i f, A.method.instruction? l = some i → r.frame? l = some f →
    ∃ flows, A.transfer i f r.frames = .ok flows ∧ ∀ p ∈ flows,
      ∃ g, r.frame? p.1 = some g ∧ (Frame.join A.interpreter g p.2).outcome = .ok g

/-- The frame at the entry leaves that of the first instruction as it is. -/
def HoldsEntry (A : Analyzer V) (r : AnalysisResult V) : Prop :=
  0 < A.method.size → ∀ f, A.initialFrame = .ok f →
    ∃ g, r.frame? 0 = some g ∧ (Frame.join A.interpreter g f).outcome = .ok g

section Tracking

variable {α : Type} [Coded α] [HasBase α] [DecidableEq α] {A : Analyzer (ValueSet α)}
  {tag : Witness → α} {fuel : Nat} {r : AnalysisResult (ValueSet α)}

/-- Frames that are stable and hold the entry are closed. -/
theorem closed_of_stable (hA : A.Tracks tag) (hr : (A.analyze fuel).outcome = .ok (some r))
    (hentry : A.HoldsEntry r) (hstable : A.Stable r) : A.Closed r.frame? := by
  obtain ⟨hproper, -⟩ := proper_of_analyze hA hr
  constructor
  · intro hm f hf
    obtain ⟨g, hg, hj⟩ := hentry hm f hf
    rw [hA.interpreter] at hj
    have hpf : A.ProperFrame f := (proper_initialFrame hA hf).1
    exact ⟨g, hg, (Frame.join_eq_left (hproper 0 g hg) hpf).1 hj⟩
  · intro l i f target g hf hi he
    obtain ⟨flows, hflows, hall⟩ := hstable l i f hi hf
    obtain ⟨h, hh, hj⟩ := hall (target, g) ((mem_transfer hA.transformer hflows).2 he)
    rw [hA.interpreter] at hj
    have hpg : A.ProperFrame g := he.proper hA (hproper l f hf)
    exact ⟨h, hh, (Frame.join_eq_left (hproper target h hh) hpg).1 hj⟩

/-- The entry stays taken up if no join at the first instruction met different widths. -/
theorem holdsEntry_of_widthsAgree (hA : A.Tracks tag)
    (hr : (A.analyze fuel).outcome = .ok (some r))
    (hw : ∀ held arriving, .join 0 held arriving ∈ (A.analyze fuel).trace →
      held.WidthsAgree arriving) : A.HoldsEntry r := by
  obtain ⟨hproper, hevents⟩ := proper_of_analyze hA hr
  -- the order counts at the first instruction only, whatever the joins do elsewhere
  obtain ⟨hentry, -⟩ := analyze_settled (R := fun l f g => l = 0 → f.Within g)
    (fun _ f _ => .refl f) (fun _ _ _ _ hfg hgh hl => (hfg hl).trans (hgh hl))
    hA.transformer hr fun l held arriving joined he hj => by
      obtain ⟨hp, hp'⟩ : A.ProperFrame held ∧ A.ProperFrame arriving := hevents _ he
      rw [hA.interpreter] at hj
      constructor
      · rintro rfl
        exact Frame.within_join_left hp hp' (hw held arriving he) hj
      · rintro rfl
        exact Frame.within_join_right hp hp' (hw held arriving he) hj
  intro hm f hf
  obtain ⟨g, hg, hfg⟩ := hentry hm f hf
  refine ⟨g, hg, ?_⟩
  rw [hA.interpreter]
  exact (Frame.join_eq_left (hproper 0 g hg) (proper_initialFrame hA hf).1).2 (hfg rfl)

/-- A result whose frames lie above all that flows is stable. -/
theorem stable_of_widthsAgree (hA : A.Tracks tag)
    (hr : (A.analyze fuel).outcome = .ok (some r))
    (hw : ∀ e ∈ (A.analyze fuel).trace, e.WidthsAgree) : A.Stable r := by
  obtain ⟨hproper, -⟩ := proper_of_analyze hA hr
  obtain ⟨-, hflow⟩ := settled_of_widthsAgree hA hr hw
  intro l i f hi hf
  obtain ⟨i', flows, hi', hflows, htaken⟩ := hflow l f hf
  obtain rfl := Option.some.inj (hi.symm.trans hi')
  refine ⟨flows, hflows r.frames, fun p hp => ?_⟩
  obtain ⟨g, hg, hpg⟩ := htaken p hp
  have hedge : A.Edge i f p.1 p.2 := (mem_transfer hA.transformer (hflows #[])).1 hp
  refine ⟨g, hg, ?_⟩
  rw [hA.interpreter]
  exact (Frame.join_eq_left (hproper p.1 g hg) (hedge.proper hA (hproper l f hf))).2 hpg

/-- If there are closed frames, such as those of a result may be, no join on the way to the result met
different widths. -/
theorem widthsAgree_of_closed (hA : A.Tracks tag)
    (hr : (A.analyze fuel).outcome = .ok (some r)) {frame? : Nat → Option (Frame (ValueSet α))}
    (hc : A.Closed frame?) : ∀ e ∈ (A.analyze fuel).trace, e.WidthsAgree := by
  obtain ⟨-, hevents⟩ := least hA hr hc
  intro e he
  cases e with
  | join l held arriving =>
    obtain ⟨⟨g, hg, hheld⟩, g', hg', harriving⟩ := hevents _ he
    obtain rfl := Option.some.inj (hg.symm.trans hg')
    exact Frame.widthsAgree_of_within hheld harriving
  | visit | transfer | converged => exact trivial

end Tracking

end Analyzer

namespace Method

variable {m : Method} {A : Analyzer PossibleValues} {fuel : Nat}
  {r : AnalysisResult PossibleValues}

/-- The result of tracking values is stable, and holds the frame at the entry, exactly if no join on
the way met a local that is set on both sides with different widths. If none did at the first
instruction, it is stable exactly if none did anywhere. -/
theorem stable_iff_widthsAgree (hA : Analyzer.prepare m .possibleValues .identity = .ok A)
    (hr : (m.trackValues fuel).outcome = .ok (some r)) :
    ((A.HoldsEntry r ∧ A.Stable r) ↔ ∀ e ∈ (m.trackValues fuel).trace, e.WidthsAgree) ∧
      ((∀ held arriving, .join 0 held arriving ∈ (m.trackValues fuel).trace →
          held.WidthsAgree arriving) →
        (A.Stable r ↔ ∀ e ∈ (m.trackValues fuel).trace, e.WidthsAgree)) := by
  have hT := Analyzer.tracks_possibleValues hA
  rw [trackValues_eq hA] at hr ⊢
  have hforth : A.HoldsEntry r → A.Stable r → ∀ e ∈ (A.analyze fuel).trace, e.WidthsAgree := by
    intro hentry hstable
    exact Analyzer.widthsAgree_of_closed hT hr
      (Analyzer.closed_of_stable hT hr hentry hstable)
  constructor
  · constructor
    · rintro ⟨hentry, hstable⟩
      exact hforth hentry hstable
    · intro hw
      have hentry : A.HoldsEntry r :=
        Analyzer.holdsEntry_of_widthsAgree hT hr fun held arriving he => hw _ he
      exact ⟨hentry, Analyzer.stable_of_widthsAgree hT hr hw⟩
  · intro hfirst
    have hentry : A.HoldsEntry r := Analyzer.holdsEntry_of_widthsAgree hT hr hfirst
    exact ⟨hforth hentry, Analyzer.stable_of_widthsAgree hT hr⟩

/-- A loop that counts down an argument. -/
def countsDown : Method where
  owner := "Sample"
  name := "countsDown"
  descriptor := "(I)V"
  access := ⟨8⟩
  maxLocals := 1
  maxStack := 1
  instructions := [⟨0, .iinc, .increment 0 (-1)⟩, ⟨1, .iload, .var 0⟩, ⟨2, .ifne, .jump 0⟩,
    ⟨3, .returnVoid, .none⟩]
  handlers := []

/-- The counter has one width however it comes to the head of the loop. -/
theorem stable_iff_widthsAgree_countsDown :
    ∃ A r, Analyzer.prepare countsDown .possibleValues .identity = .ok A ∧
      (countsDown.trackValues 10).outcome = .ok (some r) ∧ A.HoldsEntry r ∧ A.Stable r := by
  have hA : Analyzer.prepare countsDown .possibleValues .identity
      = .ok ⟨countsDown, .possibleValues, .identity, .void⟩ :=
    Analyzer.prepare_eq_ok.2 ⟨.void, by decide +kernel, rfl⟩
  obtain ⟨r, hr⟩ : ∃ r, (countsDown.trackValues 10).outcome = .ok (some r) :=
    AnalysisResult.exists_of_isSome (by decide +kernel)
  obtain ⟨hentry, hstable⟩ := (stable_iff_widthsAgree hA hr).1.2 (by decide +kernel)
  exact ⟨_, r, hA, hr, hentry, hstable⟩

/-- A loop that overwrites a wide argument with a narrow value. -/
def overwritesWide : Method where
  owner := "Sample"
  name := "overwritesWide"
  descriptor := "(J)V"
  access := ⟨8⟩
  maxLocals := 2
  maxStack := 1
  instructions := [⟨0, .iconst0, .none⟩, ⟨1, .istore, .var 0⟩, ⟨2, .goto, .jump 0⟩]
  handlers := []

/-- At the head of this loop a wide local meets a narrow one and is unset. The frame that goes round
once more would set it again. -/
theorem not_stable_overwritesWide :
    overwritesWide.Indexed ∧
      ∃ A r, Analyzer.prepare overwritesWide .possibleValues .identity = .ok A ∧
        (overwritesWide.trackValues 10).outcome = .ok (some r) ∧ ¬ A.Stable r := by
  have hA : Analyzer.prepare overwritesWide .possibleValues .identity
      = .ok ⟨overwritesWide, .possibleValues, .identity, .void⟩ :=
    Analyzer.prepare_eq_ok.2 ⟨.void, by decide +kernel, rfl⟩
  obtain ⟨r, hr⟩ : ∃ r, (overwritesWide.trackValues 10).outcome = .ok (some r) :=
    AnalysisResult.exists_of_isSome (by decide +kernel)
  refine ⟨by decide, _, r, hA, hr, fun hstable => ?_⟩
  have hhead : r.frame? 0 = some ⟨[none, none], [], 1⟩ :=
    AnalysisResult.frame?_eq hr (by decide +kernel)
  have hback : r.frame? 2
      = some ⟨[some (.single ⟨.instruction 0, .int⟩), none], [], 1⟩ :=
    AnalysisResult.frame?_eq hr (by decide +kernel)
  obtain ⟨flows, hflows, hall⟩ := hstable 2 ⟨2, .goto, .jump 0⟩ _ rfl hback
  have hsuccessors : overwritesWide.successors ⟨2, .goto, .jump 0⟩ = .ok [0] := rfl
  have hmem : (0, ⟨[some (.single ⟨.instruction 0, .int⟩), none], [], 1⟩) ∈ flows :=
    (Analyzer.mem_transfer rfl hflows).2
      (.normal rfl hsuccessors (List.mem_singleton_self 0))
  obtain ⟨g, hg, hj⟩ := hall _ hmem
  obtain rfl := Option.some.inj (hhead.symm.trans hg)
  -- the unset local would be set again
  revert hj
  decide +kernel

end Method

end Provenance

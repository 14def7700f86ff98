/-
When wide locals overlap nothing.

A value of width 2 takes two locals, and the second of them should be unset. Entering the method,
executing an instruction and going to a handler see to that. A join does not: one frame may have a
wide value in a local, the other a value in the local behind it, and the join keeps both.

So the frames of a result are clear if no join of the run put two such frames together. If the widths
agreed as well, that is the only way for them to be clear, for then both frames of every join lie
within a frame of the result.
-/
import Provenance.Proofs.Solutions

set_option autoImplicit false

namespace Provenance

/-- A join meets no wide local that only one side has, followed by a local that only the other
has. -/
def Event.Apart {V : Type} [AbstractValue V] : Event (Frame V) → Prop
  | join _ held arriving => held.ClearOf arriving ∧ arriving.ClearOf held
  | visit _ | transfer .. | converged .. => True

instance {V : Type} [AbstractValue V] (e : Event (Frame V)) : Decidable e.Apart :=
  match e with
  | .join _ held arriving =>
    inferInstanceAs (Decidable (held.ClearOf arriving ∧ arriving.ClearOf held))
  | .visit _ | .transfer .. | .converged .. => inferInstanceAs (Decidable True)

namespace Analyzer

variable {α : Type} [Coded α] [HasBase α] [DecidableEq α] {A : Analyzer (ValueSet α)}
  {tag : Witness → α} {fuel : Nat} {r : AnalysisResult (ValueSet α)}

/-- Frames stay clear through a run whose joins keep apart. -/
theorem clear_of_apart (hA : A.Tracks tag) (hr : (A.analyze fuel).outcome = .ok (some r))
    (hapart : ∀ e ∈ (A.analyze fuel).trace, e.Apart) :
    ∀ l f, r.frame? l = some f → f.Clear := by
  have hproper := (proper_of_analyze hA hr).2
  refine (analyze_keeps hA.transformer hr (fun _ f hf => (proper_initialFrame hA hf).2)
    (fun _ _ _ _ _ _ hf he => he.clear hA hf) ?_).1
  intro l held arriving joined he hheld harriving hj
  obtain ⟨hp, hp'⟩ : A.ProperFrame held ∧ A.ProperFrame arriving := hproper _ he
  obtain ⟨hclear, hclear'⟩ : held.ClearOf arriving ∧ arriving.ClearOf held := hapart _ he
  rw [hA.interpreter] at hj
  exact hheld.join hp hp' harriving hclear hclear' hj

/-- If the frames of a closed result are clear, the joins of the run kept apart. -/
theorem apart_of_clear (hA : A.Tracks tag) (hr : (A.analyze fuel).outcome = .ok (some r))
    (hc : A.Closed r.frame?) (hclear : ∀ l f, r.frame? l = some f → f.Clear) :
    ∀ e ∈ (A.analyze fuel).trace, e.Apart := by
  obtain ⟨-, hevents⟩ := least hA hr hc
  intro e he
  cases e with
  | join l held arriving =>
    obtain ⟨⟨g, hg, hheld⟩, g', hg', harriving⟩ := hevents _ he
    obtain rfl := Option.some.inj (hg.symm.trans hg')
    exact ⟨Frame.clearOf_of_within (hclear l g hg) hheld harriving,
      Frame.clearOf_of_within (hclear l g hg) harriving hheld⟩
  | visit | transfer | converged => exact trivial

end Analyzer

namespace Method

variable {m : Method} {fuel : Nat} {r : AnalysisResult PossibleValues}

/-- In the frames of a result every wide local is followed by an unset one if the joins of the run
kept apart, and, if no join met a local with different widths, only if they did. -/
theorem clear_of_apart_and_conversely (hr : (m.trackValues fuel).outcome = .ok (some r)) :
    ((∀ e ∈ (m.trackValues fuel).trace, e.Apart) →
        ∀ l f, r.frame? l = some f → f.Clear) ∧
      ((∀ e ∈ (m.trackValues fuel).trace, e.WidthsAgree) →
        (∀ l f, r.frame? l = some f → f.Clear) →
        ∀ e ∈ (m.trackValues fuel).trace, e.Apart) := by
  obtain ⟨A, hA⟩ := prepare_of_trackValues hr
  have hT := Analyzer.tracks_possibleValues hA
  rw [trackValues_eq hA] at hr ⊢
  constructor
  · intro hapart
    exact Analyzer.clear_of_apart hT hr hapart
  · intro hw hclear
    exact Analyzer.apart_of_clear hT hr (Analyzer.closed_of_widthsAgree hT hr hw) hclear

/-- Two ways to an end, with a wide local on one of them and a narrow local in its second half on
the other. -/
def straddles : Method where
  owner := "Sample"
  name := "straddles"
  descriptor := "()V"
  access := ⟨8⟩
  maxLocals := 2
  maxStack := 2
  instructions := [⟨0, .iconst0, .none⟩, ⟨1, .ifeq, .jump 5⟩, ⟨2, .lconst0, .none⟩,
    ⟨3, .lstore, .var 0⟩, ⟨4, .goto, .jump 7⟩, ⟨5, .iconst0, .none⟩, ⟨6, .istore, .var 1⟩,
    ⟨7, .returnVoid, .none⟩]
  handlers := []

/-- Where the two ways meet, the frame has both locals. -/
theorem not_clear_straddles :
    straddles.Indexed ∧
      ∃ r f, (straddles.trackValues 10).outcome = .ok (some r) ∧ r.frame? 7 = some f ∧
        ¬ f.Clear := by
  obtain ⟨r, hr⟩ : ∃ r, (straddles.trackValues 10).outcome = .ok (some r) :=
    AnalysisResult.exists_of_isSome (by decide +kernel)
  have hend : r.frame? 7 = some ⟨[some (.single ⟨.instruction 2, .long⟩),
      some (.single ⟨.instruction 5, .int⟩)], [], 2⟩ :=
    AnalysisResult.frame?_eq hr (by decide +kernel)
  refine ⟨by decide, r, _, hr, hend, fun hclear => ?_⟩
  have hnone := hclear 0 _ rfl rfl
  cases hnone

/-- Two ways to an end that agree on a wide local. -/
def agreesOnWide : Method where
  owner := "Sample"
  name := "agreesOnWide"
  descriptor := "(J)V"
  access := ⟨8⟩
  maxLocals := 3
  maxStack := 2
  instructions := [⟨0, .iconst0, .none⟩, ⟨1, .ifeq, .jump 4⟩, ⟨2, .lconst0, .none⟩,
    ⟨3, .lstore, .var 0⟩, ⟨4, .returnVoid, .none⟩]
  handlers := []

/-- The argument and what overwrites it take the same two locals. -/
theorem clear_of_apart_and_conversely_agreesOnWide :
    ∃ r, (agreesOnWide.trackValues 10).outcome = .ok (some r) ∧
      (∀ e ∈ (agreesOnWide.trackValues 10).trace, e.Apart) ∧
      ∀ l f, r.frame? l = some f → f.Clear := by
  obtain ⟨r, hr⟩ : ∃ r, (agreesOnWide.trackValues 10).outcome = .ok (some r) :=
    AnalysisResult.exists_of_isSome (by decide +kernel)
  have hapart : ∀ e ∈ (agreesOnWide.trackValues 10).trace, e.Apart := by decide +kernel
  exact ⟨r, hr, hapart, (clear_of_apart_and_conversely hr).1 hapart⟩

end Method

end Provenance

/-
Tracking values is sound for every path.

Along a path from the entry nothing is merged, so its last frame says exactly which values may be in
which slot when control has taken that path. The result of the analysis says at least as much: the
frame of the path lies within it. Executing the instruction at the end of the path goes along with
that, and what can fail for the path and not for the result is to load a local that the path has not
set.

The joins of the run must not have met a local that holds values of different widths. What two frames
say of such a local is forgotten, and a third frame may set it again to less than there was.
-/
import Provenance.Proofs.Solutions

set_option autoImplicit false

namespace Provenance.Method

variable {m : Method} {A : Analyzer PossibleValues} {fuel : Nat}
  {r : AnalysisResult PossibleValues}

/-- If no join of the run met a local with different widths, the result has a frame at the end of
every path, and the frame of the path lies within it: their stacks have the same height, and all that
the path holds in an entry or in a local is there, with the same width. The instruction at the end of
the path can be executed on the frame of the result. For the path it ends in a frame within the one
that it ends in for the result, or it fails for want of a local that the path leaves unset and the
result does not. -/
theorem path_within_result (hA : Analyzer.prepare m .possibleValues .identity = .ok A)
    (hr : (m.trackValues fuel).outcome = .ok (some r))
    (hw : ∀ e ∈ (m.trackValues fuel).trace, e.WidthsAgree)
    {s : Nat} {f : Frame PossibleValues} (hp : A.PathFrame s f) :
    ∃ g i after, r.frame? s = some g ∧ f.Within g ∧ m.instruction? s = some i ∧
      (Frame.execute .possibleValues i A.returnType g).outcome = .ok after ∧
      (∀ f', (Frame.execute .possibleValues i A.returnType f).outcome = .ok f' →
        f'.Within after) ∧
      ∀ e, (Frame.execute .possibleValues i A.returnType f).outcome = .error e →
        ∃ k w, e = .uninitializedLocal k ∧ f.local? k = none ∧ g.local? k = some w := by
  have hT := Analyzer.tracks_possibleValues hA
  have hm := Analyzer.method_of_prepare hA
  rw [trackValues_eq hA] at hr hw
  -- the frames of the result are closed under edges, so they take in every path
  obtain ⟨g, hg, hfg⟩ := hp.within hT (Analyzer.closed_of_widthsAgree hT hr hw)
  obtain ⟨-, hflow⟩ := Analyzer.settled_of_widthsAgree hT hr hw
  obtain ⟨i, flows, hi, hflows, -⟩ := hflow s g hg
  obtain ⟨after, -, -, hafter, -⟩ := (Analyzer.transfer_eq_ok hT.transformer).1 (hflows #[])
  rw [hT.interpreter] at hafter
  rw [hm] at hi
  have hexecute : Traced.Agree
      (fun e => ∃ k w, e = .uninitializedLocal k ∧ f.local? k = none ∧ g.local? k = some w)
      (Call.Related ValueSet.Within) Frame.Within
      (Frame.execute .possibleValues i A.returnType f)
      (Frame.execute .possibleValues i A.returnType g) := hfg.execute
  refine ⟨g, i, after, hg, hfg, hi, hafter, fun f' hf' => ?_, fun e he => ?_⟩
  · obtain ⟨after', hafter', hwithin, -⟩ := hexecute.of_left hf'
    obtain rfl := Except.ok.inj (hafter.symm.trans hafter')
    exact hwithin
  · rcases hexecute.of_right hafter with ⟨f', hf', -⟩ | ⟨e', he', hmissing⟩
    · have hboth : Except.ok f' = Except.error e := hf'.symm.trans he
      cases hboth
    · obtain rfl := Except.error.inj (he'.symm.trans he)
      exact hmissing

/-- A method that overwrites its argument on one of two ways to its end. -/
def overwritesArgument : Method where
  owner := "Sample"
  name := "overwritesArgument"
  descriptor := "(I)V"
  access := ⟨8⟩
  maxLocals := 1
  maxStack := 1
  instructions := [⟨0, .iload, .var 0⟩, ⟨1, .ifeq, .jump 4⟩, ⟨2, .iconst0, .none⟩,
    ⟨3, .istore, .var 0⟩, ⟨4, .returnVoid, .none⟩]
  handlers := []

/-- The way past the store, on which the argument is all that the local may hold. -/
theorem path_within_result_overwritesArgument :
    ∃ A r f g, Analyzer.prepare overwritesArgument .possibleValues .identity = .ok A ∧
      (overwritesArgument.trackValues 10).outcome = .ok (some r) ∧
      (∀ e ∈ (overwritesArgument.trackValues 10).trace, e.WidthsAgree) ∧
      A.PathFrame 4 f ∧ f.local? 0 = some (.single ⟨.parameter 0, .int⟩) ∧
      r.frame? 4 = some g ∧ f.Within g := by
  have hA : Analyzer.prepare overwritesArgument .possibleValues .identity
      = .ok ⟨overwritesArgument, .possibleValues, .identity, .void⟩ :=
    Analyzer.prepare_eq_ok.2 ⟨.void, by decide +kernel, rfl⟩
  have hw : ∀ e ∈ (overwritesArgument.trackValues 10).trace, e.WidthsAgree := by decide +kernel
  obtain ⟨r, hr⟩ : ∃ r, (overwritesArgument.trackValues 10).outcome = .ok (some r) :=
    AnalysisResult.exists_of_isSome (by decide +kernel)
  generalize hAeq : (⟨overwritesArgument, .possibleValues, .identity, .void⟩ :
    Analyzer PossibleValues) = A at hA
  -- the path goes over the load and the branch to the return
  have hentry : A.PathFrame 0 ⟨[some (.single ⟨.parameter 0, .int⟩)], [], 1⟩ := by
    rw [← hAeq]
    exact .entry (by decide) (by decide +kernel)
  have hload : A.PathFrame 1 ⟨[some (.single ⟨.parameter 0, .int⟩)],
      [.single ⟨.parameter 0, .int⟩], 1⟩ := by
    rw [← hAeq] at hentry ⊢
    have hsuccessors : overwritesArgument.successors ⟨0, .iload, .var 0⟩ = .ok [1] := rfl
    exact hentry.step rfl (.normal (by decide +kernel) hsuccessors (by decide))
  have hbranch : A.PathFrame 4 ⟨[some (.single ⟨.parameter 0, .int⟩)], [], 1⟩ := by
    rw [← hAeq] at hload ⊢
    have hsuccessors : overwritesArgument.successors ⟨1, .ifeq, .jump 4⟩ = .ok [2, 4] := rfl
    exact hload.step rfl (.normal (by decide +kernel) hsuccessors (by decide))
  obtain ⟨g, i, after, hg, hwithin, -⟩ := path_within_result hA hr hw hbranch
  exact ⟨A, r, _, g, hA, hr, hw, hbranch, rfl, hg, hwithin⟩

end Provenance.Method

/-
The frames of a result are well formed.

A push checks the limit of the stack and nothing else makes a stack higher, so a stack that fits its
limit fits it after every instruction, whatever values mean (`Frame.Fits.execute`). A join keeps the
height that both frames have, and on the way to a handler there is room for the exception or the
transfer fails. So every frame that an analysis finds fits (`Analyzer.fits_of_analyze`), provided that
corrections on the way make no stack higher.

For an analysis that tracks witnesses this completes what proper frames say: its frames are of the
size of the method, within its limit, and hold sets of witnesses of one width and nothing else.
-/
import Provenance.Proofs.Outcomes
import Provenance.Proofs.Solutions

set_option autoImplicit false

namespace Provenance

namespace Frame

/-! ## Stacks that fit -/

section Fits

variable {V : Type} {I : Interpreter V} {i : Instruction} {f g : Frame V}

/-- The stack is no higher than its limit. -/
def Fits (f : Frame V) : Prop := f.stack.length ≤ f.maxStack

theorem kept_fits (I : Interpreter V) (i : Instruction) : Kept I i (fun _ => True) Fits where
  bare _ _ := trivial
  descriptor _ _ := trivial
  produce _ _ := trivial
  copy _ _ _ := trivial
  unary _ _ _ := trivial
  binary _ _ _ _ := trivial
  ternary _ _ _ _ _ := trivial
  nary _ _ _ := trivial
  returned _ _ _ _ := trivial
  pop {f v rest} hf hs := by
    have hle : f.stack.length ≤ f.maxStack := hf
    rw [hs, List.length_cons] at hle
    exact Nat.le_of_succ_le hle
  popMany {f} count hf := by
    have hdrop : (f.stack.drop count).length ≤ f.stack.length := by
      rw [List.length_drop]
      exact Nat.sub_le _ _
    exact Nat.le_trans hdrop hf
  push _ _ hlt := hlt
  setLocal _ _ hf := hf

variable [AbstractValue V]

/-- Whatever values mean, an instruction leaves a stack that fits. -/
theorem Fits.execute (hf : f.Fits) {returnType : JType}
    (h : (Frame.execute I i returnType f).outcome = .ok g) : g.Fits :=
  ((kept_fits I i).execute hf returnType).of_ok h

theorem Fits.join (hf : f.Fits) {joined : Frame V} (h : Joined I f g joined) :
    joined.Fits := by
  unfold Fits
  rw [h.height_joined, h.limit]
  exact hf

end Fits

/-- A frame of some size, with a stack that fits and proper sets as its values. -/
structure WellFormed {α : Type} [Coded α] [HasBase α] (maxLocals maxStack : Nat)
    (f : Frame (ValueSet α)) : Prop extends f.Proper maxLocals maxStack where
  height : f.stack.length ≤ maxStack

end Frame

namespace Analyzer

/-! ## Frames of an analysis fit -/

section Fits

variable {V : Type} {A : Analyzer V}

/-- Arguments go into locals. -/
theorem fits_of_seed {types : List JType} {index : Nat} {f g : Frame V} (hf : f.Fits)
    (h : A.seed types index f = .ok g) : g.Fits := by
  induction types generalizing index f with
  | nil =>
    obtain rfl := Except.ok.inj h
    exact hf
  | cons t rest ih =>
    obtain ⟨v, -, -, h⟩ := seed_cons_eq_ok.1 h
    have hset : ({ f with locals := f.locals.set index v } : Frame V).Fits := hf
    exact ih hset h

theorem fits_initialFrame {f : Frame V} (h : A.initialFrame = .ok f) : f.Fits := by
  unfold initialFrame at h
  obtain ⟨types, -, h⟩ := bind_eq_ok.1 h
  exact fits_of_seed (Nat.zero_le _) h

/-- The exception on the stack of a handler fits, for otherwise it could not be pushed. -/
theorem fits_toHandler {before : Frame V} {h : Handler} {p : Nat × Frame V}
    (hp : A.toHandler before h = .ok p) : p.2.Fits := by
  obtain ⟨exception, -, hroom, rfl⟩ := toHandler_eq_ok.1 hp
  exact hroom

variable [AbstractValue V]

/-- What flows out of an instruction fits if corrections make no stack too high. -/
theorem fits_transfer (hA : ∀ c f, c.after.Fits → A.transformer c = .ok f → f.Fits)
    {i : Instruction} {before : Frame V} {shown : States (Frame V)}
    {flows : List (Nat × Frame V)} (hf : before.Fits)
    (h : A.transfer i before shown = .ok flows) : ∀ p ∈ flows, p.2.Fits := by
  obtain ⟨after, successors, normal, exceptional, hx, -, hnormal, hexceptional, rfl⟩ :=
    parts_of_transfer h
  have hafter : after.Fits := hf.execute hx
  intro p hp
  rcases List.mem_append.1 hp with hp | hp
  · obtain ⟨target, -, -, edge, hcorrected⟩ := exists_left_of_forall₂ hnormal hp
    exact hA _ _ hafter hcorrected
  · obtain ⟨handler, -, hto⟩ := exists_left_of_forall₂ hexceptional hp
    exact fits_toHandler hto

/-- Every frame of a result has a stack that fits, whatever values mean. -/
theorem fits_of_analyze [DecidableEq V] {fuel : Nat} {r : AnalysisResult V}
    (hA : ∀ c f, c.after.Fits → A.transformer c = .ok f → f.Fits)
    (hr : (A.analyze fuel).outcome = .ok (some r)) {l : Nat} {f : Frame V}
    (hf : r.frame? l = some f) : f.Fits := by
  obtain ⟨-, ⟨-, hnone, -⟩ | ⟨initial, -, hinitial, hsolve, -⟩⟩ := analyze_eq_ok hr
  · rw [AnalysisResult.frame?_of_empty hnone] at hf
    cases hf
  have hT : ∀ l f shown flows, f.Fits → A.flow.transfer l f shown = .ok flows →
      ∀ p ∈ flows, p.2.Fits := by
    intro l f shown flows hf hflows
    obtain ⟨i, -, hflows⟩ := flow_transfer_eq_ok.1 hflows
    exact fits_transfer hA hf hflows
  have hJ : ∀ l held arriving joined, held.Fits →
      A.flow.join l held arriving = .ok joined → joined.Fits := by
    intro l held arriving joined hheld hj
    exact hheld.join (flow_join_eq_ok.1 hj)
  obtain ⟨hstates, -⟩ := ForwardAnalysis.solve_keeps (P := fun _ f => f.Fits) hsolve
    (fits_initialFrame hinitial) (fun l f shown flows _ => hT l f shown flows)
    (fun l held arriving joined _ hheld _ => hJ l held arriving joined hheld)
  exact hstates l f hf

end Fits

end Analyzer

namespace Method

/-! ## Tracking values -/

/-- Every frame that tracking values finds is well formed. -/
theorem wellFormed_of_trackValues {m : Method} {fuel : Nat} {r : AnalysisResult PossibleValues}
    (hr : (m.trackValues fuel).outcome = .ok (some r)) {l : Nat} {f : Frame PossibleValues}
    (hf : r.frame? l = some f) : f.WellFormed m.maxLocals m.maxStack := by
  obtain ⟨A, hA⟩ := prepare_of_trackValues hr
  have hT : A.Tracks id := Analyzer.tracks_possibleValues hA
  obtain rfl : A.method = m := Analyzer.method_of_prepare hA
  rw [trackValues_eq hA] at hr
  have hproper : A.ProperFrame f := (Analyzer.proper_of_analyze hT hr).1 l f hf
  have hidentity : ∀ c f, c.after.Fits → A.transformer c = .ok f → f.Fits := by
    intro c f hc h
    rw [hT.transformer] at h
    obtain rfl := Except.ok.inj h
    exact hc
  have hfits : f.Fits := Analyzer.fits_of_analyze hidentity hr hf
  exact ⟨hproper, hproper.limit ▸ hfits⟩

/-- Doubles its argument by asking another method; where that one fails the answer is zero. -/
def doublesOrZero : Method where
  owner := "Sample"
  name := "doublesOrZero"
  descriptor := "(J)J"
  access := ⟨8⟩
  maxLocals := 2
  maxStack := 2
  instructions := [⟨0, .lload, .var 0⟩, ⟨1, .invokestatic, .method "Sample" "twice" "(J)J" false⟩,
    ⟨2, .goto, .jump 5⟩, ⟨3, .pop, .none⟩, ⟨4, .lconst0, .none⟩, ⟨5, .lreturn, .none⟩]
  handlers := [⟨0, 2, 3, none⟩]

/-- Where the two ways meet, a wide value from either is on the stack. -/
theorem wellFormed_of_trackValues_doublesOrZero :
    ∃ r f, (doublesOrZero.trackValues 20).outcome = .ok (some r) ∧ r.frame? 5 = some f ∧
      f.stack.map (·.width) = [2] ∧ f.WellFormed 2 2 := by
  obtain ⟨r, hr⟩ : ∃ r, (doublesOrZero.trackValues 20).outcome = .ok (some r) :=
    AnalysisResult.exists_of_isSome (by decide +kernel)
  have hwidths : ((doublesOrZero.trackValues 20).outcome.toOption.join.bind (·.frame? 5)).map
      (fun f => f.stack.map (·.width)) = some [2] := by decide +kernel
  rw [hr] at hwidths
  obtain ⟨f, hf, hwide⟩ := Option.map_eq_some_iff.1 hwidths
  exact ⟨r, f, hr, hf, hwide, wellFormed_of_trackValues hr hf⟩

end Method

end Provenance

/-
Analyses that are alike.

Two trackers that attach different things to witnesses go through a method in lockstep if what they
create is related and related sets are merged alike (`Interpreter.TracksAlike`). Each visit then
passes on alike frames to the same instructions, or fails with the same error, and so the two
analyses end alike, whatever the fuel (`Analyzer.analyze_alike`). Nothing is asked of the method: all
that goes wrong on one side goes wrong on the other.

The relation must not confuse values on either side, or else one of the analyses could see a change
where the other sees none.
-/
import Mathlib.Logic.Relator
import Provenance.Proofs.Alike
import Provenance.Proofs.Edges
import Provenance.Proofs.Lockstep

set_option autoImplicit false

namespace Provenance

namespace Traced

variable {κ κ' ε α β γ : Type} {steps : κ → κ' → Prop}

/-! ## Quiet computations that match -/

/-- The same computation on both sides. -/
theorem match_same (x : Except ε γ) : Match steps Eq (.quiet x) (.quiet x) :=
  .same (fun _ => rfl) x

/-- Visits of the elements of one list, which match one by one. -/
theorem match_mapM {values : α → β → Prop} {visit : γ → Except ε α} {visit' : γ → Except ε β}
    {l : List γ}
    (h : ∀ c ∈ l, Match steps values (.quiet (visit c)) (.quiet (visit' c))) :
    Match steps (List.Forall₂ values) (.quiet (l.mapM visit)) (.quiet (l.mapM visit')) := by
  induction l with
  | nil => exact .pure .nil
  | cons c l ih =>
    rw [List.mapM_cons, List.mapM_cons, quiet_bind, quiet_bind]
    refine .bind (h c List.mem_cons_self) fun a b hab => ?_
    rw [quiet_bind, quiet_bind]
    refine .bind (ih fun c hc => h c (List.mem_cons_of_mem _ hc)) fun l r hlr => ?_
    exact .pure (.cons hab hlr)

end Traced

/-! ## Relations that confuse nothing -/

namespace Frame

variable {V W : Type} {values : V → W → Prop}

theorem biUnique_rel (h : Relator.BiUnique values) : Relator.BiUnique (Option.Rel values) := by
  constructor
  · intro v v' w hv hv'
    cases hv with
    | none => cases hv'; rfl
    | some hv =>
      cases hv' with
      | some hv' => exact congrArg some (h.1 hv hv')
  · intro v w w' hv hv'
    cases hv with
    | none => cases hv'; rfl
    | some hv =>
      cases hv' with
      | some hv' => exact congrArg some (h.2 hv hv')

/-- If values are not confused, frames are not. -/
theorem biUnique_alike (h : Relator.BiUnique values) : Relator.BiUnique (Alike values) := by
  have hlocals := (biUnique_rel h).forall₂
  have hstack := h.forall₂
  constructor
  · rintro ⟨l, s, n⟩ ⟨l', s', n'⟩ g hf hf'
    obtain rfl : l = l' := hlocals.1 hf.locals hf'.locals
    obtain rfl : s = s' := hstack.1 hf.stack hf'.stack
    obtain rfl : n = n' := hf.limit.trans hf'.limit.symm
    rfl
  · rintro f ⟨l, s, n⟩ ⟨l', s', n'⟩ hg hg'
    obtain rfl : l = l' := hlocals.2 hg.locals hg'.locals
    obtain rfl : s = s' := hstack.2 hg.stack hg'.stack
    obtain rfl : n = n' := hg.limit.symm.trans hg'.limit
    rfl

end Frame

/-! ## Trackers that are alike -/

section Trackers

variable {α β : Type} [Coded α] [HasBase α] [Coded β] [HasBase β]

/-- Two trackers make related values of every witness, merge related values alike, and do not
confuse values. -/
structure Interpreter.TracksAlike (values : ValueSet α → ValueSet β → Prop) (tag : Witness → α)
    (tag' : Witness → β) : Prop where
  created : ∀ w, values (.single (tag w)) (.single (tag' w))
  merges : Frame.MergesAlike values (tracking tag) (tracking tag')
  unique : Relator.BiUnique values

namespace Analyzer

/-- Tracks witnesses, with something attached, through a method. -/
abbrev tracker (tag : Witness → α) (transformer : FrameTransformer (ValueSet α)) (m : Method)
    (returnType : JType) : Analyzer (ValueSet α) :=
  ⟨m, .tracking tag, transformer, returnType⟩

variable {values : ValueSet α → ValueSet β → Prop} {tag : Witness → α} {tag' : Witness → β}
  {κ κ' : Type} {steps : κ → κ' → Prop} {T : FrameTransformer (ValueSet α)}
  {T' : FrameTransformer (ValueSet β)} {m : Method} {returnType : JType}

/-! ## What comes into being -/

section Created

variable (hcreated : ∀ w, values (.single (tag w)) (.single (tag' w)))
include hcreated

/-- What comes into being at an origin is related. -/
theorem newValue_alike (t : JType) (origin : Origin) :
    Traced.Match steps (Option.Rel values) (.quiet ((Interpreter.tracking tag).newValue t origin))
      (.quiet ((Interpreter.tracking tag').newValue t origin)) := by
  have hvalue : Option.Rel values (Interpreter.createdAt tag origin t)
      (Interpreter.createdAt tag' origin t) := by
    unfold Interpreter.createdAt
    split
    · exact .none
    · exact .some (hcreated _)
  exact .pure hvalue

theorem seed_alike {f : Frame (ValueSet α)} {g : Frame (ValueSet β)} (h : f.Alike values g)
    (types : List JType) (index : Nat) :
    Traced.Match steps (Frame.Alike values)
      (.quiet ((tracker tag T m returnType).seed types index f))
      (.quiet ((tracker tag' T' m returnType).seed types index g)) := by
  induction types generalizing index f g with
  | nil => exact .pure h
  | cons t rest ih =>
    unfold seed
    rw [Traced.quiet_bind, Traced.quiet_bind]
    refine .bind (newValue_alike hcreated t (.parameter index)) fun v w hvw => ?_
    rw [Traced.quiet_bind, Traced.quiet_bind]
    exact .bind (h.setLocal index hvw) fun f g h => ih h _

/-- The frames at the entry are alike. -/
theorem initialFrame_alike :
    Traced.Match steps (Frame.Alike values) (.quiet (tracker tag T m returnType).initialFrame)
      (.quiet (tracker tag' T' m returnType).initialFrame) := by
  unfold initialFrame
  rw [Traced.quiet_bind, Traced.quiet_bind]
  have htypes : (tracker tag' T' m returnType).entryTypes
      = (tracker tag T m returnType).entryTypes := rfl
  rw [htypes]
  refine .bind (Traced.match_same _) ?_
  rintro types _ rfl
  exact seed_alike hcreated (Frame.alike_blank _ _) types 0

/-- The frames that flow to a handler are alike. -/
theorem toHandler_alike {f : Frame (ValueSet α)} {g : Frame (ValueSet β)} (h : f.Alike values g)
    (handler : Handler) :
    Traced.Match steps (fun p q => p.1 = q.1 ∧ p.2.Alike values q.2)
      (.quiet ((tracker tag T m returnType).toHandler f handler))
      (.quiet ((tracker tag' T' m returnType).toHandler g handler)) := by
  unfold toHandler
  rw [Traced.quiet_bind, Traced.quiet_bind]
  refine .bind (newValue_alike hcreated handler.exceptionType (.handler handler.entry))
    fun v w hvw => ?_
  cases hvw with
  | none => exact .throw _
  | some hvw =>
    dsimp only
    rw [Traced.quiet_bind, Traced.quiet_bind]
    exact .bind (h.clearStack.push hvw) fun f g h => .pure ⟨rfl, h⟩

end Created

/-! ## Analyses in lockstep -/

/-- Results that have alike frames at the same instructions of one method. -/
structure ResultsAlike (values : ValueSet α → ValueSet β → Prop)
    (r : AnalysisResult (ValueSet α)) (r' : AnalysisResult (ValueSet β)) : Prop where
  method : r.method = r'.method
  frames : States.Related (Frame.Alike values) r.frames r'.frames

/-- If what flows through a method goes in lockstep, whatever is corrected on the way, so do the
analyses of the method. -/
theorem analyze_alike_of_lockstep [DecidableEq α] [DecidableEq β]
    (hcreated : ∀ w, values (.single (tag w)) (.single (tag' w)))
    (hflow : (tracker tag T m returnType).flow.Lockstep (tracker tag' T' m returnType).flow
      (Frame.Alike values)) (fuel : Nat) :
    Traced.Match (Event.Related (Frame.Alike values)) (Option.Rel (ResultsAlike values))
      ((tracker tag T m returnType).analyze fuel)
      ((tracker tag' T' m returnType).analyze fuel) := by
  unfold analyze
  dsimp only
  split
  · have hnone : States.Related (Frame.Alike values) #[] #[] := ⟨rfl, fun l => .none⟩
    exact .pure (.some ⟨rfl, hnone⟩)
  · refine .bind (initialFrame_alike hcreated) fun f g h => ?_
    refine .bind (hflow.solve fuel m.size 0 h) fun frames frames' hframes => ?_
    cases hframes with
    | none => exact .pure .none
    | some hframes => exact .pure (.some ⟨rfl, hframes⟩)

/-! ## Analyses that correct nothing -/

section Identity

variable (hT : Interpreter.TracksAlike values tag tag')
include hT

/-- Alike frames flow on alike, wherever they come from. -/
theorem transfer_alike {f : Frame (ValueSet α)} {g : Frame (ValueSet β)} (h : f.Alike values g)
    (i : Instruction) (shown : States (Frame (ValueSet α)))
    (shown' : States (Frame (ValueSet β))) :
    Traced.Match steps (ForwardAnalysis.RelatedFlows (Frame.Alike values))
      (.quiet ((tracker tag .identity m returnType).transfer i f shown))
      (.quiet ((tracker tag' .identity m returnType).transfer i g shown')) := by
  unfold transfer
  rw [Traced.quiet_bind, Traced.quiet_bind]
  have hexecute : Traced.Match steps (Frame.Alike values)
      (.quiet (Frame.execute (.tracking tag) i returnType f).outcome)
      (.quiet (Frame.execute (.tracking tag') i returnType g).outcome) :=
    (h.execute (fun _ _ hvw => hT.merges.width hvw) (fun t _ _ => hT.created _)
      returnType).quiet_outcome
  refine .bind hexecute fun after after' hafter => ?_
  rw [Traced.quiet_bind, Traced.quiet_bind]
  refine .bind (Traced.match_same _) ?_
  rintro successors _ rfl
  rw [crossAll_identity rfl, crossAll_identity rfl]
  -- the same frame goes to every successor
  have hnormal : ForwardAnalysis.RelatedFlows (Frame.Alike values)
      (successors.map fun target => (target, after))
      (successors.map fun target => (target, after')) := by
    refine List.forall₂_map_left_iff.2 (List.forall₂_map_right_iff.2 ?_)
    exact List.forall₂_same.2 fun target _ => ⟨rfl, hafter⟩
  rw [Traced.quiet_bind, Traced.quiet_bind]
  refine .bind (.pure hnormal) fun normal normal' hnormal => ?_
  rw [Traced.quiet_bind, Traced.quiet_bind]
  refine .bind (Traced.match_mapM fun handler _ => toHandler_alike hT.created h handler)
    fun flows flows' hflows => ?_
  exact .pure (List.rel_append hnormal hflows)

omit hT [HasBase α] [HasBase β] in
/-- Computations that match still do when their errors are located. -/
theorem located_match {γ δ : Type} {results : γ → δ → Prop} {x : Except AnalysisError γ}
    {y : Except AnalysisError δ} (h : Traced.Match steps results (.quiet x) (.quiet y))
    (index : Nat) (i : Option Instruction) :
    Traced.Match steps results (.quiet (located index i x)) (.quiet (located index i y)) := by
  rcases h.outcome with ⟨e, hx, hy⟩ | ⟨a, b, hx, hy, hab⟩
  · obtain rfl : x = .error e := hx
    obtain rfl : y = .error e := hy
    exact .throw _
  · obtain rfl : x = .ok a := hx
    obtain rfl : y = .ok b := hy
    exact .pure hab

/-- The flows of two trackers that are alike go in lockstep. -/
theorem lockstep :
    (tracker tag .identity m returnType).flow.Lockstep (tracker tag' .identity m returnType).flow
      (Frame.Alike values) where
  same {f f' g g'} h h' := by
    have hunique := Frame.biUnique_alike hT.unique
    constructor
    · rintro rfl
      exact hunique.2 h h'
    · rintro rfl
      exact hunique.1 h h'
  transfer l f g shown shown' h _ := by
    unfold flow
    dsimp only
    cases m.instruction? l with
    | none => exact .throw _
    | some i => exact located_match (transfer_alike hT h i shown shown') _ _
  join l f g f' g' h h' := by
    unfold flow
    dsimp only
    exact located_match ((h.join hT.merges h').quiet_outcome) _ _

/-- Two trackers that are alike analyse a method alike: they do the same, one thing after the other,
and end in the same error, or with alike frames, or want more fuel together. -/
theorem analyze_alike [DecidableEq α] [DecidableEq β] (fuel : Nat) :
    Traced.Match (Event.Related (Frame.Alike values)) (Option.Rel (ResultsAlike values))
      ((tracker tag .identity m returnType).analyze fuel)
      ((tracker tag' .identity m returnType).analyze fuel) :=
  analyze_alike_of_lockstep hT.created (lockstep hT) fuel

end Identity

end Analyzer

end Trackers

end Provenance

/-
What an analysis that tracks witnesses fails with.

An error of an analysis says where it arose, and it is the analysis alone that says so: below it every
error is bare. A descriptor that cannot be read is refused as such, the types that instructions produce
fail for want of a descriptor or of a fitting operand, and frames fail in single steps. So whatever an
instruction fails with, as a step (`Interpreter.ends_execute`), at a join (`Interpreter.ends_join`) or
on the way to the next ones (`Analyzer.ends_transfer`), is bare.
-/
import Provenance.Proofs.Outcomes
import Provenance.Proofs.Solutions

set_option autoImplicit false

namespace Provenance

/-! ## Descriptors -/

namespace Descriptor

/-- The error refuses a part of a text as a descriptor. -/
inductive Refusal : AnalysisError → Prop
  | part (text : String) : Refusal (.invalidDescriptor text)

theorem Refusal.bare {e : AnalysisError} (h : Refusal e) : e.Bare := by
  cases h
  trivial

theorem ends_refuse {α : Type} (part : List Char) :
    Ends Refusal (fun _ => True) (refuse part : Except AnalysisError α) :=
  .error (.part (String.ofList part))

theorem ends_readField (text : List Char) :
    Ends Refusal (fun _ => True) (readField text) := by
  fun_induction readField text with
  | case1 | case2 | case3 => exact ends_refuse _
  | case4 => exact .ok trivial
  | case5 rest ih => exact ih.bind fun _ _ => .ok trivial
  | case6 => exact .ok trivial
  | case7 => exact ends_refuse _

theorem ends_readArguments (whole text : List Char) :
    Ends Refusal (fun _ => True) (readArguments whole text) := by
  fun_induction readArguments whole text with
  | case1 => exact ends_refuse _
  | case2 => exact .ok trivial
  | case3 c rest _ e he => exact .error ((ends_readField (c :: rest)).of_error he)
  | case4 c rest _ t behind _ _ e he ih => exact .error (ih.of_error he)
  | case5 => exact .ok trivial

theorem ends_readResult (whole text : List Char) :
    Ends Refusal (fun _ => True) (readResult whole text) := by
  unfold readResult
  split
  · exact .ok trivial
  · split
    · rename_i e he
      exact .error ((ends_readField text).of_error he)
    · exact .ok trivial
    · exact ends_refuse _

theorem ends_readMethod (text : List Char) :
    Ends Refusal (fun _ => True) (readMethod text) := by
  unfold readMethod
  split
  · rename_i rest
    split
    · rename_i e he
      exact .error ((ends_readArguments _ rest).of_error he)
    · rename_i arguments behind _
      split
      · rename_i e he
        exact .error ((ends_readResult _ behind).of_error he)
      · exact .ok trivial
  · exact ends_refuse _

theorem ends_read (text : List Char) : Ends Refusal (fun _ => True) (read text) := by
  unfold read
  split
  · exact ends_readMethod _
  · split
    · rename_i e he
      exact .error ((ends_readField text).of_error he)
    · exact .ok trivial
    · exact ends_refuse _

theorem ends_parseInternalName (name : String) :
    Ends Refusal (fun _ => True) (parseInternalName name) := by
  unfold parseInternalName
  split
  · exact ends_refuse _
  · exact ends_read _
  · exact .ok trivial

end Descriptor

/-! ## What instructions produce -/

theorem Constant.ends_loadedType (c : Constant) :
    Ends AnalysisError.Bare (fun _ => True) c.loadedType := by
  unfold loadedType
  split
  all_goals first | exact .ok trivial | exact .error trivial

theorem JType.ends_primitiveArray (code : Int) :
    Ends AnalysisError.Bare (fun _ => True) (primitiveArray code) := by
  unfold primitiveArray
  split
  all_goals first | exact .ok trivial | exact .error trivial

namespace Instruction

variable (i : Instruction)

theorem ends_namedType : Ends AnalysisError.Bare (fun _ => True) i.namedType := by
  unfold namedType
  split
  · exact (Descriptor.ends_parseInternalName _).mono fun _ h => h.bare
  · exact .error trivial

theorem ends_fieldType : Ends AnalysisError.Bare (fun _ => True) i.fieldType := by
  unfold fieldType
  split
  · exact (Descriptor.ends_read _).mono fun _ h => h.bare
  · exact .error trivial

theorem ends_methodType : Ends AnalysisError.Bare (fun _ => True) i.methodType := by
  unfold methodType
  split
  · exact (Descriptor.ends_readMethod _).mono fun _ h => h.bare
  · exact .error trivial

theorem ends_producedFromNone : Ends AnalysisError.Bare (fun _ => True) i.producedFromNone := by
  unfold producedFromNone
  split
  all_goals try exact .ok trivial
  · split
    · exact (Constant.ends_loadedType _).map some
    · exact .error trivial
  · exact i.ends_fieldType.map some
  · exact i.ends_namedType.map some
  · exact .error trivial

theorem ends_producedFromOne : Ends AnalysisError.Bare (fun _ => True) i.producedFromOne := by
  unfold producedFromOne
  split
  all_goals try exact .ok trivial
  · exact i.ends_fieldType.map some
  · split
    · exact (JType.ends_primitiveArray _).map some
    · exact .error trivial
  · exact i.ends_namedType.map _
  · exact i.ends_namedType.map some
  · exact .error trivial

theorem ends_producedFromTwo : Ends AnalysisError.Bare (fun _ => True) i.producedFromTwo := by
  unfold producedFromTwo
  split
  all_goals first | exact .ok trivial | exact .error trivial

theorem ends_producedFromThree :
    Ends AnalysisError.Bare (fun _ => True) i.producedFromThree := by
  unfold producedFromThree
  split
  all_goals first | exact .ok trivial | exact .error trivial

theorem ends_producedFromMany : Ends AnalysisError.Bare (fun _ => True) i.producedFromMany := by
  unfold producedFromMany
  split
  · -- nested arrays, the one instruction here that names no method
    split
    · exact ((Descriptor.ends_read _).mono fun _ h => h.bare).map some
    · exact .error trivial
  -- the invocations
  any_goals
    refine i.ends_methodType.bind fun t _ => ?_
    split
    · exact .ok trivial
    · exact .ok trivial
    · exact .error trivial
  exact .error trivial

end Instruction

/-! ## Trackers -/

section Tracking

variable {α : Type} [Coded α] [HasBase α] (tag : Witness → α)

omit [HasBase α] in
theorem ValueSet.ends_merge (s t : ValueSet α) :
    Ends AnalysisError.Bare (fun _ => True) (s.merge t) := by
  unfold merge
  split
  · exact .ok trivial
  · split
    · exact .ok trivial
    · split
      · exact .error trivial
      · exact .ok trivial

namespace Interpreter

theorem kept_bare (i : Instruction) :
    Frame.Kept (tracking tag) i AnalysisError.Bare (fun _ => True) where
  bare _ he := he
  descriptor _ h := i.ends_methodType.of_error h
  produce _ h := (i.ends_producedFromNone.map _).of_error h
  copy _ _ h := nomatch h
  unary _ _ h := (i.ends_producedFromOne.map _).of_error h
  binary _ _ _ h := (i.ends_producedFromTwo.map _).of_error h
  ternary _ _ _ _ h := (i.ends_producedFromThree.map _).of_error h
  nary _ _ h := (i.ends_producedFromMany.map _).of_error h
  returned _ _ _ h := nomatch h
  pop _ _ := trivial
  popMany _ _ := trivial
  push _ _ _ := trivial
  setLocal _ _ _ := trivial

/-- Whatever an instruction fails with is bare. -/
theorem ends_execute (i : Instruction) (returnType : JType) (f : Frame (ValueSet α)) :
    Ends AnalysisError.Bare (fun _ => True)
      (Frame.execute (tracking tag) i returnType f).outcome :=
  (kept_bare tag i).execute trivial returnType

theorem ends_joinLocal (v w : Option (ValueSet α)) :
    Ends AnalysisError.Bare (fun _ => True) (Frame.joinLocal (tracking tag) v w).outcome := by
  unfold Frame.joinLocal
  split
  · rename_i s t
    split
    · have hmerge : Ends AnalysisError.Bare (fun _ => True)
          ((tracking tag).askMerge s t).outcome := s.ends_merge t
      exact hmerge.bind_outcome fun _ _ => .ok trivial
    · exact .ok trivial
  · exact .ok trivial
  · exact .ok trivial
  · exact .ok trivial

theorem ends_joinLocals (l l' : List (Option (ValueSet α))) :
    Ends AnalysisError.Bare (fun _ => True) (Frame.joinLocals (tracking tag) l l').outcome := by
  induction l generalizing l' with
  | nil => exact .ok trivial
  | cons v l ih =>
    cases l' with
    | nil => exact .ok trivial
    | cons w l' =>
      refine (ends_joinLocal tag v w).bind_outcome fun u _ => ?_
      exact (ih l').bind_outcome fun _ _ => .ok trivial

theorem ends_joinStacks (s s' : List (ValueSet α)) :
    Ends AnalysisError.Bare (fun _ => True) (Frame.joinStacks (tracking tag) s s').outcome := by
  induction s generalizing s' with
  | nil => exact .ok trivial
  | cons v s ih =>
    cases s' with
    | nil => exact .ok trivial
    | cons w s' =>
      refine (ih s').bind_outcome fun rest _ => ?_
      have hmerge : Ends AnalysisError.Bare (fun _ => True)
          ((tracking tag).askMerge v w).outcome := v.ends_merge w
      exact hmerge.bind_outcome fun _ _ => .ok trivial

/-- Whatever a join fails with is bare. -/
theorem ends_join (f g : Frame (ValueSet α)) :
    Ends AnalysisError.Bare (fun _ => True) (Frame.join (tracking tag) f g).outcome := by
  unfold Frame.join
  split
  · exact .error trivial
  · split
    · exact .error trivial
    · refine (ends_joinLocals tag f.locals g.locals).bind_outcome fun locals _ => ?_
      exact (ends_joinStacks tag f.stack g.stack).bind_outcome fun _ _ => .ok trivial

end Interpreter

end Tracking

/-! ## Flow -/

theorem Method.ends_successors (m : Method) (i : Instruction) :
    Ends AnalysisError.Bare (fun _ => True) (m.successors i) := by
  have htargets : Ends AnalysisError.Bare (fun _ => True) (m.targets i) := by
    unfold targets
    split
    any_goals exact .ok trivial
    any_goals exact .error trivial
    all_goals
      split
      · exact .error trivial
      · exact .ok trivial
  unfold successors
  refine htargets.bind fun targets _ => ?_
  split
  · exact .error trivial
  · exact .ok trivial

namespace Analyzer

variable {α : Type} [Coded α] [HasBase α] {tag : Witness → α} {A : Analyzer (ValueSet α)}

theorem ends_toHandler (hA : A.Tracks tag) (before : Frame (ValueSet α)) (h : Handler) :
    Ends AnalysisError.Bare (fun _ => True) (A.toHandler before h) := by
  have hvalue : Ends AnalysisError.Bare (fun _ => True)
      (A.interpreter.newValue h.exceptionType (.handler h.entry)) := by
    rw [hA.interpreter]
    exact .ok trivial
  unfold toHandler
  refine hvalue.bind fun v _ => ?_
  split
  · exact .error trivial
  · rename_i exception
    have hpush : Ends AnalysisError.Bare (fun _ => True)
        (before.clearStack.push exception) := by
      unfold Frame.push
      split
      · exact .ok trivial
      · exact .error trivial
    exact hpush.bind fun _ _ => .ok trivial

/-- Whatever a transfer fails with is bare. -/
theorem ends_transfer (hA : A.Tracks tag) (i : Instruction) (before : Frame (ValueSet α))
    (shown : States (Frame (ValueSet α))) :
    Ends AnalysisError.Bare (fun _ => True) (A.transfer i before shown) := by
  have hexecute : Ends AnalysisError.Bare (fun _ => True)
      (Frame.execute A.interpreter i A.returnType before).outcome := by
    rw [hA.interpreter]
    exact Interpreter.ends_execute tag i A.returnType before
  unfold transfer
  refine hexecute.bind fun after _ => ?_
  refine (A.method.ends_successors i).bind fun successors _ => ?_
  -- nothing is corrected, so no edge to a successor can fail
  rw [crossAll_identity hA.transformer]
  have hhandlers : Ends AnalysisError.Bare (fun _ => True)
      ((A.method.handlersAt i.index).mapM (A.toHandler before)) :=
    .mapM fun h _ => ends_toHandler hA before h
  exact hhandlers.bind fun _ _ => .ok trivial

end Analyzer

end Provenance

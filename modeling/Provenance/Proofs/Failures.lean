/-
Every failure of an analysis is located.

Analysing a method that is sound can go wrong in three places. Its descriptor may be no descriptor, an
argument may find no local at the entry, or an instruction may fail, when it is executed or when frames
are joined in front of it. In the last case the error names the instruction, and control can get there
from the first one; its cause names no place itself (`Method.Located`). The two errors of the worklist
do not occur: control stays in the method, so no frame arrives beyond its end.

A class that could be loaded has sound methods only, so this is all that can go wrong with tracking
the values of its methods (`Class.failsWith_of_trackValues`).
-/
import Provenance.Proofs.BareErrors
import Provenance.Proofs.Loading
import Provenance.Proofs.SafeRuns

set_option autoImplicit false

namespace Provenance

/-- An error at an instruction to which control can get, whose cause names no place. The instruction is
shown by its text. -/
inductive Method.Located (m : Method) : AnalysisError → Prop
  | mk {l : Nat} {i : Instruction} {cause : AnalysisError} (hi : m.instruction? l = some i)
    (hreached : m.Reaches 0 l) (hcause : cause.Bare) :
    m.Located (.atInstruction l (some i) cause)

namespace Analyzer

section Tracking

variable {α : Type} [Coded α] [HasBase α] {tag : Witness → α} {A : Analyzer (ValueSet α)}

/-! ## The entry -/

/-- The error says that there is no local with an index. -/
inductive NoLocal : AnalysisError → Prop
  | index (index : Nat) : NoLocal (.invalidLocal index)

theorem ends_seed (hA : A.Tracks tag) (types : List JType) (index : Nat)
    (f : Frame (ValueSet α)) : Ends NoLocal (fun _ => True) (A.seed types index f) := by
  induction types generalizing index f with
  | nil => exact .ok trivial
  | cons t rest ih =>
    have hvalue : Ends NoLocal (fun _ => True)
        (A.interpreter.newValue t (.parameter index)) := by
      rw [hA.interpreter]
      exact .ok trivial
    have hset : ∀ v, Ends NoLocal (fun _ => True) (f.setLocal index v) := by
      intro v
      unfold Frame.setLocal
      split
      · exact .ok trivial
      · exact .error (.index index)
    unfold seed
    refine hvalue.bind fun v _ => ?_
    exact (hset v).bind fun g _ => ih (index + t.size) g

/-- If the descriptor can be read, only a missing local spoils the entry. -/
theorem ends_initialFrame (hA : A.Tracks tag) {t : JType} (ht : A.method.type = .ok t) :
    Ends NoLocal (fun _ => True) A.initialFrame := by
  have htypes : Ends NoLocal (fun _ => True) A.entryTypes := by
    unfold entryTypes Method.argumentTypes
    rw [ht]
    exact .ok trivial
  unfold initialFrame
  exact htypes.bind fun types _ => ends_seed hA types 0 _

/-! ## The flow -/

omit [HasBase α] in
theorem ends_located {β : Type} {values : β → Prop} {l : Nat} {i : Instruction}
    (hi : A.method.instruction? l = some i) (hreached : A.method.Reaches 0 l)
    {x : Except AnalysisError β} (hx : Ends AnalysisError.Bare values x) :
    Ends A.method.Located values (located l (some i) x) := by
  cases hx with
  | ok h => exact .ok h
  | error h => exact .error (.mk hi hreached h)

/-- Frames stay at instructions to which control can get, and what fails there is located. -/
theorem safe_flow (hA : A.Tracks tag) (hm : A.method.Sound) :
    A.flow.Safe A.method.Located (fun l _ => l < A.method.size ∧ A.method.Reaches 0 l)
      A.method.size where
  inside l _ h := h.1
  transfer l f shown h := by
    obtain ⟨hl, hreached⟩ := h
    have hi : A.method.instruction? l = some A.method.instructions[l] :=
      List.getElem?_eq_getElem hl
    unfold flow
    dsimp only
    rw [hi]
    dsimp only
    refine ends_located hi hreached ((ends_transfer hA _ f shown).and_ok fun flows h p hp => ?_)
    -- frames flow to where the instruction leads
    have hleads : A.method.LeadsTo l p.1 :=
      (leadsTo_iff_of_transfer hm.indexed hi h).2 ⟨p, hp, rfl⟩
    exact ⟨hm.lt_of_leadsTo hleads, hreached.tail hleads⟩
  join l held arriving h _ := by
    obtain ⟨hl, hreached⟩ := h
    have hi : A.method.instruction? l = some A.method.instructions[l] :=
      List.getElem?_eq_getElem hl
    have hjoin : Ends AnalysisError.Bare (fun _ => True)
        (Frame.join A.interpreter held arriving).outcome := by
      rw [hA.interpreter]
      exact Interpreter.ends_join tag held arriving
    unfold flow
    dsimp only
    rw [hi]
    exact ends_located hi hreached (hjoin.and_ok fun _ _ => ⟨hl, hreached⟩)

/-- Analysing a sound method fails at the entry, for want of a local, or at an instruction. -/
theorem ends_analyze [DecidableEq α] (hA : A.Tracks tag) (hm : A.method.Sound) {t : JType}
    (ht : A.method.type = .ok t) (fuel : Nat) :
    Ends (fun e => (NoLocal e ∧ A.initialFrame = .error e) ∨ A.method.Located e)
      (fun _ => True) (A.analyze fuel).outcome := by
  unfold analyze
  by_cases hsize : A.method.size = 0
  · rw [if_pos hsize]
    exact .ok trivial
  rw [if_neg hsize]
  cases hinitial : A.initialFrame with
  | error e =>
    exact .error (.inl ⟨(ends_initialFrame hA ht).of_error hinitial, rfl⟩)
  | ok initial =>
    have hsolve : Ends A.method.Located (fun _ => True)
        (A.flow.solve fuel A.method.size 0 initial).outcome :=
      ForwardAnalysis.ends_solve (safe_flow hA hm) fuel ⟨by omega, .refl⟩
    refine (hsolve.mono fun e he => ?_).bind_outcome fun frames _ => .ok trivial
    exact .inr he

end Tracking

end Analyzer

/-! ## Tracking values -/

namespace Method

/-- What tracking the values of a method may fail with. -/
inductive FailsWith (m : Method) : AnalysisError → Prop
  /-- The descriptor of the method cannot be read. -/
  | descriptor {part : String} (h : m.type = .error (.invalidDescriptor part)) :
    m.FailsWith (.invalidDescriptor part)
  /-- There is no local for an argument. -/
  | entry {A : Analyzer PossibleValues} {index : Nat}
    (hA : Analyzer.prepare m .possibleValues .identity = .ok A)
    (h : A.initialFrame = .error (.invalidLocal index)) : m.FailsWith (.invalidLocal index)
  /-- Something fails at an instruction to which control can get. -/
  | located {e : AnalysisError} (h : m.Located e) : m.FailsWith e

theorem failsWith_of_prepare {m : Method} {e : AnalysisError}
    (h : Analyzer.prepare m .possibleValues .identity = .error e) : m.FailsWith e := by
  cases ht : m.type with
  | ok t =>
    unfold Analyzer.prepare returnType at h
    rw [ht] at h
    cases h
  | error e' =>
    unfold Analyzer.prepare returnType at h
    rw [ht] at h
    obtain rfl : e' = e := Except.error.inj h
    -- preparing reads the descriptor and does nothing else that can fail
    have hrefusal : Descriptor.Refusal e' := (Descriptor.ends_readMethod _).of_error ht
    cases hrefusal with
    | part => exact .descriptor ht

/-- Tracking the values of a sound method fails at its descriptor, at its entry or at an instruction
to which control can get. -/
theorem Sound.failsWith {m : Method} (hm : m.Sound) {fuel : Nat} {e : AnalysisError}
    (h : (m.trackValues fuel).outcome = .error e) : m.FailsWith e := by
  cases hA : Analyzer.prepare m .possibleValues .identity with
  | error e' =>
    unfold trackValues at h
    rw [hA] at h
    obtain rfl : e' = e := Except.error.inj h
    exact failsWith_of_prepare hA
  | ok A =>
    have hT : A.Tracks id := Analyzer.tracks_possibleValues hA
    obtain rfl : A.method = m := Analyzer.method_of_prepare hA
    -- the descriptor that was read then is read again at the entry
    obtain ⟨result, hresult, -⟩ := Analyzer.prepare_eq_ok.1 hA
    obtain ⟨t, ht, -⟩ := bind_eq_ok.1 hresult
    rw [trackValues_eq hA] at h
    rcases (Analyzer.ends_analyze hT hm ht fuel).of_error h with ⟨hlocal, hentry⟩ | hlocated
    · cases hlocal with
      | index => exact .entry hA hentry
    · exact .located hlocated

end Method

namespace Class

/-- If tracking the values of a method fails, and the method is one of a class that could be loaded,
then its descriptor cannot be read, or its entry has no local for an argument, or the error names an
instruction to which control can get, with a cause that names none. It is never an error of the
worklist. -/
theorem failsWith_of_trackValues {text : String} {c : Class} (hc : load text = .ok c) {m : Method}
    (hm : m ∈ c.methods) {fuel : Nat} {e : AnalysisError}
    (h : (m.trackValues fuel).outcome = .error e) :
    m.FailsWith e ∧ (∀ l, e ≠ .invalidJumpTarget l) ∧ ∀ l, e ≠ .queuedWithoutState l := by
  have hfails : m.FailsWith e := (sound_of_load hc m hm).failsWith h
  refine ⟨hfails, fun l he => ?_, fun l he => ?_⟩
  · subst he
    cases hfails with
    | located hlocated => cases hlocated
  · subst he
    cases hfails with
    | located hlocated => cases hlocated

/-- A class as a text: its method goes round a loop and leaves a number on the stack each time. -/
def pilesUpText : String :=
  "\x7b\"name\":\"S\",\"methods\":[\x7b\"owner\":\"S\",\"name\":\"pilesUp\"," ++
  "\"descriptor\":\"()V\",\"max_locals\":1,\"max_stack\":1,\"instructions\":[" ++
  "\x7b\"index\":0,\"opcode\":\"Iconst0\",\"operand\":\"None\"\x7d," ++
  "\x7b\"index\":1,\"opcode\":\"Goto\",\"operand\":\x7b\"Jump\":0\x7d\x7d]\x7d]\x7d"

/-- The method of that class. -/
def pilesUp : Method where
  owner := "S"
  name := "pilesUp"
  descriptor := "()V"
  access := ⟨0⟩
  maxLocals := 1
  maxStack := 1
  instructions := [⟨0, .iconst0, .none⟩, ⟨1, .goto, .jump 0⟩]
  handlers := []

/-- The two ways to the head of the loop cannot be joined, and that is where the error is. -/
theorem failsWith_of_trackValues_pilesUp :
    load pilesUpText = .ok ⟨"S", [pilesUp]⟩ ∧
      (pilesUp.trackValues 10).outcome
        = .error (.atInstruction 0 (some ⟨0, .iconst0, .none⟩) (.incompatibleStackHeights 0 1)) ∧
      pilesUp.FailsWith
        (.atInstruction 0 (some ⟨0, .iconst0, .none⟩) (.incompatibleStackHeights 0 1)) := by
  have hload : load pilesUpText = .ok ⟨"S", [pilesUp]⟩ :=
    eq_ok_of_toOption (by decide +kernel)
  have hfails : (pilesUp.trackValues 10).outcome
      = .error (.atInstruction 0 (some ⟨0, .iconst0, .none⟩) (.incompatibleStackHeights 0 1)) := by
    have h : (match (pilesUp.trackValues 10).outcome with
        | .error e => some e
        | .ok _ => none)
          = some (.atInstruction 0 (some ⟨0, .iconst0, .none⟩) (.incompatibleStackHeights 0 1)) := by
      decide +kernel
    cases ho : (pilesUp.trackValues 10).outcome with
    | error e =>
      rw [ho] at h
      exact congrArg Except.error (Option.some.inj h)
    | ok r =>
      rw [ho] at h
      cases h
  have hmem : pilesUp ∈ (⟨"S", [pilesUp]⟩ : Class).methods := List.mem_singleton_self _
  exact ⟨hload, hfails, (failsWith_of_trackValues hload hmem hfails).1⟩

end Class

end Provenance

/-
Whether origins tell witnesses apart.

The origin of a witness is meant to be its identity. For parameters and for what instructions produce
it is. But what is caught has the entry of its handler for its origin and the type of the handler for
its type, and two handlers may begin at one place and catch different types, as they do where one
clause catches several exceptions. So origins tell witnesses apart exactly if handlers that are used
and begin at one place catch one type (`Method.originsTell_iff_handlersAgree`). A handler is used if
it protects an instruction that is reached; then the frame at its entry holds what it catches
(`Analyzer.shows_caught`), because what flows to an instruction is kept on the stack by all joins.
-/
import Provenance.Proofs.Justification

set_option autoImplicit false

namespace Provenance

/-! ## What a result shows -/

namespace AnalysisResult

variable (r : AnalysisResult PossibleValues)

/-- A witness is in some slot of some frame. -/
def Shows (w : Witness) : Prop :=
  ∃ s f slot v, r.frame? s = some f ∧ f.get? slot = some v ∧ w ∈ v

/-- Witnesses with one origin have one type. -/
def OriginsTell : Prop :=
  ∀ w w', r.Shows w → r.Shows w' → w.origin = w'.origin → w.producedType = w'.producedType

/-- A handler protects an instruction that has a frame. -/
def Uses (h : Handler) : Prop :=
  h ∈ r.method.handlers ∧ ∃ l, (r.frame? l).isSome ∧ h.covers l

/-- Handlers that are used and begin at one place catch one type. -/
def HandlersAgree : Prop :=
  ∀ h h', r.Uses h → r.Uses h' → h.entry = h'.entry → h.exceptionType = h'.exceptionType

end AnalysisResult

/-- Only handlers that protect what is reached are origins. -/
theorem Method.Justified.exists_handler {m : Method} {reached : Nat → Prop} {s entry : Nat}
    {w : Witness} (h : m.Justified reached s w) (ho : w.origin = .handler entry) :
    ∃ c ∈ m.handlers, (∃ l, reached l ∧ c.covers l) ∧ c.witness = w := by
  cases h with
  | receiver _ => cases ho
  | argument _ => cases ho
  | instruction _ _ _ _ _ => cases ho
  | handler hh hl hc hs => exact ⟨_, hh, ⟨_, hl, hc⟩, rfl⟩

/-! ## What stays on the stack -/

namespace Frame

variable {f g joined : Frame PossibleValues}

/-- A witness is in some entry of the stack. -/
def Stacks (f : Frame PossibleValues) (w : Witness) : Prop := ∃ v ∈ f.stack, w ∈ v

/-- A join has on its stack what the two frames have on theirs. -/
theorem stacks_of_join (h : Joined .possibleValues f g joined) (w : Witness) :
    (f.Stacks w → joined.Stacks w) ∧ (g.Stacks w → joined.Stacks w) := by
  -- both sides meet in one entry at every depth
  have hentry : ∀ (k : Nat) (hf : k < f.stack.length) (hg : k < g.stack.length),
      w ∈ f.stack[k] ∨ w ∈ g.stack[k] → joined.Stacks w := by
    intro k hf hg hw
    have hj : k < joined.stack.length := by
      rw [h.height_joined]
      exact hf
    have hmerge : f.stack[k].merge g.stack[k] = .ok joined.stack[k] := h.merge_getElem hf hg hj
    exact ⟨joined.stack[k], List.getElem_mem hj, (ValueSet.mem_merge hmerge).2 hw⟩
  constructor
  · rintro ⟨v, hv, hw⟩
    obtain ⟨k, hf, rfl⟩ := List.getElem_of_mem hv
    exact hentry k hf (h.height ▸ hf) (.inl hw)
  · rintro ⟨v, hv, hw⟩
    obtain ⟨k, hg, rfl⟩ := List.getElem_of_mem hv
    exact hentry k (h.height ▸ hg) hg (.inr hw)

/-- Every entry of the stack is in a slot. -/
theorem Stacks.exists_slot {w : Witness} (h : f.Stacks w) :
    ∃ slot v, f.get? slot = some v ∧ w ∈ v := by
  obtain ⟨v, hv, hw⟩ := h
  obtain ⟨height, hheight⟩ := List.getElem?_of_mem (List.mem_reverse.2 hv)
  exact ⟨.stack height, v, hheight, hw⟩

end Frame

namespace Analyzer

variable {A : Analyzer PossibleValues} {fuel : Nat} {r : AnalysisResult PossibleValues}

/-- What flows from an instruction on the stack is on the stack where it gets to. -/
theorem stacks_settled (hA : A.Tracks id) (hr : (A.analyze fuel).outcome = .ok (some r)) {l : Nat}
    {f : Frame PossibleValues} (hf : r.frame? l = some f) :
    ∃ i, A.method.instruction? l = some i ∧ ∀ target g, A.Edge i f target g →
      ∃ held, r.frame? target = some held ∧ ∀ w, g.Stacks w → held.Stacks w := by
  have hsettled := (analyze_settled (R := fun _ f g => ∀ w, f.Stacks w → g.Stacks w)
    ?refl ?trans hA.transformer hr ?join).2
  case refl => exact fun _ _ _ hw => hw
  case trans => exact fun _ _ _ _ hfg hgh w hw => hgh w (hfg w hw)
  case join =>
    intro l held arriving joined _ hj
    rw [hA.interpreter] at hj
    exact ⟨fun w => (Frame.stacks_of_join hj w).1, fun w => (Frame.stacks_of_join hj w).2⟩
  obtain ⟨i, flows, hi, hflows, htaken⟩ := hsettled l f hf
  refine ⟨i, hi, fun target g he => ?_⟩
  exact htaken (target, g) ((mem_transfer hA.transformer (hflows #[])).2 he)

/-- What a handler catches that is used is in a slot. -/
theorem shows_caught (hA : A.Tracks id) (hindexed : A.method.Indexed)
    (hr : (A.analyze fuel).outcome = .ok (some r)) {h : Handler} (hh : r.Uses h) :
    r.Shows h.witness := by
  obtain ⟨hmem, l, hl, hc⟩ := hh
  have hmethod : r.method = A.method := (analyze_eq_ok hr).1
  obtain ⟨f, hf⟩ := Option.isSome_iff_exists.1 hl
  obtain ⟨i, hi, hedge⟩ := stacks_settled hA hr hf
  -- the exception flows to the entry of the handler
  have hat : h ∈ A.method.handlersAt i.index :=
    (Method.mem_handlersAt hindexed hi).2 ⟨hmethod ▸ hmem, hc⟩
  have hcaught : A.interpreter.newValue h.exceptionType (.handler h.entry)
      = .ok (some (.single h.witness)) := by
    rw [hA.interpreter]
    rfl
  obtain ⟨g, hg, hkept⟩ := hedge _ _ (.exceptional hat hcaught)
  have hstacks : g.Stacks h.witness :=
    hkept _ ⟨.single h.witness, List.mem_singleton_self _, OrderedSet.mem_singleton.2 rfl⟩
  obtain ⟨slot, v, hv, hw⟩ := hstacks.exists_slot
  exact ⟨h.entry, g, slot, v, hg, hv, hw⟩

/-- A result shows witnesses of the method only. -/
theorem mem_witnesses_of_shows (hA : A.Tracks id) (hr : (A.analyze fuel).outcome = .ok (some r))
    {w : Witness} (hw : r.Shows w) : w ∈ A.witnesses := by
  obtain ⟨s, f, slot, v, hf, hv, hwv⟩ := hw
  have hall : ∀ w ∈ A.witnesses, (id w : Witness) ∈ A.witnesses := fun _ hw => hw
  have hmembers : ∀ l f, r.frame? l = some f → f.Members (· ∈ A.witnesses) := by
    refine (analyze_keeps (P := fun _ f => f.Members (· ∈ A.witnesses)) hA.transformer hr
      ?entry ?edge ?join).1
    case entry =>
      intro _ f hf
      exact members_initialFrame hall hA.interpreter hf
    case edge =>
      intro l i f target g hi hf he
      exact Edge.members hall hA hi hf he
    case join =>
      intro l held arriving joined _ hheld harriving hj
      rw [hA.interpreter] at hj
      exact hheld.join harriving hj
  exact (hmembers s f hf).get? hv w hwv

/-- If a result shows what a handler has caught, it is what a handler catches that is used. -/
theorem exists_used_of_shows (hA : A.Tracks id) (hindexed : A.method.Indexed)
    (hr : (A.analyze fuel).outcome = .ok (some r)) {h : Handler} (hw : r.Shows h.witness) :
    ∃ used, r.Uses used ∧ used.witness = h.witness := by
  obtain ⟨s, f, slot, v, hf, hv, hwv⟩ := hw
  have hmethod : r.method = A.method := (analyze_eq_ok hr).1
  have hjustified := (justified_of_frame? hA hindexed hr hf).get? hv _ hwv
  obtain ⟨used, hmem, hprotects, hwitness⟩ := hjustified.exists_handler rfl
  exact ⟨used, ⟨hmethod ▸ hmem, hprotects⟩, hwitness⟩

/-- Origins tell witnesses apart exactly if handlers agree. -/
theorem originsTell_iff (hA : A.Tracks id) (hindexed : A.method.Indexed)
    (hr : (A.analyze fuel).outcome = .ok (some r)) : r.OriginsTell ↔ r.HandlersAgree := by
  constructor
  · intro htell h h' hh hh' hentry
    have ho : h.witness.origin = h'.witness.origin := congrArg Origin.handler hentry
    exact htell _ _ (shows_caught hA hindexed hr hh) (shows_caught hA hindexed hr hh') ho
  · intro hagree w w' hw hw' ho
    have hmem := mem_witnesses_of_shows hA hr hw
    have hmem' := mem_witnesses_of_shows hA hr hw'
    rcases eq_or_caught_of_origin_eq hindexed hmem hmem' ho with rfl | ⟨c, -, c', -, -, rfl, rfl⟩
    · rfl
    · -- these two handlers need not be used, but others that catch the same are
      obtain ⟨h, hh, hwitness⟩ := exists_used_of_shows hA hindexed hr hw
      obtain ⟨h', hh', hwitness'⟩ := exists_used_of_shows hA hindexed hr hw'
      rw [← hwitness, ← hwitness'] at ho ⊢
      exact hagree h h' hh hh' (Origin.handler.inj ho)

end Analyzer

namespace Method

/-- In a method whose instructions sit at their own index, the witnesses that tracking values finds
are told by their origins exactly if no two handlers that are used begin at one place and catch
different types. -/
theorem originsTell_iff_handlersAgree {m : Method} (hindexed : m.Indexed) {fuel : Nat}
    {r : AnalysisResult PossibleValues} (hr : (m.trackValues fuel).outcome = .ok (some r)) :
    r.OriginsTell ↔ r.HandlersAgree := by
  obtain ⟨A, hA⟩ := prepare_of_trackValues hr
  rw [trackValues_eq hA] at hr
  obtain rfl : A.method = m := Analyzer.method_of_prepare hA
  exact Analyzer.originsTell_iff (Analyzer.tracks_possibleValues hA) hindexed hr

/-- Two handlers that begin at one place and protect one instruction; one of them catches all that the
other does not name. -/
def catchesTwo : Method where
  owner := "Sample"
  name := "catchesTwo"
  descriptor := "()V"
  access := ⟨8⟩
  maxLocals := 0
  maxStack := 1
  instructions := [⟨0, .nop, .none⟩, ⟨1, .returnVoid, .none⟩, ⟨2, .returnVoid, .none⟩]
  handlers := [⟨0, 1, 2, some "java/io/IOException"⟩, ⟨0, 1, 2, none⟩]

/-- What both of them catch is at the entry. -/
theorem not_originsTell_catchesTwo :
    catchesTwo.Indexed ∧
      ∃ r, (catchesTwo.trackValues 10).outcome = .ok (some r) ∧ ¬ r.OriginsTell := by
  obtain ⟨r, hr⟩ : ∃ r, (catchesTwo.trackValues 10).outcome = .ok (some r) :=
    AnalysisResult.exists_of_isSome (by decide +kernel)
  obtain ⟨v, hv, hio, hall⟩ : ∃ v : PossibleValues, r.frame? 2 = some ⟨[], [v], 1⟩ ∧
      ⟨.handler 2, .object "java/io/IOException"⟩ ∈ v ∧
      ⟨.handler 2, .object "java/lang/Throwable"⟩ ∈ v :=
    ⟨⟨1, .ofList [⟨.handler 2, .object "java/io/IOException"⟩,
        ⟨.handler 2, .object "java/lang/Throwable"⟩]⟩,
      AnalysisResult.frame?_eq hr (by decide +kernel), by decide +kernel, by decide +kernel⟩
  have hslot : (⟨[], [v], 1⟩ : Frame PossibleValues).get? (.stack 0) = some v := rfl
  refine ⟨by decide, r, hr, fun htell => ?_⟩
  have hsame := htell _ _ ⟨2, _, _, v, hv, hslot, hio⟩ ⟨2, _, _, v, hv, hslot, hall⟩ rfl
  revert hsame
  decide

/-- Two handlers that begin at one place and catch the same; a third that begins there and catches
something else protects nothing that is reached. -/
def catchesOnce : Method where
  owner := "Sample"
  name := "catchesOnce"
  descriptor := "()V"
  access := ⟨8⟩
  maxLocals := 0
  maxStack := 1
  instructions := [⟨0, .nop, .none⟩, ⟨1, .returnVoid, .none⟩, ⟨2, .returnVoid, .none⟩,
    ⟨3, .goto, .jump 3⟩]
  handlers := [⟨0, 1, 2, some "java/lang/Throwable"⟩, ⟨0, 2, 2, none⟩,
    ⟨3, 4, 2, some "java/io/IOException"⟩]

theorem originsTell_iff_handlersAgree_catchesOnce :
    ∃ r, (catchesOnce.trackValues 10).outcome = .ok (some r) ∧ r.OriginsTell := by
  obtain ⟨r, hr⟩ : ∃ r, (catchesOnce.trackValues 10).outcome = .ok (some r) :=
    AnalysisResult.exists_of_isSome (by decide +kernel)
  have hunreached : r.frame? 3 = none := AnalysisResult.frame?_eq hr (by decide +kernel)
  have hthrowable : ∀ h, r.Uses h → h.exceptionType = .object "java/lang/Throwable" := by
    rintro h ⟨hmem, l, hl, hc⟩
    rw [method_of_trackValues hr] at hmem
    simp only [catchesOnce, List.mem_cons, List.not_mem_nil, or_false] at hmem
    rcases hmem with rfl | rfl | rfl
    · rfl
    · rfl
    · -- the third handler protects one instruction, which has no frame
      obtain rfl : l = 3 := by
        simp only [Handler.covers, Bool.and_eq_true, decide_eq_true_eq] at hc
        omega
      rw [hunreached] at hl
      cases hl
  refine ⟨r, hr, (originsTell_iff_handlersAgree (by decide) hr).2 ?_⟩
  intro h h' hh hh' _
  rw [hthrowable h hh, hthrowable h' hh']

end Method

end Provenance

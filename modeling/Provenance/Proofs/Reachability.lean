/-
Which instructions an analysis reaches.

Control goes on from an instruction to its normal successors, and an exception takes it to the
handlers that protect the instruction. That is a graph on the indices of a method, and nothing else
decides which instructions get a frame: a frame flows along every edge out of an instruction that is
visited, and along no other (`Analyzer.leadsTo_iff_of_transfer`), whatever values mean and however
frames are corrected on the way. So the frames of a result stand exactly where the graph leads from
the first instruction (`Analyzer.hasFrame_iff_reaches`).

Both halves are facts about runs. What holds of the first instruction and goes along edges holds
wherever there is a frame; and whatever flows from a frame of the result has arrived somewhere.
-/
import Mathlib.Logic.Relation
import Provenance.Proofs.Analyses
import Provenance.Qualifier.Nullness

set_option autoImplicit false

namespace Provenance

/-! ## The control flow graph -/

namespace Method

/-- Control goes on from one instruction to another. -/
def GoesTo (m : Method) (l target : Nat) : Prop :=
  ∃ i successors, m.instruction? l = some i ∧ m.successors i = .ok successors ∧
    target ∈ successors

/-- An exception takes control from an instruction to a handler that protects it. -/
def RaisesTo (m : Method) (l target : Nat) : Prop :=
  ∃ i h, m.instruction? l = some i ∧ h ∈ m.handlers ∧ h.covers l ∧ h.entry = target

/-- There is an edge of either kind from one instruction to another. -/
def LeadsTo (m : Method) (l target : Nat) : Prop := m.GoesTo l target ∨ m.RaisesTo l target

/-- Control can get from one instruction to another, over any number of edges. -/
abbrev Reaches (m : Method) : Nat → Nat → Prop := Relation.ReflTransGen m.LeadsTo

/-- Handlers are looked up by the index that an instruction carries, which is its own. -/
theorem mem_handlersAt {m : Method} (hindexed : m.Indexed) {l : Nat} {i : Instruction}
    (hi : m.instruction? l = some i) {h : Handler} :
    h ∈ m.handlersAt i.index ↔ h ∈ m.handlers ∧ h.covers l := by
  rw [hindexed l i hi]
  exact List.mem_filter

end Method

namespace Analyzer

variable {V : Type} [AbstractValue V] {A : Analyzer V}

/-- A frame flows only to where the instruction leads. -/
theorem Edge.leadsTo (hindexed : A.method.Indexed) {l target : Nat} {i : Instruction}
    (hi : A.method.instruction? l = some i) {f g : Frame V} (he : A.Edge i f target g) :
    A.method.LeadsTo l target := by
  cases he with
  | normal _ hs ht => exact .inl ⟨i, _, hi, hs, ht⟩
  | exceptional hh _ =>
    obtain ⟨hmem, hc⟩ := (Method.mem_handlersAt hindexed hi).1 hh
    exact .inr ⟨i, _, hi, hmem, hc, rfl⟩

/-- What flows out of an instruction flows to where the instruction leads, and something flows to
each of these places, whatever is corrected on the way. -/
theorem leadsTo_iff_of_transfer (hindexed : A.method.Indexed) {l : Nat} {i : Instruction}
    (hi : A.method.instruction? l = some i) {before : Frame V} {shown : States (Frame V)}
    {flows : List (Nat × Frame V)} (h : A.transfer i before shown = .ok flows) {target : Nat} :
    A.method.LeadsTo l target ↔ ∃ p ∈ flows, p.1 = target := by
  obtain ⟨after, successors, normal, exceptional, -, hs, hn, he, rfl⟩ := parts_of_transfer h
  constructor
  · intro hleads
    rcases hleads with ⟨i', successors', hi', hs', ht⟩ | ⟨i', handler, hi', hh, hc, hentry⟩
    · -- a normal edge: the transformer has answered one frame for each successor
      obtain rfl : i = i' := Option.some.inj (hi.symm.trans hi')
      obtain rfl : successors = successors' := Except.ok.inj (hs.symm.trans hs')
      obtain ⟨p, hp, htarget, -⟩ := exists_right_of_forall₂ hn ht
      exact ⟨p, List.mem_append_left _ hp, htarget⟩
    · have hat : handler ∈ A.method.handlersAt i.index :=
        (Method.mem_handlersAt hindexed hi).2 ⟨hh, hc⟩
      obtain ⟨p, hp, hto⟩ := exists_right_of_forall₂ he hat
      obtain ⟨exception, -, -, rfl⟩ := toHandler_eq_ok.1 hto
      exact ⟨_, List.mem_append_right _ hp, hentry⟩
  · rintro ⟨p, hp, rfl⟩
    rcases List.mem_append.1 hp with hp | hp
    · obtain ⟨target, ht, htarget, -⟩ := exists_left_of_forall₂ hn hp
      rw [htarget]
      exact .inl ⟨i, successors, hi, hs, ht⟩
    · obtain ⟨handler, hh, hto⟩ := exists_left_of_forall₂ he hp
      obtain ⟨exception, -, -, rfl⟩ := toHandler_eq_ok.1 hto
      obtain ⟨hmem, hc⟩ := (Method.mem_handlersAt hindexed hi).1 hh
      exact .inr ⟨i, handler, hi, hmem, hc, rfl⟩

/-! ## Frames and paths -/

variable [DecidableEq V] {fuel : Nat} {r : AnalysisResult V}

/-- Wherever a result has a frame, control can get there from the first instruction. -/
theorem reaches_of_frame? (hindexed : A.method.Indexed)
    (hr : (A.analyze fuel).outcome = .ok (some r)) {l : Nat} {f : Frame V}
    (hf : r.frame? l = some f) : A.method.Reaches 0 l := by
  obtain ⟨-, ⟨-, hnone, -⟩ | ⟨initial, -, -, hsolve, -⟩⟩ := analyze_eq_ok hr
  · -- a method without instructions has no frames
    rw [AnalysisResult.frame?_of_empty hnone] at hf
    cases hf
  have hT : ∀ l f shown flows, A.method.Reaches 0 l → A.flow.transfer l f shown = .ok flows →
      ∀ p ∈ flows, A.method.Reaches 0 p.1 := by
    intro l f shown flows hreaches hflows p hp
    obtain ⟨i, hi, hflows⟩ := flow_transfer_eq_ok.1 hflows
    have hleads : A.method.LeadsTo l p.1 :=
      (leadsTo_iff_of_transfer hindexed hi hflows).2 ⟨p, hp, rfl⟩
    exact hreaches.tail hleads
  obtain ⟨hstates, -⟩ := ForwardAnalysis.solve_keeps (P := fun l _ => A.method.Reaches 0 l) hsolve
    .refl (fun l f shown flows _ => hT l f shown flows) (fun _ _ _ _ _ hheld _ _ => hheld)
  exact hstates l f hf

/-- The first instruction has a frame, and so has every instruction to which one with a frame
leads. -/
theorem hasFrame_entry_and_edge (hindexed : A.method.Indexed)
    (hr : (A.analyze fuel).outcome = .ok (some r)) :
    (0 < A.method.size → (r.frame? 0).isSome) ∧
      ∀ l target, (r.frame? l).isSome → A.method.LeadsTo l target →
        (r.frame? target).isSome := by
  obtain ⟨hentry, hpassed⟩ := analyze_passed_on hr
  refine ⟨hentry, fun l target hl hleads => ?_⟩
  obtain ⟨f, hf⟩ := Option.isSome_iff_exists.1 hl
  obtain ⟨i, shown, flows, hi, hflows, harrived⟩ := hpassed l f hf
  obtain ⟨p, hp, rfl⟩ := (leadsTo_iff_of_transfer hindexed hi hflows).1 hleads
  exact harrived p hp

/-- In a method whose instructions sit at their own index, an instruction has a frame exactly if
control can get there from the first instruction, whatever values mean and however frames are
corrected. -/
theorem hasFrame_iff_reaches (hindexed : A.method.Indexed) (hm : 0 < A.method.size)
    (hr : (A.analyze fuel).outcome = .ok (some r)) (s : Nat) :
    (r.frame? s).isSome ↔ A.method.Reaches 0 s := by
  obtain ⟨hentry, hedge⟩ := hasFrame_entry_and_edge hindexed hr
  constructor
  · intro hs
    obtain ⟨f, hf⟩ := Option.isSome_iff_exists.1 hs
    exact reaches_of_frame? hindexed hr hf
  · intro hs
    -- along the path every instruction gets a frame, the first one having its own
    induction hs with
    | refl => exact hentry hm
    | tail _ hleads ih => exact hedge _ _ ih hleads

end Analyzer

namespace Method

/-- Takes the null constant round a loop until it is not null; a handler goes back to the loop. Behind
the return lie an instruction that nothing leads to, and a handler for that one alone. -/
def goesRound : Method where
  owner := "Sample"
  name := "goesRound"
  descriptor := "()V"
  access := ⟨8⟩
  maxLocals := 1
  maxStack := 1
  instructions := [⟨0, .aconstNull, .none⟩, ⟨1, .astore, .var 0⟩, ⟨2, .aload, .var 0⟩,
    ⟨3, .ifnull, .jump 2⟩, ⟨4, .returnVoid, .none⟩, ⟨5, .astore, .var 0⟩, ⟨6, .goto, .jump 2⟩,
    ⟨7, .goto, .jump 7⟩, ⟨8, .athrow, .none⟩]
  handlers := [⟨2, 4, 5, none⟩, ⟨7, 8, 8, none⟩]

end Method

namespace Analyzer

/-- The handler of the loop can be reached, the one behind the return cannot. -/
theorem hasFrame_iff_reaches_goesRound :
    ∃ r, ((⟨.goesRound, .qualifiedValues Witness.withNullness, .keepStored, .void⟩ :
          Analyzer (QualifiedValueSet ValueFact)).analyze 20).outcome = .ok (some r) ∧
      Method.goesRound.Reaches 0 5 ∧ ¬ Method.goesRound.Reaches 0 8 := by
  obtain ⟨r, hr⟩ : ∃ r, ((⟨.goesRound, .qualifiedValues Witness.withNullness, .keepStored, .void⟩ :
      Analyzer (QualifiedValueSet ValueFact)).analyze 20).outcome = .ok (some r) :=
    AnalysisResult.exists_of_isSome (by decide +kernel)
  have hindexed : Method.goesRound.Indexed := by decide
  have hreached := hasFrame_iff_reaches hindexed (by decide) hr
  have hframes : (r.frame? 5).isSome ∧ (r.frame? 8).isSome = false := by
    have hall : ((⟨.goesRound, .qualifiedValues Witness.withNullness, .keepStored, .void⟩ :
        Analyzer (QualifiedValueSet ValueFact)).analyze 20).outcome.toOption.join.all
          (fun r => (r.frame? 5).isSome ∧ (r.frame? 8).isSome = false) = true := by
      decide +kernel
    rw [hr] at hall
    exact of_decide_eq_true hall
  refine ⟨r, hr, (hreached 5).1 hframes.1, fun h8 => ?_⟩
  have hsome : (r.frame? 8).isSome := (hreached 8).2 h8
  rw [hframes.2] at hsome
  cases hsome

end Analyzer

end Provenance

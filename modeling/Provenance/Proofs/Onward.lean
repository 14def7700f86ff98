/-
Where control goes on to.

An instruction that neither returns nor throws should hand control on: to the next instruction, to the
targets of its operand, or to both. Loading takes any operand with any opcode, though. The successors
of a jump or a switch are whatever targets its operand names, those of a branch are the next
instruction and these; so an operand without targets leaves an end, or a way that is never taken, of
which no error tells. A local that an operand should name, or a method, is asked for and missed; a
target is not.

That is the only way in which control gets lost. In a class that could be loaded, an instruction that
an analysis has passed goes on as its opcode says (`Instruction.GoesOn`) exactly if its operand names
the targets that the opcode needs (`Instruction.NamesTargets`).
-/
import Provenance.Proofs.Serialization
import Provenance.Proofs.Solutions

set_option autoImplicit false

namespace Provenance

/-! ## What an opcode asks of control -/

/-- The default target of a switch, and the others. -/
def Operand.switchTargets? : Operand → Option (Nat × List Nat)
  | tableSwitch _ _ otherwise targets | lookupSwitch otherwise _ targets => some (otherwise, targets)
  | _ => Option.none

/-- The targets of a switch are its default and the others. -/
theorem Operand.jumpTargets_of_switchTargets? {o : Operand} {otherwise : Nat} {targets : List Nat}
    (h : o.switchTargets? = some (otherwise, targets)) : o.jumpTargets = otherwise :: targets := by
  cases o with
  | tableSwitch | lookupSwitch =>
    obtain ⟨rfl, rfl⟩ := Prod.mk.inj (Option.some.inj h)
    rfl
  | _ => cases h

namespace Opcode

theorem flow_eq_raise_iff (op : Opcode) : op.flow = .raise ↔ op = .athrow := by
  cases op <;> decide

theorem flow_eq_switch_iff (op : Opcode) :
    op.flow = .switch ↔ op = .tableswitch ∨ op = .lookupswitch := by
  cases op <;> decide

end Opcode

namespace Instruction

/-- Control goes on from the instruction at an index to its successors as the opcode says: somewhere,
unless the instruction returns or throws; to the next instruction and to a target from a branch; to the
default and to all other targets from a switch. -/
structure GoesOn (i : Instruction) (index : Nat) (successors : List Nat) : Prop where
  somewhere : i.opcode.isReturn = false → i.opcode ≠ .athrow → successors ≠ []
  branch : i.opcode.isConditionalBranch →
    index + 1 ∈ successors ∧ ∃ target ∈ i.operand.jumpTargets, target ∈ successors
  switch : i.opcode = .tableswitch ∨ i.opcode = .lookupswitch → ∃ otherwise targets,
    i.operand.switchTargets? = some (otherwise, targets) ∧ otherwise ∈ successors ∧
      ∀ target ∈ targets, target ∈ successors

/-- The operand names the targets that the opcode needs: a jump and a branch at least one, a switch its
default and the others. -/
def NamesTargets (i : Instruction) : Prop :=
  (i.opcode.flow = .jump ∨ i.opcode.flow = .branch → i.operand.jumpTargets ≠ []) ∧
    (i.opcode.flow = .switch → i.operand.switchTargets?.isSome)

instance (i : Instruction) : Decidable i.NamesTargets := inferInstanceAs (Decidable (_ ∧ _))

/-- The next instruction and the targets of the operand, as far as the opcode asks for them. -/
def ways (i : Instruction) : List Nat :=
  match i.opcode.flow with
  | .leave | .raise | .unsupported => []
  | .jump | .switch => i.operand.jumpTargets
  | .next | .branch => (i.index + 1) :: i.operand.jumpTargets

/-! ## Ways on -/

/-- Control goes on by all ways that there are exactly if the operand names the targets for it. -/
theorem goesOn_ways_iff {i : Instruction} (hi : i.opcode.flow ≠ .unsupported) :
    i.GoesOn i.index i.ways ↔ i.NamesTargets := by
  constructor
  · intro h
    constructor
    · rintro (hflow | hflow)
      · -- a jump has no other way than by a target
        have hways : i.ways = i.operand.jumpTargets := by
          rw [ways, hflow]
        rw [← hways]
        refine h.somewhere (decide_eq_false ?_) fun hthrow => ?_
        · rw [hflow]
          nofun
        · rw [(Opcode.flow_eq_raise_iff _).2 hthrow] at hflow
          cases hflow
      · obtain ⟨-, target, htarget, -⟩ := h.branch (decide_eq_true hflow)
        exact List.ne_nil_of_mem htarget
    · intro hflow
      obtain ⟨otherwise, targets, htargets, -⟩ :=
        h.switch ((Opcode.flow_eq_switch_iff _).1 hflow)
      rw [htargets]
      rfl
  · rintro ⟨htarget, hswitch⟩
    refine ⟨fun hreturn hthrow => ?_, fun hbranch => ?_, fun hop => ?_⟩
    · unfold ways
      cases hflow : i.opcode.flow with
      | leave => exact absurd hflow (of_decide_eq_false hreturn)
      | raise => exact absurd ((Opcode.flow_eq_raise_iff _).1 hflow) hthrow
      | unsupported => exact absurd hflow hi
      | jump => exact htarget (.inl hflow)
      | switch =>
        obtain ⟨⟨otherwise, targets⟩, h⟩ := Option.isSome_iff_exists.1 (hswitch hflow)
        rw [Operand.jumpTargets_of_switchTargets? h]
        exact List.cons_ne_nil _ _
      | next | branch => exact List.cons_ne_nil _ _
    · have hflow : i.opcode.flow = .branch := of_decide_eq_true hbranch
      obtain ⟨target, ht⟩ := List.exists_mem_of_ne_nil _ (htarget (.inr hflow))
      rw [ways, hflow]
      exact ⟨List.mem_cons_self, target, ht, List.mem_cons_of_mem _ ht⟩
    · have hflow : i.opcode.flow = .switch := (Opcode.flow_eq_switch_iff _).2 hop
      obtain ⟨⟨otherwise, targets⟩, h⟩ := Option.isSome_iff_exists.1 (hswitch hflow)
      rw [ways, hflow]
      dsimp only
      rw [Operand.jumpTargets_of_switchTargets? h]
      exact ⟨otherwise, targets, h, List.mem_cons_self, fun t ht => List.mem_cons_of_mem _ ht⟩

end Instruction

namespace Method

/-- An instruction whose successors are known goes on by all ways that there are. -/
theorem ways_of_successors {m : Method} {i : Instruction} {successors : List Nat}
    (h : m.successors i = .ok successors) :
    i.opcode.flow ≠ .unsupported ∧ successors = i.ways := by
  have htargets : m.targets i = .ok successors := (successors_eq_ok.1 h).1
  unfold targets at htargets
  unfold Instruction.ways
  cases hflow : i.opcode.flow with
  | leave | raise | jump | switch =>
    rw [hflow] at htargets
    exact ⟨nofun, (Except.ok.inj htargets).symm⟩
  | next | branch =>
    rw [hflow] at htargets
    dsimp only at htargets
    split at htargets
    · cases htargets
    · exact ⟨nofun, (Except.ok.inj htargets).symm⟩
  | unsupported =>
    rw [hflow] at htargets
    cases htargets

end Method

namespace Analyzer

variable {V : Type} [AbstractValue V] [DecidableEq V] {A : Analyzer V} {fuel : Nat}
  {r : AnalysisResult V}

/-- Wherever a result has a frame there is an instruction, and its successors lie in the method. -/
theorem exists_successors_of_frame? (hr : (A.analyze fuel).outcome = .ok (some r)) {l : Nat}
    {f : Frame V} (hf : r.frame? l = some f) :
    ∃ i successors, A.method.instruction? l = some i ∧ A.method.successors i = .ok successors := by
  obtain ⟨-, hpassed⟩ := analyze_passed_on hr
  obtain ⟨i, shown, flows, hi, hflows, -⟩ := hpassed l f hf
  obtain ⟨_, successors, _, _, -, hs, -⟩ := parts_of_transfer hflows
  exact ⟨i, successors, hi, hs⟩

end Analyzer

namespace Class

/-- In a class that could be loaded, an instruction that the analysis of its method has passed has
successors, and control goes on to them as the opcode says exactly if the operand names the targets
for it. -/
theorem goesOn_iff_namesTargets {text : String} {c : Class} (hc : load text = .ok c) {m : Method}
    (hm : m ∈ c.methods) {fuel : Nat} {r : AnalysisResult PossibleValues}
    (hr : (m.trackValues fuel).outcome = .ok (some r)) {l : Nat} {i : Instruction}
    (hi : m.instruction? l = some i) {f : Frame PossibleValues} (hf : r.frame? l = some f) :
    ∃ successors, m.successors i = .ok successors ∧
      (i.GoesOn l successors ↔ i.NamesTargets) := by
  obtain ⟨A, hA⟩ := Method.prepare_of_trackValues hr
  rw [Method.trackValues_eq hA] at hr
  obtain rfl : A.method = m := Analyzer.method_of_prepare hA
  obtain ⟨i', successors, hi', hs⟩ := Analyzer.exists_successors_of_frame? hr hf
  obtain rfl : i = i' := Option.some.inj (hi.symm.trans hi')
  obtain ⟨hflow, rfl⟩ := Method.ways_of_successors hs
  have hindex : i.index = l := (sound_of_load hc A.method hm).indexed l i hi
  rw [← hindex]
  exact ⟨i.ways, hs, Instruction.goesOn_ways_iff hflow⟩

/-- The class with a single method. -/
def ofMethod (m : Method) : Class := ⟨m.owner, [m]⟩

/-- A class with a single method, whose instructions and handlers are in their places, is loaded from
what is written about it. -/
theorem load_ofMethod {m : Method} (hfloating : ∀ i ∈ m.instructions, ¬ i.operand.IsFloating)
    (hfits : m.Fits) (hdepth : (ofMethod m).toJson.depth ≤ Json.maxLevels)
    (hfault : m.fault? = none) : load (ofMethod m).toJson.text = .ok (ofMethod m) := by
  have hall : ∀ {P : Method → Prop}, P m → ∀ m' ∈ (ofMethod m).methods, P m' := by
    intro P hP m' hm'
    obtain rfl := List.mem_singleton.1 hm'
    exact hP
  rw [load_toJson_eq_check (hall hfloating) (hall hfits) hdepth]
  exact check_eq_ok.2 ⟨rfl, hall (Method.fault?_eq_none.1 hfault)⟩

/-- A method that chooses by its argument whether to look at it once more, and begins again unless it
is zero. -/
def chooses : Method where
  owner := "S"
  name := "chooses"
  descriptor := "(I)V"
  access := ⟨8⟩
  maxLocals := 1
  maxStack := 1
  instructions := [⟨0, .iload, .var 0⟩, ⟨1, .tableswitch, .tableSwitch 0 1 4 [2, 4]⟩,
    ⟨2, .iload, .var 0⟩, ⟨3, .ifne, .jump 0⟩, ⟨4, .returnVoid, .none⟩]
  handlers := []

/-- The switch and the branch have their targets, and control goes on to them. -/
theorem goesOn_iff_namesTargets_chooses :
    load (ofMethod chooses).toJson.text = .ok (ofMethod chooses) ∧
      ∃ r, (chooses.trackValues 10).outcome = .ok (some r) ∧
        Instruction.GoesOn ⟨1, .tableswitch, .tableSwitch 0 1 4 [2, 4]⟩ 1 [4, 2, 4] ∧
        Instruction.GoesOn ⟨3, .ifne, .jump 0⟩ 3 [4, 0] := by
  have hload : load (ofMethod chooses).toJson.text = .ok (ofMethod chooses) :=
    load_ofMethod (by decide) ⟨by decide, by decide, by decide, by decide⟩ (by decide) (by decide)
  have hmem : chooses ∈ (ofMethod chooses).methods := List.mem_singleton_self _
  obtain ⟨r, hr⟩ : ∃ r, (chooses.trackValues 10).outcome = .ok (some r) :=
    AnalysisResult.exists_of_isSome (by decide +kernel)
  -- both instructions are reached
  have hreached : (r.frame? 1).isSome ∧ (r.frame? 3).isSome := by
    have h : (chooses.trackValues 10).outcome.toOption.join.all
        (fun r => (r.frame? 1).isSome ∧ (r.frame? 3).isSome) = true := by
      decide +kernel
    rw [hr] at h
    exact of_decide_eq_true h
  obtain ⟨f, hf⟩ := Option.isSome_iff_exists.1 hreached.1
  obtain ⟨g, hg⟩ := Option.isSome_iff_exists.1 hreached.2
  refine ⟨hload, r, hr, ?_, ?_⟩
  · obtain ⟨successors, hs, hiff⟩ := goesOn_iff_namesTargets hload hmem hr
      (i := ⟨1, .tableswitch, .tableSwitch 0 1 4 [2, 4]⟩) rfl hf
    obtain rfl : [4, 2, 4] = successors := Except.ok.inj hs
    exact hiff.2 (by decide)
  · obtain ⟨successors, hs, hiff⟩ := goesOn_iff_namesTargets hload hmem hr
      (i := ⟨3, .ifne, .jump 0⟩) rfl hg
    obtain rfl : [4, 0] = successors := Except.ok.inj hs
    exact hiff.2 (by decide)

/-- A method that jumps, and does not say where to. -/
def stops : Method where
  owner := "S"
  name := "stops"
  descriptor := "()V"
  access := ⟨8⟩
  maxLocals := 0
  maxStack := 0
  instructions := [⟨0, .goto, .none⟩, ⟨1, .returnVoid, .none⟩]
  handlers := []

/-- The class is loaded and its method is analysed, but control ends at the jump, and the return behind
it is not reached. -/
theorem not_goesOn_stops :
    load (ofMethod stops).toJson.text = .ok (ofMethod stops) ∧
      ∃ r, (stops.trackValues 10).outcome = .ok (some r) ∧ (r.frame? 0).isSome ∧
        r.frame? 1 = none ∧ stops.instruction? 0 = some ⟨0, .goto, .none⟩ ∧
        stops.successors ⟨0, .goto, .none⟩ = .ok [] ∧
        ¬ Instruction.GoesOn ⟨0, .goto, .none⟩ 0 [] := by
  obtain ⟨r, hr⟩ : ∃ r, (stops.trackValues 10).outcome = .ok (some r) :=
    AnalysisResult.exists_of_isSome (by decide +kernel)
  have hframes : (r.frame? 0).isSome ∧ r.frame? 1 = none := by
    have h : (stops.trackValues 10).outcome.toOption.join.all
        (fun r => (r.frame? 0).isSome ∧ r.frame? 1 = none) = true := by
      decide +kernel
    rw [hr] at h
    exact of_decide_eq_true h
  have hload : load (ofMethod stops).toJson.text = .ok (ofMethod stops) :=
    load_ofMethod (by decide) ⟨by decide, by decide, by decide, by decide⟩ (by decide) (by decide)
  refine ⟨hload, r, hr, hframes.1, hframes.2, rfl, rfl, fun h => ?_⟩
  exact h.somewhere (by decide) (by decide) rfl

end Class

end Provenance

/-
Executing an instruction does not look at where it sends control.

The operand of a jump or a switch names targets and nothing that could be read off it when the
instruction is executed: no local, no type, no descriptor and no dimensions. So two such operands are
as good as each other. With either, the instruction succeeds with the same frame or does not succeed
(`Frame.execute_sameValue`); only the text of an error tells them apart.
-/
import Provenance.Frame.Execute
import Provenance.Interpreter.Tracking

set_option autoImplicit false

namespace Provenance

/-! ## Computations that succeed alike -/

/-- Two computations end in the same value, or neither ends in one. -/
def Traced.SameValue {κ ε α : Type} (x y : Traced κ ε α) : Prop :=
  x.outcome.toOption = y.outcome.toOption

namespace Traced.SameValue

variable {κ ε α β : Type} {x y : Traced κ ε α}

theorem refl (x : Traced κ ε α) : x.SameValue x := rfl

theorem symm (h : x.SameValue y) : y.SameValue x := Eq.symm h

theorem bind {f g : α → Traced κ ε β} (hxy : x.SameValue y)
    (h : ∀ a, (f a).SameValue (g a)) : (x >>= f).SameValue (y >>= g) := by
  have hbind : ∀ (z : Traced κ ε α) (k : α → Traced κ ε β),
      (z >>= k).outcome.toOption = z.outcome.toOption.bind fun a => (k a).outcome.toOption := by
    intro z k
    rw [bind_outcome]
    cases z.outcome <;> rfl
  unfold SameValue at hxy h ⊢
  rw [hbind, hbind, hxy]
  simp only [h]

/-- If one of them ends in a value, the other does. -/
theorem eq_ok (h : x.SameValue y) {a : α} (hx : x.outcome = .ok a) : y.outcome = .ok a := by
  unfold SameValue at h
  rw [hx] at h
  exact eq_ok_of_toOption h.symm

end Traced.SameValue

/-! ## What instructions produce -/

/-- The operand says where control goes. -/
inductive Operand.Directs : Operand → Prop
  | jump (target : Nat) : Directs (.jump target)
  | tableSwitch (low high : Int32) (otherwise : Nat) (targets : List Nat) :
    Directs (.tableSwitch low high otherwise targets)
  | lookupSwitch (otherwise : Nat) (keys : List Int32) (targets : List Nat) :
    Directs (.lookupSwitch otherwise keys targets)

section Produced

variable {index : Nat} {op : Opcode} {o o' : Operand}

/-! An operand with targets is as good as none. -/

theorem Instruction.producedFromNone_of_directs (h : o.Directs) :
    (producedFromNone ⟨index, op, o⟩).toOption
      = (producedFromNone ⟨index, op, .none⟩).toOption := by
  cases h <;> cases op <;> rfl

theorem Instruction.producedFromOne_of_directs (h : o.Directs) :
    (producedFromOne ⟨index, op, o⟩).toOption
      = (producedFromOne ⟨index, op, .none⟩).toOption := by
  cases h <;> cases op <;> rfl

theorem Instruction.producedFromTwo_of_directs (h : o.Directs) :
    (producedFromTwo ⟨index, op, o⟩).toOption
      = (producedFromTwo ⟨index, op, .none⟩).toOption := by
  cases h <;> cases op <;> rfl

theorem Instruction.producedFromThree_of_directs (h : o.Directs) :
    (producedFromThree ⟨index, op, o⟩).toOption
      = (producedFromThree ⟨index, op, .none⟩).toOption := by
  cases h <;> cases op <;> rfl

end Produced

namespace Interpreter

variable {α : Type} [Coded α] [HasBase α] (tag : Witness → α) {index : Nat} {op : Opcode}
  {o o' : Operand}

/-- What an instruction creates is told by the type it produces and its index. -/
theorem created_sameValue {call call' : Call (ValueSet α)}
    {produced : Instruction → Except AnalysisError (Option JType)}
    (hproduced : ∀ {o : Operand}, o.Directs →
      (produced ⟨index, op, o⟩).toOption = (produced ⟨index, op, .none⟩).toOption)
    (ho : o.Directs) (ho' : o'.Directs) :
    (Traced.record call ((produced ⟨index, op, o⟩).map (createdBy tag ⟨index, op, o⟩))).SameValue
      (Traced.record call'
        ((produced ⟨index, op, o'⟩).map (createdBy tag ⟨index, op, o'⟩))) := by
  have hmap : ∀ x : Except AnalysisError (Option JType),
      (x.map (createdBy tag ⟨index, op, .none⟩)).toOption
        = x.toOption.map (createdBy tag ⟨index, op, .none⟩) := by
    intro x
    cases x <;> rfl
  have hsame : (produced ⟨index, op, o⟩).toOption = (produced ⟨index, op, o'⟩).toOption :=
    (hproduced ho).trans (hproduced ho').symm
  calc ((produced ⟨index, op, o⟩).map (createdBy tag ⟨index, op, .none⟩)).toOption
      = (produced ⟨index, op, o⟩).toOption.map (createdBy tag ⟨index, op, .none⟩) := hmap _
    _ = (produced ⟨index, op, o'⟩).toOption.map (createdBy tag ⟨index, op, .none⟩) := by
        rw [hsame]
    _ = ((produced ⟨index, op, o'⟩).map (createdBy tag ⟨index, op, .none⟩)).toOption :=
        (hmap _).symm

end Interpreter

/-! ## Execution -/

namespace Frame

variable {α : Type} [Coded α] [HasBase α] {tag : Witness → α} {index : Nat} {op : Opcode}
  {o o' : Operand}

theorem shuffle_sameValue (f : Frame (ValueSet α)) (kind : Shuffle) :
    (shuffle (.tracking tag) ⟨index, op, o⟩ f kind).SameValue
      (shuffle (.tracking tag) ⟨index, op, o'⟩ f kind) := by
  have hcopy : ∀ v : ValueSet α, ((Interpreter.tracking tag).askCopy ⟨index, op, o⟩ v).SameValue
      ((Interpreter.tracking tag).askCopy ⟨index, op, o'⟩ v) := fun v => .refl _
  -- the two shuffles take the same steps, and only their copies mention the operand
  cases kind
  all_goals
    simp only [shuffle, pushCopy]
    repeat' first
      | exact hcopy _
      | refine .bind ?_ fun _ => ?_
      | split
      | exact .refl _

/-- With either operand, an instruction succeeds with the same frame or does not succeed. -/
theorem execute_sameValue (ho : o.Directs) (ho' : o'.Directs) (returnType : JType)
    (f : Frame (ValueSet α)) :
    (execute (.tracking tag) ⟨index, op, o⟩ returnType f).SameValue
      (execute (.tracking tag) ⟨index, op, o'⟩ returnType f) := by
  have hresult : ∀ (g : Frame (ValueSet α)) v,
      (Traced.quiet (g.pushResult ⟨index, op, o⟩ v) : Executed (ValueSet α) _).SameValue
        (.quiet (g.pushResult ⟨index, op, o'⟩ v)) := by
    intro g v
    cases v <;> rfl
  have hproduce : ((Interpreter.tracking tag).askProduce ⟨index, op, o⟩).SameValue
      ((Interpreter.tracking tag).askProduce ⟨index, op, o'⟩) :=
    Interpreter.created_sameValue tag Instruction.producedFromNone_of_directs ho ho'
  have hunary : ∀ v, ((Interpreter.tracking tag).askUnary ⟨index, op, o⟩ v).SameValue
      ((Interpreter.tracking tag).askUnary ⟨index, op, o'⟩ v) := fun _ =>
    Interpreter.created_sameValue tag Instruction.producedFromOne_of_directs ho ho'
  have hbinary : ∀ v w, ((Interpreter.tracking tag).askBinary ⟨index, op, o⟩ v w).SameValue
      ((Interpreter.tracking tag).askBinary ⟨index, op, o'⟩ v w) := fun _ _ =>
    Interpreter.created_sameValue tag Instruction.producedFromTwo_of_directs ho ho'
  have hternary : ∀ v w x, ((Interpreter.tracking tag).askTernary ⟨index, op, o⟩ v w x).SameValue
      ((Interpreter.tracking tag).askTernary ⟨index, op, o'⟩ v w x) := fun _ _ _ =>
    Interpreter.created_sameValue tag Instruction.producedFromThree_of_directs ho ho'
  -- nothing is read off an operand with targets
  have hvar : ∀ {o : Operand}, o.Directs → varOf ⟨index, op, o⟩
      = .error (.unsupportedInstruction ⟨index, op, o⟩) := by
    intro o ho
    cases ho <;> rfl
  have htype : ∀ {o : Operand}, o.Directs → Instruction.methodType ⟨index, op, o⟩
      = .error (.unsupportedInstruction ⟨index, op, o⟩) := by
    intro o ho
    cases ho <;> rfl
  unfold execute
  dsimp only
  cases op.effect with
  | idle => exact .refl _
  | unsupported => rfl
  | produce => exact hproduce.bind fun v => hresult f v
  | load | store | increment =>
    dsimp only
    rw [hvar ho, hvar ho']
    rfl
  | storeElement =>
    refine .bind (.refl _) fun p => .bind (.refl _) fun q => .bind (.refl _) fun r => ?_
    exact (hternary r.1 q.1 p.1).bind fun _ => .refl _
  | shuffle kind => exact shuffle_sameValue f kind
  | combine =>
    refine .bind (.refl _) fun p => .bind (.refl _) fun q => ?_
    exact (hbinary q.1 p.1).bind fun v => hresult q.2 v
  | transform =>
    refine .bind (.refl _) fun p => ?_
    exact (hunary p.1).bind fun v => hresult p.2 v
  | consume =>
    refine .bind (.refl _) fun p => ?_
    exact (hunary p.1).bind fun _ => .refl _
  | consumeTwo =>
    refine .bind (.refl _) fun p => .bind (.refl _) fun q => ?_
    exact (hbinary q.1 p.1).bind fun _ => .refl _
  | returnValue =>
    refine .bind (.refl _) fun p => (hunary p.1).bind fun _ => ?_
    split
    · rfl
    · exact .refl _
  | returnVoid =>
    dsimp only
    split
    · rfl
    · rfl
  | invoke =>
    unfold invoke
    rw [htype ho, htype ho']
    rfl
  | newArrays =>
    cases ho <;> cases ho' <;> rfl

end Frame

end Provenance

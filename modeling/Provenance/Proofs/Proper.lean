/-
Invariants of frames that executing an instruction preserves.

Two of them are needed again and again. A frame is proper if it has the size of its method and holds
proper sets only. It is clear if no wide local overlaps the value behind it, which stores see to and
increments do not disturb, for what they put back is narrow.
-/
import Provenance.Proofs.Within

set_option autoImplicit false

namespace Provenance

namespace Opcode

theorem eq_iinc_of_effect {op : Opcode} (h : op.effect = .increment) : op = .iinc := by
  cases op <;> first | rfl | cases h

end Opcode

namespace Interpreter

variable {α : Type} [Coded α] [HasBase α] {tag : Witness → α} {i : Instruction}

/-- What comes into being at an origin is proper. -/
theorem proper_single (htag : ∀ w, HasBase.base (tag w) = w) {origin : Origin} {t : JType}
    (h : t ≠ .void) : (ValueSet.single (tag ⟨origin, t⟩)).Proper := by
  refine .single ?_
  unfold ValueSet.memberWidth
  rw [htag]
  exact JType.size_of_ne_void h

theorem proper_of_createdAt (htag : ∀ w, HasBase.base (tag w) = w) {origin : Origin}
    {t : JType} {v : ValueSet α} (h : createdAt tag origin t = some v) :
    v.Proper ∧ v.width = t.size := by
  unfold createdAt at h
  split at h
  · cases h
  · rename_i ht
    obtain rfl := Option.some.inj h
    refine ⟨proper_single htag ht, ?_⟩
    show (HasBase.base (tag ⟨origin, t⟩)).width = t.size
    rw [htag]
    rfl

/-- An increment makes a narrow value. -/
theorem width_of_increment (htag : ∀ w, HasBase.base (tag w) = w)
    (he : i.opcode.effect = .increment) {v w : ValueSet α}
    (h : (tracking tag).unary i v = .ok (some w)) : w.width = 1 := by
  have hone : i.producedFromOne = .ok (some .int) := by
    unfold Instruction.producedFromOne
    rw [Opcode.eq_iinc_of_effect he]
  have hw : createdAt tag (.instruction i.index) .int = some w := by
    have h' : i.producedFromOne.map (createdBy tag i) = .ok (some w) := h
    rw [hone] at h'
    exact Except.ok.inj h'
  exact (proper_of_createdAt htag hw).2

end Interpreter

namespace Frame

variable {α : Type} [Coded α] [HasBase α] {tag : Witness → α} {i : Instruction}
  {returnType : JType} {f g : Frame (ValueSet α)}

/-! ## What holds of every value -/

omit [HasBase α] in
theorem eq_or_eq_of_afterStore {index k : Nat} {v w : ValueSet α} {old : Option (ValueSet α)}
    (h : afterStore index v k old = some w) : w = v ∨ old = some w := by
  unfold afterStore at h
  split at h
  · exact .inl (Option.some.inj h).symm
  · split at h
    · cases h
    · split at h
      · cases h
      · exact .inr h

/-- Locals of a number, with something that holds of those that are set. -/
def EachLocal (size : Nat) (P : ValueSet α → Prop) (locals : List (Option (ValueSet α))) : Prop :=
  locals.length = size ∧
    ∀ k v, (⟨locals, [], 0⟩ : Frame (ValueSet α)).local? k = some v → P v

/-- What holds of every value of a frame, and of whatever an instruction makes, holds of every value
after the instruction; the frame keeps its size. -/
theorem execute_preserves_each {P : ValueSet α → Prop}
    (hcreated : ∀ t, i.Produces t → t ≠ .void → P (.single (tag ⟨.instruction i.index, t⟩)))
    (hlocals : ∀ k v, f.local? k = some v → P v) (hstack : ∀ v ∈ f.stack, P v)
    (h : (Frame.execute (.tracking tag) i returnType f).outcome = .ok g) :
    g.locals.length = f.locals.length ∧ (∀ k v, g.local? k = some v → P v) ∧
      (∀ v ∈ g.stack, P v) ∧ g.maxStack = f.maxStack := by
  have hstore : ∀ {f' : Frame (ValueSet α)} {k v}, EachLocal f.locals.length P f'.locals →
      P v → k < f'.locals.length → EachLocal f.locals.length P (f'.stored k v).locals := by
    intro f k v hl hv hk
    refine ⟨(length_stored f k v).trans hl.1, fun j w hw => ?_⟩
    have hw' : (f.stored k v).local? j = some w := hw
    rw [local?_stored hk] at hw'
    rcases eq_or_eq_of_afterStore hw' with rfl | hold
    · exact hv
    · exact hl.2 j w hold
  have hset : ∀ {f' : Frame (ValueSet α)} {k v w}, EachLocal f.locals.length P f'.locals →
      f'.local? k = some v → P w →
      EachLocal f.locals.length P (f'.locals.set k (some w)) := by
    intro f k v w hl hk hw
    refine ⟨List.length_set.trans hl.1, fun j x hx => ?_⟩
    have hx' : { f with locals := f.locals.set k (some w) }.local? j = some x := hx
    rw [local?_set (lt_of_local? hk)] at hx'
    split at hx'
    · exact Option.some.inj hx' ▸ hw
    · exact hl.2 j x hx'
  obtain ⟨⟨hsize, hlocals'⟩, hstack', hlimit⟩ :=
    execute_preserves (P := P) (Q := EachLocal f.locals.length P) hcreated
      (fun hl hk => hl.2 _ _ hk) hstore (fun _ hl hk _ hw => hset hl hk hw) ⟨rfl, hlocals⟩
      hstack h
  exact ⟨hsize, hlocals', hstack', hlimit⟩

/-! ## Proper frames -/

/-- A frame of some size that holds proper sets only. -/
structure Proper (maxLocals maxStack : Nat) (f : Frame (ValueSet α)) : Prop where
  size : f.locals.length = maxLocals
  limit : f.maxStack = maxStack
  locals : ∀ k v, f.local? k = some v → v.Proper
  stack : ∀ v ∈ f.stack, v.Proper

/-- Setting a local of a proper frame. -/
theorem Proper.set {maxLocals maxStack : Nat} (hf : f.Proper maxLocals maxStack) {index : Nat}
    (hlt : index < maxLocals) {v : Option (ValueSet α)} (hv : ∀ w, v = some w → w.Proper) :
    ({ f with locals := f.locals.set index v } : Frame (ValueSet α)).Proper
      maxLocals maxStack where
  size := List.length_set.trans hf.size
  limit := hf.limit
  locals k w hk := by
    rw [local?_set (by rw [hf.size]; exact hlt)] at hk
    split at hk
    · exact hv w hk
    · exact hf.locals k w hk
  stack := hf.stack

/-- Executing an instruction preserves proper frames. -/
theorem Proper.execute (htag : ∀ w, HasBase.base (tag w) = w) {maxLocals maxStack : Nat}
    (hf : f.Proper maxLocals maxStack)
    (h : (Frame.execute (.tracking tag) i returnType f).outcome = .ok g) :
    g.Proper maxLocals maxStack := by
  obtain ⟨hsize, hlocals, hstack, hlimit⟩ := execute_preserves_each (P := ValueSet.Proper)
    (fun t _ ht => Interpreter.proper_single htag ht) hf.locals hf.stack h
  exact ⟨hsize.trans hf.size, hlimit.trans hf.limit, hlocals, hstack⟩

/-! ## Clear frames -/

/-- Executing an instruction preserves clear frames. -/
theorem Clear.execute (htag : ∀ w, HasBase.base (tag w) = w) (hf : f.Clear)
    (h : (Frame.execute (.tracking tag) i returnType f).outcome = .ok g) : g.Clear := by
  have hincrement : ∀ {f : Frame (ValueSet α)} {k v w}, i.opcode.effect = .increment →
      f.Clear → f.local? k = some v → (Interpreter.tracking tag).unary i v = .ok (some w) →
      { f with locals := f.locals.set k (some w) }.Clear := by
    intro f k v w he hl hk hw
    have hone : w.width = 1 := Interpreter.width_of_increment htag he hw
    refine hl.set_narrow hk ?_
    show w.width ≠ 2
    omega
  -- only the locals matter, so the stack and its limit are left open
  obtain ⟨hclear, -⟩ := execute_preserves (P := fun _ => True)
    (Q := fun l => (⟨l, [], 0⟩ : Frame (ValueSet α)).Clear)
    (fun _ _ _ => trivial) (fun _ _ => trivial)
    (fun {f k v} hl _ hk => Clear.stored (f := f) hl hk v)
    (fun {f _ _ _} he hl hk hw _ => hincrement (f := f) he hl hk hw)
    hf (fun _ _ => trivial) h
  exact hclear

end Frame

end Provenance

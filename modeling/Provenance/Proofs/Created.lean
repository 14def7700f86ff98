/-
The witnesses of a method.

What a method can create can be listed: the receiver and the arguments, what each instruction
produces, and what each handler catches (`Analyzer.witnesses`). The list is finite, and nothing else
ever gets into a frame, because executing an instruction, entering a handler and joining frames make
no members but these (`Frame.Members`).

If instructions sit at their own index, an origin tells its witness unless it is a handler
(`Analyzer.eq_or_caught_of_origin_eq`): a local is the first local of one argument at most, and an
instruction produces values of one type at most. Handlers that begin at one place must catch one type
for it to be so everywhere (`Analyzer.eq_of_origin_eq`).
-/
import Provenance.Proofs.Joins
import Provenance.Proofs.Solutions

set_option autoImplicit false

namespace Provenance

/-! ## What an instruction produces -/

namespace Instruction

/-- The type of what an instruction produces, of as many values as its effect takes. -/
def produced (i : Instruction) : Except AnalysisError (Option JType) :=
  match i.opcode.effect with
  | .produce => i.producedFromNone
  | .transform | .increment | .consume | .returnValue => i.producedFromOne
  | .combine | .consumeTwo => i.producedFromTwo
  | .storeElement => i.producedFromThree
  | .invoke | .newArrays => i.producedFromMany
  | .idle | .unsupported | .load | .store | .shuffle _ | .returnVoid => i.refuse

variable {i : Instruction} {t : JType} {result : Option JType}

/-- Whatever an instruction produces belongs to its effect. -/
theorem produced_of_producedAs {a : Arity} (h : i.producedAs a = .ok result) :
    i.produced = .ok result := by
  obtain ⟨index, opcode, operand⟩ := i
  cases a <;> cases opcode <;> first | exact h | cases h

/-- However many values it is given, an instruction produces what belongs to its effect. -/
theorem Produces.produced (h : i.Produces t) : i.produced = .ok (some t) := by
  obtain ⟨a, ha⟩ := produces_iff.1 h
  exact produced_of_producedAs ha

end Instruction

/-! ## What a method creates -/

/-- The witnesses of arguments in the locals from an index on. -/
def parameterWitnesses : List JType → Nat → List Witness
  | [], _ => []
  | t :: rest, index =>
    if t = .void then parameterWitnesses rest (index + t.size)
    else ⟨.parameter index, t⟩ :: parameterWitnesses rest (index + t.size)

/-- The witness of what an instruction produces, if it produces something. -/
def Instruction.witness? (i : Instruction) : Option Witness :=
  i.produced.toOption.join.map fun t => .atInstruction t i

/-- The witness of what a handler catches. -/
def Handler.witness (h : Handler) : Witness := ⟨.handler h.entry, h.exceptionType⟩

theorem Instruction.Produces.witness? {i : Instruction} {t : JType} (h : i.Produces t) :
    i.witness? = some ⟨.instruction i.index, t⟩ := by
  unfold Instruction.witness?
  rw [h.produced]
  rfl

/-- The witnesses that a method can create. -/
def Analyzer.witnesses {V : Type} (A : Analyzer V) : List Witness :=
  parameterWitnesses (A.entryTypes.toOption.getD []) 0
    ++ (A.method.instructions.filterMap Instruction.witness?
      ++ A.method.handlers.map Handler.witness)

section Unique

variable {types : List JType} {index : Nat} {w w' : Witness}

/-- An argument enters in a local at or behind the index. -/
theorem exists_of_mem_parameterWitnesses (h : w ∈ parameterWitnesses types index) :
    ∃ slot, w.origin = .parameter slot ∧ index ≤ slot := by
  induction types generalizing index with
  | nil => cases h
  | cons t rest ih =>
    rw [parameterWitnesses] at h
    split at h
    · obtain ⟨slot, hslot, hle⟩ := ih h
      exact ⟨slot, hslot, by omega⟩
    · rcases List.mem_cons.1 h with rfl | h
      · exact ⟨index, rfl, Nat.le_refl index⟩
      · obtain ⟨slot, hslot, hle⟩ := ih h
        exact ⟨slot, hslot, by omega⟩

/-- No two arguments begin in one local, because each takes a local at least. -/
theorem eq_of_mem_parameterWitnesses (h : w ∈ parameterWitnesses types index)
    (h' : w' ∈ parameterWitnesses types index) (ho : w.origin = w'.origin) : w = w' := by
  induction types generalizing index with
  | nil => cases h
  | cons t rest ih =>
    rw [parameterWitnesses] at h h'
    split at h
    · rename_i ht
      rw [if_pos ht] at h'
      exact ih h h'
    · rename_i ht
      rw [if_neg ht] at h'
      have hsize := JType.size_of_ne_void ht
      -- what comes behind the first argument begins behind its local
      have hbehind : ∀ {u : Witness}, u ∈ parameterWitnesses rest (index + t.size) →
          u.origin ≠ .parameter index := by
        intro u hu hu'
        obtain ⟨slot, hslot, hle⟩ := exists_of_mem_parameterWitnesses hu
        have heq : slot = index := Origin.parameter.inj (hslot.symm.trans hu')
        omega
      rcases List.mem_cons.1 h with rfl | h
      · rcases List.mem_cons.1 h' with rfl | h'
        · rfl
        · exact absurd ho.symm (hbehind h')
      · rcases List.mem_cons.1 h' with rfl | h'
        · exact absurd ho (hbehind h)
        · exact ih h h'

namespace Analyzer

variable {V : Type} {A : Analyzer V}

/-- The three ways in which a witness comes about. -/
theorem mem_witnesses : w ∈ A.witnesses ↔
    w ∈ parameterWitnesses (A.entryTypes.toOption.getD []) 0 ∨
      (∃ i ∈ A.method.instructions, i.witness? = some w) ∨
      ∃ h ∈ A.method.handlers, h.witness = w := by
  unfold witnesses
  rw [List.mem_append, List.mem_append, List.mem_filterMap, List.mem_map]

/-- In a method whose instructions sit at their own index, a witness is told by its origin, unless two
handlers begin there. -/
theorem eq_or_caught_of_origin_eq (hindexed : A.method.Indexed) (h : w ∈ A.witnesses)
    (h' : w' ∈ A.witnesses) (ho : w.origin = w'.origin) :
    w = w' ∨ ∃ c ∈ A.method.handlers, ∃ c' ∈ A.method.handlers, c.entry = c'.entry ∧
      c.witness = w ∧ c'.witness = w' := by
  have hparameter : ∀ {u : Witness},
      u ∈ parameterWitnesses (A.entryTypes.toOption.getD []) 0 →
        ∃ slot, u.origin = .parameter slot :=
    fun hu => (exists_of_mem_parameterWitnesses hu).imp fun _ hslot => hslot.1
  have hinstruction : ∀ {i : Instruction} {u : Witness}, i.witness? = some u →
      u.origin = .instruction i.index := by
    intro i u hu
    obtain ⟨t, -, rfl⟩ := Option.map_eq_some_iff.1 hu
    rfl
  rcases mem_witnesses.1 h with hw | ⟨i, hi, hw⟩ | ⟨c, hc, rfl⟩ <;>
    rcases mem_witnesses.1 h' with hw' | ⟨i', hi', hw'⟩ | ⟨c', hc', rfl⟩
  case inl.inl => exact .inl (eq_of_mem_parameterWitnesses hw hw' ho)
  case inr.inl.inr.inl =>
    -- the two instructions sit at one index, so they are one instruction
    have hindex : i.index = i'.index :=
      Origin.instruction.inj ((hinstruction hw).symm.trans (ho.trans (hinstruction hw')))
    obtain ⟨k, hk, rfl⟩ := List.getElem_of_mem hi
    obtain ⟨k', hk', rfl⟩ := List.getElem_of_mem hi'
    have hown := hindexed k _ (List.getElem?_eq_getElem hk)
    have hown' := hindexed k' _ (List.getElem?_eq_getElem hk')
    obtain rfl : k = k' := by omega
    exact .inl (Option.some.inj (hw.symm.trans hw'))
  case inr.inr.inr.inr =>
    have hentry : c.entry = c'.entry := Origin.handler.inj ho
    exact .inr ⟨c, hc, c', hc', hentry, rfl, rfl⟩
  case inl.inr.inl =>
    obtain ⟨slot, hslot⟩ := hparameter hw
    exact nomatch hslot.symm.trans (ho.trans (hinstruction hw'))
  case inl.inr.inr =>
    obtain ⟨slot, hslot⟩ := hparameter hw
    exact nomatch hslot.symm.trans ho
  case inr.inl.inl =>
    obtain ⟨slot, hslot⟩ := hparameter hw'
    exact nomatch hslot.symm.trans (ho.symm.trans (hinstruction hw))
  case inr.inl.inr.inr => exact nomatch (hinstruction hw).symm.trans ho
  case inr.inr.inl =>
    obtain ⟨slot, hslot⟩ := hparameter hw'
    exact nomatch hslot.symm.trans ho.symm
  case inr.inr.inr.inl => exact nomatch (hinstruction hw').symm.trans ho.symm

/-- If, besides, handlers catch one type where they begin at one place, it always is. -/
theorem eq_of_origin_eq (hindexed : A.method.Indexed)
    (hhandlers : ∀ h ∈ A.method.handlers, ∀ h' ∈ A.method.handlers, h.entry = h'.entry →
      h.catchType = h'.catchType)
    (h : w ∈ A.witnesses) (h' : w' ∈ A.witnesses) (ho : w.origin = w'.origin) : w = w' := by
  rcases eq_or_caught_of_origin_eq hindexed h h' ho with heq | ⟨c, hc, c', hc', hentry, rfl, rfl⟩
  · exact heq
  · have htype := hhandlers c hc c' hc' hentry
    unfold Handler.witness Handler.exceptionType
    rw [hentry, htype]

end Analyzer

end Unique

/-! ## What gets into frames -/

section Members

variable {α : Type} [Coded α]

/-- The members of a merge are the members of the two sets, also if one of them gives way. -/
theorem ValueSet.mem_merge {s t u : ValueSet α} (h : s.merge t = .ok u) {a : α} :
    a ∈ u ↔ a ∈ s ∨ a ∈ t := by
  have hnone : ∀ {v : ValueSet α}, v.isEmpty → a ∉ v := by
    intro v hv ha
    rw [isEmpty_eq_false ha] at hv
    cases hv
  unfold merge at h
  by_cases hs : s.isEmpty
  · rw [if_pos hs] at h
    obtain rfl := Except.ok.inj h
    rw [or_iff_right (hnone hs)]
  by_cases ht : t.isEmpty
  · rw [if_neg hs, if_pos ht] at h
    obtain rfl := Except.ok.inj h
    rw [or_iff_left (hnone ht)]
  rw [if_neg hs, if_neg ht] at h
  split at h
  · cases h
  · obtain rfl := Except.ok.inj h
    exact OrderedSet.mem_union

namespace Frame

/-- Something holds of all members of all values of a frame. -/
structure Members (M : α → Prop) (f : Frame (ValueSet α)) : Prop where
  locals : ∀ k v, f.local? k = some v → ∀ a ∈ v, M a
  stack : ∀ v ∈ f.stack, ∀ a ∈ v, M a

variable {M : α → Prop} {f g joined : Frame (ValueSet α)}

theorem Members.get? (hf : f.Members M) {slot : Slot} {s : ValueSet α}
    (hs : f.get? slot = some s) : ∀ a ∈ s, M a := by
  cases slot with
  | var k => exact hf.locals k s hs
  | stack height =>
    have hmem : s ∈ f.stack.reverse := List.mem_of_getElem? hs
    exact hf.stack s (List.mem_reverse.1 hmem)

theorem members_blank (maxLocals maxStack : Nat) :
    (blank maxLocals maxStack : Frame (ValueSet α)).Members M := by
  refine ⟨fun k v hk => ?_, fun v hv => nomatch hv⟩
  rw [local?_blank] at hk
  cases hk

theorem Members.setLocal (hf : f.Members M) {index : Nat} {v : Option (ValueSet α)}
    (hv : ∀ w, v = some w → ∀ a ∈ w, M a) (h : f.setLocal index v = .ok g) : g.Members M := by
  by_cases hlt : index < f.locals.length
  · rw [setLocal_of_lt hlt] at h
    obtain rfl := Except.ok.inj h
    refine ⟨fun k w hk => ?_, hf.stack⟩
    rw [local?_set hlt] at hk
    split at hk
    · exact hv w hk
    · exact hf.locals k w hk
  · rw [setLocal_of_le (by omega)] at h
    cases h

/-- The members of a handler's frame are those of the locals before and the exception. -/
theorem Members.withStack (hf : f.Members M) {v : ValueSet α} (hv : ∀ a ∈ v, M a) :
    ({ f with stack := [v] } : Frame (ValueSet α)).Members M :=
  ⟨hf.locals, fun _ hw => List.mem_singleton.1 hw ▸ hv⟩

variable [HasBase α] {tag : Witness → α}

theorem Members.join (hf : f.Members M) (hg : g.Members M)
    (h : Joined (.tracking tag) f g joined) : joined.Members M where
  locals k u hu := by
    rcases h.of_local? hu with ⟨hv, -⟩ | ⟨-, hw⟩ | ⟨v, w, hv, hw, hm⟩
    · exact hf.locals k u hv
    · exact hg.locals k u hw
    · intro a ha
      rcases (ValueSet.mem_merge hm).1 ha with ha | ha
      · exact hf.locals k v hv a ha
      · exact hg.locals k w hw a ha
  stack u hu := by
    obtain ⟨v, hv, w, hw, hm⟩ := h.exists_of_mem hu
    intro a ha
    rcases (ValueSet.mem_merge hm).1 ha with ha | ha
    · exact hf.stack v hv a ha
    · exact hg.stack w hw a ha

theorem Members.execute {i : Instruction} {returnType : JType}
    (hcreated : ∀ t, i.Produces t → t ≠ .void → M (tag ⟨.instruction i.index, t⟩))
    (hf : f.Members M) (h : (Frame.execute (.tracking tag) i returnType f).outcome = .ok g) :
    g.Members M := by
  obtain ⟨-, hlocals, hstack, -⟩ :=
    execute_preserves_each (P := fun v => ∀ a ∈ v, M a)
      (fun t ht hv a ha => OrderedSet.mem_singleton.1 ha ▸ hcreated t ht hv) hf.locals hf.stack h
  exact ⟨hlocals, hstack⟩

end Frame

namespace Analyzer

variable [HasBase α] {A : Analyzer (ValueSet α)} {tag : Witness → α} {M : α → Prop}

theorem members_of_createdAt {w : Witness} (h : M (tag w)) {v : ValueSet α}
    (hv : Interpreter.createdAt tag w.origin w.producedType = some v) : ∀ a ∈ v, M a := by
  unfold Interpreter.createdAt at hv
  split at hv
  · cases hv
  · obtain rfl := Option.some.inj hv
    intro a ha
    rw [OrderedSet.mem_singleton.1 ha]
    exact h

theorem members_of_seed (hA : A.interpreter = .tracking tag) {types : List JType} {index : Nat}
    (hM : ∀ w ∈ parameterWitnesses types index, M (tag w)) {f g : Frame (ValueSet α)}
    (hf : f.Members M) (h : A.seed types index f = .ok g) : g.Members M := by
  induction types generalizing index f with
  | nil =>
    obtain rfl := Except.ok.inj h
    exact hf
  | cons t rest ih =>
    unfold seed at h
    obtain ⟨v, hv, h⟩ := bind_eq_ok.1 h
    obtain ⟨f', hf', hrest⟩ := bind_eq_ok.1 h
    rw [hA] at hv
    obtain rfl : Interpreter.createdAt tag (.parameter index) t = v := Except.ok.inj hv
    rw [parameterWitnesses] at hM
    by_cases ht : t = .void
    · rw [if_pos ht] at hM
      refine ih hM (hf.setLocal (fun w hw => ?_) hf') hrest
      unfold Interpreter.createdAt at hw
      rw [if_pos ht] at hw
      cases hw
    · rw [if_neg ht] at hM
      refine ih (fun w hw => hM w (List.mem_cons_of_mem _ hw)) (hf.setLocal ?_ hf') hrest
      intro w hw
      exact members_of_createdAt (w := ⟨.parameter index, t⟩) (hM _ List.mem_cons_self) hw

variable (hM : ∀ w ∈ A.witnesses, M (tag w))
include hM

/-- The frame at the entry holds what the method creates. -/
theorem members_initialFrame (hA : A.interpreter = .tracking tag) {f : Frame (ValueSet α)}
    (h : A.initialFrame = .ok f) : f.Members M := by
  unfold initialFrame at h
  obtain ⟨types, htypes, h⟩ := bind_eq_ok.1 h
  refine members_of_seed hA (fun w hw => hM w (mem_witnesses.2 (.inl ?_)))
    (Frame.members_blank _ _) h
  rw [htypes]
  exact hw

/-- Executing an instruction of the method adds nothing but what the method creates. -/
theorem members_execute {l : Nat} {i : Instruction} (hi : A.method.instruction? l = some i)
    {f g : Frame (ValueSet α)} (hf : f.Members M)
    (h : (Frame.execute (.tracking tag) i A.returnType f).outcome = .ok g) : g.Members M := by
  refine hf.execute (fun t ht _ => hM _ (mem_witnesses.2 (.inr (.inl ⟨i, ?_, ht.witness?⟩)))) h
  exact List.mem_of_getElem? hi

/-- A handler of the method catches what the method creates. -/
theorem members_handler {index : Nat} {h : Handler} (hh : h ∈ A.method.handlersAt index)
    {v : ValueSet α} {f : Frame (ValueSet α)} (hf : f.Members M)
    (hv : Interpreter.createdAt tag (.handler h.entry) h.exceptionType = some v) :
    ({ f with stack := [v] } : Frame (ValueSet α)).Members M := by
  have hw : h.witness ∈ A.witnesses :=
    mem_witnesses.2 (.inr (.inr ⟨h, List.mem_of_mem_filter hh, rfl⟩))
  exact hf.withStack (members_of_createdAt (hM _ hw) hv)

theorem Edge.members (hA : A.Tracks tag) {l : Nat} {i : Instruction}
    (hi : A.method.instruction? l = some i) {f g : Frame (ValueSet α)} {target : Nat}
    (hf : f.Members M) (he : A.Edge i f target g) : g.Members M := by
  cases he with
  | normal hx _ _ =>
    rw [hA.interpreter] at hx
    exact members_execute hM hi hf hx
  | exceptional hh hv =>
    rw [hA.interpreter] at hv
    exact members_handler hM hh hf (Except.ok.inj hv)

end Analyzer

end Members

end Provenance

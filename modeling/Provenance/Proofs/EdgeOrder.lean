/-
The order of edges does not matter.

The targets of a switch and the handlers of a method stand in an order, and frames flow in that order.
So two methods that differ in nothing else are visited in different orders, and their joins come one
after the other in different ways. Yet the edges are the same: each method has the edges of the other,
because executing an instruction does not look at its targets. Frames that are closed for one method
are closed for the other (`Analyzer.Closed.rearranged`), and as results are closed and lie within all
that is closed, they are equal (`Method.frame?_eq_of_rearranged`).

It is enough that the joins of one of the runs agree in the widths of locals. The frames that this run
has found bound all that the other one sees, and frames within one bound agree.
-/
import Provenance.Proofs.Directions
import Provenance.Proofs.Stability

set_option autoImplicit false

namespace Provenance

/-! ## Rearrangements -/

/-- The targets of a switch may stand in another order, and its keys with them. -/
inductive Operand.Rearranged : Operand → Operand → Prop
  | refl (o : Operand) : Rearranged o o
  | tableSwitch {low high : Int32} {otherwise : Nat} {targets targets' : List Nat}
    (h : targets.Perm targets') :
    Rearranged (.tableSwitch low high otherwise targets) (.tableSwitch low high otherwise targets')
  | lookupSwitch {otherwise : Nat} {keys keys' : List Int32} {targets targets' : List Nat}
    (hkeys : keys.Perm keys') (h : targets.Perm targets') :
    Rearranged (.lookupSwitch otherwise keys targets) (.lookupSwitch otherwise keys' targets')

/-- Two instructions are the same but for the order of targets. -/
inductive Instruction.Rearranged : Instruction → Instruction → Prop
  | mk {index : Nat} {op : Opcode} {o o' : Operand} (h : o.Rearranged o') :
    Rearranged ⟨index, op, o⟩ ⟨index, op, o'⟩

/-- Two methods are the same but for the order of handlers, and of the targets of instructions. -/
inductive Method.Rearranged (m : Method) : Method → Prop
  | mk {instructions : List Instruction} {handlers : List Handler}
    (hi : List.Forall₂ Instruction.Rearranged m.instructions instructions)
    (hh : m.handlers.Perm handlers) : m.Rearranged { m with instructions, handlers }

theorem Operand.Rearranged.symm {o o' : Operand} (h : o.Rearranged o') : o'.Rearranged o := by
  cases h with
  | refl => exact .refl _
  | tableSwitch h => exact .tableSwitch h.symm
  | lookupSwitch hkeys h => exact .lookupSwitch hkeys.symm h.symm

theorem Instruction.Rearranged.symm {i i' : Instruction} (h : i.Rearranged i') :
    i'.Rearranged i := by
  cases h with
  | mk h => exact .mk h.symm

theorem Method.Rearranged.symm {m m' : Method} (h : m.Rearranged m') : m'.Rearranged m := by
  cases h with
  | mk hi hh => exact .mk (hi.flip.imp fun _ _ h => h.symm) hh.symm

namespace Method.Rearranged

variable {m m' : Method}

theorem size (h : m.Rearranged m') : m.size = m'.size := by
  cases h with
  | mk hi _ => exact hi.length_eq

/-- Each instruction has its counterpart. -/
theorem instruction? (h : m.Rearranged m') {l : Nat} {i : Instruction}
    (hi : m.instruction? l = some i) : ∃ i', m'.instruction? l = some i' ∧ i.Rearranged i' := by
  cases h with
  | mk hall _ =>
    obtain ⟨hl, rfl⟩ := List.getElem?_eq_some_iff.1 hi
    have hl' := hall.length_eq ▸ hl
    exact ⟨_, List.getElem?_eq_getElem hl', hall.get hl hl'⟩

/-- The targets of an instruction are the same, in another order. -/
theorem targets (h : m.Rearranged m') {i i' : Instruction} (hi : i.Rearranged i')
    {all : List Nat} (hall : m.targets i = .ok all) :
    ∃ all', m'.targets i' = .ok all' ∧ all.Perm all' := by
  cases hi with
  | @mk index op o o' ho =>
    have hjumps : o.jumpTargets.Perm o'.jumpTargets := by
      cases ho with
      | refl => exact .refl _
      | tableSwitch h => exact h.cons _
      | lookupSwitch _ h => exact h.cons _
    unfold Method.targets at hall ⊢
    rw [← h.size]
    dsimp only at hall ⊢
    cases hf : op.flow with
    | leave | raise =>
      rw [hf] at hall
      exact ⟨all, hall, .refl all⟩
    | unsupported =>
      rw [hf] at hall
      cases hall
    | jump | switch =>
      rw [hf] at hall
      obtain rfl := Except.ok.inj hall
      exact ⟨_, rfl, hjumps⟩
    | next | branch =>
      rw [hf] at hall
      dsimp only at hall ⊢
      by_cases hend : m.size ≤ index + 1
      · rw [if_pos hend] at hall
        cases hall
      · rw [if_neg hend] at hall ⊢
        obtain rfl := Except.ok.inj hall
        exact ⟨_, rfl, hjumps.cons _⟩

/-- An instruction goes on to the same successors, in another order. -/
theorem successors (h : m.Rearranged m') {i i' : Instruction} (hi : i.Rearranged i')
    {all : List Nat} (hall : m.successors i = .ok all) :
    ∃ all', m'.successors i' = .ok all' ∧ all.Perm all' := by
  obtain ⟨htargets, hlt⟩ := Method.successors_eq_ok.1 hall
  obtain ⟨all', htargets', hperm⟩ := h.targets hi htargets
  refine ⟨all', Method.successors_eq_ok.2 ⟨htargets', fun target ht => ?_⟩, hperm⟩
  rw [← h.size]
  exact hlt target (hperm.mem_iff.2 ht)

/-- The same handlers protect an instruction. -/
theorem mem_handlersAt (h : m.Rearranged m') {index : Nat} {handler : Handler} :
    handler ∈ m.handlersAt index ↔ handler ∈ m'.handlersAt index := by
  cases h with
  | mk _ hh => exact (hh.filter _).mem_iff

end Method.Rearranged

/-! ## Edges -/

namespace Analyzer

/-- Two analyzers analyse rearranged methods in the same way. -/
structure Rearranged {V : Type} (A A' : Analyzer V) : Prop where
  method : A.method.Rearranged A'.method
  interpreter : A'.interpreter = A.interpreter
  returnType : A'.returnType = A.returnType

theorem Rearranged.symm {V : Type} {A A' : Analyzer V} (h : A.Rearranged A') :
    A'.Rearranged A :=
  ⟨h.method.symm, h.interpreter.symm, h.returnType.symm⟩

section Entry

variable {V : Type} {A A' : Analyzer V}

theorem seed_congr (h : A'.interpreter = A.interpreter) (types : List JType) (index : Nat)
    (f : Frame V) : A'.seed types index f = A.seed types index f := by
  induction types generalizing index f with
  | nil => rfl
  | cons t rest ih =>
    unfold seed
    rw [h]
    simp only [ih]

/-- The frame at the entry does not depend on instructions and handlers. -/
theorem Rearranged.initialFrame (h : A.Rearranged A') : A'.initialFrame = A.initialFrame := by
  obtain ⟨m, I, T, t⟩ := A
  obtain ⟨m', I', T', t'⟩ := A'
  obtain ⟨hm, hI, -⟩ := h
  unfold Analyzer.initialFrame
  simp only [seed_congr hI]
  cases hm with
  | mk => rfl

end Entry

variable {α : Type} [Coded α] [HasBase α] {A A' : Analyzer (ValueSet α)} {tag : Witness → α}

/-- A frame flows along the same edges out of an instruction and its counterpart. -/
theorem Edge.rearranged (h : A.Rearranged A') (hA : A.Tracks tag) {i i' : Instruction}
    (hi : i.Rearranged i') {f g : Frame (ValueSet α)} {target : Nat}
    (he : A.Edge i f target g) : A'.Edge i' f target g := by
  cases he with
  | normal hx hs ht =>
    obtain ⟨all', hall', hperm⟩ := h.method.successors hi hs
    refine .normal ?_ hall' (hperm.mem_iff.1 ht)
    rw [h.interpreter, h.returnType]
    rw [hA.interpreter] at hx ⊢
    cases hi with
    | mk ho =>
      cases ho with
      | refl => exact hx
      | tableSwitch =>
        exact (Frame.execute_sameValue (.tableSwitch ..) (.tableSwitch ..) _ _).eq_ok hx
      | lookupSwitch =>
        exact (Frame.execute_sameValue (.lookupSwitch ..) (.lookupSwitch ..) _ _).eq_ok hx
  | exceptional hh hv =>
    -- handlers are looked up by the index, which the counterpart has as well
    have hindex : i'.index = i.index := by
      cases hi
      rfl
    refine .exceptional ?_ ?_
    · rw [hindex]
      exact h.method.mem_handlersAt.1 hh
    · rw [h.interpreter]
      exact hv

/-- Frames that are closed stay so under a rearrangement. -/
theorem Closed.rearranged (h : A.Rearranged A') (hA' : A'.Tracks tag)
    {frame? : Nat → Option (Frame (ValueSet α))} (hc : A.Closed frame?) : A'.Closed frame? where
  entry hm f hf := by
    rw [h.initialFrame] at hf
    exact hc.entry (h.method.size ▸ hm) f hf
  edge l i' f target g hf hi' he := by
    obtain ⟨i, hi, hii'⟩ := h.symm.method.instruction? hi'
    exact hc.edge l i f target g hf hi (he.rearranged h.symm hA' hii')

variable [DecidableEq α] {fuel fuel' : Nat} {r r' : AnalysisResult (ValueSet α)}

/-- If no join of one run met different widths, both runs find the same frames. -/
theorem Rearranged.frame?_eq (h : A.Rearranged A') (hA : A.Tracks tag) (hA' : A'.Tracks tag)
    (hr : (A.analyze fuel).outcome = .ok (some r))
    (hr' : (A'.analyze fuel').outcome = .ok (some r'))
    (hw : ∀ e ∈ (A.analyze fuel).trace, e.WidthsAgree) (l : Nat) :
    r.frame? l = r'.frame? l := by
  have hc : A'.Closed r.frame? := (closed_of_widthsAgree hA hr hw).rearranged h hA'
  -- what bounds the second run has its widths agree, so its result is closed as well
  have hw' : ∀ e ∈ (A'.analyze fuel').trace, e.WidthsAgree := widthsAgree_of_closed hA' hr' hc
  have hc' : A.Closed r'.frame? := (closed_of_widthsAgree hA' hr' hw').rearranged h.symm hA
  obtain ⟨hbelow, -⟩ := least hA hr hc'
  obtain ⟨hbelow', -⟩ := least hA' hr' hc
  cases hf : r.frame? l with
  | none =>
    cases hf' : r'.frame? l with
    | none => rfl
    | some g =>
      obtain ⟨f, hf'', -⟩ := hbelow' l g hf'
      rw [hf] at hf''
      cases hf''
  | some f =>
    obtain ⟨g, hg, hfg⟩ := hbelow l f hf
    obtain ⟨f', hf', hgf⟩ := hbelow' l g hg
    obtain rfl := Option.some.inj (hf.symm.trans hf')
    rw [hg, hfg.antisymm hgf]

end Analyzer

namespace Method

/-- Tracking the values of methods that differ in the order of edges alone finds the same frames, if
no join of one of the runs meets a local that is set on both sides with different widths. -/
theorem frame?_eq_of_rearranged {m m' : Method} (h : m.Rearranged m') {fuel fuel' : Nat}
    {r r' : AnalysisResult PossibleValues} (hr : (m.trackValues fuel).outcome = .ok (some r))
    (hr' : (m'.trackValues fuel').outcome = .ok (some r'))
    (hw : ∀ e ∈ (m.trackValues fuel).trace, e.WidthsAgree) (l : Nat) :
    r.frame? l = r'.frame? l := by
  obtain ⟨A, hA⟩ := prepare_of_trackValues hr
  obtain ⟨A', hA'⟩ := prepare_of_trackValues hr'
  have hT : A.Tracks id := Analyzer.tracks_possibleValues hA
  have hT' : A'.Tracks id := Analyzer.tracks_possibleValues hA'
  rw [trackValues_eq hA] at hr hw
  rw [trackValues_eq hA'] at hr'
  obtain ⟨t, ht, rfl⟩ := Analyzer.prepare_eq_ok.1 hA
  obtain ⟨t', ht', rfl⟩ := Analyzer.prepare_eq_ok.1 hA'
  have hreturn : t' = t := by
    cases h with
    | mk => exact Except.ok.inj (ht'.symm.trans ht)
  have hAA' : Analyzer.Rearranged ⟨m, .possibleValues, .identity, t⟩
      ⟨m', .possibleValues, .identity, t'⟩ := ⟨h, rfl, hreturn⟩
  exact hAA'.frame?_eq hT hT' hr hr' hw l

/-- Sets its argument anew in two of three cases; what is caught in one of them leads back to the
choice. -/
def setsAnew : Method where
  owner := "Sample"
  name := "setsAnew"
  descriptor := "(I)V"
  access := ⟨8⟩
  maxLocals := 1
  maxStack := 1
  instructions := [⟨0, .iload, .var 0⟩, ⟨1, .tableswitch, .tableSwitch 0 1 6 [2, 4]⟩,
    ⟨2, .iconst0, .none⟩, ⟨3, .istore, .var 0⟩, ⟨4, .iconst1, .none⟩, ⟨5, .istore, .var 0⟩,
    ⟨6, .returnVoid, .none⟩, ⟨7, .pop, .none⟩, ⟨8, .goto, .jump 0⟩, ⟨9, .pop, .none⟩,
    ⟨10, .returnVoid, .none⟩]
  handlers := [⟨2, 4, 7, none⟩, ⟨3, 6, 9, none⟩]

/-- The same with the second target before the first, and so with the handlers. -/
def setsAnewRearranged : Method :=
  { setsAnew with
    instructions := ⟨0, .iload, .var 0⟩ :: ⟨1, .tableswitch, .tableSwitch 0 1 6 [4, 2]⟩ ::
      setsAnew.instructions.drop 2
    handlers := [⟨3, 6, 9, none⟩, ⟨2, 4, 7, none⟩] }

theorem frame?_eq_of_rearranged_setsAnew :
    ∃ r r', (setsAnew.trackValues 40).outcome = .ok (some r) ∧
      (setsAnewRearranged.trackValues 40).outcome = .ok (some r') ∧
      (∀ e ∈ (setsAnew.trackValues 40).trace, e.WidthsAgree) ∧
      setsAnew.Rearranged setsAnewRearranged ∧ ∀ l, r.frame? l = r'.frame? l := by
  obtain ⟨r, hr⟩ : ∃ r, (setsAnew.trackValues 40).outcome = .ok (some r) :=
    AnalysisResult.exists_of_isSome (by decide +kernel)
  obtain ⟨r', hr'⟩ : ∃ r, (setsAnewRearranged.trackValues 40).outcome = .ok (some r) :=
    AnalysisResult.exists_of_isSome (by decide +kernel)
  have hw : ∀ e ∈ (setsAnew.trackValues 40).trace, e.WidthsAgree := by decide +kernel
  have hrest : List.Forall₂ Instruction.Rearranged (setsAnew.instructions.drop 2)
      (setsAnew.instructions.drop 2) := List.forall₂_same.2 fun _ _ => .mk (.refl _)
  have hhandlers : setsAnew.handlers.Perm setsAnewRearranged.handlers :=
    List.Perm.swap (⟨3, 6, 9, none⟩ : Handler) ⟨2, 4, 7, none⟩ []
  have h : setsAnew.Rearranged setsAnewRearranged :=
    .mk (.cons (.mk (.refl _)) (.cons (.mk (.tableSwitch (.swap 4 2 []))) hrest)) hhandlers
  exact ⟨r, r', hr, hr', hw, h, fun l => frame?_eq_of_rearranged h hr hr' hw l⟩

end Method

end Provenance

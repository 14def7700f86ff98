/-
Executing one instruction with interpreters that track witnesses.

Such an interpreter is blind: it looks at no value, makes a new one from the instruction alone, and
hands on what moves between slots. So two of them respect a simulation as soon as the values they make
at an instruction are related (`Interpreter.blind_respected`), and what is left to show is what the
simulation says of the locals.
-/
import Provenance.Interpreter.Tracking
import Provenance.Proofs.Locals

set_option autoImplicit false

namespace Provenance

/-- How many values an instruction is given. -/
inductive Arity where
  | zero | one | two | three
  /-- As many as the operand says. -/
  | many
deriving DecidableEq

/-- What an instruction produces from so many values. -/
def Instruction.producedAs (i : Instruction) : Arity → Except AnalysisError (Option JType)
  | .zero => i.producedFromNone
  | .one => i.producedFromOne
  | .two => i.producedFromTwo
  | .three => i.producedFromThree
  | .many => i.producedFromMany

/-- The instruction produces a value of a type, of however many values it is given. -/
def Instruction.Produces (i : Instruction) (t : JType) : Prop :=
  ∃ result ∈ [i.producedFromNone, i.producedFromOne, i.producedFromTwo, i.producedFromThree,
    i.producedFromMany], result = .ok (some t)

theorem Instruction.produces_iff {i : Instruction} {t : JType} :
    i.Produces t ↔ ∃ a, i.producedAs a = .ok (some t) := by
  unfold Produces
  simp only [List.mem_cons, List.not_mem_nil, or_false]
  constructor
  · rintro ⟨_, h | h | h | h | h, ht⟩
    · exact ⟨.zero, h.symm.trans ht⟩
    · exact ⟨.one, h.symm.trans ht⟩
    · exact ⟨.two, h.symm.trans ht⟩
    · exact ⟨.three, h.symm.trans ht⟩
    · exact ⟨.many, h.symm.trans ht⟩
  · rintro ⟨a, ha⟩
    refine ⟨_, ?_, ha⟩
    cases a <;> simp [producedAs]

/-! ## Simulations that compare locals one by one -/

/-- Values are related wherever both frames have one; in a gap the local of the first frame is unset
where that of the second is not, and then a load may fail. -/
def Simulation.pointwise {V W : Type} (gaps : Nat → Prop) (values : V → W → Prop) (limit : Nat) :
    Simulation V W where
  values := values
  locals l l' := l.length = l'.length ∧ ∀ k : Nat, Local (gaps k) values (l[k]?.join) (l'[k]?.join)
  floor := []
  limit := limit
  tolerated e := ∃ k, gaps k ∧ e = .uninitializedLocal k

theorem Simulation.pointwise_frames {V W : Type} {gaps : Nat → Prop} {values : V → W → Prop}
    {limit : Nat} {f : Frame V} {g : Frame W} :
    (pointwise gaps values limit).Frames f g ↔
      Locals gaps values f g ∧ List.Forall₂ values f.stack g.stack ∧
        f.maxStack = limit ∧ g.maxStack = limit := by
  rw [frames_iff rfl]
  refine and_congr ⟨fun ⟨hlen, heach⟩ => ⟨hlen, heach⟩, fun ⟨hlen, heach⟩ => ⟨hlen, heach⟩⟩ ?_
  rfl

namespace Interpreter

open Simulation

variable {α β : Type} [Coded α] [HasBase α] [Coded β] [HasBase β]
  {tag : Witness → α} {tag' : Witness → β} {i : Instruction}

/-! ## What trackers answer -/

/-- What trackers make of one type is related, if there is anything to make. -/
theorem createdBy_related {values : ValueSet α → ValueSet β → Prop} {t : Option JType}
    (h : ∀ u, t = some u → u ≠ .void → values (.single (tag ⟨.instruction i.index, u⟩))
      (.single (tag' ⟨.instruction i.index, u⟩))) :
    Option.Rel values (createdBy tag i t) (createdBy tag' i t) := by
  cases t with
  | none => exact .none
  | some u =>
    show Option.Rel values (createdAt tag _ u) (createdAt tag' _ u)
    unfold createdAt
    split
    · exact .none
    · rename_i hu
      exact .some (h u rfl hu)

/-! ## Interpreters that look at no value -/

/-- At an instruction the interpreter makes a value of what the instruction produces, whatever it is
given, and what moves between slots stays as it is. -/
structure Blind {V : Type} (I : Interpreter V) (i : Instruction) (make : Option JType → Option V) :
    Prop where
  produce : I.produce i = i.producedFromNone.map make
  copy : ∀ v, I.copy i v = .ok v
  unary : ∀ v, I.unary i v = i.producedFromOne.map make
  binary : ∀ v w, I.binary i v w = i.producedFromTwo.map make
  ternary : ∀ v w x, I.ternary i v w x = i.producedFromThree.map make
  nary : ∀ vs, I.nary i vs = i.producedFromMany.map make
  returned : ∀ v t, I.returned i v t = .ok ()

theorem tracking_blind (tag : Witness → α) (i : Instruction) :
    (tracking tag).Blind i (createdBy tag i) :=
  ⟨rfl, fun _ => rfl, fun _ => rfl, fun _ _ => rfl, fun _ _ _ => rfl, fun _ => rfl, fun _ _ => rfl⟩

section Blind

variable {V W : Type} {I : Interpreter V} {J : Interpreter W} {make : Option JType → Option V}
  {make' : Option JType → Option W}

/-- Blind interpreters answer a question for a new value alike. -/
theorem made_answers {S : Simulation V W}
    (h : ∀ result, (∀ t, result = some t → i.Produces t) →
      Option.Rel S.values (make result) (make' result)) (a : Arity) :
    S.Answers (Option.Rel S.values) ((i.producedAs a).map make) ((i.producedAs a).map make') := by
  cases hresult : i.producedAs a with
  | error e => exact .throw e
  | ok result =>
    refine .pure (h result fun t ht => Instruction.produces_iff.2 ⟨a, ?_⟩)
    rw [hresult, ht]

variable [AbstractValue V] [AbstractValue W]

/-- Two blind interpreters respect a simulation that relates what they make and allows for what is
done to locals. -/
theorem blind_respected {S : Simulation V W} (hI : I.Blind i make) (hJ : J.Blind i make')
    (hwidth : ∀ {v w}, S.values v w → AbstractValue.width v = AbstractValue.width w)
    (hfloor : S.floor = [])
    (hmade : ∀ result, (∀ t, result = some t → i.Produces t) →
      Option.Rel S.values (make result) (make' result))
    (hload : ∀ {f g} (index), S.Frames f g → S.Answers S.values (f.load index) (g.load index))
    (hstore : ∀ {f g v w} (index), S.Frames f g → S.values v w →
      S.Answers S.Frames (f.store index v) (g.store index w))
    (hincrement : ∀ {f g v w w'} (index), i.opcode.effect = .increment → S.Frames f g →
      f.load index = .ok v → I.unary i v = .ok (some w) → S.values w w' →
      S.Answers S.Frames (f.setLocal index (some w)) (g.setLocal index (some w'))) :
    S.Respected I J i where
  width := hwidth
  floor := .inl hfloor
  produce := by
    rw [hI.produce, hJ.produce]
    exact made_answers hmade .zero
  copy hv := by
    rw [hI.copy, hJ.copy]
    exact .pure hv
  unary _ := by
    rw [hI.unary, hJ.unary]
    exact made_answers hmade .one
  binary _ _ := by
    rw [hI.binary, hJ.binary]
    exact made_answers hmade .two
  ternary _ _ _ := by
    rw [hI.ternary, hJ.ternary]
    exact made_answers hmade .three
  nary _ := by
    rw [hI.nary, hJ.nary]
    exact made_answers hmade .many
  returned _ _ := by
    rw [hI.returned, hJ.returned]
    exact .pure trivial
  load := hload
  store := hstore
  increment := hincrement

/-- Two blind interpreters respect a comparison of locals one by one. -/
theorem blind_respected_pointwise {gaps : Nat → Prop} {values : V → W → Prop} {limit : Nat}
    (hI : I.Blind i make) (hJ : J.Blind i make')
    (hwidth : ∀ v w, values v w → AbstractValue.width v = AbstractValue.width w)
    (hmade : ∀ result, (∀ t, result = some t → i.Produces t) →
      Option.Rel values (make result) (make' result)) :
    (pointwise gaps values limit).Respected I J i := by
  refine blind_respected hI hJ (fun h => hwidth _ _ h) rfl hmade ?_ ?_ ?_
  · intro f g index hf
    obtain ⟨hl, -, -, -⟩ := pointwise_frames.1 hf
    exact hl.load (fun k hk => ⟨k, hk, rfl⟩) index
  · intro f g v w index hf hv
    obtain ⟨hl, hstack, hm, hm'⟩ := pointwise_frames.1 hf
    refine (hl.store hwidth hv index).mono ?_
    rintro f' g' ⟨rfl, rfl, -, hl'⟩
    exact pointwise_frames.2 ⟨hl', hstack, hm, hm'⟩
  · intro f g v w w' index _ hf hload _ hw
    obtain ⟨hl, hstack, hm, hm'⟩ := pointwise_frames.1 hf
    have hlen := hl.length
    have hlt : index < f.locals.length := Frame.lt_of_load hload
    rw [Frame.setLocal_of_lt hlt, Frame.setLocal_of_lt (by omega)]
    exact .pure (pointwise_frames.2 ⟨hl.set hlt (.set hw), hstack, hm, hm'⟩)

end Blind

/-! ## Trackers -/

/-- Two trackers respect a simulation that relates what they make and allows for what is done to
locals. -/
theorem tracking_respected {S : Simulation (ValueSet α) (ValueSet β)}
    (hwidth : ∀ {v w}, S.values v w → v.width = w.width) (hfloor : S.floor = [])
    (hcreated : ∀ t, i.Produces t → t ≠ .void →
      S.values (.single (tag ⟨.instruction i.index, t⟩))
        (.single (tag' ⟨.instruction i.index, t⟩)))
    (hload : ∀ {f g} (index), S.Frames f g → S.Answers S.values (f.load index) (g.load index))
    (hstore : ∀ {f g v w} (index), S.Frames f g → S.values v w →
      S.Answers S.Frames (f.store index v) (g.store index w))
    (hincrement : ∀ {f g v w w'} (index), i.opcode.effect = .increment → S.Frames f g →
      f.load index = .ok v → (tracking tag).unary i v = .ok (some w) → S.values w w' →
      S.Answers S.Frames (f.setLocal index (some w)) (g.setLocal index (some w'))) :
    S.Respected (tracking tag) (tracking tag') i :=
  blind_respected (tracking_blind tag i) (tracking_blind tag' i) hwidth hfloor
    (fun _ hr => createdBy_related fun u hu => hcreated u (hr u hu)) hload hstore hincrement

/-- Two trackers respect a comparison of locals one by one. -/
theorem tracking_respected_pointwise {gaps : Nat → Prop} {values : ValueSet α → ValueSet β → Prop}
    {limit : Nat} (hwidth : ∀ v w, values v w → v.width = w.width)
    (hcreated : ∀ t, i.Produces t → t ≠ .void →
      values (.single (tag ⟨.instruction i.index, t⟩))
        (.single (tag' ⟨.instruction i.index, t⟩))) :
    (pointwise gaps values limit).Respected (tracking tag) (tracking tag') i :=
  blind_respected_pointwise (tracking_blind tag i) (tracking_blind tag' i) hwidth
    fun _ hr => createdBy_related fun u hu => hcreated u (hr u hu)

end Interpreter

/-! ## What one instruction preserves -/

/-- The comparison of a frame with itself. Its values satisfy one predicate and its locals
another. -/
def Simulation.invariant {V : Type} (P : V → Prop) (Q : List (Option V) → Prop) (limit : Nat) :
    Simulation V V where
  values v w := v = w ∧ P v
  locals l l' := l = l' ∧ Q l
  floor := []
  limit := limit
  tolerated _ := False

theorem Simulation.invariant_frames {V : Type} {P : V → Prop} {Q : List (Option V) → Prop}
    {limit : Nat} {f g : Frame V} :
    (invariant P Q limit).Frames f g ↔
      f = g ∧ Q f.locals ∧ (∀ v ∈ f.stack, P v) ∧ f.maxStack = limit := by
  rw [frames_iff rfl]
  constructor
  · rintro ⟨⟨hl, hQ⟩, hstack, hf, hg⟩
    have heq : f.stack = g.stack := List.forall₂_eq_eq_eq ▸ hstack.imp fun _ _ h => h.1
    refine ⟨?_, hQ, ?_, hf⟩
    · cases f
      cases g
      subst hl heq
      exact congrArg (Frame.mk _ _) (hf.trans hg.symm)
    · intro v hv
      obtain ⟨k, hk, rfl⟩ := List.getElem_of_mem hv
      exact ((List.forall₂_iff_get.1 hstack).2 k hk (heq ▸ hk)).2
  · rintro ⟨rfl, hQ, hP, hf⟩
    exact ⟨⟨rfl, hQ⟩, List.forall₂_same.2 fun v hv => ⟨rfl, hP v hv⟩, hf, hf⟩

namespace Frame

variable {α : Type} [Coded α] [HasBase α] {tag : Witness → α} {i : Instruction}

/-- What one instruction preserves: a predicate of values that holds of whatever the instruction
makes, and one of locals that goes through stores and increments. -/
theorem execute_preserves {P : ValueSet α → Prop} {Q : List (Option (ValueSet α)) → Prop}
    (hcreated : ∀ t, i.Produces t → t ≠ .void → P (.single (tag ⟨.instruction i.index, t⟩)))
    (hload : ∀ {f : Frame (ValueSet α)} {k v}, Q f.locals → f.local? k = some v → P v)
    (hstore : ∀ {f : Frame (ValueSet α)} {k v}, Q f.locals → P v → k < f.locals.length →
      Q (f.stored k v).locals)
    (hincrement : ∀ {f : Frame (ValueSet α)} {k v w}, i.opcode.effect = .increment →
      Q f.locals → f.local? k = some v → (Interpreter.tracking tag).unary i v = .ok (some w) →
      P w → Q (f.locals.set k (some w)))
    {returnType : JType} {f g : Frame (ValueSet α)} (hf : Q f.locals) (hs : ∀ v ∈ f.stack, P v)
    (h : (execute (Interpreter.tracking tag) i returnType f).outcome = .ok g) :
    Q g.locals ∧ (∀ v ∈ g.stack, P v) ∧ g.maxStack = f.maxStack := by
  -- the frame is compared with itself, so both sides answer alike
  have hS : (Simulation.invariant P Q f.maxStack).Respected (Interpreter.tracking tag)
      (Interpreter.tracking tag) i := by
    refine Interpreter.tracking_respected (fun h => congrArg _ h.1) rfl
      (fun t ht hv => ⟨rfl, hcreated t ht hv⟩) ?_ ?_ ?_
    · intro f g k hfg
      obtain ⟨rfl, hQ, -, -⟩ := Simulation.invariant_frames.1 hfg
      cases hv : f.load k with
      | error e => exact .throw e
      | ok v => exact .pure ⟨rfl, hload hQ (load_eq_ok.1 hv)⟩
    · intro f g v w k hfg hvw
      obtain ⟨rfl, hQ, hP, hm⟩ := Simulation.invariant_frames.1 hfg
      obtain ⟨rfl, hv⟩ := hvw
      rw [store_eq]
      split
      · exact .throw _
      · split
        · exact .throw _
        · exact .pure (Simulation.invariant_frames.2
            ⟨rfl, hstore hQ hv (by omega), hP, hm⟩)
    · intro f g v w w' k he hfg hk hw hvw
      obtain ⟨rfl, hQ, hP, hm⟩ := Simulation.invariant_frames.1 hfg
      obtain ⟨rfl, hPw⟩ := hvw
      rw [setLocal_of_lt (lt_of_load hk)]
      exact .pure (Simulation.invariant_frames.2
        ⟨rfl, hincrement he hQ (load_eq_ok.1 hk) hw hPw, hP, hm⟩)
  obtain ⟨g', hg', hfr, -⟩ := (hS.execute (Simulation.invariant_frames.2 ⟨rfl, hf, hs, rfl⟩)
    returnType).of_left h
  obtain ⟨-, hQ, hP, hm⟩ := Simulation.invariant_frames.1 hfr
  exact ⟨hQ, hP, hm⟩

end Frame

end Provenance

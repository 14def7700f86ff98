/-
What instructions take from the stack and put back.

Two tables speak of every opcode. One says how it is executed, the other what it produces from no
value, from one, two or three, or from as many as its operand says. The number of values from which
an instruction produces something, or nothing, is its arity. It has one at most, which is the one
that its effect asks for (`Instruction.arity?_of_producedAs`).

So what a tracker makes of a frame can be told without looking at how instructions are executed. An
instruction with an arity takes so many values from the top of the stack and puts back the witness
of what it produces, if it produces anything (`Instruction.exchanges_execute`). Only an increment
works on a local instead. The instructions without an arity do nothing, move values about, jump or
return without a value, or else they are executed on no frame at all
(`Instruction.execute_follows_produced`).
-/
import Provenance.Proofs.Grammar
import Provenance.Proofs.Locals
import Provenance.Proofs.Proper

set_option autoImplicit false

namespace Provenance

/-! ## Computations that exchange entries of the stack -/

namespace Frame

variable {V : Type}

/-- A frame goes on with entries taken from the top of its stack and perhaps a value put in their
place. -/
structure Exchanged (f : Frame V) (count : Nat) (made : Option V) (g : Frame V) : Prop where
  enough : count ≤ f.stack.length
  /-- What is made has room, once the others are gone. -/
  room : made.isSome → f.stack.length - count < f.maxStack
  result : g = { f with stack := made.toList ++ f.stack.drop count }

/-- A computation takes so many entries from the top of the stack of a frame and puts back what an
answer makes; it fails if there are not so many entries, no room or no answer. -/
def Exchanges (x : Executed V (Frame V)) (f : Frame V) (count : Nat)
    (answer : Except AnalysisError (Option V)) : Prop :=
  ∀ g, x.outcome = .ok g ↔ ∃ made, answer = .ok made ∧ f.Exchanged count made g

namespace Exchanges

variable {f : Frame V} {count : Nat} {answer : Except AnalysisError (Option V)}

/-- Nothing is taken and nothing is made. -/
theorem pure (f : Frame V) : Exchanges (pure f) f 0 (.ok none) := by
  intro g
  constructor
  · intro h
    obtain rfl := Except.ok.inj h
    exact ⟨none, rfl, Nat.zero_le _, nofun, rfl⟩
  · rintro ⟨made, hmade, -, -, rfl⟩
    obtain rfl := Except.ok.inj hmade
    rfl

/-- Nothing comes of it and there is no answer. -/
theorem fail {x : Executed V (Frame V)} {e : AnalysisError} (hx : x.outcome = .error e)
    (h : ∀ made, answer ≠ .ok made) : Exchanges x f count answer := by
  intro g
  rw [hx]
  exact ⟨nofun, fun ⟨made, hmade, _⟩ => absurd hmade (h made)⟩

/-- Nothing is taken, and a value is pushed. -/
theorem push (f : Frame V) (i : Instruction) (v : V) :
    Exchanges (f.pushResult i (some v)) f 0 (.ok (some v)) := by
  have hpush : (f.pushResult i (some v) : Executed V (Frame V)).outcome = f.push v := rfl
  intro g
  rw [hpush]
  unfold Frame.push
  constructor
  · intro h
    split at h
    · rename_i hroom
      obtain rfl := Except.ok.inj h
      exact ⟨some v, rfl, Nat.zero_le _, fun _ => hroom, rfl⟩
    · cases h
  · rintro ⟨made, hmade, -, hroom, rfl⟩
    obtain rfl := Except.ok.inj hmade
    have hlt : f.stack.length < f.maxStack := hroom rfl
    rw [if_pos hlt]
    rfl

/-- The answer comes from the interpreter. -/
theorem ask {call : Call V} {k : Option V → Executed V (Frame V)}
    (h : ∀ made, answer = .ok made → Exchanges (k made) f count (.ok made)) :
    Exchanges (Traced.record call answer >>= k) f count answer := by
  intro g
  rw [Traced.bind_outcome_eq_ok]
  constructor
  · rintro ⟨made, hmade, hg⟩
    obtain ⟨made', he, hx⟩ := (h made hmade g).1 hg
    obtain rfl := Except.ok.inj he
    exact ⟨made, hmade, hx⟩
  · rintro ⟨made, hmade, hx⟩
    exact ⟨made, hmade, (h made hmade g).2 ⟨made, rfl, hx⟩⟩

/-- One entry is taken first. -/
theorem pop {k : V × Frame V → Executed V (Frame V)}
    (h : ∀ v s, Exchanges (k (v, { f with stack := s })) { f with stack := s } count answer) :
    Exchanges ((f.pop : Executed V _) >>= k) f (count + 1) answer := by
  intro g
  rw [Traced.bind_outcome_eq_ok]
  show (∃ p, f.pop = .ok p ∧ _) ↔ _
  unfold Frame.pop
  constructor
  · rintro ⟨p, hp, hg⟩
    split at hp
    · cases hp
    · -- the entry taken here is one more for the height and for what is dropped
      rename_i v s hs
      obtain rfl := Except.ok.inj hp
      obtain ⟨made, hmade, henough, hroom, rfl⟩ := (h v s g).1 hg
      refine ⟨made, hmade, ?_, ?_, ?_⟩
      · rw [hs]
        exact Nat.succ_le_succ henough
      · rw [hs, List.length_cons, Nat.add_sub_add_right]
        exact hroom
      · rw [hs]
        rfl
  · rintro ⟨made, hmade, henough, hroom, rfl⟩
    cases hs : f.stack with
    | nil =>
      rw [hs] at henough
      cases henough
    | cons v s =>
      rw [hs, List.length_cons] at henough hroom
      rw [Nat.add_sub_add_right] at hroom
      exact ⟨_, rfl, (h v s _).2 ⟨made, hmade, Nat.le_of_succ_le_succ henough, hroom, rfl⟩⟩

/-- All entries are taken at once. -/
theorem popMany {k : List V × Frame V → Executed V (Frame V)}
    (h : ∀ vs s, Exchanges (k (vs, { f with stack := s })) { f with stack := s } 0 answer) :
    Exchanges ((f.popMany count : Executed V _) >>= k) f count answer := by
  intro g
  rw [Traced.bind_outcome_eq_ok]
  show (∃ p, f.popMany count = .ok p ∧ _) ↔ _
  unfold Frame.popMany
  constructor
  · rintro ⟨p, hp, hg⟩
    split at hp
    · rename_i henough
      obtain rfl := Except.ok.inj hp
      obtain ⟨made, hmade, -, hroom, rfl⟩ := (h _ _ g).1 hg
      refine ⟨made, hmade, henough, fun hsome => ?_, rfl⟩
      have hroom' := hroom hsome
      rwa [List.length_drop] at hroom'
    · cases hp
  · rintro ⟨made, hmade, henough, hroom, rfl⟩
    rw [if_pos henough]
    refine ⟨_, rfl, (h _ _ _).2 ⟨made, hmade, Nat.zero_le _, fun hsome => ?_, rfl⟩⟩
    show (f.stack.drop count).length - 0 < f.maxStack
    rw [List.length_drop]
    exact hroom hsome

end Exchanges

end Frame

/-! ## Arities -/

/-- The arity at which an instruction with this effect is asked what it produces. -/
def Effect.arity? : Effect → Option Arity
  | .produce => some .zero
  | .transform | .increment | .consume | .returnValue => some .one
  | .combine | .consumeTwo => some .two
  | .storeElement => some .three
  | .invoke | .newArrays => some .many
  | .idle | .unsupported | .load | .store | .shuffle _ | .returnVoid => none

/-- What an instruction with this effect may produce: a value, nothing, or either if it is an
invocation. -/
def Effect.Yields (effect : Effect) (result : Option JType) : Prop :=
  match effect with
  | .produce | .transform | .increment | .combine | .newArrays =>
    ∃ t, result = some t ∧ t ≠ .void
  | .consume | .consumeTwo | .storeElement | .returnValue => result = none
  | .invoke => ∀ t, result = some t → t ≠ .void
  | .idle | .unsupported | .load | .store | .shuffle _ | .returnVoid => False

theorem Effect.Yields.ne_void {effect : Effect} {result : Option JType} (h : effect.Yields result)
    {t : JType} (ht : result = some t) : t ≠ .void := by
  cases effect with
  | produce | transform | increment | combine | newArrays =>
    obtain ⟨u, hu, hvoid⟩ := h
    exact Option.some.inj (ht.symm.trans hu) ▸ hvoid
  | consume | consumeTwo | storeElement | returnValue => cases ht.symm.trans h
  | invoke => exact h t ht
  | idle | unsupported | load | store | shuffle | returnVoid => exact h.elim

/-- The dimensions of nested arrays. -/
def Operand.dimensions : Operand → Nat
  | newArrays _ dimensions => dimensions.toNat
  | _ => 0

namespace Opcode

/-- The instructions that return a value. -/
def valueReturns : List Opcode := [.ireturn, .lreturn, .freturn, .dreturn, .areturn]

/-- The instructions that produce nothing and are not asked to: they leave the frame alone or move
values about. -/
def movers : List Opcode :=
  [.nop, .goto, .returnVoid, .iload, .lload, .fload, .dload, .aload, .istore, .lstore, .fstore,
   .dstore, .astore, .pop, .pop2, .dup, .dupX1, .dupX2, .dup2, .dup2X1, .dup2X2, .swap]

theorem mem_valueReturns {op : Opcode} : op ∈ valueReturns ↔ op.effect = .returnValue := by
  cases op <;> decide

theorem eq_multianewarray {op : Opcode} (h : op.effect = .newArrays) : op = .multianewarray := by
  cases op <;> first | rfl | cases h

theorem mem_movers_of_arity? {op : Opcode} (h : op.effect.arity? = none) :
    op ∈ movers ∨ op.effect = .unsupported := by
  cases op <;> first | decide | cases h

end Opcode

/-! ## What instructions produce is no void -/

theorem JType.IsDescriptor.ne_void {t : JType} (h : t.IsDescriptor) : t ≠ .void := by
  rintro rfl
  rcases h with h | h
  · cases h with
    | primitive h => exact absurd h (by simp [JType.primitives])
  · cases h

theorem Descriptor.ne_void_of_parse {text : String} {t : JType} (h : parse text = .ok t) :
    t ≠ .void := (read_eq_ok.1 h).1.ne_void

theorem Constant.ne_void_of_loadedType {c : Constant} {t : JType} (h : c.loadedType = .ok t) :
    t ≠ .void := by
  unfold loadedType at h
  split at h <;> cases h <;> nofun

theorem JType.ne_void_of_primitiveArray {code : Int} {t : JType}
    (h : primitiveArray code = .ok t) : t ≠ .void := by
  unfold primitiveArray at h
  split at h <;> cases h <;> nofun

namespace Instruction

variable {i : Instruction} {t : JType} {result : Option JType}

theorem ne_void_of_namedType (h : i.namedType = .ok t) : t ≠ .void := by
  unfold namedType at h
  split at h
  · unfold Descriptor.parseInternalName at h
    split at h
    · cases h
    · exact Descriptor.ne_void_of_parse h
    · cases h
      nofun
  · cases h

theorem ne_void_of_fieldType (h : i.fieldType = .ok t) : t ≠ .void := by
  unfold fieldType at h
  split at h
  · exact Descriptor.ne_void_of_parse h
  · cases h

/-! ## Arities and effects -/

/-- How many values an instruction is given at an arity. -/
def given (i : Instruction) : Arity → Nat
  | .zero => 0
  | .one => 1
  | .two => 2
  | .three => 3
  | .many =>
    if i.opcode = .multianewarray then i.operand.dimensions
    else i.argumentCount.toOption.getD 0 + if i.opcode.hasReceiver then 1 else 0

/-- An instruction produces something only at the arity that its effect asks for. -/
theorem arity?_of_producedAs {a : Arity} (h : i.producedAs a = .ok result) :
    i.opcode.effect.arity? = some a := by
  obtain ⟨index, opcode, operand⟩ := i
  cases a <;> cases opcode <;> first | rfl | cases h

/-- An invocation produces its result, unless that is void. -/
theorem producedFromMany_eq_ok (he : i.opcode.effect = .invoke) :
    i.producedFromMany = .ok result ↔ ∃ type t, i.methodType = .ok type ∧
      type.result? = some t ∧ result = if t = .void then none else some t := by
  have hmany : i.producedFromMany = i.methodType >>= fun type =>
      type.result?.elim i.refuse fun t => .ok (if t = .void then none else some t) := by
    obtain ⟨index, opcode, operand⟩ := i
    cases opcode <;> cases he
    all_goals
      refine congrArg (Bind.bind _) (funext fun type => ?_)
      rcases type.result? with _ | _ | _ <;> rfl
  rw [hmany, bind_eq_ok]
  constructor
  · rintro ⟨type, htype, h⟩
    cases ht : type.result? with
    | none =>
      rw [ht] at h
      cases h
    | some t =>
      rw [ht] at h
      exact ⟨type, t, htype, ht, (Except.ok.inj h).symm⟩
  · rintro ⟨type, t, htype, ht, rfl⟩
    refine ⟨type, htype, ?_⟩
    rw [ht]
    rfl

/-- A creation of nested arrays produces the outermost. -/
theorem nestedArrays_eq_ok (he : i.opcode.effect = .newArrays) :
    i.producedFromMany = .ok result ↔ ∃ descriptor dimensions,
      i.operand = .newArrays descriptor dimensions ∧
      ∃ t, Descriptor.parse descriptor = .ok t ∧ result = some t := by
  have hmany : i.producedFromMany = (match i.operand with
      | .newArrays descriptor _ => (Descriptor.parse descriptor).map some
      | _ => i.refuse) := by
    obtain ⟨index, opcode, operand⟩ := i
    cases opcode <;> first | rfl | cases he
  rw [hmany]
  constructor
  · intro h
    split at h
    · rename_i descriptor dimensions hoperand
      obtain ⟨t, ht, rfl⟩ := map_eq_ok.1 h
      exact ⟨descriptor, dimensions, hoperand, t, ht, rfl⟩
    · cases h
  · rintro ⟨descriptor, dimensions, hoperand, t, ht, rfl⟩
    rw [hoperand]
    exact map_eq_ok.2 ⟨t, ht, rfl⟩

/-- What an instruction produces is what its effect lets it produce. -/
theorem yields_of_producedAs {a : Arity} (h : i.producedAs a = .ok result) :
    i.opcode.effect.Yields result := by
  have hmap : ∀ {x : Except AnalysisError JType}, (∀ t, x = .ok t → t ≠ .void) →
      x.map some = .ok result → ∃ t, result = some t ∧ t ≠ .void := by
    intro x hx hresult
    obtain ⟨t, ht, rfl⟩ := map_eq_ok.1 hresult
    exact ⟨t, rfl, hx t ht⟩
  have hok : ∀ {t : JType}, (.ok (some t) : Except AnalysisError _) = .ok result → t ≠ .void →
      ∃ t, result = some t ∧ t ≠ .void := by
    intro t hresult ht
    exact ⟨t, (Except.ok.inj hresult).symm, ht⟩
  obtain ⟨index, opcode, operand⟩ := i
  cases a with
  | zero =>
    unfold producedAs producedFromNone at h
    dsimp only at h
    split at h
    -- the rows that are left after those of a fixed type read a type off the operand
    all_goals first | exact hok h (by nofun) | skip
    · split at h
      · exact hmap (fun _ => Constant.ne_void_of_loadedType) h
      · cases h
    · exact hmap (fun _ => ne_void_of_fieldType) h
    · exact hmap (fun _ => ne_void_of_namedType) h
    · cases h
  | one =>
    unfold producedAs producedFromOne at h
    dsimp only at h
    split at h
    all_goals first | exact hok h (by nofun) | exact (Except.ok.inj h).symm | skip
    · exact hmap (fun _ => ne_void_of_fieldType) h
    · split at h
      · exact hmap (fun _ => JType.ne_void_of_primitiveArray) h
      · cases h
    · obtain ⟨t, -, ht⟩ := map_eq_ok.1 h
      exact ⟨_, ht.symm, nofun⟩
    · exact hmap (fun _ => ne_void_of_namedType) h
    · cases h
  | two =>
    unfold producedAs producedFromTwo at h
    dsimp only at h
    split at h
    all_goals first | exact hok h (by nofun) | exact (Except.ok.inj h).symm | cases h
  | three =>
    unfold producedAs producedFromThree at h
    dsimp only at h
    split at h
    all_goals first | exact (Except.ok.inj h).symm | cases h
  | many =>
    cases hop : opcode.effect with
    | invoke =>
      obtain ⟨type, u, -, -, rfl⟩ := (producedFromMany_eq_ok hop).1 h
      intro t ht
      split at ht
      · cases ht
      · rename_i hu
        exact Option.some.inj ht ▸ hu
    | newArrays =>
      obtain ⟨descriptor, dimensions, -, t, ht, rfl⟩ := (nestedArrays_eq_ok hop).1 h
      exact ⟨t, rfl, Descriptor.ne_void_of_parse ht⟩
    | _ =>
      have harity := arity?_of_producedAs h
      rw [hop] at harity
      cases harity

/-! ## Executing an instruction with an arity -/

section Tracking

open Interpreter

variable {α : Type} [Coded α] [HasBase α] {tag : Witness → α} {a : Arity}
  {made : Option (ValueSet α)}

theorem createdBy_of_ne_void (h : t ≠ .void) :
    createdBy tag i (some t) = some (.single (tag (.atInstruction t i))) := if_neg h

/-- A tracker makes a value of every type that an effect lets an instruction produce. -/
theorem createdBy_eq_map (h : i.opcode.effect.Yields result) :
    createdBy tag i result = result.map fun t => .single (tag (.atInstruction t i)) := by
  cases result with
  | none => rfl
  | some t => exact createdBy_of_ne_void (h.ne_void rfl)

/-- What a tracker makes at an instruction is what its effect lets it produce. -/
theorem exists_of_answer (h : (i.producedAs a).map (createdBy tag i) = .ok made) :
    ∃ result, i.producedAs a = .ok result ∧ i.opcode.effect.Yields result ∧
      createdBy tag i result = made := by
  obtain ⟨result, hresult, hmade⟩ := map_eq_ok.1 h
  exact ⟨result, hresult, yields_of_producedAs hresult, hmade⟩

/-- An instruction that always produces a value has it pushed. -/
theorem exchanges_pushResult (hy : ∀ result, i.opcode.effect.Yields result →
      ∃ t, result = some t ∧ t ≠ .void)
    (h : (i.producedAs a).map (createdBy tag i) = .ok made) (f : Frame (ValueSet α)) :
    Frame.Exchanges (f.pushResult i made) f 0 (.ok made) := by
  obtain ⟨result, -, hresult, rfl⟩ := exists_of_answer h
  obtain ⟨t, rfl, ht⟩ := hy result hresult
  rw [createdBy_of_ne_void ht]
  exact .push f i _

/-- An instruction that produces nothing leaves the frame as it is then. -/
theorem exchanges_pure (hy : ∀ result, i.opcode.effect.Yields result → result = none)
    (h : (i.producedAs a).map (createdBy tag i) = .ok made) (f : Frame (ValueSet α)) :
    Frame.Exchanges (pure f) f 0 (.ok made) := by
  obtain ⟨result, -, hresult, rfl⟩ := exists_of_answer h
  obtain rfl := hy result hresult
  exact .pure f

theorem exchanges_invoke (he : i.opcode.effect = .invoke) (f : Frame (ValueSet α)) :
    Frame.Exchanges (Frame.invoke (.tracking tag) i f) f (i.given .many)
      ((i.producedAs .many).map (createdBy tag i)) := by
  have hone : i.opcode ≠ .multianewarray := by
    intro h
    rw [h] at he
    cases he
  have hresult := fun result => @producedFromMany_eq_ok i result he
  unfold Frame.invoke
  cases htype : i.methodType with
  | error e =>
    -- neither side gets past the descriptor
    refine .fail rfl fun made hmade => ?_
    obtain ⟨result, hmany, -, -⟩ := exists_of_answer hmade
    obtain ⟨type, t, htype', -, -⟩ := (hresult result).1 hmany
    cases htype.symm.trans htype'
  | ok type =>
    have harguments : i.argumentCount = .ok (type.arguments?.getD []).length := by
      unfold argumentCount
      rw [htype]
      rfl
    have hcount : i.given .many = if i.opcode.hasReceiver
        then (type.arguments?.getD []).length + 1 else (type.arguments?.getD []).length := by
      rw [given, if_neg hone, harguments]
      cases i.opcode.hasReceiver <;> rfl
    rw [harguments, hcount]
    -- the continuation is written out, since it cannot be read off the pair of what is popped
    refine .popMany (k := fun p => askNary (.tracking tag) i p.1 >>= fun result =>
      if type.result? = some .void then pure p.2 else p.2.pushResult i result)
      fun vs s => .ask fun made hmade => ?_
    have hanswer : (i.producedAs .many).map (createdBy tag i) = .ok made := hmade
    obtain ⟨result, hmany, -, rfl⟩ := exists_of_answer hanswer
    obtain ⟨type', t, htype', ht, rfl⟩ := (hresult result).1 hmany
    obtain rfl : type = type' := Except.ok.inj (htype.symm.trans htype')
    rw [ht]
    by_cases hvoid : t = .void
    · rw [if_pos hvoid, if_pos (congrArg some hvoid)]
      exact .pure _
    · rw [if_neg hvoid, if_neg fun h => hvoid (Option.some.inj h), createdBy_of_ne_void hvoid]
      exact .push _ i _

theorem exchanges_newArrays (he : i.opcode.effect = .newArrays) (f : Frame (ValueSet α)) :
    Frame.Exchanges (Frame.newArrays (.tracking tag) i f) f (i.given .many)
      ((i.producedAs .many).map (createdBy tag i)) := by
  have hcount : i.given .many = i.operand.dimensions := if_pos (Opcode.eq_multianewarray he)
  have hpush := @exchanges_pushResult i α _ _ tag .many
  rw [he] at hpush
  rw [hcount]
  unfold Frame.newArrays
  split
  · rename_i descriptor dimensions hoperand
    rw [hoperand]
    exact .popMany fun vs s => .ask fun made hmade => hpush (fun _ hy => hy) hmade _
  · rename_i hoperand
    refine .fail rfl fun made hmade => ?_
    obtain ⟨result, hmany, -, -⟩ := exists_of_answer hmade
    obtain ⟨descriptor, dimensions, h, -⟩ := (nestedArrays_eq_ok he).1 hmany
    exact hoperand descriptor dimensions h

/-- An instruction with an arity takes the values it is given and puts back what it produces, unless
it is an increment or returns a value where there is none to return. -/
theorem exchanges_execute (ha : i.opcode.effect.arity? = some a)
    (hincrement : i.opcode.effect ≠ .increment) {returnType : JType}
    (hreturn : i.opcode.effect = .returnValue → returnType ≠ .void) (f : Frame (ValueSet α)) :
    Frame.Exchanges (Frame.execute (.tracking tag) i returnType f) f (i.given a)
      ((i.producedAs a).map (createdBy tag i)) := by
  have hpush := @exchanges_pushResult i α _ _ tag a
  have hnothing := @exchanges_pure i α _ _ tag a
  unfold Frame.execute
  -- an effect says how many values are popped before the question, and what the answer is for
  cases he : i.opcode.effect with
  | idle | unsupported | load | store | shuffle | returnVoid =>
    rw [he] at ha
    cases ha
  | increment => exact absurd he hincrement
  | produce =>
    rw [he] at ha hpush
    obtain rfl := Option.some.inj ha
    exact .ask fun made hmade => hpush (fun _ hy => hy) hmade f
  | transform =>
    rw [he] at ha hpush
    obtain rfl := Option.some.inj ha
    exact .pop fun v s => .ask fun made hmade => hpush (fun _ hy => hy) hmade _
  | combine =>
    rw [he] at ha hpush
    obtain rfl := Option.some.inj ha
    exact .pop fun w s => .pop fun v s' => .ask fun made hmade =>
      hpush (fun _ hy => hy) hmade _
  | consume =>
    rw [he] at ha hnothing
    obtain rfl := Option.some.inj ha
    exact .pop fun v s => .ask fun made hmade => hnothing (fun _ hy => hy) hmade _
  | consumeTwo =>
    rw [he] at ha hnothing
    obtain rfl := Option.some.inj ha
    exact .pop fun w s => .pop fun v s' => .ask fun made hmade =>
      hnothing (fun _ hy => hy) hmade _
  | storeElement =>
    rw [he] at ha hnothing
    obtain rfl := Option.some.inj ha
    exact .pop fun x s => .pop fun w s' => .pop fun v s'' => .ask fun made hmade =>
      hnothing (fun _ hy => hy) hmade _
  | returnValue =>
    rw [he] at ha hnothing
    obtain rfl := Option.some.inj ha
    refine .pop fun v s => .ask fun made hmade => ?_
    rw [if_neg (hreturn he)]
    exact hnothing (fun _ hy => hy) hmade _
  | invoke =>
    rw [he] at ha
    obtain rfl := Option.some.inj ha
    exact exchanges_invoke he f
  | newArrays =>
    rw [he] at ha
    obtain rfl := Option.some.inj ha
    exact exchanges_newArrays he f

/-- An increment replaces a local that is set. -/
theorem execute_increment (he : i.opcode.effect = .increment) {returnType : JType}
    {f g : Frame (ValueSet α)} :
    (Frame.execute (.tracking tag) i returnType f).outcome = .ok g ↔
      ∃ k v w, i.operand.var? = some k ∧ f.local? k = some v ∧
        (i.producedAs .one).map (createdBy tag i) = .ok (some w) ∧
        g = { f with locals := f.locals.set k (some w) } := by
  unfold Frame.execute
  rw [he]
  dsimp only
  rw [Traced.bind_outcome_eq_ok]
  constructor
  · rintro ⟨k, hk, h⟩
    obtain ⟨v, hv, h⟩ := Traced.bind_outcome_eq_ok.1 h
    obtain ⟨made, hmade, h⟩ := Traced.bind_outcome_eq_ok.1 h
    have hv : f.local? k = some v := Frame.load_eq_ok.1 hv
    cases made with
    | none => cases h
    | some w =>
      have hset : f.setLocal k (some w) = .ok g := h
      rw [Frame.setLocal_of_lt (Frame.lt_of_local? hv)] at hset
      exact ⟨k, v, w, Frame.varOf_eq_ok.1 hk, hv, hmade, (Except.ok.inj hset).symm⟩
  · rintro ⟨k, v, w, hk, hv, hmade, rfl⟩
    refine ⟨k, Frame.varOf_eq_ok.2 hk, Traced.bind_outcome_eq_ok.2
      ⟨v, Frame.load_eq_ok.2 hv, Traced.bind_outcome_eq_ok.2 ⟨some w, hmade, ?_⟩⟩⟩
    exact Frame.setLocal_of_lt (Frame.lt_of_local? hv) _

/-- No value is returned from a method without one. -/
theorem execute_returnValue_of_void (he : i.opcode.effect = .returnValue)
    {f g : Frame (ValueSet α)} :
    (Frame.execute (.tracking tag) i .void f).outcome ≠ .ok g := by
  intro h
  unfold Frame.execute at h
  rw [he] at h
  obtain ⟨p, -, h⟩ := Traced.bind_outcome_eq_ok.1 h
  obtain ⟨made, -, h⟩ := Traced.bind_outcome_eq_ok.1 h
  cases h

end Tracking

/-! ## The two tables -/

/-- What an instruction given so many values makes of a frame, if it produces this. -/
inductive Performs (i : Instruction) (returnType : JType) (count : Nat) (result : Option JType)
    (f : Frame PossibleValues) : Frame PossibleValues → Prop
  /-- An increment takes nothing and writes over its local, which must be set. -/
  | increments (hop : i.opcode = .iinc) {k : Nat} {v : PossibleValues} {t : JType}
    (hk : i.operand.var? = some k) (hv : f.local? k = some v) (ht : result = some t) :
    Performs i returnType count result f
      { f with locals := f.locals.set k (some (.single (.atInstruction t i))) }
  /-- All others take the values from the stack and put back the witness of what they produce; a
  return of a value needs a method that returns one. -/
  | exchanges (hop : i.opcode ≠ .iinc)
    (hreturn : i.opcode ∈ Opcode.valueReturns → returnType ≠ .void) {g : Frame PossibleValues}
    (h : f.Exchanged count (result.map fun t => .single (.atInstruction t i)) g) :
    Performs i returnType count result f g

/-- An instruction with an arity succeeds with what it performs, if it produces anything, and with
nothing else. -/
theorem execute_eq_ok {a : Arity} (ha : i.opcode.effect.arity? = some a) {returnType : JType}
    {f g : Frame PossibleValues} :
    (Frame.execute .possibleValues i returnType f).outcome = .ok g ↔
      ∃ result, i.producedAs a = .ok result ∧ i.Performs returnType (i.given a) result f g := by
  by_cases hinc : i.opcode.effect = .increment
  · rw [hinc] at ha
    obtain rfl := Option.some.inj ha
    rw [show Interpreter.possibleValues = .tracking id from rfl, execute_increment hinc]
    constructor
    · rintro ⟨k, v, w, hk, hv, hmade, rfl⟩
      obtain ⟨result, hresult, hy, hw⟩ := exists_of_answer hmade
      have ht := hy
      rw [hinc] at ht
      obtain ⟨t, rfl, hvoid⟩ := ht
      rw [createdBy_of_ne_void hvoid] at hw
      obtain rfl := Option.some.inj hw
      exact ⟨_, hresult, .increments (Opcode.eq_iinc_of_effect hinc) hk hv rfl⟩
    · rintro ⟨result, hresult, h⟩
      cases h with
      | @increments _ k v t hk hv ht =>
        subst ht
        refine ⟨k, v, _, hk, hv, map_eq_ok.2 ⟨_, hresult, ?_⟩, rfl⟩
        exact createdBy_of_ne_void ((yields_of_producedAs hresult).ne_void rfl)
      | exchanges hop => exact absurd (Opcode.eq_iinc_of_effect hinc) hop
  · have hop : i.opcode ≠ .iinc := by
      intro h
      rw [h] at hinc
      exact hinc rfl
    by_cases hvoid : i.opcode.effect = .returnValue ∧ returnType = .void
    · -- an execution fails at the return, and nothing is performed there either
      obtain ⟨hreturns, rfl⟩ := hvoid
      refine ⟨fun h => absurd h (execute_returnValue_of_void hreturns), ?_⟩
      rintro ⟨result, -, h⟩
      cases h with
      | increments hiinc => exact absurd hiinc hop
      | exchanges _ hreturn => exact absurd rfl (hreturn (Opcode.mem_valueReturns.2 hreturns))
    · have hreturn : i.opcode.effect = .returnValue → returnType ≠ .void :=
        fun he hv => hvoid ⟨he, hv⟩
      refine (exchanges_execute ha hinc hreturn f g).trans ?_
      constructor
      · rintro ⟨made, hmade, h⟩
        obtain ⟨result, hresult, hy, rfl⟩ := exists_of_answer hmade
        rw [createdBy_eq_map hy] at h
        exact ⟨result, hresult,
          .exchanges hop (fun hmem => hreturn (Opcode.mem_valueReturns.1 hmem)) h⟩
      · rintro ⟨result, hresult, h⟩
        cases h with
        | increments hiinc => exact absurd hiinc hop
        | exchanges _ _ h =>
          refine ⟨_, map_eq_ok.2 ⟨result, hresult, rfl⟩, ?_⟩
          rw [createdBy_eq_map (yields_of_producedAs hresult)]
          exact h

/-- The two tables of opcodes agree. An instruction produces something at one arity at most. Then
executing it succeeds with what it performs on the values it is given, and with nothing else. An
instruction that produces nothing at any arity fails on every frame, unless it is a mover. -/
theorem execute_follows_produced (i : Instruction) (returnType : JType) :
    (∀ a b result result', i.producedAs a = .ok result → i.producedAs b = .ok result' → a = b) ∧
    (∀ a result, i.producedAs a = .ok result → ∀ f g : Frame PossibleValues,
      (Frame.execute .possibleValues i returnType f).outcome = .ok g ↔
        i.Performs returnType (i.given a) result f g) ∧
    ((∀ a result, i.producedAs a ≠ .ok result) → i.opcode ∉ Opcode.movers →
      ∀ f g : Frame PossibleValues,
        (Frame.execute .possibleValues i returnType f).outcome ≠ .ok g) := by
  refine ⟨?_, ?_, ?_⟩
  · intro a b result result' ha hb
    exact Option.some.inj ((arity?_of_producedAs ha).symm.trans (arity?_of_producedAs hb))
  · intro a result ha f g
    rw [execute_eq_ok (arity?_of_producedAs ha)]
    constructor
    · rintro ⟨result', ha', h⟩
      obtain rfl : result' = result := Except.ok.inj (ha'.symm.trans ha)
      exact h
    · exact fun h => ⟨result, ha, h⟩
  · intro hnone hmover f g h
    cases harity : i.opcode.effect.arity? with
    | none =>
      have he : i.opcode.effect = .unsupported :=
        (Opcode.mem_movers_of_arity? harity).resolve_left hmover
      unfold Frame.execute at h
      rw [he] at h
      cases h
    | some a =>
      obtain ⟨result, ha, -⟩ := (execute_eq_ok harity).1 h
      exact hnone a result ha

/-- A long argument is one value on the stack. -/
example : (⟨0, .invokevirtual, .method "A" "f" "(JI)V" false⟩ : Instruction).given .many = 3 := by
  decide +kernel

end Instruction

end Provenance

/-
How executing an instruction ends.

An execution ends in a frame or in an error. All that an instruction does to a frame it does in single
steps: it takes values off the stack, pushes values and sets locals. So a property of frames that the
single steps keep is kept by every instruction, and if single steps and the interpreter fail only in
some ways, then so does every instruction (`Frame.Kept.execute`). What values mean plays no part.
-/
import Provenance.Frame.Execute

set_option autoImplicit false

namespace Provenance

/-! ## Ends of computations -/

/-- A computation ends in a value with one property or in an error with another. -/
inductive Ends {ε α : Type} (errors : ε → Prop) (values : α → Prop) : Except ε α → Prop
  | ok {a : α} (h : values a) : Ends errors values (.ok a)
  | error {e : ε} (h : errors e) : Ends errors values (.error e)

namespace Ends

variable {κ ε α β : Type} {errors : ε → Prop} {values : α → Prop} {results : β → Prop}

theorem of_ok {x : Except ε α} (h : Ends errors values x) {a : α} (hx : x = .ok a) : values a := by
  subst hx
  cases h with
  | ok ha => exact ha

theorem of_error {x : Except ε α} (h : Ends errors values x) {e : ε} (hx : x = .error e) :
    errors e := by
  subst hx
  cases h with
  | error he => exact he

/-- What is known of the errors alone. -/
theorem intro_error {x : Except ε α} (h : ∀ e, x = .error e → errors e) :
    Ends errors (fun _ => True) x := by
  cases x with
  | ok a => exact .ok trivial
  | error e => exact .error (h e rfl)

theorem bind {x : Except ε α} {f : α → Except ε β} (h : Ends errors values x)
    (k : ∀ a, values a → Ends errors results (f a)) : Ends errors results (x >>= f) := by
  cases h with
  | ok ha => exact k _ ha
  | error he => exact .error he

theorem bind_outcome {x : Traced κ ε α} {f : α → Traced κ ε β} (h : Ends errors values x.outcome)
    (k : ∀ a, values a → Ends errors results (f a).outcome) :
    Ends errors results (x >>= f).outcome := by
  rw [Traced.bind_outcome]
  exact h.bind k

theorem mono {x : Except ε α} (h : Ends errors values x) {errors' : ε → Prop}
    (he : ∀ e, errors e → errors' e) : Ends errors' values x := by
  cases h with
  | ok ha => exact .ok ha
  | error h => exact .error (he _ h)

theorem map {x : Except ε α} (h : Ends errors (fun _ => True) x) (f : α → β) :
    Ends errors (fun _ => True) (x.map f) := by
  cases h with
  | ok => exact .ok trivial
  | error he => exact .error he

theorem mapM {f : α → Except ε β} {l : List α} (h : ∀ a ∈ l, Ends errors (fun _ => True) (f a)) :
    Ends errors (fun _ => True) (l.mapM f) := by
  induction l with
  | nil => exact .ok trivial
  | cons a l ih =>
    rw [List.mapM_cons]
    refine (h a List.mem_cons_self).bind fun b _ => ?_
    exact (ih fun c hc => h c (List.mem_cons_of_mem a hc)).bind fun _ _ => .ok trivial

/-- What is known of the errors, with what holds of the value if there is one. -/
theorem and_ok {x : Except ε α} (h : Ends errors (fun _ => True) x)
    (k : ∀ a, x = .ok a → values a) : Ends errors values x := by
  cases h with
  | @ok a => exact .ok (k a rfl)
  | error he => exact .error he

end Ends

/-- An error that says what went wrong, and not in which instruction or method. -/
def AnalysisError.Bare : AnalysisError → Prop
  | atInstruction .. | inMethod .. => False
  | _ => True

namespace Frame

variable {V : Type}

/-! ## What single steps keep -/

/-- The single steps of executing an instruction keep a property of frames, and they and the
interpreter fail only in some ways. -/
structure Kept (I : Interpreter V) (i : Instruction) (errors : AnalysisError → Prop)
    (P : Frame V → Prop) : Prop where
  /-- The ways in which a step on a frame fails are among them. -/
  bare : ∀ e, e.Bare → errors e
  descriptor : ∀ e, i.methodType = .error e → errors e
  produce : ∀ e, I.produce i = .error e → errors e
  copy : ∀ v e, I.copy i v = .error e → errors e
  unary : ∀ v e, I.unary i v = .error e → errors e
  binary : ∀ v w e, I.binary i v w = .error e → errors e
  ternary : ∀ v w x e, I.ternary i v w x = .error e → errors e
  nary : ∀ vs e, I.nary i vs = .error e → errors e
  returned : ∀ v t e, I.returned i v t = .error e → errors e
  pop : ∀ {f v rest}, P f → f.stack = v :: rest → P { f with stack := rest }
  popMany : ∀ {f} (count), P f → P { f with stack := f.stack.drop count }
  push : ∀ {f} (v), P f → f.stack.length < f.maxStack → P { f with stack := v :: f.stack }
  setLocal : ∀ {f} (index v), P f → P { f with locals := f.locals.set index v }

namespace Kept

variable {I : Interpreter V} {i : Instruction} {errors : AnalysisError → Prop}
  {P : Frame V → Prop} {f : Frame V} {α : Type} {results : α → Prop}

theorem ends_pop (hK : Kept I i errors P) (hf : P f) : Ends errors (fun p => P p.2) f.pop := by
  unfold Frame.pop
  cases hs : f.stack with
  | nil => exact .error (hK.bare _ trivial)
  | cons v rest => exact .ok (hK.pop hf hs)

theorem ends_popMany (hK : Kept I i errors P) (hf : P f) (count : Nat) :
    Ends errors (fun p => P p.2) (f.popMany count) := by
  unfold Frame.popMany
  split
  · exact .ok (hK.popMany count hf)
  · exact .error (hK.bare _ trivial)

theorem ends_push (hK : Kept I i errors P) (hf : P f) (v : V) : Ends errors P (f.push v) := by
  unfold Frame.push
  split
  · rename_i hlt
    exact .ok (hK.push v hf hlt)
  · exact .error (hK.bare _ trivial)

theorem ends_pushAll (hK : Kept I i errors P) (hf : P f) (vs : List V) :
    Ends errors P (f.pushAll vs) := by
  induction vs generalizing f with
  | nil => exact .ok hf
  | cons v vs ih => exact (hK.ends_push hf v).bind fun _ hf => ih hf

theorem ends_pushResult (hK : Kept I i errors P) (hf : P f) (v : Option V) :
    Ends errors P (f.pushResult i v) := by
  cases v with
  | none => exact .error (hK.bare _ trivial)
  | some v => exact hK.ends_push hf v

theorem ends_setLocal (hK : Kept I i errors P) (hf : P f) (index : Nat) (v : Option V) :
    Ends errors P (f.setLocal index v) := by
  unfold Frame.setLocal
  split
  · exact .ok (hK.setLocal index v hf)
  · exact .error (hK.bare _ trivial)

/-! ## One step after another -/

/-- The operand is asked for a local. -/
theorem bind_varOf (hK : Kept I i errors P) {k : Nat → Executed V α}
    (h : ∀ index, Ends errors results (k index).outcome) :
    Ends errors results ((varOf i : Executed V Nat) >>= k).outcome := by
  have hvar : Ends errors (fun _ => True) (varOf i) := by
    unfold varOf
    split
    · exact .ok trivial
    · exact .error (hK.bare _ trivial)
  exact hvar.bind_outcome (x := Traced.quiet (varOf i)) fun index _ => h index

theorem bind_load (hK : Kept I i errors P) (index : Nat) {k : V → Executed V α}
    (h : ∀ v, Ends errors results (k v).outcome) :
    Ends errors results ((f.load index : Executed V V) >>= k).outcome := by
  have hload : Ends errors (fun _ => True) (f.load index) := by
    unfold Frame.load
    split
    · exact .ok trivial
    · exact .error (hK.bare _ trivial)
  exact hload.bind_outcome (x := Traced.quiet (f.load index)) fun v _ => h v

theorem bind_pop (hK : Kept I i errors P) (hf : P f) {k : V × Frame V → Executed V α}
    (h : ∀ v g, P g → Ends errors results (k (v, g)).outcome) :
    Ends errors results ((f.pop : Executed V _) >>= k).outcome :=
  (hK.ends_pop hf).bind_outcome (x := Traced.quiet f.pop) fun p hp => h p.1 p.2 hp

theorem bind_popMany (hK : Kept I i errors P) (hf : P f) (count : Nat)
    {k : List V × Frame V → Executed V α}
    (h : ∀ vs g, P g → Ends errors results (k (vs, g)).outcome) :
    Ends errors results ((f.popMany count : Executed V _) >>= k).outcome :=
  (hK.ends_popMany hf count).bind_outcome (x := Traced.quiet (f.popMany count))
    fun p hp => h p.1 p.2 hp

/-- The interpreter is asked something. -/
theorem bind_ask {β : Type} {call : Call V} {answer : Except AnalysisError β}
    (hanswer : ∀ e, answer = .error e → errors e) {k : β → Executed V α}
    (h : ∀ b, Ends errors results (k b).outcome) :
    Ends errors results (Traced.record call answer >>= k).outcome :=
  (Ends.intro_error hanswer).bind_outcome (x := Traced.record call answer) fun b _ => h b

theorem ends_pushCopy (hK : Kept I i errors P) (hf : P f) (v : V) :
    Ends errors P (pushCopy I i f v).outcome :=
  bind_ask (hK.copy v) fun w => hK.ends_push hf w

theorem bind_pushCopy (hK : Kept I i errors P) (hf : P f) (v : V) {k : Frame V → Executed V α}
    (h : ∀ g, P g → Ends errors results (k g).outcome) :
    Ends errors results (pushCopy I i f v >>= k).outcome :=
  (hK.ends_pushCopy hf v).bind_outcome h

/-! ## Instructions -/

theorem ends_invoke (hK : Kept I i errors P) (hf : P f) :
    Ends errors P (invoke I i f).outcome := by
  have htype : Ends errors (fun _ => True) i.methodType := .intro_error hK.descriptor
  have hcount : Ends errors (fun _ => True) i.argumentCount := htype.bind fun _ _ => .ok trivial
  unfold Frame.invoke
  -- the descriptor is read for the type, and once more for the number of arguments
  refine htype.bind_outcome (x := Traced.quiet i.methodType) fun type _ => ?_
  refine hcount.bind_outcome (x := Traced.quiet i.argumentCount) fun arguments _ => ?_
  refine hK.bind_popMany hf _ fun vs f hf => ?_
  refine bind_ask (hK.nary vs) fun result => ?_
  split
  · exact .ok hf
  · exact hK.ends_pushResult hf result

theorem ends_newArrays (hK : Kept I i errors P) (hf : P f) :
    Ends errors P (newArrays I i f).outcome := by
  unfold Frame.newArrays
  split
  · refine hK.bind_popMany hf _ fun vs f hf => ?_
    exact bind_ask (hK.nary vs) fun result => hK.ends_pushResult hf result
  · exact .error (hK.bare _ trivial)

variable [AbstractValue V]

theorem bind_popNarrow (hK : Kept I i errors P) (hf : P f) {k : V × Frame V → Executed V α}
    (h : ∀ v g, P g → Ends errors results (k (v, g)).outcome) :
    Ends errors results ((f.popNarrow i.opcode : Executed V _) >>= k).outcome := by
  have hpop : Ends errors (fun p => P p.2) (f.popNarrow i.opcode) := by
    unfold Frame.popNarrow
    refine (hK.ends_pop hf).bind fun p hp => ?_
    dsimp only
    split
    · exact .ok hp
    · exact .error (hK.bare _ trivial)
  exact hpop.bind_outcome (x := Traced.quiet (f.popNarrow i.opcode)) fun p hp => h p.1 p.2 hp

/-- A store is two or three writes of locals. -/
theorem ends_store (hK : Kept I i errors P) (hf : P f) (index : Nat) (v : V) :
    Ends errors P (f.store index v) := by
  -- the value before the index may be unset, if it is wide
  have hbefore : ∀ {g : Frame V}, P g → Ends errors P (g.unsetOverlapping index) := by
    intro g hg
    unfold Frame.unsetOverlapping
    split
    · exact .ok hg
    · split
      · exact hK.ends_setLocal hg _ _
      · exact .ok hg
  unfold Frame.store
  refine (hK.ends_setLocal hf index (some v)).bind fun g hg => ?_
  dsimp only
  split
  · exact (hK.ends_setLocal hg (index + 1) none).bind fun _ hg => hbefore hg
  · exact hbefore hg

theorem ends_shuffle (hK : Kept I i errors P) (hf : P f) (kind : Shuffle) :
    Ends errors P (shuffle I i f kind).outcome := by
  cases kind with
  | pop => exact hK.bind_popNarrow hf fun _ _ hf => .ok hf
  | pop2 =>
    refine hK.bind_pop hf fun v f hf => ?_
    dsimp only
    split
    · exact hK.bind_popNarrow hf fun _ _ hf => .ok hf
    · exact .ok hf
  | dup =>
    refine hK.bind_popNarrow hf fun v f hf => ?_
    exact bind_ask (hK.copy v) fun copy => hK.ends_pushAll hf [v, copy]
  | dupX1 =>
    refine hK.bind_popNarrow hf fun v f hf => ?_
    refine hK.bind_popNarrow hf fun w f hf => ?_
    exact hK.bind_pushCopy hf v fun f hf => hK.ends_pushAll hf [w, v]
  | dupX2 =>
    refine hK.bind_popNarrow hf fun v f hf => ?_
    refine hK.bind_pop hf fun w f hf => ?_
    dsimp only
    split
    · refine hK.bind_popNarrow hf fun x f hf => ?_
      exact hK.bind_pushCopy hf v fun f hf => hK.ends_pushAll hf [x, w, v]
    · exact hK.bind_pushCopy hf v fun f hf => hK.ends_pushAll hf [w, v]
  | dup2 =>
    refine hK.bind_pop hf fun v f hf => ?_
    dsimp only
    split
    · refine hK.bind_popNarrow hf fun w f hf => ?_
      refine bind_ask (hK.copy w) fun below => ?_
      exact bind_ask (hK.copy v) fun copy => hK.ends_pushAll hf [w, v, below, copy]
    · exact bind_ask (hK.copy v) fun copy => hK.ends_pushAll hf [v, copy]
  | dup2X1 =>
    refine hK.bind_pop hf fun v f hf => ?_
    dsimp only
    split
    · refine hK.bind_popNarrow hf fun w f hf => ?_
      refine hK.bind_popNarrow hf fun x f hf => ?_
      refine hK.bind_pushCopy hf w fun f hf => ?_
      exact hK.bind_pushCopy hf v fun f hf => hK.ends_pushAll hf [x, w, v]
    · refine hK.bind_popNarrow hf fun w f hf => ?_
      exact hK.bind_pushCopy hf v fun f hf => hK.ends_pushAll hf [w, v]
  | dup2X2 =>
    refine hK.bind_pop hf fun v f hf => ?_
    dsimp only
    split
    · refine hK.bind_popNarrow hf fun w f hf => ?_
      refine hK.bind_pop hf fun x f hf => ?_
      dsimp only
      split
      · refine hK.bind_popNarrow hf fun y f hf => ?_
        refine hK.bind_pushCopy hf w fun f hf => ?_
        exact hK.bind_pushCopy hf v fun f hf => hK.ends_pushAll hf [y, x, w, v]
      · refine hK.bind_pushCopy hf w fun f hf => ?_
        exact hK.bind_pushCopy hf v fun f hf => hK.ends_pushAll hf [x, w, v]
    · refine hK.bind_pop hf fun w f hf => ?_
      dsimp only
      split
      · refine hK.bind_popNarrow hf fun x f hf => ?_
        exact hK.bind_pushCopy hf v fun f hf => hK.ends_pushAll hf [x, w, v]
      · exact hK.bind_pushCopy hf v fun f hf => hK.ends_pushAll hf [w, v]
  | swap =>
    refine hK.bind_popNarrow hf fun v f hf => ?_
    refine hK.bind_popNarrow hf fun w f hf => ?_
    exact hK.bind_pushCopy hf v fun f hf => hK.ends_pushCopy hf w

/-- What single steps keep is kept by every instruction, which fails only as they do. -/
theorem execute (hK : Kept I i errors P) (hf : P f) (returnType : JType) :
    Ends errors P (Frame.execute I i returnType f).outcome := by
  have hthrow : ∀ e : AnalysisError, e.Bare → Ends errors P (.error e : Except _ (Frame V)) :=
    fun e he => .error (hK.bare e he)
  unfold Frame.execute
  -- each effect takes its own steps, in the order in which they may fail
  cases i.opcode.effect with
  | idle => exact .ok hf
  | unsupported => exact hthrow _ trivial
  | produce => exact bind_ask hK.produce fun v => hK.ends_pushResult hf v
  | load =>
    refine hK.bind_varOf fun index => ?_
    exact hK.bind_load index fun v => hK.ends_pushCopy hf v
  | store =>
    refine hK.bind_varOf fun index => ?_
    refine hK.bind_pop hf fun v f hf => ?_
    exact bind_ask (hK.copy v) fun copy => hK.ends_store hf index copy
  | storeElement =>
    refine hK.bind_pop hf fun x f hf => ?_
    refine hK.bind_pop hf fun w f hf => ?_
    refine hK.bind_pop hf fun v f hf => ?_
    exact bind_ask (hK.ternary v w x) fun _ => .ok hf
  | shuffle kind => exact hK.ends_shuffle hf kind
  | combine =>
    refine hK.bind_pop hf fun w f hf => ?_
    refine hK.bind_pop hf fun v f hf => ?_
    exact bind_ask (hK.binary v w) fun result => hK.ends_pushResult hf result
  | transform =>
    refine hK.bind_pop hf fun v f hf => ?_
    exact bind_ask (hK.unary v) fun result => hK.ends_pushResult hf result
  | increment =>
    refine hK.bind_varOf fun index => ?_
    refine hK.bind_load index fun v => ?_
    refine bind_ask (hK.unary v) fun result => ?_
    cases result with
    | none => exact hthrow _ trivial
    | some w => exact hK.ends_setLocal hf index (some w)
  | consume =>
    refine hK.bind_pop hf fun v f hf => ?_
    exact bind_ask (hK.unary v) fun _ => .ok hf
  | consumeTwo =>
    refine hK.bind_pop hf fun w f hf => ?_
    refine hK.bind_pop hf fun v f hf => ?_
    exact bind_ask (hK.binary v w) fun _ => .ok hf
  | returnValue =>
    refine hK.bind_pop hf fun v f hf => ?_
    refine bind_ask (hK.unary v) fun _ => ?_
    split
    · exact hthrow _ trivial
    · exact bind_ask (hK.returned v returnType) fun _ => .ok hf
  | returnVoid =>
    dsimp only
    split
    · exact .ok hf
    · exact hthrow _ trivial
  | invoke => exact hK.ends_invoke hf
  | newArrays => exact hK.ends_newArrays hf

end Kept

end Frame

end Provenance

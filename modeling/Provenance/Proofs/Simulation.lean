/-
Executing one instruction on two frames.

An instruction moves values about and looks at their widths, at which locals are set and at the
height of the stack. Two frames that agree in these respects are changed alike, whatever their
values are, if the two interpreters answer alike. That is the one fact about `Frame.execute` from
which most others follow: an invariant compares a frame with itself, monotonicity compares it with a
larger one, and leaving out what values carry compares it with a frame of another analysis.

A simulation says how the values and the locals of the two frames are related. The second frame may
have more on its stack, below what the first one has; and the first run may fail in ways that are
tolerated. `Simulation.Respected` lists what two interpreters must satisfy at one instruction, and
`Simulation.Respected.execute` concludes that the two executions agree.
-/
import Provenance.Frame.Execute
import Provenance.Proofs.Agreement

set_option autoImplicit false

namespace Provenance

/-- A comparison of frames over two types of values. -/
structure Simulation (V W : Type) where
  /-- How values on the stacks are related. -/
  values : V → W → Prop
  /-- How the locals are related. -/
  locals : List (Option V) → List (Option W) → Prop
  /-- What only the second frame has at the bottom of its stack. -/
  floor : List W
  /-- The limit of the first stack. -/
  limit : Nat
  /-- The errors of the first run that end the comparison. -/
  tolerated : AnalysisError → Prop

/-- Calls that ask the same about related values. -/
inductive Call.Related {V W : Type} (values : V → W → Prop) : Call V → Call W → Prop
  | produce (i) : Related values (.produce i) (.produce i)
  | copy (i) {v w} (h : values v w) : Related values (.copy i v) (.copy i w)
  | unary (i) {v w} (h : values v w) : Related values (.unary i v) (.unary i w)
  | binary (i) {v v' w w'} (h : values v w) (h' : values v' w') :
    Related values (.binary i v v') (.binary i w w')
  | ternary (i) {v v' v'' w w' w''} (h : values v w) (h' : values v' w') (h'' : values v'' w'') :
    Related values (.ternary i v v' v'') (.ternary i w w' w'')
  | nary (i) {vs ws} (h : List.Forall₂ values vs ws) : Related values (.nary i vs) (.nary i ws)
  | returned (i t) {v w} (h : values v w) : Related values (.returned i v t) (.returned i w t)
  | merge {v v' w w'} (h : values v w) (h' : values v' w') :
    Related values (.merge v v') (.merge w w')

namespace Simulation

variable {V W : Type} (S : Simulation V W)

/-- The frames that a simulation relates. -/
structure Frames (f : Frame V) (g : Frame W) : Prop where
  locals : S.locals f.locals g.locals
  /-- The second stack is the first one, value by value, on top of the floor. -/
  stack : ∃ top, g.stack = top ++ S.floor ∧ List.Forall₂ S.values f.stack top
  limit : f.maxStack = S.limit
  limit_right : g.maxStack = S.limit + S.floor.length

variable {S} in
/-- Without a floor the stacks are related as they are. -/
theorem frames_iff {f : Frame V} {g : Frame W} (hfloor : S.floor = []) :
    S.Frames f g ↔ S.locals f.locals g.locals ∧ List.Forall₂ S.values f.stack g.stack ∧
      f.maxStack = S.limit ∧ g.maxStack = S.limit := by
  constructor
  · rintro ⟨hl, ⟨top, hg, hstack⟩, hf, hg'⟩
    rw [hfloor, List.append_nil] at hg
    rw [hfloor] at hg'
    exact ⟨hl, hg ▸ hstack, hf, hg'⟩
  · rintro ⟨hl, hstack, hf, hg⟩
    refine ⟨hl, ⟨g.stack, ?_, hstack⟩, hf, ?_⟩
    · rw [hfloor, List.append_nil]
    · rw [hfloor]
      exact hg

/-- Two executions agree up to the tolerated errors. -/
abbrev Agree {α β : Type} (results : α → β → Prop) :
    Executed V α → Executed W β → Prop :=
  Traced.Agree S.tolerated (Call.Related S.values) results

/-- Two answers to one question agree. -/
abbrev Answers {α β : Type} (results : α → β → Prop) (x : Except AnalysisError α)
    (y : Except AnalysisError β) : Prop :=
  S.Agree results (.quiet x) (.quiet y)

/-- What two interpreters must satisfy at an instruction for the executions to agree. -/
structure Respected [AbstractValue V] [AbstractValue W] (I : Interpreter V) (J : Interpreter W)
    (i : Instruction) : Prop where
  width : ∀ {v w}, S.values v w → AbstractValue.width v = AbstractValue.width w
  /-- With a floor, a stack of the first frame may be too small where the second is not. -/
  floor : S.floor = [] ∨ ∀ e, S.tolerated e
  produce : S.Answers (Option.Rel S.values) (I.produce i) (J.produce i)
  copy : ∀ {v w}, S.values v w → S.Answers S.values (I.copy i v) (J.copy i w)
  unary : ∀ {v w}, S.values v w → S.Answers (Option.Rel S.values) (I.unary i v) (J.unary i w)
  binary : ∀ {v v' w w'}, S.values v w → S.values v' w' →
    S.Answers (Option.Rel S.values) (I.binary i v v') (J.binary i w w')
  ternary : ∀ {v v' v'' w w' w''}, S.values v w → S.values v' w' → S.values v'' w'' →
    S.Answers (Option.Rel S.values) (I.ternary i v v' v'') (J.ternary i w w' w'')
  nary : ∀ {vs ws}, List.Forall₂ S.values vs ws →
    S.Answers (Option.Rel S.values) (I.nary i vs) (J.nary i ws)
  returned : ∀ {v w} (t), S.values v w → S.Answers (fun _ _ => True) (I.returned i v t)
    (J.returned i w t)
  load : ∀ {f g} (index), S.Frames f g → S.Answers S.values (f.load index) (g.load index)
  store : ∀ {f g v w} (index), S.Frames f g → S.values v w →
    S.Answers S.Frames (f.store index v) (g.store index w)
  /-- The result of an increment goes back to the local it was made of. -/
  increment : ∀ {f g v w w'} (index), i.opcode.effect = .increment → S.Frames f g →
    f.load index = .ok v → I.unary i v = .ok (some w) → S.values w w' →
    S.Answers S.Frames (f.setLocal index (some w)) (g.setLocal index (some w'))

namespace Respected

variable {S} [AbstractValue V] [AbstractValue W] {I : Interpreter V} {J : Interpreter W}
  {i : Instruction} {f : Frame V} {g : Frame W}

/-! ## Pops and pushes -/

/-- Values and the frames that are left. -/
abbrev Popped (S : Simulation V W) (p : V × Frame V) (q : W × Frame W) : Prop :=
  S.values p.1 q.1 ∧ S.Frames p.2 q.2

theorem pop (hS : S.Respected I J i) (hf : S.Frames f g) :
    S.Answers (Popped S) f.pop g.pop := by
  obtain ⟨hl, ⟨top, hg, hst⟩, hm, hm'⟩ := hf
  unfold Frame.pop
  rw [hg]
  cases hfs : f.stack with
  | nil =>
    -- the second stack goes on if it has a floor, and then any error is tolerated
    rw [hfs] at hst
    cases hst
    rcases hS.floor with hb | hT
    · rw [hb]
      exact .throw _
    · exact .tolerated (hT _)
  | cons v vs =>
    rw [hfs] at hst
    cases hst with
    | cons hv hvs => exact .pure ⟨hv, hl, ⟨_, rfl, hvs⟩, hm, hm'⟩

theorem popNarrow (hS : S.Respected I J i) (hf : S.Frames f g) :
    S.Answers (Popped S) (f.popNarrow i.opcode) (g.popNarrow i.opcode) := by
  unfold Frame.popNarrow
  rw [Answers, Traced.quiet_bind, Traced.quiet_bind]
  refine .bind (hS.pop hf) ?_
  rintro ⟨v, f⟩ ⟨w, g⟩ ⟨hv, hf⟩
  dsimp only
  rw [hS.width hv]
  split
  · exact .pure ⟨hv, hf⟩
  · exact .throw _

theorem popMany (hS : S.Respected I J i) (hf : S.Frames f g) (count : Nat) :
    S.Answers (fun p q => List.Forall₂ S.values p.1 q.1 ∧ S.Frames p.2 q.2)
      (f.popMany count) (g.popMany count) := by
  obtain ⟨hl, ⟨top, hg, hst⟩, hm, hm'⟩ := hf
  have hlen : f.stack.length = top.length := hst.length_eq
  unfold Frame.popMany
  by_cases hc : count ≤ f.stack.length
  · -- all that is popped lies above the floor
    rw [if_pos hc, if_pos (by rw [hg, List.length_append]; omega), hg,
      List.take_append_of_le_length (by omega), List.drop_append_of_le_length (by omega)]
    refine .pure ⟨?_, hl, ⟨_, rfl, ?_⟩, hm, hm'⟩
    · exact List.rel_reverse (List.forall₂_take count hst)
    · exact List.forall₂_drop count hst
  · rw [if_neg hc]
    rcases hS.floor with hb | hT
    · rw [if_neg (by rw [hg, hb, List.append_nil]; omega)]
      exact .throw _
    · exact .tolerated (hT _)

theorem push (hS : S.Respected I J i) (hf : S.Frames f g) {v : V} {w : W}
    (hv : S.values v w) : S.Answers S.Frames (f.push v) (g.push w) := by
  obtain ⟨hl, ⟨top, hg, hst⟩, hm, hm'⟩ := hf
  have hlen : f.stack.length = top.length := hst.length_eq
  unfold Frame.push
  by_cases hc : f.stack.length < f.maxStack
  · -- the limits differ by the height of the floor
    rw [if_pos hc, if_pos (by rw [hg, hm', List.length_append]; omega)]
    exact .pure ⟨hl, ⟨w :: top, by rw [hg]; rfl, .cons hv hst⟩, hm, hm'⟩
  · rw [if_neg hc]
    rcases hS.floor with hb | hT
    · rw [hb, List.append_nil] at hg
      rw [hb, List.length_nil] at hm'
      rw [if_neg (by rw [hg]; omega), hm, hm']
      exact .throw _
    · exact .tolerated (hT _)

theorem pushAll (hS : S.Respected I J i) {vs : List V} {ws : List W}
    (hvs : List.Forall₂ S.values vs ws) (hf : S.Frames f g) :
    S.Answers S.Frames (f.pushAll vs) (g.pushAll ws) := by
  induction hvs generalizing f g with
  | nil => exact .pure hf
  | cons hv _ ih =>
    rw [Frame.pushAll, Frame.pushAll, Answers, Traced.quiet_bind, Traced.quiet_bind]
    exact .bind (hS.push hf hv) fun _ _ hf => ih hf

theorem pushResult (hS : S.Respected I J i) (hf : S.Frames f g) {v : Option V} {w : Option W}
    (hv : Option.Rel S.values v w) :
    S.Answers S.Frames (f.pushResult i v) (g.pushResult i w) := by
  cases hv with
  | none => exact .throw _
  | some hv => exact hS.push hf hv

theorem pushCopy (hS : S.Respected I J i) (hf : S.Frames f g) {v : V} {w : W}
    (hv : S.values v w) :
    S.Agree S.Frames (Frame.pushCopy I i f v) (Frame.pushCopy J i g w) :=
  .bind (.record (.copy i hv) (hS.copy hv)) fun _ _ hc => hS.push hf hc

/-! ## Shuffles -/

/-- A narrow value is taken off both stacks. -/
theorem bind_popNarrow (hS : S.Respected I J i) (hf : S.Frames f g) {α β : Type}
    {results : α → β → Prop} {k : V × Frame V → Executed V α} {l : W × Frame W → Executed W β}
    (h : ∀ v w f g, S.values v w → S.Frames f g → S.Agree results (k (v, f)) (l (w, g))) :
    S.Agree results ((f.popNarrow i.opcode : Executed V _) >>= k)
      ((g.popNarrow i.opcode : Executed W _) >>= l) :=
  .bind (hS.popNarrow hf) fun _ _ hp => h _ _ _ _ hp.1 hp.2

/-- A value is taken off both stacks. -/
theorem bind_pop (hS : S.Respected I J i) (hf : S.Frames f g) {α β : Type}
    {results : α → β → Prop} {k : V × Frame V → Executed V α} {l : W × Frame W → Executed W β}
    (h : ∀ v w f g, S.values v w → S.Frames f g → S.Agree results (k (v, f)) (l (w, g))) :
    S.Agree results ((f.pop : Executed V _) >>= k) ((g.pop : Executed W _) >>= l) :=
  .bind (hS.pop hf) fun _ _ hp => h _ _ _ _ hp.1 hp.2

/-- A copy goes onto both stacks. -/
theorem bind_pushCopy (hS : S.Respected I J i) (hf : S.Frames f g) {v : V} {w : W}
    (hv : S.values v w) {α β : Type} {results : α → β → Prop} {k : Frame V → Executed V α}
    {l : Frame W → Executed W β}
    (h : ∀ f g, S.Frames f g → S.Agree results (k f) (l g)) :
    S.Agree results (Frame.pushCopy I i f v >>= k) (Frame.pushCopy J i g w >>= l) :=
  .bind (hS.pushCopy hf hv) h

/-- A copy is asked for on both sides. -/
theorem bind_copy (hS : S.Respected I J i) {v : V} {w : W} (hv : S.values v w) {α β : Type}
    {results : α → β → Prop} {k : V → Executed V α} {l : W → Executed W β}
    (h : ∀ v w, S.values v w → S.Agree results (k v) (l w)) :
    S.Agree results (I.askCopy i v >>= k) (J.askCopy i w >>= l) :=
  .bind (.record (.copy i hv) (hS.copy hv)) h

theorem shuffle (hS : S.Respected I J i) (hf : S.Frames f g) (kind : Shuffle) :
    S.Agree S.Frames (Frame.shuffle I i f kind) (Frame.shuffle J i g kind) := by
  cases kind with
  | pop =>
    refine hS.bind_popNarrow hf fun v w f g hv hf => ?_
    exact .pure hf
  | pop2 =>
    refine hS.bind_pop hf fun v w f g hv hf => ?_
    dsimp only
    rw [hS.width hv]
    split
    · exact hS.bind_popNarrow hf fun _ _ f g _ hf => .pure hf
    · exact .pure hf
  | dup =>
    refine hS.bind_popNarrow hf fun v w f g hv hf => ?_
    refine hS.bind_copy hv fun c d hc => ?_
    exact hS.pushAll (.cons hv (.cons hc .nil)) hf
  | dupX1 =>
    refine hS.bind_popNarrow hf fun v w f g hv hf => ?_
    refine hS.bind_popNarrow hf fun x y f g hx hf => ?_
    refine hS.bind_pushCopy hf hv fun f g hf => ?_
    exact hS.pushAll (.cons hx (.cons hv .nil)) hf
  | dupX2 =>
    refine hS.bind_popNarrow hf fun v w f g hv hf => ?_
    refine hS.bind_pop hf fun x y f g hx hf => ?_
    dsimp only
    rw [hS.width hx]
    split
    · refine hS.bind_popNarrow hf fun x' y' f g hx' hf => ?_
      refine hS.bind_pushCopy hf hv fun f g hf => ?_
      exact hS.pushAll (.cons hx' (.cons hx (.cons hv .nil))) hf
    · refine hS.bind_pushCopy hf hv fun f g hf => ?_
      exact hS.pushAll (.cons hx (.cons hv .nil)) hf
  | dup2 =>
    refine hS.bind_pop hf fun v w f g hv hf => ?_
    dsimp only
    rw [hS.width hv]
    split
    · refine hS.bind_popNarrow hf fun x y f g hx hf => ?_
      refine hS.bind_copy hx fun c d hc => ?_
      refine hS.bind_copy hv fun c' d' hc' => ?_
      exact hS.pushAll (.cons hx (.cons hv (.cons hc (.cons hc' .nil)))) hf
    · refine hS.bind_copy hv fun c d hc => ?_
      exact hS.pushAll (.cons hv (.cons hc .nil)) hf
  | dup2X1 =>
    refine hS.bind_pop hf fun v w f g hv hf => ?_
    dsimp only
    rw [hS.width hv]
    split
    · refine hS.bind_popNarrow hf fun x y f g hx hf => ?_
      refine hS.bind_popNarrow hf fun x' y' f g hx' hf => ?_
      refine hS.bind_pushCopy hf hx fun f g hf => ?_
      refine hS.bind_pushCopy hf hv fun f g hf => ?_
      exact hS.pushAll (.cons hx' (.cons hx (.cons hv .nil))) hf
    · refine hS.bind_popNarrow hf fun x y f g hx hf => ?_
      refine hS.bind_pushCopy hf hv fun f g hf => ?_
      exact hS.pushAll (.cons hx (.cons hv .nil)) hf
  | dup2X2 =>
    refine hS.bind_pop hf fun v w f g hv hf => ?_
    dsimp only
    rw [hS.width hv]
    split
    · refine hS.bind_popNarrow hf fun x y f g hx hf => ?_
      refine hS.bind_pop hf fun x' y' f g hx' hf => ?_
      dsimp only
      rw [hS.width hx']
      split
      · refine hS.bind_popNarrow hf fun x'' y'' f g hx'' hf => ?_
        refine hS.bind_pushCopy hf hx fun f g hf => ?_
        refine hS.bind_pushCopy hf hv fun f g hf => ?_
        exact hS.pushAll (.cons hx'' (.cons hx' (.cons hx (.cons hv .nil)))) hf
      · refine hS.bind_pushCopy hf hx fun f g hf => ?_
        refine hS.bind_pushCopy hf hv fun f g hf => ?_
        exact hS.pushAll (.cons hx' (.cons hx (.cons hv .nil))) hf
    · refine hS.bind_pop hf fun x y f g hx hf => ?_
      dsimp only
      rw [hS.width hx]
      split
      · refine hS.bind_popNarrow hf fun x' y' f g hx' hf => ?_
        refine hS.bind_pushCopy hf hv fun f g hf => ?_
        exact hS.pushAll (.cons hx' (.cons hx (.cons hv .nil))) hf
      · refine hS.bind_pushCopy hf hv fun f g hf => ?_
        exact hS.pushAll (.cons hx (.cons hv .nil)) hf
  | swap =>
    refine hS.bind_popNarrow hf fun v w f g hv hf => ?_
    refine hS.bind_popNarrow hf fun x y f g hx hf => ?_
    refine hS.bind_pushCopy hf hv fun f g hf => ?_
    exact hS.pushCopy hf hx

/-! ## Instructions -/

omit [AbstractValue V] [AbstractValue W] in
/-- Both sides do one thing that does not concern values. -/
theorem bind_same {γ α β : Type} (x : Except AnalysisError γ) {results : α → β → Prop}
    {k : γ → Executed V α} {l : γ → Executed W β}
    (h : ∀ c, x = .ok c → S.Agree results (k c) (l c)) :
    S.Agree results ((x : Executed V γ) >>= k) ((x : Executed W γ) >>= l) := by
  cases x with
  | error e => exact .error .nil
  | ok c =>
    show S.Agree results (pure c >>= k) (pure c >>= l)
    rw [pure_bind, pure_bind]
    exact h c rfl

theorem invoke (hS : S.Respected I J i) (hf : S.Frames f g) :
    S.Agree S.Frames (Frame.invoke I i f) (Frame.invoke J i g) := by
  unfold Frame.invoke
  refine bind_same _ fun type _ => ?_
  refine bind_same _ fun arguments _ => ?_
  refine .bind (hS.popMany hf _) fun p q hp => ?_
  refine .bind (.record (.nary i hp.1) (hS.nary hp.1)) fun v w hv => ?_
  split
  · exact .pure hp.2
  · exact hS.pushResult hp.2 hv

theorem newArrays (hS : S.Respected I J i) (hf : S.Frames f g) :
    S.Agree S.Frames (Frame.newArrays I i f) (Frame.newArrays J i g) := by
  unfold Frame.newArrays
  split
  · refine .bind (hS.popMany hf _) fun p q hp => ?_
    refine .bind (.record (.nary i hp.1) (hS.nary hp.1)) fun v w hv => ?_
    exact hS.pushResult hp.2 hv
  · exact .throw _

/-- Related frames are changed alike by one instruction. -/
theorem execute (hS : S.Respected I J i) (hf : S.Frames f g) (returnType : JType) :
    S.Agree S.Frames (Frame.execute I i returnType f) (Frame.execute J i returnType g) := by
  unfold Frame.execute
  cases he : i.opcode.effect with
  | idle => exact .pure hf
  | unsupported => exact .throw _
  | produce =>
    refine .bind (.record (.produce i) hS.produce) fun v w hv => ?_
    exact hS.pushResult hf hv
  | load =>
    refine bind_same _ fun index _ => ?_
    refine .bind (hS.load index hf) fun v w hv => ?_
    exact hS.pushCopy hf hv
  | store =>
    refine bind_same _ fun index _ => ?_
    refine hS.bind_pop hf fun v w f g hv hf => ?_
    refine hS.bind_copy hv fun c d hc => ?_
    exact hS.store index hf hc
  | storeElement =>
    refine hS.bind_pop hf fun x x' f g hx hf => ?_
    refine hS.bind_pop hf fun w w' f g hw hf => ?_
    refine hS.bind_pop hf fun v v' f g hv hf => ?_
    exact .bind (.record (.ternary i hv hw hx) (hS.ternary hv hw hx)) fun _ _ _ => .pure hf
  | shuffle kind => exact hS.shuffle hf kind
  | combine =>
    refine hS.bind_pop hf fun w w' f g hw hf => ?_
    refine hS.bind_pop hf fun v v' f g hv hf => ?_
    refine .bind (.record (.binary i hv hw) (hS.binary hv hw)) fun r r' hr => ?_
    exact hS.pushResult hf hr
  | transform =>
    refine hS.bind_pop hf fun v v' f g hv hf => ?_
    refine .bind (.record (.unary i hv) (hS.unary hv)) fun r r' hr => ?_
    exact hS.pushResult hf hr
  | increment =>
    refine bind_same _ fun index _ => ?_
    refine .bind_of_ok (hS.load index hf) fun v w hload hv => ?_
    refine .bind_of_ok (.record (.unary i hv) (hS.unary hv)) fun r r' hunary hr => ?_
    cases hr with
    | none => exact .throw _
    | some hr => exact hS.increment index he hf hload hunary hr
  | consume =>
    refine hS.bind_pop hf fun v v' f g hv hf => ?_
    exact .bind (.record (.unary i hv) (hS.unary hv)) fun _ _ _ => .pure hf
  | consumeTwo =>
    refine hS.bind_pop hf fun w w' f g hw hf => ?_
    refine hS.bind_pop hf fun v v' f g hv hf => ?_
    exact .bind (.record (.binary i hv hw) (hS.binary hv hw)) fun _ _ _ => .pure hf
  | returnValue =>
    refine hS.bind_pop hf fun v v' f g hv hf => ?_
    refine .bind (.record (.unary i hv) (hS.unary hv)) fun _ _ _ => ?_
    split
    · exact .throw _
    · exact .bind (.record (.returned i returnType hv) (hS.returned returnType hv))
        fun _ _ _ => .pure hf
  | returnVoid =>
    dsimp only
    split
    · exact .pure hf
    · exact .throw _
  | invoke => exact hS.invoke hf
  | newArrays => exact hS.newArrays hf

end Respected

end Simulation

end Provenance

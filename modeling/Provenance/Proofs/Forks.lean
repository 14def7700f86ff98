/-
Executing an instruction before and after a join.

A fork is what one slot holds in two frames: a value of one of them, or values of one width of both.
An interpreter that looks at no value can work on forks as well as on values, so an instruction is
executed once on a frame of forks in place of twice on two frames. That frame is compared with the
two frames and with their join. Each of the two is what is seen of the forks from one side; a local
that is unset on a side cannot be loaded there, but all else goes the same way. The join has what
each fork comes to when its two values are merged, and nothing that an instruction does tells the
two apart.

So the results have the same join as the frames (`Frame.execute_join`): merging before an
instruction loses nothing against merging after it.
-/
import Provenance.Proofs.JoinLaws

set_option autoImplicit false

namespace Provenance

/-! ## Forks -/

/-- What one slot holds in two frames. -/
inductive Fork (V : Type) [AbstractValue V] where
  | left (v : V)
  | right (w : V)
  | both (v w : V) (h : AbstractValue.width v = AbstractValue.width w)

namespace Fork

variable {V : Type} [AbstractValue V]

/-- What the first frame holds. -/
def first? : Fork V → Option V
  | left v | both v _ _ => some v
  | right _ => none

/-- What the second frame holds. -/
def second? : Fork V → Option V
  | right w | both _ w _ => some w
  | left _ => none

instance : AbstractValue (Fork V) where
  width
    | left v | both v _ _ => AbstractValue.width v
    | right w => AbstractValue.width w

/-- Both frames hold one value. -/
def twice (v : V) : Fork V := both v v rfl

/-- A side from which forks are seen. -/
structure IsSide (side : Fork V → Option V) : Prop where
  width : ∀ {v p}, side p = some v → AbstractValue.width v = AbstractValue.width p
  twice : ∀ v, side (.twice v) = some v

theorem isSide_first? : IsSide (first? (V := V)) where
  width {v p} h := by
    cases p with
    | left => exact Option.some.inj h ▸ rfl
    | right => cases h
    | both => exact Option.some.inj h ▸ rfl
  twice _ := rfl

theorem isSide_second? : IsSide (second? (V := V)) where
  width {w p} h := by
    cases p with
    | left => cases h
    | right => exact Option.some.inj h ▸ rfl
    | both v w hw => exact Option.some.inj h ▸ hw.symm
  twice _ := rfl

end Fork

/-! ## One side of forks -/

/-- The comparison of a frame with one side of a frame of forks. What is unset on the side only
cannot be loaded there. -/
def Simulation.side {V : Type} [AbstractValue V] (side : Fork V → Option V) (limit : Nat) :
    Simulation V (Fork V) where
  values v p := side p = some v
  locals l l' := l = l'.map fun p => p.bind side
  floor := []
  limit := limit
  tolerated e := ∃ k, e = .uninitializedLocal k

namespace Simulation

variable {V : Type} [AbstractValue V] {side : Fork V → Option V} {limit : Nat}
  {f : Frame V} {p : Frame (Fork V)}

theorem side_frames : (Simulation.side side limit).Frames f p ↔
    f.locals = (p.locals.map fun x => x.bind side) ∧
      List.Forall₂ (fun v x => side x = some v) f.stack p.stack ∧
      f.maxStack = limit ∧ p.maxStack = limit :=
  frames_iff rfl

theorem local?_of_side (h : f.locals = p.locals.map fun x => x.bind side) (k : Nat) :
    f.local? k = (p.local? k).bind side := by
  rw [Frame.local?, Frame.local?, h, List.getElem?_map]
  cases p.locals[k]? <;> rfl

/-- A store changes the side of a local as it changes the local. -/
theorem afterStore_side (hside : Fork.IsSide side) {v : V} {x : Fork V} (hx : side x = some v)
    (index k : Nat) (old : Option (Fork V)) :
    Frame.afterStore index v k (old.bind side) = (Frame.afterStore index x k old).bind side := by
  unfold Frame.afterStore
  rw [hside.width hx]
  split
  · exact hx.symm
  · split
    · rfl
    · cases old with
      | none => simp
      | some y =>
        show (if k + 1 = index ∧ (side y).any _ then none else side y) = _
        cases hy : side y with
        | none =>
          -- what the side does not hold stays unset, whether or not it is overlapped
          rw [Option.any_none, if_neg (by simp)]
          split
          · rfl
          · exact hy.symm
        | some w =>
          rw [Option.any_some, Option.any_some, hside.width hy]
          split
          · rfl
          · exact hy.symm

theorem stored_side (hside : Fork.IsSide side) {v : V} {x : Fork V} (hx : side x = some v)
    (hl : f.locals = p.locals.map fun y => y.bind side) (index : Nat) :
    (f.stored index v).locals = (p.stored index x).locals.map fun y => y.bind side := by
  refine List.ext_getElem? fun k => ?_
  show (f.locals.mapIdx _)[k]? = ((p.locals.mapIdx _).map _)[k]?
  rw [List.getElem?_map, List.getElem?_mapIdx, List.getElem?_mapIdx, hl, List.getElem?_map]
  cases p.locals[k]? with
  | none => rfl
  | some old => exact congrArg some (afterStore_side hside hx index k old)

end Simulation

namespace Interpreter

open Simulation

variable {V : Type} [AbstractValue V] {I : Interpreter V} {J : Interpreter (Fork V)}
  {i : Instruction} {make : Option JType → Option V} {side : Fork V → Option V} {limit : Nat}

/-- An interpreter that looks at no value works on each side of forks as on values. -/
theorem side_respected (hside : Fork.IsSide side) (hI : I.Blind i make)
    (hJ : J.Blind i fun t => (make t).map .twice) :
    (Simulation.side side limit).Respected I J i := by
  refine blind_respected hI hJ hside.width rfl ?_ ?_ ?_ ?_
  · intro t _
    cases make t with
    | none => exact .none
    | some v => exact .some (hside.twice v)
  · intro f p index hf
    obtain ⟨hl, -, -, -⟩ := side_frames.1 hf
    unfold Frame.load
    rw [local?_of_side hl]
    cases hx : p.local? index with
    | none => exact .throw _
    | some x =>
      -- a local that only the other side holds is unset on this one
      rw [Option.bind_some]
      cases hv : side x with
      | none => exact .tolerated ⟨index, rfl⟩
      | some v => exact .pure hv
  · intro f p v x index hf hx
    obtain ⟨hl, hstack, hm, hm'⟩ := side_frames.1 hf
    have hlen : f.locals.length = p.locals.length := by rw [hl, List.length_map]
    -- whether a store succeeds depends on the width of the value alone
    rw [Frame.store_eq, Frame.store_eq, ← hside.width hx, ← hlen]
    split
    · exact .throw _
    · split
      · exact .throw _
      · exact .pure (side_frames.2 ⟨stored_side hside hx hl index, hstack, hm, hm'⟩)
  · intro f p v w x index _ hf hload _ hx
    obtain ⟨hl, hstack, hm, hm'⟩ := side_frames.1 hf
    have hlt : index < f.locals.length := Frame.lt_of_load hload
    have hlen : f.locals.length = p.locals.length := by rw [hl, List.length_map]
    rw [Frame.setLocal_of_lt hlt, Frame.setLocal_of_lt (by omega)]
    refine .pure (side_frames.2 ⟨?_, hstack, hm, hm'⟩)
    show f.locals.set index (some w) = (p.locals.set index (some x)).map _
    rw [hl, List.map_set]
    exact congrArg _ hx.symm

end Interpreter

/-! ## Forks and joins -/

namespace Frame

open Simulation

section

variable {V : Type} [AbstractValue V] {I : Interpreter V} {f g j : Frame V}
  {p : Frame (Fork V)} {limit : Nat}

/-- Frames of one shape and of agreeing widths are the sides of a frame of forks. -/
theorem exists_forks (hsize : f.locals.length = g.locals.length) (hwidths : f.WidthsAgree g)
    (hstack : List.Forall₂ (fun v w => AbstractValue.width v = AbstractValue.width w)
      f.stack g.stack) (hf : f.maxStack = limit) (hg : g.maxStack = limit) :
    ∃ p, (Simulation.side Fork.first? limit).Frames f p ∧
      (Simulation.side Fork.second? limit).Frames g p := by
  have hlocals : List.Forall₂ (fun v w => ∀ x y, v = some x → w = some y →
      AbstractValue.width x = AbstractValue.width y) f.locals g.locals := by
    refine List.forall₂_iff_get.2 ⟨hsize, fun k hk hk' x y hx hy => hwidths k x y ?_ ?_⟩
    · rw [local?, List.getElem?_eq_getElem hk]
      exact hx
    · rw [local?, List.getElem?_eq_getElem hk']
      exact hy
  obtain ⟨locals, hfirst, hsecond⟩ := exists_forall₂_of_forall₂
    (A := fun v (x : Option (Fork V)) => v = x.bind Fork.first?)
    (B := fun w (x : Option (Fork V)) => w = x.bind Fork.second?) hlocals fun v w hvw => by
      -- widths that differ could not be kept in one fork
      cases v with
      | none =>
        cases w with
        | none => exact ⟨none, rfl, rfl⟩
        | some w => exact ⟨some (.right w), rfl, rfl⟩
      | some v =>
        cases w with
        | none => exact ⟨some (.left v), rfl, rfl⟩
        | some w => exact ⟨some (.both v w (hvw v w rfl rfl)), rfl, rfl⟩
  obtain ⟨stack, hfirst', hsecond'⟩ := exists_forall₂_of_forall₂
    (A := fun v (x : Fork V) => x.first? = some v) (B := fun w (x : Fork V) => x.second? = some w)
    hstack fun v w hvw => ⟨.both v w hvw, rfl, rfl⟩
  exact ⟨⟨locals, stack, limit⟩,
    side_frames.2 ⟨forall₂_iff_eq_map.1 hfirst.flip, hfirst', hf, rfl⟩,
    side_frames.2 ⟨forall₂_iff_eq_map.1 hsecond.flip, hsecond', hg, rfl⟩⟩

/-- A fork comes to a value when what its sides hold is joined. -/
def Meets (I : Interpreter V) (x : Fork V) (u : V) : Prop :=
  JoinedLocal I x.first? x.second? (some u)

/-- The sides of a fork always meet in something. -/
theorem exists_meets {x : Fork V} {u : Option V} (h : JoinedLocal I x.first? x.second? u) :
    ∃ v, u = some v := by
  cases x with
  | left v => cases h; exact ⟨v, rfl⟩
  | right w => cases h; exact ⟨w, rfl⟩
  | both v w hw =>
    cases h with
    | merged => exact ⟨_, rfl⟩
    | dropped hne => exact absurd hw hne

/-- Joining the two sides of forks is the same as having every fork meet. -/
theorem joined_iff_meets (hf : (Simulation.side Fork.first? limit).Frames f p)
    (hg : (Simulation.side Fork.second? limit).Frames g p) :
    Joined I f g j ↔ (pointwise (fun _ => False) (Meets I) limit).Frames p j := by
  obtain ⟨hfl, hfs, hfm, hpm⟩ := side_frames.1 hf
  obtain ⟨hgl, hgs, hgm, -⟩ := side_frames.1 hg
  have hsize : f.locals.length = p.locals.length := by rw [hfl, List.length_map]
  have hsize' : g.locals.length = p.locals.length := by rw [hgl, List.length_map]
  rw [pointwise_frames]
  constructor
  · intro h
    refine ⟨⟨hsize.symm.trans h.size_joined.symm, fun k => ?_⟩, ?_, hpm, h.limit.trans hfm⟩
    · have hk := h.locals k
      rw [local?_of_side hfl, local?_of_side hgl] at hk
      cases hx : p.local? k with
      | none =>
        rw [hx] at hk
        generalize j.local? k = u at hk ⊢
        cases hk with
        | unset => exact .unset
      | some x =>
        rw [hx] at hk
        obtain ⟨u, hu⟩ := exists_meets hk
        rw [hu] at hk ⊢
        exact .set hk
    · refine List.forall₂_iff_get.2 ⟨hfs.length_eq.symm.trans h.height_joined.symm,
        fun k hk hk' => ?_⟩
      have hkf : k < f.stack.length := hfs.length_eq ▸ hk
      have hkg : k < g.stack.length := hgs.length_eq ▸ hk
      have hfirst := hfs.get hkf hk
      have hsecond := hgs.get hkg hk
      show JoinedLocal I (Fork.first? _) (Fork.second? _) _
      -- on the stack both sides hold something, so their widths agree
      rw [hfirst, hsecond]
      refine .merged ?_ (h.merge_getElem hkf hkg hk')
      exact (Fork.isSide_first?.width hfirst).trans (Fork.isSide_second?.width hsecond).symm
  · rintro ⟨⟨hlen, hlocals⟩, hstack, -, hjm⟩
    have hheight : j.stack.length = f.stack.length :=
      hstack.length_eq.symm.trans hfs.length_eq.symm
    refine ⟨hfs.length_eq.trans hgs.length_eq.symm, hsize.trans hsize'.symm, hjm.trans hfm.symm,
      hlen.symm.trans hsize.symm, fun k => ?_, hheight, fun k v w hv hw => ?_⟩
    · rw [local?_of_side hfl, local?_of_side hgl]
      have hk := hlocals k
      generalize p.local? k = x at hk ⊢
      generalize j.local? k = u at hk ⊢
      cases hk with
      | unset => exact .unset
      | gap hgap => exact hgap.elim
      | set hx => exact hx
    · obtain ⟨hkf, rfl⟩ := List.getElem?_eq_some_iff.1 hv
      obtain ⟨hkg, rfl⟩ := List.getElem?_eq_some_iff.1 hw
      have hk : k < p.stack.length := hfs.length_eq ▸ hkf
      have hkj : k < j.stack.length := hheight ▸ hkf
      have hmeets : JoinedLocal I (Fork.first? _) (Fork.second? _) _ := hstack.get hk hkj
      rw [show Fork.first? _ = _ from hfs.get hkf hk,
        show Fork.second? _ = _ from hgs.get hkg hk] at hmeets
      cases hmeets with
      | merged _ hm => exact ⟨_, List.getElem?_eq_getElem hkj, hm⟩

end

end Frame

/-! ## Trackers on forks -/

namespace Interpreter

open Simulation

variable {α : Type} [Coded α] [HasBase α] {i : Instruction}

/-- Tracks witnesses in two frames at once; what comes into being does so in both. Forks are moved
about and never merged. -/
def onForks (tag : Witness → α) : Interpreter (Fork (ValueSet α)) where
  newValue t origin := .ok ((createdAt tag origin t).map .twice)
  produce i := i.producedFromNone.map fun t => (createdBy tag i t).map .twice
  copy _ x := .ok x
  unary i _ := i.producedFromOne.map fun t => (createdBy tag i t).map .twice
  binary i _ _ := i.producedFromTwo.map fun t => (createdBy tag i t).map .twice
  ternary i _ _ _ := i.producedFromThree.map fun t => (createdBy tag i t).map .twice
  nary i _ := i.producedFromMany.map fun t => (createdBy tag i t).map .twice
  returned _ _ _ := .ok ()
  merge x _ := .ok x

theorem onForks_blind (tag : Witness → α) (i : Instruction) :
    (onForks tag).Blind i fun t => (createdBy tag i t).map .twice :=
  ⟨rfl, fun _ => rfl, fun _ => rfl, fun _ _ => rfl, fun _ _ _ => rfl, fun _ => rfl, fun _ _ => rfl⟩

/-- Forks and what they come to are changed alike. -/
theorem meets_respected (tag : Witness → α) (i : Instruction) (limit : Nat) :
    (pointwise (fun _ => False) (Frame.Meets (.tracking tag)) limit).Respected (onForks tag)
      (.tracking tag) i := by
  refine blind_respected_pointwise (onForks_blind tag i) (tracking_blind tag i) ?_ ?_
  · intro x u hx
    cases x with
    | left v => cases hx; rfl
    | right w => cases hx; rfl
    | both v w hw =>
      cases hx with
      | merged _ hm => exact (ValueSet.width_of_merge hm hw).symm
  · intro t _
    cases createdBy tag i t with
    | none => exact .none
    | some v => exact .some (.merged rfl v.merge_self)

end Interpreter

namespace Frame

open Interpreter

variable {α : Type} [Coded α] [HasBase α] {tag : Witness → α} {i : Instruction}
  {returnType : JType} {f g j f' g' : Frame (ValueSet α)}

/-- If an instruction can be executed on two frames that have a join, it can be executed on the
join, and the result is the join of the two results. No entry of the stacks may be empty, and no
local may be set in both with different widths. -/
theorem execute_join (hf : ∀ s ∈ f.stack, s.isEmpty = false)
    (hg : ∀ s ∈ g.stack, s.isEmpty = false) (hlimit : f.maxStack = g.maxStack)
    (hwidths : f.WidthsAgree g) (hj : (join (.tracking tag) f g).outcome = .ok j)
    (hf' : (execute (.tracking tag) i returnType f).outcome = .ok f')
    (hg' : (execute (.tracking tag) i returnType g).outcome = .ok g') :
    ∃ j', (execute (.tracking tag) i returnType j).outcome = .ok j' ∧
      (join (.tracking tag) f' g').outcome = .ok j' := by
  have hjoined : Joined (.tracking tag) f g j := join_eq_ok.1 hj
  -- entries that are not empty were merged, so they have one width
  have hstack : List.Forall₂ (fun s t : ValueSet α => s.width = t.width) f.stack g.stack := by
    refine List.forall₂_iff_get.2 ⟨hjoined.height, fun k hk hk' => ?_⟩
    have hkj : k < j.stack.length := hjoined.height_joined ▸ hk
    exact ((ValueSet.merge_eq_ok_of_nonempty (hf _ (List.getElem_mem hk))
      (hg _ (List.getElem_mem hk'))).1 (hjoined.merge_getElem hk hk' hkj)).1
  obtain ⟨p, hfp, hgp⟩ := exists_forks hjoined.size hwidths hstack rfl hlimit.symm
  -- the forks go the way of each side, since neither side fails
  obtain ⟨p', hp', hfp', -⟩ := ((side_respected Fork.isSide_first? (tracking_blind tag i)
    (onForks_blind tag i)).execute hfp returnType).of_left hf'
  obtain ⟨p'', hp'', hgp', -⟩ := ((side_respected Fork.isSide_second? (tracking_blind tag i)
    (onForks_blind tag i)).execute hgp returnType).of_left hg'
  obtain rfl : p' = p'' := Except.ok.inj (hp'.symm.trans hp'')
  obtain ⟨j', hj', hpj, -⟩ := ((meets_respected tag i f.maxStack).execute
    ((joined_iff_meets hfp hgp).1 hjoined) returnType).of_left hp'
  exact ⟨j', hj', join_eq_ok.2 ((joined_iff_meets hfp' hgp').2 hpj)⟩

/-- A long argument in the locals, and a number on the stack. -/
def wideBelow : Frame PossibleValues :=
  ⟨[some (.single ⟨.parameter 0, .long⟩), none], [.single ⟨.instruction 0, .int⟩], 1⟩

/-- A narrow argument where the long one has its second slot, and another number on the stack. -/
def narrowAbove : Frame PossibleValues :=
  ⟨[none, some (.single ⟨.parameter 1, .int⟩)], [.single ⟨.instruction 1, .int⟩], 1⟩

/-- A store that unsets the long argument where it is set, which is in one frame and in the join. -/
theorem execute_join_wideBelow :
    ∃ j f' g' j', (join .possibleValues wideBelow narrowAbove).outcome = .ok j ∧
      (execute .possibleValues ⟨2, .istore, .var 1⟩ .void wideBelow).outcome = .ok f' ∧
      (execute .possibleValues ⟨2, .istore, .var 1⟩ .void narrowAbove).outcome = .ok g' ∧
      (execute .possibleValues ⟨2, .istore, .var 1⟩ .void j).outcome = .ok j' ∧
      (join .possibleValues f' g').outcome = .ok j' := by
  obtain ⟨j, hj⟩ : ∃ j, (join .possibleValues wideBelow narrowAbove).outcome = .ok j := ⟨_, rfl⟩
  obtain ⟨f', hf'⟩ : ∃ f', (execute .possibleValues ⟨2, .istore, .var 1⟩ .void
    wideBelow).outcome = .ok f' := ⟨_, rfl⟩
  obtain ⟨g', hg'⟩ : ∃ g', (execute .possibleValues ⟨2, .istore, .var 1⟩ .void
    narrowAbove).outcome = .ok g' := ⟨_, rfl⟩
  obtain ⟨j', hj', hjoin⟩ := @execute_join Witness _ _ id ⟨2, .istore, .var 1⟩ .void wideBelow
    narrowAbove j f' g' (by decide +kernel) (by decide +kernel) rfl (by decide +kernel) hj hf' hg'
  exact ⟨j, f', g', j', hj, hf', hg', hj', hjoin⟩

end Frame

end Provenance

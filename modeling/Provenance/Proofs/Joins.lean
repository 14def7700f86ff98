/-
Joins of frames.

A join of two frames is told by what it holds in each slot (`Frame.Joined`). If no local is set in
both frames with different widths, both lie within it. It lies within every frame within which both
lie in any case, and it is the first frame unchanged exactly if the second lies within the first. So
the joins that go wrong are those where the widths of a local disagree: the join leaves it unset, and
has forgotten what the two frames said of it.

A join of clear frames is clear unless a wide value that only one of them has meets the value behind
it that only the other has.
-/
import Provenance.Frame.Join
import Provenance.Proofs.Proper

set_option autoImplicit false

namespace Provenance.Frame

section Generic

variable {V : Type} {I : Interpreter V}

/-! ## What a join holds -/

theorem joinStacks_cons_eq_ok {v w : V} {s s' r : List V} :
    (joinStacks I (v :: s) (w :: s')).outcome = .ok r ↔
      ∃ rest u, (joinStacks I s s').outcome = .ok rest ∧ I.merge v w = .ok u ∧
        r = u :: rest := by
  rw [joinStacks, Traced.bind_outcome_eq_ok]
  constructor
  · rintro ⟨rest, hrest, h⟩
    obtain ⟨u, hu, h⟩ := Traced.bind_outcome_eq_ok.1 h
    exact ⟨rest, u, hrest, hu, (Except.ok.inj h).symm⟩
  · rintro ⟨rest, u, hrest, hu, rfl⟩
    exact ⟨rest, hrest, Traced.bind_outcome_eq_ok.2 ⟨u, hu, rfl⟩⟩

/-- What joined stacks hold. -/
theorem joinStacks_eq_ok {s s' r : List V} (h : s.length = s'.length) :
    (joinStacks I s s').outcome = .ok r ↔
      r.length = s.length ∧ ∀ (k : Nat) v w, s[k]? = some v → s'[k]? = some w →
        ∃ u, r[k]? = some u ∧ I.merge v w = .ok u := by
  induction s generalizing s' r with
  | nil =>
    cases s' with
    | nil => simp [joinStacks, eq_comm]
    | cons w s' => cases h
  | cons v s ih =>
    cases s' with
    | nil => cases h
    | cons w s' =>
      have hlen : s.length = s'.length := Nat.succ.inj h
      rw [joinStacks_cons_eq_ok]
      constructor
      · rintro ⟨rest, u, hrest, hu, rfl⟩
        obtain ⟨hl, hrest⟩ := (ih hlen).1 hrest
        refine ⟨congrArg (· + 1) hl, fun k x y hx hy => ?_⟩
        cases k with
        | zero =>
          obtain rfl : v = x := Option.some.inj hx
          obtain rfl : w = y := Option.some.inj hy
          exact ⟨u, rfl, hu⟩
        | succ k => exact hrest k x y hx hy
      · rintro ⟨hl, hr⟩
        cases r with
        | nil => cases hl
        | cons u rest =>
          obtain ⟨u', hu', hu⟩ := hr 0 v w rfl rfl
          obtain rfl : u = u' := Option.some.inj hu'
          refine ⟨rest, u, (ih hlen).2 ⟨Nat.succ.inj hl, fun k x y hx hy => ?_⟩, hu, rfl⟩
          exact hr (k + 1) x y hx hy

variable [AbstractValue V]

theorem joinLocals_cons_eq_ok {v w : Option V} {l l' r : List (Option V)} :
    (joinLocals I (v :: l) (w :: l')).outcome = .ok r ↔
      ∃ u rest, (joinLocal I v w).outcome = .ok u ∧ (joinLocals I l l').outcome = .ok rest ∧
        r = u :: rest := by
  rw [joinLocals, Traced.bind_outcome_eq_ok]
  constructor
  · rintro ⟨u, hu, h⟩
    obtain ⟨rest, hrest, h⟩ := Traced.bind_outcome_eq_ok.1 h
    exact ⟨u, rest, hu, hrest, (Except.ok.inj h).symm⟩
  · rintro ⟨u, rest, hu, hrest, rfl⟩
    exact ⟨u, hu, Traced.bind_outcome_eq_ok.2 ⟨rest, hrest, rfl⟩⟩

/-- What joined locals hold. -/
theorem joinLocals_eq_ok {l l' r : List (Option V)} (h : l.length = l'.length) :
    (joinLocals I l l').outcome = .ok r ↔
      r.length = l.length ∧ ∀ k : Nat, (joinLocal I (l[k]?.join) (l'[k]?.join)).outcome
        = .ok (r[k]?.join) := by
  induction l generalizing l' r with
  | nil =>
    cases l' with
    | nil => cases r <;> simp [joinLocals, joinLocal]
    | cons w l' => cases h
  | cons v l ih =>
    cases l' with
    | nil => cases h
    | cons w l' =>
      have hlen : l.length = l'.length := Nat.succ.inj h
      rw [joinLocals_cons_eq_ok]
      constructor
      · rintro ⟨u, rest, hu, hrest, rfl⟩
        obtain ⟨hl, hrest⟩ := (ih hlen).1 hrest
        refine ⟨congrArg (· + 1) hl, fun k => ?_⟩
        cases k with
        | zero => exact hu
        | succ k => exact hrest k
      · rintro ⟨hl, hr⟩
        cases r with
        | nil => cases hl
        | cons u rest =>
          exact ⟨u, rest, hr 0, (ih hlen).2 ⟨Nat.succ.inj hl, fun k => hr (k + 1)⟩, rfl⟩

/-- What a local of a join holds, by what it holds in the two frames. -/
inductive JoinedLocal (I : Interpreter V) : Option V → Option V → Option V → Prop
  | unset : JoinedLocal I none none none
  | left (v : V) : JoinedLocal I (some v) none (some v)
  | right (w : V) : JoinedLocal I none (some w) (some w)
  | merged {v w u : V} (hw : AbstractValue.width v = AbstractValue.width w)
    (h : I.merge v w = .ok u) : JoinedLocal I (some v) (some w) (some u)
  | dropped {v w : V} (hw : AbstractValue.width v ≠ AbstractValue.width w) :
    JoinedLocal I (some v) (some w) none

theorem joinLocal_eq_ok {v w u : Option V} :
    (joinLocal I v w).outcome = .ok u ↔ JoinedLocal I v w u := by
  constructor
  · intro h
    match v, w with
    | none, none => obtain rfl := Except.ok.inj h; exact .unset
    | some v, none => obtain rfl := Except.ok.inj h; exact .left v
    | none, some w => obtain rfl := Except.ok.inj h; exact .right w
    | some v, some w =>
      rw [joinLocal] at h
      by_cases hw : AbstractValue.width v = AbstractValue.width w
      · rw [if_pos hw] at h
        obtain ⟨x, hx, h⟩ := Traced.bind_outcome_eq_ok.1 h
        obtain rfl := Except.ok.inj h
        exact .merged hw hx
      · rw [if_neg hw] at h
        obtain rfl := Except.ok.inj h
        exact .dropped hw
  · intro h
    cases h with
    | unset | left | right => rfl
    | merged hw h =>
      rw [joinLocal]
      rw [if_pos hw]
      exact Traced.bind_outcome_eq_ok.2 ⟨_, h, rfl⟩
    | dropped hw =>
      rw [joinLocal]
      rw [if_neg hw]
      rfl

/-- A frame is the join of two others, slot by slot. -/
structure Joined (I : Interpreter V) (f g joined : Frame V) : Prop where
  height : f.stack.length = g.stack.length
  size : f.locals.length = g.locals.length
  limit : joined.maxStack = f.maxStack
  size_joined : joined.locals.length = f.locals.length
  locals : ∀ k, JoinedLocal I (f.local? k) (g.local? k) (joined.local? k)
  height_joined : joined.stack.length = f.stack.length
  stack : ∀ (k : Nat) v w, f.stack[k]? = some v → g.stack[k]? = some w →
    ∃ u, joined.stack[k]? = some u ∧ I.merge v w = .ok u

/-- A frame is the join of two others if its locals and its stack are those of them joined. -/
theorem joined_iff {f g joined : Frame V} :
    Joined I f g joined ↔ f.stack.length = g.stack.length ∧ f.locals.length = g.locals.length ∧
      joined.maxStack = f.maxStack ∧ (joinLocals I f.locals g.locals).outcome = .ok joined.locals ∧
      (joinStacks I f.stack g.stack).outcome = .ok joined.stack := by
  constructor
  · intro h
    exact ⟨h.height, h.size, h.limit,
      (joinLocals_eq_ok h.size).2 ⟨h.size_joined, fun k => joinLocal_eq_ok.2 (h.locals k)⟩,
      (joinStacks_eq_ok h.height).2 ⟨h.height_joined, h.stack⟩⟩
  · rintro ⟨height, size, limit, hlocals, hstack⟩
    obtain ⟨size_joined, hlocals⟩ := (joinLocals_eq_ok size).1 hlocals
    obtain ⟨height_joined, hstack⟩ := (joinStacks_eq_ok height).1 hstack
    exact ⟨height, size, limit, size_joined, fun k => joinLocal_eq_ok.1 (hlocals k),
      height_joined, hstack⟩

/-- A join succeeds with a frame exactly if that is the join slot by slot. -/
theorem join_eq_ok {f g joined : Frame V} :
    (join I f g).outcome = .ok joined ↔ Joined I f g joined := by
  rw [joined_iff]
  unfold join
  by_cases hs : f.stack.length ≠ g.stack.length
  · rw [if_pos hs]
    exact ⟨nofun, fun h => absurd h.1 hs⟩
  rw [if_neg hs]
  by_cases hl : f.locals.length ≠ g.locals.length
  · rw [if_pos hl]
    exact ⟨nofun, fun h => absurd h.2.1 hl⟩
  rw [if_neg hl]
  rw [ne_eq, not_not] at hs hl
  rw [Traced.bind_outcome_eq_ok]
  constructor
  · rintro ⟨locals, hlocals, h⟩
    obtain ⟨stack, hstack, h⟩ := Traced.bind_outcome_eq_ok.1 h
    obtain rfl : ({ f with locals, stack } : Frame V) = joined := Except.ok.inj h
    exact ⟨hs, hl, rfl, hlocals, hstack⟩
  · rintro ⟨-, -, hlimit, hlocals, hstack⟩
    refine ⟨joined.locals, hlocals, Traced.bind_outcome_eq_ok.2 ⟨joined.stack, hstack, ?_⟩⟩
    rw [← hlimit]
    rfl

section Joined

variable {f g joined : Frame V}

/-- A stack entry of a join is merged from the entries of the two frames at its depth. -/
theorem Joined.merge_getElem (h : Joined I f g joined) {k : Nat} (hf : k < f.stack.length)
    (hg : k < g.stack.length) (hj : k < joined.stack.length) :
    I.merge f.stack[k] g.stack[k] = .ok joined.stack[k] := by
  obtain ⟨u, hu, hm⟩ := h.stack k _ _ (List.getElem?_eq_getElem hf) (List.getElem?_eq_getElem hg)
  rw [List.getElem?_eq_getElem hj] at hu
  rw [hm, Option.some.inj hu]

theorem Joined.exists_of_mem (h : Joined I f g joined) {u : V} (hu : u ∈ joined.stack) :
    ∃ v ∈ f.stack, ∃ w ∈ g.stack, I.merge v w = .ok u := by
  obtain ⟨k, hk, rfl⟩ := List.getElem_of_mem hu
  have hf : k < f.stack.length := h.height_joined ▸ hk
  have hg : k < g.stack.length := h.height ▸ hf
  exact ⟨_, List.getElem_mem hf, _, List.getElem_mem hg, h.merge_getElem hf hg hk⟩

/-- A local that a join sets comes from one frame, where the other has none, or is merged from
both. -/
theorem Joined.of_local? (h : Joined I f g joined) {k : Nat} {u : V}
    (hu : joined.local? k = some u) :
    (f.local? k = some u ∧ g.local? k = none) ∨ (f.local? k = none ∧ g.local? k = some u) ∨
      ∃ v w, f.local? k = some v ∧ g.local? k = some w ∧ I.merge v w = .ok u := by
  have hk := h.locals k
  rw [hu] at hk
  generalize f.local? k = v at hk ⊢
  generalize g.local? k = w at hk ⊢
  cases hk with
  | left => exact .inl ⟨rfl, rfl⟩
  | right => exact .inr (.inl ⟨rfl, rfl⟩)
  | merged _ hm => exact .inr (.inr ⟨_, _, rfl, rfl, hm⟩)

end Joined

/-! ## Joins that forget and joins that overlap -/

/-- No local is set in both frames with different widths. -/
def WidthsAgree (f g : Frame V) : Prop :=
  ∀ k v w, f.local? k = some v → g.local? k = some w →
    AbstractValue.width v = AbstractValue.width w

instance (f g : Frame V) : Decidable (f.WidthsAgree g) :=
  decidable_of_iff
    (∀ k < f.locals.length, (f.local? k).all fun v =>
      (g.local? k).all fun w => AbstractValue.width v = AbstractValue.width w) <| by
    constructor
    · intro h k v w hv hw
      have hk := h k (lt_of_local? hv)
      rw [hv, hw] at hk
      exact of_decide_eq_true hk
    · intro h k _
      cases hv : f.local? k with
      | none => rfl
      | some v =>
        cases hw : g.local? k with
        | none => rfl
        | some w => exact decide_eq_true (h k v w hv hw)

/-- The wide values of the first frame, where the second has none, are followed by unset locals in
the second frame as well. -/
def ClearOf (f g : Frame V) : Prop :=
  ∀ k v, f.local? k = some v → AbstractValue.width v = 2 → g.local? k = none →
    g.local? (k + 1) = none

instance (f g : Frame V) : Decidable (f.ClearOf g) :=
  decidable_of_iff
    (∀ k < f.locals.length, (f.local? k).all fun v => AbstractValue.width v = 2 →
      (g.local? k).isNone → (g.local? (k + 1)).isNone) <| by
    constructor
    · intro h k v hv hw hg
      have hk := h k (lt_of_local? hv)
      rw [hv, hg] at hk
      exact Option.isNone_iff_eq_none.1 (of_decide_eq_true hk hw rfl)
    · intro h k _
      cases hv : f.local? k with
      | none => rfl
      | some v =>
        refine decide_eq_true fun hw hg => Option.isNone_iff_eq_none.2 ?_
        exact h k v hv hw (Option.isNone_iff_eq_none.1 hg)

end Generic

section Tracking

variable {α : Type} [Coded α] [HasBase α] {tag : Witness → α} {maxLocals maxStack : Nat}
  {f g joined bound : Frame (ValueSet α)}

/-! ## Joins in the order of frames -/

/-- A join of proper frames is proper. -/
theorem Proper.join (hf : f.Proper maxLocals maxStack) (hg : g.Proper maxLocals maxStack)
    (h : Joined (.tracking tag) f g joined) : joined.Proper maxLocals maxStack where
  size := h.size_joined.trans hf.size
  limit := h.limit.trans hf.limit
  locals k u hu := by
    rcases h.of_local? hu with ⟨hv, -⟩ | ⟨-, hw⟩ | ⟨v, w, hv, hw, hm⟩
    · exact hf.locals k u hv
    · exact hg.locals k u hw
    · exact (hf.locals k v hv).merge (hg.locals k w hw) hm
  stack u hu := by
    obtain ⟨v, hv, w, hw, hm⟩ := h.exists_of_mem hu
    exact (hf.stack v hv).merge (hg.stack w hw) hm

/-- The first frame lies within a join at which the widths agree. -/
theorem within_join_left (hf : f.Proper maxLocals maxStack) (hg : g.Proper maxLocals maxStack)
    (hw : f.WidthsAgree g) (h : Joined (.tracking tag) f g joined) : f.Within joined where
  size := h.size_joined.symm
  limit := h.limit.symm
  locals k v hv := by
    have hk := h.locals k
    rw [hv] at hk
    generalize hgk : g.local? k = w at hk
    generalize joined.local? k = u at hk ⊢
    cases hk with
    | left => exact ⟨v, rfl, .refl v⟩
    | merged _ hm =>
      exact ⟨_, rfl, (hf.locals k v hv).within_merge_left (hg.locals k _ hgk) hm⟩
    | dropped hne =>
      -- only different widths make a join forget
      exact absurd (hw k v _ hv hgk) hne
  stack := by
    refine List.forall₂_iff_get.2 ⟨h.height_joined.symm, fun k hk hk' => ?_⟩
    have hkg : k < g.stack.length := h.height ▸ hk
    exact (hf.stack _ (List.getElem_mem hk)).within_merge_left
      (hg.stack _ (List.getElem_mem hkg)) (h.merge_getElem hk hkg hk')

/-- The second frame lies within a join at which the widths agree. -/
theorem within_join_right (hf : f.Proper maxLocals maxStack) (hg : g.Proper maxLocals maxStack)
    (hw : f.WidthsAgree g) (h : Joined (.tracking tag) f g joined) : g.Within joined where
  size := h.size.symm.trans h.size_joined.symm
  limit := hg.limit.trans (hf.limit.symm.trans h.limit.symm)
  locals k w hgk := by
    have hk := h.locals k
    rw [hgk] at hk
    generalize hv : f.local? k = v at hk
    generalize joined.local? k = u at hk ⊢
    cases hk with
    | right => exact ⟨w, rfl, .refl w⟩
    | merged _ hm =>
      exact ⟨_, rfl, (hf.locals k _ hv).within_merge_right (hg.locals k w hgk) hm⟩
    | dropped hne => exact absurd (hw k _ w hv hgk) hne
  stack := by
    refine List.forall₂_iff_get.2 ⟨h.height.symm.trans h.height_joined.symm, fun k hk hk' => ?_⟩
    have hkf : k < f.stack.length := h.height.symm ▸ hk
    exact (hf.stack _ (List.getElem_mem hkf)).within_merge_right
      (hg.stack _ (List.getElem_mem hk)) (h.merge_getElem hkf hk hk')

/-- A join lies within every frame within which both frames lie. -/
theorem join_within (hf : f.Proper maxLocals maxStack) (hg : g.Proper maxLocals maxStack)
    (h : Joined (.tracking tag) f g joined) (hfb : f.Within bound) (hgb : g.Within bound) :
    joined.Within bound where
  size := h.size_joined.trans hfb.size
  limit := h.limit.trans hfb.limit
  locals k u hu := by
    rcases h.of_local? hu with ⟨hv, -⟩ | ⟨-, hw⟩ | ⟨v, w, hv, hw, hm⟩
    · exact hfb.locals k u hv
    · exact hgb.locals k u hw
    · -- the bound has one set for both
      obtain ⟨b, hb, hvb⟩ := hfb.locals k v hv
      obtain ⟨b', hb', hwb⟩ := hgb.locals k w hw
      obtain rfl : b = b' := Option.some.inj (hb.symm.trans hb')
      exact ⟨b, hb, (hf.locals k v hv).merge_within (hg.locals k w hw) hm hvb hwb⟩
  stack := by
    refine List.forall₂_iff_get.2 ⟨h.height_joined.trans hfb.stack.length_eq,
      fun k hk hk' => ?_⟩
    have hkf : k < f.stack.length := h.height_joined ▸ hk
    have hkg : k < g.stack.length := h.height ▸ hkf
    exact (hf.stack _ (List.getElem_mem hkf)).merge_within (hg.stack _ (List.getElem_mem hkg))
      (h.merge_getElem hkf hkg hk) (hfb.stack.get hkf hk') (hgb.stack.get hkg hk')

omit [HasBase α] in
/-- Widths agree in frames that lie within one frame. -/
theorem widthsAgree_of_within (hf : f.Within bound) (hg : g.Within bound) : f.WidthsAgree g := by
  intro k v w hv hw
  obtain ⟨b, hb, hvb⟩ := hf.locals k v hv
  obtain ⟨b', hb', hwb⟩ := hg.locals k w hw
  obtain rfl : b = b' := Option.some.inj (hb.symm.trans hb')
  exact hvb.width.trans hwb.width.symm

/-- A join changes nothing exactly if the second frame lies within the first. -/
theorem join_eq_left (hf : f.Proper maxLocals maxStack) (hg : g.Proper maxLocals maxStack) :
    (join (.tracking tag) f g).outcome = .ok f ↔ g.Within f := by
  rw [join_eq_ok]
  constructor
  · intro h
    refine within_join_right hf hg ?_ h
    intro k v w hv hw
    have hk := h.locals k
    rw [hv, hw] at hk
    cases hk with
    | merged hwidth _ => exact hwidth
  · intro h
    refine ⟨h.stack.length_eq.symm, h.size.symm, rfl, rfl, fun k => ?_, rfl, ?_⟩
    · cases hw : g.local? k with
      | none =>
        cases f.local? k with
        | none => exact .unset
        | some v => exact .left v
      | some w =>
        obtain ⟨v, hv, hwv⟩ := h.locals k w hw
        rw [hv]
        exact .merged hwv.width.symm (((hf.locals k v hv).merge_eq_left (hg.locals k w hw)).2 hwv)
    · -- merging with what is held already is no merging at all
      intro k v w hv hw
      obtain ⟨hkf, rfl⟩ := List.getElem?_eq_some_iff.1 hv
      obtain ⟨hkg, rfl⟩ := List.getElem?_eq_some_iff.1 hw
      exact ⟨_, hv, ((hf.stack _ (List.getElem_mem hkf)).merge_eq_left
        (hg.stack _ (List.getElem_mem hkg))).2
          (h.stack.get hkg hkf)⟩

/-! ## Joins of clear frames -/

/-- A join of clear frames is clear if no wide value of one meets a value behind it of the
other. -/
theorem Clear.join (hf : f.Proper maxLocals maxStack) (hg : g.Proper maxLocals maxStack)
    (hcf : f.Clear) (hcg : g.Clear) (hfg : f.ClearOf g) (hgf : g.ClearOf f)
    (h : Joined (.tracking tag) f g joined) : joined.Clear := by
  intro k u hu hwide
  -- behind a wide value of the join both frames have nothing
  have hnext : f.local? (k + 1) = none ∧ g.local? (k + 1) = none := by
    rcases h.of_local? hu with ⟨hv, hw⟩ | ⟨hv, hw⟩ | ⟨v, w, hv, hw, hm⟩
    · exact ⟨hcf k u hv hwide, hfg k u hv hwide hw⟩
    · exact ⟨hgf k u hw hwide hv, hcg k u hw hwide⟩
    · have hvu : v.width = u.width :=
        ((hf.locals k v hv).within_merge_left (hg.locals k w hw) hm).width
      have hwu : w.width = u.width :=
        ((hf.locals k v hv).within_merge_right (hg.locals k w hw) hm).width
      exact ⟨hcf k v hv (hvu.trans hwide), hcg k w hw (hwu.trans hwide)⟩
  have hk := h.locals (k + 1)
  rw [hnext.1, hnext.2] at hk
  generalize joined.local? (k + 1) = x at hk ⊢
  cases hk with
  | unset => rfl

omit [HasBase α] in
/-- Frames that lie within a clear frame do not overlap each other. -/
theorem clearOf_of_within (hb : bound.Clear) (hf : f.Within bound) (hg : g.Within bound) :
    f.ClearOf g := by
  intro k v hv hwide _
  -- the bound is wide there as well, and what lies behind is unset in it
  obtain ⟨b, hbk, hvb⟩ := hf.locals k v hv
  have hnone := hb k b hbk (hvb.width.symm.trans hwide)
  cases hw : g.local? (k + 1) with
  | none => rfl
  | some w =>
    obtain ⟨b', hb', -⟩ := hg.locals (k + 1) w hw
    rw [hnone] at hb'
    cases hb'

end Tracking

end Provenance.Frame

/-
What loads and stores do to the locals.

A store writes one local and unsets up to two: the one behind a wide value, and the one before it if
that holds a wide value which the new one would overlap. `Frame.store_eq` says this in one step for
all locals at once, so that what follows from it can be read off local by local.

Two frames are compared by their locals one at a time (`Simulation.Local`). A set local goes with a
set one and an unset local with an unset one, except where there may be gaps, which is to say that a
local may be unset on the left and set on the right. A load from a gap is the only thing that
succeeds on the right and fails on the left; stores make no gaps.
-/
import Provenance.Proofs.Simulation

set_option autoImplicit false

namespace Provenance

namespace Frame

variable {V : Type}

/-! ## Reading and writing a local -/

theorem lt_of_local? {f : Frame V} {index : Nat} {v : V} (h : f.local? index = some v) :
    index < f.locals.length := by
  by_contra hi
  rw [local?, List.getElem?_eq_none (by omega)] at h
  cases h

theorem local?_eq_none {f : Frame V} {index : Nat} (h : f.locals.length ≤ index) :
    f.local? index = none := by
  rw [local?, List.getElem?_eq_none h]
  rfl

/-- A blank frame has all its locals unset. -/
theorem local?_blank (maxLocals maxStack index : Nat) :
    (blank maxLocals maxStack : Frame V).local? index = none := by
  show (List.replicate maxLocals none)[index]?.join = none
  rw [List.getElem?_replicate]
  split <;> rfl

theorem load_eq_ok {f : Frame V} {index : Nat} {v : V} :
    f.load index = .ok v ↔ f.local? index = some v := by
  unfold load
  cases f.local? index <;> simp

theorem varOf_eq_ok {i : Instruction} {index : Nat} :
    varOf i = .ok index ↔ i.operand.var? = some index := by
  unfold varOf
  cases i.operand.var? <;> simp

theorem lt_of_load {f : Frame V} {index : Nat} {v : V} (h : f.load index = .ok v) :
    index < f.locals.length := lt_of_local? (load_eq_ok.1 h)

theorem setLocal_of_lt {f : Frame V} {index : Nat} (h : index < f.locals.length)
    (v : Option V) : f.setLocal index v = .ok { f with locals := f.locals.set index v } :=
  if_pos h

theorem setLocal_of_le {f : Frame V} {index : Nat} (h : f.locals.length ≤ index)
    (v : Option V) : f.setLocal index v = .error (.invalidLocal index) :=
  if_neg (by omega)

theorem local?_set {f : Frame V} {index : Nat} (h : index < f.locals.length) (v : Option V)
    (k : Nat) :
    { f with locals := f.locals.set index v }.local? k
      = if k = index then v else f.local? k := by
  show (f.locals.set index v)[k]?.join = _
  rw [List.getElem?_set]
  by_cases hk : k = index
  · rw [if_pos hk.symm, if_pos h, if_pos hk]
    rfl
  · rw [if_neg (Ne.symm hk), if_neg hk]
    rfl

/-- Two frames that agree in their parts, the locals compared one by one, are equal. -/
theorem eq_of_local? {f g : Frame V} (hl : f.locals.length = g.locals.length)
    (h : ∀ k, f.local? k = g.local? k) (hs : f.stack = g.stack)
    (hm : f.maxStack = g.maxStack) : f = g := by
  have hlocals : f.locals = g.locals := by
    refine List.ext_getElem hl fun k hf hg => ?_
    have hk := h k
    rw [local?, local?, List.getElem?_eq_getElem hf, List.getElem?_eq_getElem hg] at hk
    exact hk
  cases f
  cases g
  subst hlocals hs hm
  rfl

variable [AbstractValue V]

/-! ## Stores -/

/-- What a local holds after a store of a value to an index. -/
def afterStore (index : Nat) (v : V) (k : Nat) (old : Option V) : Option V :=
  if k = index then some v
  else if k = index + 1 ∧ AbstractValue.width v = 2 then none
  else if k + 1 = index ∧ old.any fun w => AbstractValue.width w = 2 then none
  else old

/-- The frame after a store that succeeds. -/
def stored (f : Frame V) (index : Nat) (v : V) : Frame V :=
  { f with locals := f.locals.mapIdx (afterStore index v) }

@[simp] theorem stored_stack (f : Frame V) (index : Nat) (v : V) :
    (f.stored index v).stack = f.stack := rfl

@[simp] theorem stored_maxStack (f : Frame V) (index : Nat) (v : V) :
    (f.stored index v).maxStack = f.maxStack := rfl

@[simp] theorem length_stored (f : Frame V) (index : Nat) (v : V) :
    (f.stored index v).locals.length = f.locals.length := List.length_mapIdx

/-- Every local after a store. -/
theorem local?_stored {f : Frame V} {index : Nat} (h : index < f.locals.length) (v : V)
    (k : Nat) : (f.stored index v).local? k = afterStore index v k (f.local? k) := by
  show (f.locals.mapIdx (afterStore index v))[k]?.join = _
  rw [List.getElem?_mapIdx]
  by_cases hk : k < f.locals.length
  · rw [local?, List.getElem?_eq_getElem hk]
    rfl
  · rw [local?_eq_none (by omega), List.getElem?_eq_none (by omega), afterStore,
      if_neg (by omega)]
    split <;> simp

/-- Unsetting the local before an index, if it is overlapped. -/
theorem local?_unsetOverlapping (f : Frame V) (index : Nat) :
    ∃ g, f.unsetOverlapping index = .ok g ∧ g.locals.length = f.locals.length ∧
      g.stack = f.stack ∧ g.maxStack = f.maxStack ∧
      ∀ k, g.local? k = if k + 1 = index ∧ (f.local? k).any fun w => AbstractValue.width w = 2
        then none else f.local? k := by
  cases index with
  | zero =>
    -- nothing lies before the first local
    exact ⟨f, rfl, rfl, rfl, rfl, fun k => by rw [if_neg (by omega)]⟩
  | succ before =>
    rw [unsetOverlapping]
    by_cases hw : (f.local? before).any fun w => AbstractValue.width w = 2
    · obtain ⟨w, hw', _⟩ := (Option.any_eq_true ..).1 hw
      have hlt := lt_of_local? hw'
      rw [if_pos hw, setLocal_of_lt hlt]
      refine ⟨_, rfl, List.length_set, rfl, rfl, fun k => ?_⟩
      rw [local?_set hlt]
      by_cases hk : k = before
      · rw [if_pos hk, hk, if_pos ⟨rfl, hw⟩]
      · rw [if_neg hk, if_neg (by omega)]
    · rw [if_neg hw]
      refine ⟨f, rfl, rfl, rfl, rfl, fun k => ?_⟩
      rw [if_neg]
      rintro ⟨hk, hk'⟩
      obtain rfl : k = before := by omega
      exact hw hk'

/-- Once the value is written and the local behind a wide one is unset, unsetting the local before
it completes the store. -/
theorem unsetOverlapping_eq_stored {f g : Frame V} {index : Nat} {v : V}
    (hlt : index < f.locals.length) (hlen : g.locals.length = f.locals.length)
    (hstack : g.stack = f.stack) (hmax : g.maxStack = f.maxStack)
    (hlocal : ∀ k, g.local? k = if k = index + 1 ∧ AbstractValue.width v = 2 then none
      else if k = index then some v else f.local? k) :
    g.unsetOverlapping index = .ok (f.stored index v) := by
  obtain ⟨r, hr, hrlen, hrstack, hrmax, hrlocal⟩ := local?_unsetOverlapping g index
  have heach : ∀ k, r.local? k = (f.stored index v).local? k := by
    intro k
    rw [hrlocal, hlocal, local?_stored hlt, afterStore]
    by_cases hk : k = index
    · rw [if_neg (by omega), if_neg (by omega), if_pos hk, if_pos hk]
    · rw [if_neg hk, if_neg hk]
      by_cases hk' : k = index + 1 ∧ AbstractValue.width v = 2
      · -- the local behind is not the local before
        rw [if_pos hk', if_neg (by omega), if_pos hk']
      · rw [if_neg hk', if_neg hk']
  have hsize : r.locals.length = (f.stored index v).locals.length := by
    rw [hrlen, hlen, length_stored]
  have hsame : r.stack = (f.stored index v).stack := by rw [hrstack, hstack, stored_stack]
  have hlimit : r.maxStack = (f.stored index v).maxStack := by rw [hrmax, hmax, stored_maxStack]
  rw [hr, eq_of_local? hsize heach hsame hlimit]

/-- A store fails if there is no such local, or none behind it for a wide value, and changes three
locals at most otherwise. -/
theorem store_eq (f : Frame V) (index : Nat) (v : V) :
    f.store index v =
      if f.locals.length ≤ index then .error (.invalidLocal index)
      else if AbstractValue.width v = 2 ∧ f.locals.length ≤ index + 1 then
        .error (.invalidLocal (index + 1))
      else .ok (f.stored index v) := by
  unfold store
  by_cases hi : f.locals.length ≤ index
  · rw [if_pos hi, setLocal_of_le hi]
    rfl
  have hlt : index < f.locals.length := by omega
  rw [if_neg hi, setLocal_of_lt hlt]
  generalize hg : { f with locals := f.locals.set index (some v) } = g
  have hlen : g.locals.length = f.locals.length := by
    rw [← hg]
    exact List.length_set
  have hstack : g.stack = f.stack := by rw [← hg]
  have hmax : g.maxStack = f.maxStack := by rw [← hg]
  have hlocal : ∀ k, g.local? k = if k = index then some v else f.local? k := by
    intro k
    rw [← hg]
    exact local?_set hlt (some v) k
  show (do
    let g ← if AbstractValue.width v = 2 then g.setLocal (index + 1) none else pure g
    g.unsetOverlapping index) = _
  by_cases hv : AbstractValue.width v = 2
  · rw [if_pos hv]
    by_cases hnext : f.locals.length ≤ index + 1
    · rw [if_pos ⟨hv, hnext⟩, setLocal_of_le (by omega)]
      rfl
    · rw [if_neg (fun h => hnext h.2), setLocal_of_lt (by omega)]
      refine unsetOverlapping_eq_stored hlt (List.length_set.trans hlen) hstack hmax fun k => ?_
      rw [local?_set (by omega), ← hlocal]
      by_cases hk : k = index + 1
      · rw [if_pos hk, if_pos ⟨hk, hv⟩]
      · rw [if_neg hk, if_neg fun h => hk h.1]
  · rw [if_neg hv, if_neg fun h => hv h.1]
    refine unsetOverlapping_eq_stored hlt hlen hstack hmax fun k => ?_
    rw [if_neg fun h => hv h.2, hlocal]

/-- A store succeeds if there is such a local, and one behind it for a wide value. -/
theorem store_eq_ok {f g : Frame V} {index : Nat} {v : V} : f.store index v = .ok g ↔
    (index < f.locals.length ∧ (AbstractValue.width v = 2 → index + 1 < f.locals.length)) ∧
      g = f.stored index v := by
  rw [store_eq]
  by_cases hlt : f.locals.length ≤ index
  · rw [if_pos hlt]
    exact ⟨nofun, fun h => absurd h.1.1 (by omega)⟩
  rw [if_neg hlt]
  by_cases hbehind : AbstractValue.width v = 2 ∧ f.locals.length ≤ index + 1
  · rw [if_pos hbehind]
    exact ⟨nofun, fun h => absurd (h.1.2 hbehind.1) (by omega)⟩
  · rw [if_neg hbehind]
    constructor
    · intro h
      exact ⟨⟨by omega, fun hv => by omega⟩, (Except.ok.inj h).symm⟩
    · rintro ⟨-, rfl⟩
      rfl

/-! ## Loading and storing instructions -/

variable {I : Interpreter V} {i : Instruction} {f g : Frame V}

/-- A loading instruction pushes the copy of its local. -/
theorem execute_load_eq_ok (h : i.opcode.effect = .load) {returnType : JType} :
    (execute I i returnType f).outcome = .ok g ↔
      ∃ index v copy, i.operand.var? = some index ∧ f.local? index = some v ∧
        I.copy i v = .ok copy ∧ f.push copy = .ok g := by
  unfold execute
  rw [h]
  constructor
  · intro h
    obtain ⟨index, hvar, h⟩ := Traced.bind_outcome_eq_ok.1 h
    obtain ⟨v, hv, h⟩ := Traced.bind_outcome_eq_ok.1 h
    obtain ⟨copy, hcopy, h⟩ := Traced.bind_outcome_eq_ok.1 h
    exact ⟨index, v, copy, varOf_eq_ok.1 hvar, load_eq_ok.1 hv, hcopy, h⟩
  · rintro ⟨index, v, copy, hvar, hv, hcopy, h⟩
    refine Traced.bind_outcome_eq_ok.2 ⟨index, varOf_eq_ok.2 hvar, ?_⟩
    refine Traced.bind_outcome_eq_ok.2 ⟨v, load_eq_ok.2 hv, ?_⟩
    exact Traced.bind_outcome_eq_ok.2 ⟨copy, hcopy, h⟩

/-- A storing instruction pops a value and stores its copy. -/
theorem execute_store_eq_ok (h : i.opcode.effect = .store) {returnType : JType} :
    (execute I i returnType f).outcome = .ok g ↔
      ∃ index v rest copy, i.operand.var? = some index ∧ f.stack = v :: rest ∧
        I.copy i v = .ok copy ∧ ({ f with stack := rest } : Frame V).store index copy = .ok g := by
  unfold execute
  rw [h]
  constructor
  · intro h
    obtain ⟨index, hvar, h⟩ := Traced.bind_outcome_eq_ok.1 h
    obtain ⟨p, hpop, h⟩ := Traced.bind_outcome_eq_ok.1 h
    obtain ⟨copy, hcopy, h⟩ := Traced.bind_outcome_eq_ok.1 h
    have hpop : f.pop = .ok p := hpop
    unfold pop at hpop
    split at hpop
    · cases hpop
    · rename_i v rest hstack
      obtain rfl := Except.ok.inj hpop
      exact ⟨index, v, rest, copy, varOf_eq_ok.1 hvar, hstack, hcopy, h⟩
  · rintro ⟨index, v, rest, copy, hvar, hstack, hcopy, h⟩
    have hpop : f.pop = .ok (v, { f with stack := rest }) := by
      unfold pop
      rw [hstack]
    refine Traced.bind_outcome_eq_ok.2 ⟨index, varOf_eq_ok.2 hvar, ?_⟩
    refine Traced.bind_outcome_eq_ok.2 ⟨_, hpop, ?_⟩
    exact Traced.bind_outcome_eq_ok.2 ⟨copy, hcopy, h⟩

/-! ## Overlaps -/

/-- A local that holds a wide value is followed by an unset one. -/
def Clear (f : Frame V) : Prop :=
  ∀ k v, f.local? k = some v → AbstractValue.width v = 2 → f.local? (k + 1) = none

/-- A store unsets what it would overlap, and what would overlap it. -/
theorem Clear.stored {f : Frame V} (hf : f.Clear) {index : Nat} (h : index < f.locals.length)
    (v : V) : (f.stored index v).Clear := by
  intro k w hk hw
  rw [local?_stored h, afterStore] at hk ⊢
  by_cases hki : k = index
  · rw [if_pos hki] at hk
    obtain rfl := Option.some.inj hk
    -- the store itself has unset what lies behind the index
    rw [if_neg (by omega), if_pos ⟨by omega, hw⟩]
  · rw [if_neg hki] at hk
    by_cases hnext : k = index + 1 ∧ AbstractValue.width v = 2
    · rw [if_pos hnext] at hk
      cases hk
    · rw [if_neg hnext] at hk
      by_cases hbefore : k + 1 = index ∧ (f.local? k).any fun w => AbstractValue.width w = 2
      · rw [if_pos hbefore] at hk
        cases hk
      · rw [if_neg hbefore] at hk
        -- a wide value just before the index would have been unset
        have hne : k + 1 ≠ index := by
          intro he
          refine hbefore ⟨he, ?_⟩
          rw [hk]
          exact decide_eq_true hw
        rw [if_neg hne, hf k w hk hw]
        split
        · rfl
        · split <;> rfl

/-- A narrow value in place of another changes no overlap. -/
theorem Clear.set_narrow {f : Frame V} (hf : f.Clear) {index : Nat} {v w : V}
    (h : f.local? index = some v) (hw : AbstractValue.width w ≠ 2) :
    { f with locals := f.locals.set index (some w) }.Clear := by
  have hlt := lt_of_local? h
  intro k x hk hx
  rw [local?_set hlt] at hk ⊢
  by_cases hki : k = index
  · rw [if_pos hki] at hk
    obtain rfl := Option.some.inj hk
    exact absurd hx hw
  · rw [if_neg hki] at hk
    have hnone := hf k x hk hx
    -- the index was set, so it does not lie behind a wide value
    have hne : k + 1 ≠ index := by
      intro he
      rw [he, h] at hnone
      cases hnone
    rw [if_neg hne, hnone]

end Frame

/-! ## Comparing locals one by one -/

namespace Simulation

variable {V W : Type}

/-- How a local of one frame is related to that of another; if there may be a gap, it may be unset
on the left only. -/
inductive Local (gap : Prop) (values : V → W → Prop) : Option V → Option W → Prop
  | unset : Local gap values none none
  | gap (h : gap) (w : W) : Local gap values none (some w)
  | set {v : V} {w : W} (h : values v w) : Local gap values (some v) (some w)

/-- Frames whose locals are related one by one, with gaps in some places. -/
structure Locals (gaps : Nat → Prop) (values : V → W → Prop) (f : Frame V) (g : Frame W) :
    Prop where
  length : f.locals.length = g.locals.length
  each : ∀ k, Local (gaps k) values (f.local? k) (g.local? k)

namespace Locals

variable {gaps : Nat → Prop} {values : V → W → Prop} {f : Frame V} {g : Frame W}
  {tolerated : AnalysisError → Prop} {steps : Call V → Call W → Prop}

theorem load (h : Locals gaps values f g)
    (hT : ∀ k, gaps k → tolerated (.uninitializedLocal k)) (index : Nat) :
    Traced.Agree tolerated steps values (.quiet (f.load index)) (.quiet (g.load index)) := by
  have hk := h.each index
  unfold Frame.load
  generalize f.local? index = v at hk ⊢
  generalize g.local? index = w at hk ⊢
  cases hk with
  | unset => exact .throw _
  | gap hg => exact .tolerated (hT index hg)
  | set hv => exact .pure hv

/-- Setting a local of both frames. -/
theorem set (h : Locals gaps values f g) {index : Nat} (hlt : index < f.locals.length)
    {v : Option V} {w : Option W} (hv : Local (gaps index) values v w) :
    Locals gaps values { f with locals := f.locals.set index v }
      { g with locals := g.locals.set index w } := by
  have hlen := h.length
  refine ⟨?_, fun k => ?_⟩
  · show (f.locals.set index v).length = (g.locals.set index w).length
    rw [List.length_set, List.length_set, hlen]
  · rw [Frame.local?_set hlt, Frame.local?_set (by omega)]
    by_cases hk : k = index
    · rw [if_pos hk, if_pos hk, hk]
      exact hv
    · rw [if_neg hk, if_neg hk]
      exact h.each k

variable [AbstractValue V] [AbstractValue W]

theorem afterStore (hw : ∀ v w, values v w → AbstractValue.width v = AbstractValue.width w)
    {v : V} {w : W} (hv : values v w) {old : Option V} {old' : Option W}
    {gap : Prop} (h : Local gap values old old') (index k : Nat) :
    Local gap values (Frame.afterStore index v k old) (Frame.afterStore index w k old') := by
  unfold Frame.afterStore
  rw [hw v w hv]
  split
  · exact .set hv
  · split
    · exact .unset
    · cases h with
      | unset => simpa using Local.unset
      | gap hg x =>
        by_cases hx : k + 1 = index ∧ AbstractValue.width x = 2
        · simpa [hx] using Local.unset
        · simpa [hx] using Local.gap hg x
      | @set x y hx =>
        simp only [Option.any_some, hw x y hx]
        split
        · exact .unset
        · exact .set hx

/-- Stores of related values to related locals. -/
theorem store (hw : ∀ v w, values v w → AbstractValue.width v = AbstractValue.width w)
    (h : Locals gaps values f g) {v : V} {w : W} (hv : values v w) (index : Nat) :
    Traced.Agree tolerated steps
      (fun f' g' => f' = f.stored index v ∧ g' = g.stored index w ∧
        index < f.locals.length ∧ Locals gaps values f' g')
      (.quiet (f.store index v)) (.quiet (g.store index w)) := by
  have hlen := h.length
  rw [Frame.store_eq, Frame.store_eq, ← hw v w hv, ← hlen]
  by_cases hi : f.locals.length ≤ index
  · rw [if_pos hi, if_pos hi]
    exact .throw _
  rw [if_neg hi, if_neg hi]
  split
  · exact .throw _
  · refine .pure ⟨rfl, rfl, by omega, ?_, fun k => ?_⟩
    · rw [Frame.length_stored, Frame.length_stored, hlen]
    · rw [Frame.local?_stored (by omega), Frame.local?_stored (by omega)]
      exact afterStore hw hv (h.each k) index k

end Locals

end Simulation

end Provenance

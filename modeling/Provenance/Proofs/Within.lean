/-
When one value or one frame says less than another.

A set of witnesses lies within another of the same width that has all its members. A frame lies
within another if its stack does, entry by entry, and every local it sets is set in the other to a
value within which its own lies; a local that it leaves unset may be anything in the other.

Executing an instruction goes along with this order (`Frame.Within.execute`). The larger frame can do
all that the smaller one does, and what the smaller one cannot do while the larger one can is to load
a local that is unset.

The sets that an analysis deals with are proper: they have members, all of one width, which is 1 or
2. Only among proper sets is a merge the least set that both lie within.
-/
import Provenance.Proofs.Tracking

set_option autoImplicit false

namespace Provenance

namespace JType

theorem size_of_ne_void {t : JType} (h : t ≠ .void) : t.size = 1 ∨ t.size = 2 := by
  cases t <;> simp [size] at h ⊢

end JType

namespace ValueSet

variable {α : Type} [Coded α]

/-! ## Sets within sets -/

/-- A set of the same width has every member and perhaps more. -/
structure Within (s t : ValueSet α) : Prop where
  width : s.width = t.width
  members : ∀ a ∈ s, a ∈ t

namespace Within

variable {s t u : ValueSet α}

theorem refl (s : ValueSet α) : s.Within s := ⟨rfl, fun _ h => h⟩

theorem trans (h : s.Within t) (k : t.Within u) : s.Within u :=
  ⟨h.width.trans k.width, fun a ha => k.members a (h.members a ha)⟩

theorem antisymm (h : s.Within t) (k : t.Within s) : s = t :=
  ValueSet.ext h.width (OrderedSet.ext fun a => ⟨h.members a, k.members a⟩)

end Within

/-! ## Merges -/

/-- A set with a member is not empty. -/
theorem isEmpty_eq_false {s : ValueSet α} {a : α} (h : a ∈ s) : s.isEmpty = false := by
  by_contra he
  rw [isEmpty, Bool.not_eq_false, OrderedSet.isEmpty_iff] at he
  have hmem : a ∈ s.members := h
  rw [he] at hmem
  exact OrderedSet.not_mem_empty a hmem

/-- A merge of sets with members succeeds if they have one width, and has the members of both. -/
theorem merge_eq_ok_of_nonempty {s t u : ValueSet α} (hs : s.isEmpty = false)
    (ht : t.isEmpty = false) :
    s.merge t = .ok u ↔ s.width = t.width ∧ u = ⟨s.width, s.members ∪ t.members⟩ := by
  unfold merge
  rw [hs, ht]
  by_cases hw : s.width = t.width
  · simp [hw, eq_comm]
  · simp [hw]

/-- Sets of one width merge into the set of all their members, even if one has none. -/
theorem merge_of_width_eq {s t : ValueSet α} (h : s.width = t.width) :
    s.merge t = .ok ⟨s.width, s.members ∪ t.members⟩ := by
  unfold merge
  by_cases hs : s.isEmpty = true
  · rw [if_pos hs]
    have hempty : s.members = ∅ := OrderedSet.isEmpty_iff.1 hs
    refine congrArg Except.ok (ValueSet.ext h.symm (OrderedSet.ext fun a => ?_))
    rw [hempty, OrderedSet.mem_union]
    exact ⟨.inr, fun ha => ha.resolve_left (OrderedSet.not_mem_empty a)⟩
  rw [if_neg hs]
  by_cases ht : t.isEmpty = true
  · rw [if_pos ht]
    have hempty : t.members = ∅ := OrderedSet.isEmpty_iff.1 ht
    refine congrArg Except.ok (ValueSet.ext rfl (OrderedSet.ext fun a => ?_))
    rw [hempty, OrderedSet.mem_union]
    exact ⟨.inl, fun ha => ha.resolve_right (OrderedSet.not_mem_empty a)⟩
  · rw [if_neg ht, if_neg (not_not.2 h)]

/-! ## Proper sets -/

variable [HasBase α]

/-- A set that stands for a value: it has members, which have its width. -/
structure Proper (s : ValueSet α) : Prop where
  nonempty : ∃ a, a ∈ s
  width : ∀ a ∈ s, memberWidth a = s.width
  size : s.width = 1 ∨ s.width = 2

namespace Proper

variable {s t u : ValueSet α}

theorem isEmpty_eq (h : s.Proper) : s.isEmpty = false := by
  obtain ⟨a, ha⟩ := h.nonempty
  exact isEmpty_eq_false ha

theorem single {a : α} (h : memberWidth a = 1 ∨ memberWidth a = 2) : (single a).Proper where
  nonempty := ⟨a, OrderedSet.mem_singleton.2 rfl⟩
  width b hb := by rw [OrderedSet.mem_singleton.1 hb]; rfl
  size := h

/-- A merge of proper sets succeeds if they have one width, and has the members of both. -/
theorem merge_eq_ok (hs : s.Proper) (ht : t.Proper) :
    s.merge t = .ok u ↔ s.width = t.width ∧ u = ⟨s.width, s.members ∪ t.members⟩ :=
  merge_eq_ok_of_nonempty hs.isEmpty_eq ht.isEmpty_eq

/-- A merge of proper sets is proper. -/
theorem merge (hs : s.Proper) (ht : t.Proper) (h : s.merge t = .ok u) : u.Proper := by
  obtain ⟨hw, rfl⟩ := (hs.merge_eq_ok ht).1 h
  obtain ⟨a, ha⟩ := hs.nonempty
  refine ⟨⟨a, OrderedSet.mem_union.2 (.inl ha)⟩, fun b hb => ?_, hs.size⟩
  rcases OrderedSet.mem_union.1 hb with hb | hb
  · exact hs.width b hb
  · exact (ht.width b hb).trans hw.symm

theorem within_merge_left (hs : s.Proper) (ht : t.Proper) (h : s.merge t = .ok u) :
    s.Within u := by
  obtain ⟨-, rfl⟩ := (hs.merge_eq_ok ht).1 h
  exact ⟨rfl, fun a ha => OrderedSet.mem_union.2 (.inl ha)⟩

theorem within_merge_right (hs : s.Proper) (ht : t.Proper) (h : s.merge t = .ok u) :
    t.Within u := by
  obtain ⟨hw, rfl⟩ := (hs.merge_eq_ok ht).1 h
  exact ⟨hw.symm, fun a ha => OrderedSet.mem_union.2 (.inr ha)⟩

/-- A merge is the least set that both lie within. -/
theorem merge_within {b : ValueSet α} (hs : s.Proper) (ht : t.Proper) (h : s.merge t = .ok u)
    (hsb : s.Within b) (htb : t.Within b) : u.Within b := by
  obtain ⟨-, rfl⟩ := (hs.merge_eq_ok ht).1 h
  refine ⟨hsb.width, fun a ha => ?_⟩
  rcases OrderedSet.mem_union.1 ha with ha | ha
  · exact hsb.members a ha
  · exact htb.members a ha

/-- A merge changes nothing exactly if the second set lies within the first. -/
theorem merge_eq_left (hs : s.Proper) (ht : t.Proper) : s.merge t = .ok s ↔ t.Within s := by
  constructor
  · exact hs.within_merge_right ht
  · intro h
    refine (hs.merge_eq_ok ht).2 ⟨h.width.symm, ValueSet.ext rfl (OrderedSet.ext fun a => ?_)⟩
    rw [OrderedSet.mem_union]
    exact ⟨.inl, fun ha => ha.elim id (h.members a)⟩

end Proper

end ValueSet

namespace Frame

variable {α : Type} [Coded α]

/-! ## Frames within frames -/

/-- A frame that says less: its stack lies within that of the other, entry by entry, and so does
every local that it sets. -/
structure Within (f g : Frame (ValueSet α)) : Prop where
  size : f.locals.length = g.locals.length
  locals : ∀ k v, f.local? k = some v → ∃ w, g.local? k = some w ∧ v.Within w
  stack : List.Forall₂ ValueSet.Within f.stack g.stack
  limit : f.maxStack = g.maxStack

namespace Within

variable {f g h : Frame (ValueSet α)}

theorem refl (f : Frame (ValueSet α)) : f.Within f where
  size := rfl
  locals _ v hv := ⟨v, hv, .refl v⟩
  stack := List.forall₂_same.2 fun v _ => .refl v
  limit := rfl

theorem trans (hfg : f.Within g) (hgh : g.Within h) : f.Within h where
  size := hfg.size.trans hgh.size
  locals k v hv := by
    obtain ⟨w, hw, hvw⟩ := hfg.locals k v hv
    obtain ⟨x, hx, hwx⟩ := hgh.locals k w hw
    exact ⟨x, hx, hvw.trans hwx⟩
  stack := by
    have hlen := hfg.stack.length_eq.trans hgh.stack.length_eq
    refine List.forall₂_iff_get.2 ⟨hlen, fun k hk hk' => ?_⟩
    have hkg : k < g.stack.length := hfg.stack.length_eq ▸ hk
    exact ((List.forall₂_iff_get.1 hfg.stack).2 k hk hkg).trans
      ((List.forall₂_iff_get.1 hgh.stack).2 k hkg hk')
  limit := hfg.limit.trans hgh.limit

/-- Frames that lie within each other are the same. -/
theorem antisymm (h : f.Within g) (k : g.Within f) : f = g := by
  refine eq_of_local? h.size (fun j => ?_) ?_ h.limit
  · cases hf : f.local? j with
    | some v =>
      obtain ⟨w, hw, hvw⟩ := h.locals j v hf
      obtain ⟨v', hv', hwv⟩ := k.locals j w hw
      obtain rfl := Option.some.inj (hf.symm.trans hv')
      rw [hw, hvw.antisymm hwv]
    | none =>
      cases hg : g.local? j with
      | none => rfl
      | some w =>
        obtain ⟨v, hv, -⟩ := k.locals j w hg
        exact nomatch hf.symm.trans hv
  · exact List.ext_getElem h.stack.length_eq fun j hj hj' =>
      (h.stack.get hj hj').antisymm (k.stack.get hj' hj)

/-- The order of frames is a comparison of locals one by one, with gaps where only the larger frame
has a local. -/
theorem frames (h : f.Within g) :
    (Simulation.pointwise (fun k => f.local? k = none ∧ ∃ w, g.local? k = some w)
      ValueSet.Within g.maxStack).Frames f g := by
  refine Simulation.pointwise_frames.2 ⟨⟨h.size, fun k => ?_⟩, h.stack, h.limit, rfl⟩
  cases hf : f.local? k with
  | none =>
    cases g.local? k with
    | none => exact .unset
    | some w => exact .gap ⟨rfl, w, rfl⟩ w
  | some v =>
    obtain ⟨w, hw, hvw⟩ := h.locals k v hf
    rw [hw]
    exact .set hvw

theorem of_frames {gaps : Nat → Prop} {limit : Nat}
    (h : (Simulation.pointwise gaps ValueSet.Within limit).Frames f g) : f.Within g := by
  obtain ⟨⟨hsize, heach⟩, hstack, hf, hg⟩ := Simulation.pointwise_frames.1 h
  refine ⟨hsize, fun k v hv => ?_, hstack, hf.trans hg.symm⟩
  have hk := heach k
  rw [hv] at hk
  generalize hw : g.local? k = w at hk
  cases hk with
  | set hvw => exact ⟨_, rfl, hvw⟩

end Within

/-! ## Executing an instruction -/

variable [HasBase α] {tag : Witness → α} {i : Instruction} {returnType : JType}
  {f g : Frame (ValueSet α)}

/-- Executing an instruction goes along with the order: two executions end in frames of which one
lies within the other, or in the same error, unless the smaller frame lacks a local to load. -/
theorem Within.execute (h : f.Within g) :
    Traced.Agree
      (fun e => ∃ k w, e = .uninitializedLocal k ∧ f.local? k = none ∧ g.local? k = some w)
      (Call.Related ValueSet.Within) Within
      (Frame.execute (.tracking tag) i returnType f)
      (Frame.execute (.tracking tag) i returnType g) := by
  have hS : (Simulation.pointwise (fun k => f.local? k = none ∧ ∃ w, g.local? k = some w)
      ValueSet.Within g.maxStack).Respected (.tracking tag) (.tracking tag) i :=
    Interpreter.tracking_respected_pointwise (fun _ _ h => h.width) fun _ _ _ => .refl _
  have hx := hS.execute h.frames returnType
  generalize Frame.execute (.tracking tag) i returnType f = x at hx ⊢
  generalize Frame.execute (.tracking tag) i returnType g = y at hx ⊢
  cases hx with
  | ok ht hfr => exact .ok ht (of_frames hfr)
  | error ht => exact .error ht
  | tolerated he =>
    obtain ⟨k, ⟨hf, w, hg⟩, rfl⟩ := he
    exact .tolerated ⟨k, w, rfl, hf, hg⟩

end Frame

end Provenance

/-
Frames without wide values.

Among frames that hold no wide value a join loses nothing: it sets every local that one of the two sets,
and holds in each slot all that they hold there. So it lies above both, also if some set has no members,
and whatever both are made up of makes up the join. The limits of the stacks do not count here, for a
join takes the limit of the first frame as it is.
-/
import Provenance.Proofs.Alike
import Provenance.Proofs.Joins

set_option autoImplicit false

namespace Provenance

namespace Frame

section

variable {α : Type} [Coded α] {f g h joined : Frame (ValueSet α)}

/-! ## Narrow frames -/

/-- No value of the frame is wide. -/
def Narrow (f : Frame (ValueSet α)) : Prop := ∀ slot s, f.get? slot = some s → s.width = 1

theorem narrow_of_parts (hlocals : ∀ k s, f.local? k = some s → s.width = 1)
    (hstack : ∀ s ∈ f.stack, s.width = 1) : f.Narrow := by
  intro slot s hs
  cases slot with
  | var k => exact hlocals k s hs
  | stack k => exact hstack s (List.mem_reverse.1 (List.mem_of_getElem? hs))

theorem Narrow.locals (hf : f.Narrow) {k : Nat} {s : ValueSet α} (hs : f.local? k = some s) :
    s.width = 1 :=
  hf (.var k) s hs

theorem Narrow.stack (hf : f.Narrow) {s : ValueSet α} (hs : s ∈ f.stack) : s.width = 1 := by
  obtain ⟨slot, hslot⟩ := exists_get?_of_mem_stack hs
  exact hf slot s hslot

/-! ## Frames below frames -/

/-- The frames have one shape, and what the first holds in a slot lies within what the second holds
there. -/
structure Below (f g : Frame (ValueSet α)) : Prop where
  size : f.locals.length = g.locals.length
  height : f.stack.length = g.stack.length
  slots : ∀ slot s, f.get? slot = some s → ∃ t, g.get? slot = some t ∧ s.Within t

theorem Below.refl (f : Frame (ValueSet α)) : f.Below f :=
  ⟨rfl, rfl, fun _ s hs => ⟨s, hs, .refl s⟩⟩

theorem Below.trans (hfg : f.Below g) (hgh : g.Below h) : f.Below h where
  size := hfg.size.trans hgh.size
  height := hfg.height.trans hgh.height
  slots slot s hs := by
    obtain ⟨t, ht, hst⟩ := hfg.slots slot s hs
    obtain ⟨u, hu, htu⟩ := hgh.slots slot t ht
    exact ⟨u, hu, hst.trans htu⟩

/-- The frame is made up of some others: it has the shape of one of them, and whatever it holds in a
slot is held there by one of them. -/
structure MadeOf (P : Frame (ValueSet α) → Prop) (f : Frame (ValueSet α)) : Prop where
  shape : ∃ g, P g ∧ f.locals.length = g.locals.length ∧ f.stack.length = g.stack.length
  slots : ∀ slot s, f.get? slot = some s → ∃ g t, P g ∧ g.get? slot = some t
  members : ∀ slot s, f.get? slot = some s → ∀ v ∈ s,
    ∃ g t, P g ∧ g.get? slot = some t ∧ v ∈ t

theorem MadeOf.self {P : Frame (ValueSet α) → Prop} (hf : P f) : f.MadeOf P :=
  ⟨⟨f, hf, rfl, rfl⟩, fun _ s hs => ⟨f, s, hf, hs⟩, fun _ s hs _ hv => ⟨f, s, hf, hs, hv⟩⟩

/-- Suppose that a narrow frame is made up of some others, which all lie below it. What lies below it
is then what is made up of the others as well. -/
theorem below_iff_madeOf {P : Frame (ValueSet α) → Prop} (hf : f.Narrow) (hg : g.Narrow)
    (hup : ∀ h, P h → h.Below g) (hmade : g.MadeOf P) : f.Below g ↔ f.MadeOf P := by
  constructor
  · intro hfg
    refine ⟨?_, fun slot s hs => ?_, fun slot s hs v hv => ?_⟩
    · obtain ⟨h, hP, hsize, hheight⟩ := hmade.shape
      exact ⟨h, hP, hfg.size.trans hsize, hfg.height.trans hheight⟩
    · obtain ⟨t, ht, -⟩ := hfg.slots slot s hs
      exact hmade.slots slot t ht
    · obtain ⟨t, ht, hst⟩ := hfg.slots slot s hs
      exact hmade.members slot t ht v (hst.members v hv)
  · intro hfP
    obtain ⟨h, hP, hsize, hheight⟩ := hfP.shape
    refine ⟨hsize.trans (hup h hP).size, hheight.trans (hup h hP).height, fun slot s hs => ?_⟩
    obtain ⟨h', t, hP', ht⟩ := hfP.slots slot s hs
    obtain ⟨u, hu, -⟩ := (hup h' hP').slots slot t ht
    refine ⟨u, hu, (hf slot s hs).trans (hg slot u hu).symm, fun v hv => ?_⟩
    obtain ⟨k, x, hPk, hx, hvx⟩ := hfP.members slot s hs v hv
    obtain ⟨u', hu', hxu⟩ := (hup k hPk).slots slot x hx
    obtain rfl := Option.some.inj (hu.symm.trans hu')
    exact hxu.members v hvx

end

/-! ## Joins of narrow frames -/

section Join

variable {α : Type} [Coded α] [HasBase α] {tag : Witness → α}
  {f g joined : Frame (ValueSet α)}

/-- What a join of narrow frames holds in a slot. -/
inductive JoinedSlot :
    Option (ValueSet α) → Option (ValueSet α) → Option (ValueSet α) → Prop
  | unset : JoinedSlot none none none
  | left (s : ValueSet α) : JoinedSlot (some s) none (some s)
  | right (t : ValueSet α) : JoinedSlot none (some t) (some t)
  | merged (s t : ValueSet α) : JoinedSlot (some s) (some t) (some ⟨1, s.members ∪ t.members⟩)

theorem Joined.slot (hf : f.Narrow) (hg : g.Narrow)
    (h : Joined (.tracking tag) f g joined) (slot : Slot) :
    JoinedSlot (f.get? slot) (g.get? slot) (joined.get? slot) := by
  have hmerge : ∀ {s t u : ValueSet α}, s.width = 1 → t.width = 1 → s.merge t = .ok u →
      u = ⟨1, s.members ∪ t.members⟩ := by
    intro s t u hs ht hm
    rw [ValueSet.merge_of_width_eq (hs.trans ht.symm), hs] at hm
    exact (Except.ok.inj hm).symm
  cases slot with
  | var k =>
    have hk := h.locals k
    show JoinedSlot (f.local? k) (g.local? k) (joined.local? k)
    generalize hs : f.local? k = s at hk ⊢
    generalize ht : g.local? k = t at hk ⊢
    generalize joined.local? k = u at hk ⊢
    cases hk with
    | unset => exact .unset
    | left => exact .left _
    | right => exact .right _
    | merged _ hm =>
      obtain rfl := hmerge (hf.locals hs) (hg.locals ht) hm
      exact .merged _ _
    | dropped hne => exact absurd ((hf.locals hs).trans (hg.locals ht).symm) hne
  | stack k =>
    show JoinedSlot f.stack.reverse[k]? g.stack.reverse[k]? joined.stack.reverse[k]?
    by_cases hk : k < f.stack.length
    · -- entries at one height above the bottom are at one depth below the top
      have hkg : k < g.stack.length := h.height ▸ hk
      have hkj : k < joined.stack.length := h.height_joined.symm ▸ hk
      rw [List.getElem?_reverse hk, List.getElem?_reverse hkg, List.getElem?_reverse hkj,
        ← h.height, h.height_joined]
      have hlt : f.stack.length - 1 - k < f.stack.length := by omega
      have hltg : f.stack.length - 1 - k < g.stack.length := h.height ▸ hlt
      have hltj : f.stack.length - 1 - k < joined.stack.length := h.height_joined.symm ▸ hlt
      rw [List.getElem?_eq_getElem hlt, List.getElem?_eq_getElem hltg,
        List.getElem?_eq_getElem hltj,
        hmerge (hf.stack (List.getElem_mem hlt)) (hg.stack (List.getElem_mem hltg))
          (h.merge_getElem hlt hltg hltj)]
      exact .merged _ _
    · have hnone : ∀ l : List (ValueSet α), l.length = f.stack.length → l.reverse[k]? = none :=
        fun l hl => List.getElem?_eq_none (by rw [List.length_reverse]; omega)
      rw [hnone _ rfl, hnone _ h.height.symm, hnone _ h.height_joined]
      exact .unset

theorem Joined.below_left (hf : f.Narrow) (hg : g.Narrow)
    (h : Joined (.tracking tag) f g joined) : f.Below joined where
  size := h.size_joined.symm
  height := h.height_joined.symm
  slots slot s hs := by
    have hslot := h.slot hf hg slot
    have hwidth := hf slot s hs
    rw [hs] at hslot
    generalize g.get? slot = t at hslot
    generalize joined.get? slot = u at hslot ⊢
    cases hslot with
    | left => exact ⟨s, rfl, .refl s⟩
    | merged => exact ⟨_, rfl, hwidth, fun v hv => OrderedSet.mem_union.2 (.inl hv)⟩

theorem Joined.below_right (hf : f.Narrow) (hg : g.Narrow)
    (h : Joined (.tracking tag) f g joined) : g.Below joined where
  size := h.size.symm.trans h.size_joined.symm
  height := h.height.symm.trans h.height_joined.symm
  slots slot t ht := by
    have hslot := h.slot hf hg slot
    have hwidth := hg slot t ht
    rw [ht] at hslot
    generalize f.get? slot = s at hslot
    generalize joined.get? slot = u at hslot ⊢
    cases hslot with
    | right => exact ⟨t, rfl, .refl t⟩
    | merged => exact ⟨_, rfl, hwidth, fun v hv => OrderedSet.mem_union.2 (.inr hv)⟩

/-- A set of a join comes from one frame, or from both. -/
theorem Joined.of_get? (hf : f.Narrow) (hg : g.Narrow)
    (h : Joined (.tracking tag) f g joined) {slot : Slot} {u : ValueSet α}
    (hu : joined.get? slot = some u) :
    u.width = 1 ∧ (∃ s, f.get? slot = some s ∨ g.get? slot = some s) ∧
      ∀ v ∈ u, ∃ s, v ∈ s ∧ (f.get? slot = some s ∨ g.get? slot = some s) := by
  have hslot := h.slot hf hg slot
  rw [hu] at hslot
  generalize hs : f.get? slot = s at hslot ⊢
  generalize ht : g.get? slot = t at hslot ⊢
  cases hslot with
  | left => exact ⟨hf slot _ hs, ⟨_, .inl rfl⟩, fun v hv => ⟨_, hv, .inl rfl⟩⟩
  | right => exact ⟨hg slot _ ht, ⟨_, .inr rfl⟩, fun v hv => ⟨_, hv, .inr rfl⟩⟩
  | merged s t =>
    refine ⟨rfl, ⟨s, .inl rfl⟩, fun v hv => ?_⟩
    rcases OrderedSet.mem_union.1 hv with hv | hv
    · exact ⟨s, hv, .inl rfl⟩
    · exact ⟨t, hv, .inr rfl⟩

theorem Narrow.join (hf : f.Narrow) (hg : g.Narrow) (h : Joined (.tracking tag) f g joined) :
    joined.Narrow :=
  fun _ _ hu => (h.of_get? hf hg hu).1

theorem MadeOf.join {P : Frame (ValueSet α) → Prop} (hf : f.Narrow) (hg : g.Narrow)
    (hfP : f.MadeOf P) (hgP : g.MadeOf P) (h : Joined (.tracking tag) f g joined) :
    joined.MadeOf P := by
  refine ⟨?_, fun slot u hu => ?_, fun slot u hu v hv => ?_⟩
  · obtain ⟨k, hP, hsize, hheight⟩ := hfP.shape
    exact ⟨k, hP, h.size_joined.trans hsize, h.height_joined.trans hheight⟩
  · obtain ⟨-, ⟨s, hs | hs⟩, -⟩ := h.of_get? hf hg hu
    · exact hfP.slots slot s hs
    · exact hgP.slots slot s hs
  · obtain ⟨-, -, hmembers⟩ := h.of_get? hf hg hu
    obtain ⟨s, hvs, hs | hs⟩ := hmembers v hv
    · exact hfP.members slot s hs v hvs
    · exact hgP.members slot s hs v hvs

/-- A join of narrow frames changes nothing exactly if the second lies below the first. -/
theorem join_eq_left_of_narrow (hf : f.Narrow) (hg : g.Narrow) :
    (join (.tracking tag) f g).outcome = .ok f ↔ g.Below f := by
  rw [join_eq_ok]
  refine ⟨Joined.below_right hf hg, fun h => ?_⟩
  have hmerge : ∀ slot s t, f.get? slot = some s → g.get? slot = some t →
      s.merge t = .ok s := by
    intro slot s t hs ht
    obtain ⟨s', hs', hts⟩ := h.slots slot t ht
    obtain rfl := Option.some.inj (hs.symm.trans hs')
    rw [ValueSet.merge_of_width_eq hts.width.symm]
    refine congrArg Except.ok (ValueSet.ext rfl (OrderedSet.ext fun v => ?_))
    rw [OrderedSet.mem_union]
    exact ⟨fun hv => hv.elim id (hts.members v), .inl⟩
  refine ⟨h.height.symm, h.size.symm, rfl, rfl, fun k => ?_, rfl, fun k s t hs ht => ?_⟩
  · cases ht : g.local? k with
    | none =>
      cases f.local? k with
      | none => exact .unset
      | some s => exact .left s
    | some t =>
      obtain ⟨s, hs, hts⟩ := h.slots (.var k) t ht
      have hs' : f.local? k = some s := hs
      rw [hs']
      exact .merged hts.width.symm (hmerge _ s t hs ht)
  · have hget : ∀ {l : List (ValueSet α)} {x}, l[k]? = some x →
        l.reverse[l.length - 1 - k]? = some x := by
      intro l x hx
      have hk : k < l.length := (List.getElem?_eq_some_iff.1 hx).1
      rw [List.getElem?_reverse (by omega), ← hx]
      congr 1
      omega
    refine ⟨s, hs, hmerge (.stack (f.stack.length - 1 - k)) s t (hget hs) ?_⟩
    rw [← h.height]
    exact hget ht

end Join

end Frame

end Provenance

/-
Corrections that only impose facts.

A transformer that only imposes facts begins with the frame that the interpreter computed and
changes it by impositions alone: on a slot, or on values that were copied from a slot of the frame
before the instruction or of the one being corrected. What it imposes, where, and in how many steps
may depend on all it sees (`FrameTransformer.OnlyImposes`). The order in which an imposition comes by
the members of the sets is left open. An imposition may also break off; then the slots that it came
by are changed and the others are not, and the transformer may go on from there.

If an origin tells its witness among all values at hand, no such correction changes a witness:
values are replaced by versions of their own (`Corrects.erase_eq`).
-/
import Provenance.Analysis.Transformer
import Provenance.Proofs.Created
import Provenance.Proofs.Erasure
import Provenance.Proofs.Passes

set_option autoImplicit false

namespace Provenance

variable {Q : Type} [DecidableEq Q] [Fact Q]

/-- A frame made of the one that crosses an edge by impositions, and the sets copied on the way.
Each imposition goes through the members of every set in an order of its own. -/
inductive Corrects (c : EdgeCrossing (QualifiedValueSet Q)) :
    List (QualifiedValueSet Q) → Frame (QualifiedValueSet Q) → Prop
  | start : Corrects c [] c.after
  /-- Copies the values in a slot of the frame before the instruction. -/
  | copyBefore {copies f slot s} (h : Corrects c copies f) (hs : c.before.get? slot = some s) :
    Corrects c (s :: copies) f
  /-- Copies the values in a slot of the frame that is being corrected. -/
  | copy {copies f slot s} (h : Corrects c copies f) (hs : f.get? slot = some s) :
    Corrects c (s :: copies) f
  /-- Imposes a fact on a slot. -/
  | slot {copies f slot g} {D : Dimension Q} {fact : Q} (h : Corrects c copies f)
    (hg : D.MayImpose fact slot f (.ok g)) : Corrects c copies g
  /-- Imposes a fact on copied values, which may be updated. -/
  | values {copies f update s t g} {D : Dimension Q} {fact : Q} (h : Corrects c copies f)
    (hs : s ∈ copies) (hg : D.MayImposeOnValues fact update s f (.ok (t, g))) :
    Corrects c (t :: copies) g
  /-- Imposes a fact on copied values and fails on the way. -/
  | brokenOff {copies f s t g} {D : Dimension Q} {fact : Q} (h : Corrects c copies f)
    (hs : s ∈ copies) (hg : D.MayLeave fact s f t g) : Corrects c (t :: copies) g

/-- The transformer answers frames that it made by impositions alone, each of them in any order of
the members. One crossing has one answer; where no join meets different widths this leaves no order
out, for a run comes to an edge again only when the frame before it has grown, which makes another
crossing. -/
def FrameTransformer.OnlyImposes (T : FrameTransformer (QualifiedValueSet Q)) : Prop :=
  ∀ c f, T c = .ok f → ∃ copies, Corrects c copies f

/-! ## Witnesses of corrected frames -/

omit [DecidableEq Q] in
theorem QualifiedValueSet.mem_erase {s : QualifiedValueSet Q} {w : Witness} :
    w ∈ QualifiedValueSet.erase s ↔ ∃ v ∈ s, v.base = w := OrderedSet.mem_image

omit [DecidableEq Q] in
theorem QualifiedValueSet.base_mem_erase {s : QualifiedValueSet Q} {v : QualifiedValue Q}
    (h : v ∈ s) : v.base ∈ QualifiedValueSet.erase s := mem_erase.2 ⟨v, h, rfl⟩

omit [DecidableEq Q] in
/-- What is copied from a slot has the witnesses of the frame. -/
theorem Frame.Members.of_slot {K : Witness → Prop} {f : Frame (QualifiedValueSet Q)}
    (hf : f.erase.Members K) {slot : Slot} {s : QualifiedValueSet Q} (hs : f.get? slot = some s) :
    ∀ w ∈ QualifiedValueSet.erase s, K w := by
  have hslot : f.erase.get? slot = some (QualifiedValueSet.erase s) := by
    unfold Frame.erase
    rw [Frame.get?_map, hs]
    rfl
  exact hf.get? hslot

/-- A class of witnesses that are told by their origins. -/
def ToldByOrigin (K : Witness → Prop) : Prop :=
  ∀ w w', K w → K w' → w.origin = w'.origin → w = w'

section Told

variable {K : Witness → Prop} (hK : ToldByOrigin K) {D : Dimension Q} {fact : Q}
  {s t : QualifiedValueSet Q}
include hK

/-- Replacing versions of values by others leaves the witnesses of a set as they are. -/
theorem Pass.erase_replace {p q : Pass Q} {r : Replacements Q}
    (hr : D.replacements fact p.order .empty = .ok r)
    (hp : ∀ w ∈ QualifiedValueSet.erase p.set, K w)
    (hq : ∀ w ∈ QualifiedValueSet.erase q.set, K w) (h : q.replace D r = .ok t) :
    QualifiedValueSet.erase t = QualifiedValueSet.erase q.set := by
  -- a member and a value of the table with one origin are versions of one witness
  have hsame : ∀ u ∈ p.order, ∀ v ∈ q.set, v.origin = u.origin → v.base = u.base := by
    intro u hu v hv horigin
    apply hK
    · exact hq _ (QualifiedValueSet.base_mem_erase hv)
    · exact hp _ (QualifiedValueSet.base_mem_erase (Pass.mem_order.1 hu))
    · exact horigin
  have hwidth : t.width = q.set.width := by
    obtain ⟨pairs, -, rfl⟩ := Pass.replace_eq_ok h
    rfl
  refine ValueSet.ext hwidth (OrderedSet.ext fun w => ?_)
  show w ∈ t.members.image QualifiedValue.base ↔ w ∈ q.set.members.image QualifiedValue.base
  rw [OrderedSet.mem_image, OrderedSet.mem_image]
  exact Dimension.image_of_replace (k := id) hr h hsame w

/-- Whatever an imposition leaves has the witnesses that there were. -/
theorem Dimension.MayLeave.erase_eq {f g : Frame (QualifiedValueSet Q)}
    (h : D.MayLeave fact s f t g) (hs : ∀ w ∈ QualifiedValueSet.erase s, K w)
    (hf : f.erase.Members K) :
    g.erase = f.erase ∧ QualifiedValueSet.erase t = QualifiedValueSet.erase s := by
  obtain ⟨p, r, rfl, hr, ht, hg⟩ := h
  have hreplaced : ∀ {u v : QualifiedValueSet Q}, (∀ w ∈ QualifiedValueSet.erase u, K w) →
      (v = u ∨ ∃ q : Pass Q, q.set = u ∧ q.replace D r = .ok v) →
      QualifiedValueSet.erase u = QualifiedValueSet.erase v := by
    rintro u v hu (rfl | ⟨q, rfl, hq⟩)
    · rfl
    · exact (Pass.erase_replace hK hr hs hu hq).symm
  constructor
  · refine (Frame.Alike.map_eq (hg.imp_of (fun k u v hu huv => ?_) fun u hu v huv => ?_)).symm
    · have hslot : f.get? (.var k) = some u := hu
      exact hreplaced (hf.of_slot hslot) huv
    · obtain ⟨slot, hslot⟩ := Frame.exists_get?_of_mem_stack hu
      exact hreplaced (hf.of_slot hslot) huv
  · exact (hreplaced hs (ht.imp_right fun h => ⟨p, rfl, h⟩)).symm

/-- Corrections that only impose facts leave the witnesses of the frame as they are. -/
theorem Corrects.erase_eq {c : EdgeCrossing (QualifiedValueSet Q)}
    (hbefore : c.before.erase.Members K) (hafter : c.after.erase.Members K)
    {copies : List (QualifiedValueSet Q)} {f : Frame (QualifiedValueSet Q)}
    (h : Corrects c copies f) :
    f.erase = c.after.erase ∧ ∀ s ∈ copies, ∀ w ∈ QualifiedValueSet.erase s, K w := by
  -- both are carried along: what is imposed next may be imposed on any of the copies
  have hleft : ∀ {D : Dimension Q} {fact : Q} {s t : QualifiedValueSet Q}
      {f g : Frame (QualifiedValueSet Q)}, f.erase = c.after.erase →
      (∀ w ∈ QualifiedValueSet.erase s, K w) → D.MayLeave fact s f t g →
      g.erase = c.after.erase ∧ ∀ w ∈ QualifiedValueSet.erase t, K w := by
    intro D fact s t f g hf hs hleave
    obtain ⟨hg, ht⟩ := hleave.erase_eq hK hs (hf ▸ hafter)
    exact ⟨hg.trans hf, ht ▸ hs⟩
  induction h with
  | start => exact ⟨rfl, fun s hs => nomatch hs⟩
  | copyBefore _ hs ih =>
    exact ⟨ih.1, List.forall_mem_cons.2 ⟨hbefore.of_slot hs, ih.2⟩⟩
  | copy _ hs ih =>
    have hf := ih.1 ▸ hafter
    exact ⟨ih.1, List.forall_mem_cons.2 ⟨Frame.Members.of_slot hf hs, ih.2⟩⟩
  | slot _ hg ih =>
    refine ⟨?_, ih.2⟩
    rcases Dimension.mayImpose_cases hg with ⟨-, rfl⟩ | ⟨s, hs, hg⟩
    · exact ih.1
    · have hf := ih.1 ▸ hafter
      exact (hleft ih.1 (Frame.Members.of_slot hf hs)
        (Dimension.mayLeave_of_mayImposeOnValues hg)).1
  | values _ hs hg ih =>
    obtain ⟨hg, ht⟩ := hleft ih.1 (ih.2 _ hs) (Dimension.mayLeave_of_mayImposeOnValues hg)
    exact ⟨hg, List.forall_mem_cons.2 ⟨ht, ih.2⟩⟩
  | brokenOff _ hs hg ih =>
    obtain ⟨hg, ht⟩ := hleft ih.1 (ih.2 _ hs) hg
    exact ⟨hg, List.forall_mem_cons.2 ⟨ht, ih.2⟩⟩

end Told

end Provenance

/-
Imposing facts in every order.

The members of a set come in no order that could be relied on. If several versions of a value share
a key, it is open which of them the table has its entry from; and when the members of a set are
exchanged, one that was put in may be taken out again in the place of another, and two of them may
become one. So an order is taken along here with every set that is passed through (`Pass`), and what
an imposition comes to is a relation between what there was before and the outcome:
`Dimension.MayImposeOnValues` for values that are at hand, `Dimension.MayImpose` for those of a
slot. The outcome in the order of the members is one of those that there are.

An imposition that fails on the way leaves a frame in which it came by some sets and not by others.
What it may leave, then or at its end, is a relation of its own (`Dimension.MayLeave`).

Whatever the order, a member gives way to a version of a value with its origin, and nothing changes
that can be told by origins (`Dimension.image_of_replace`).
-/
import Provenance.Proofs.ImposedImage

set_option autoImplicit false

namespace Provenance

variable {Q : Type} [DecidableEq Q] [Fact Q]

/-! ## Passing through a set -/

/-- A set, and its members in the order in which they are come by. -/
structure Pass (Q : Type) [Fact Q] where
  set : QualifiedValueSet Q
  order : List (QualifiedValue Q)
  perm : order.Perm set.members.toList

namespace Pass

variable {D : Dimension Q} {r : Replacements Q} {p : Pass Q} {t : QualifiedValueSet Q}

omit [DecidableEq Q] in
/-- The pass through a set in the order of its members. -/
def inOrder (s : QualifiedValueSet Q) : Pass Q := ⟨s, s.members.toList, .refl _⟩

/-- The set with members replaced by a table, in the order of the pass. -/
def replace (D : Dimension Q) (r : Replacements Q) (p : Pass Q) :
    Except AnalysisError (QualifiedValueSet Q) :=
  if r.isEmpty then .ok p.set
  else (QualifiedValueSet.replaced D r p.order).map fun pairs =>
    { p.set with members := QualifiedValueSet.afterReplacing p.set.members pairs }

/-- The set as it is after the imposition: with members replaced, if it is to be updated. -/
def updated (update : Bool) (D : Dimension Q) (r : Replacements Q) (p : Pass Q) :
    Except AnalysisError (QualifiedValueSet Q) :=
  if update then p.replace D r else .ok p.set

omit [DecidableEq Q] in
theorem mem_order {v : QualifiedValue Q} : v ∈ p.order ↔ v ∈ p.set := p.perm.mem_iff

/-- An empty table replaces nothing. -/
theorem replace_of_isEmpty (h : r.isEmpty = true) (p : Pass Q) : p.replace D r = .ok p.set :=
  if_pos h

theorem replace_inOrder (s : QualifiedValueSet Q) :
    (inOrder s).replace D r = (s.replace D r).map Prod.fst := by
  unfold replace QualifiedValueSet.replace
  by_cases hr : r.isEmpty
  · rw [if_pos hr, if_pos hr]
    rfl
  · rw [if_neg hr, if_neg hr]
    show (QualifiedValueSet.replaced D r s.members.toList).map _ =
      (QualifiedValueSet.replaced D r s.members.toList >>= _).map Prod.fst
    cases QualifiedValueSet.replaced D r s.members.toList <;> rfl

/-- Whatever the order of a pass, the same members are replaced by the same ones. -/
theorem replace_eq_ok (h : p.replace D r = .ok t) :
    ∃ pairs,
      (∀ x, x ∈ pairs ↔ x.1 ∈ p.set ∧ ∃ key, x.1.key D = .ok key ∧ r.get? key = some x.2) ∧
      t = { p.set with members := QualifiedValueSet.afterReplacing p.set.members pairs } := by
  by_cases hr : r.isEmpty
  · rw [replace_of_isEmpty hr] at h
    obtain rfl := Except.ok.inj h
    exact ⟨[], QualifiedValueSet.mem_nil_iff_of_isEmpty hr, rfl⟩
  · unfold replace at h
    rw [if_neg hr] at h
    obtain ⟨pairs, hpairs, rfl⟩ := map_eq_ok.1 h
    refine ⟨pairs, fun x => ?_, rfl⟩
    rw [QualifiedValueSet.mem_replaced hpairs, mem_order]

end Pass

namespace Frame

variable {D : Dimension Q} {r : Replacements Q}

omit [DecidableEq Q] in
/-- The sets of a frame are those that are passed through, whatever order is chosen for each. -/
theorem map_set_map {order : QualifiedValueSet Q → Pass Q} (h : ∀ s, (order s).set = s)
    (f : Frame (QualifiedValueSet Q)) : (f.map order).map Pass.set = f := by
  rw [map_map, show Pass.set ∘ order = id from funext h, map_id]

/-- Passing through each set in the order of its members. -/
theorem mapM_replace_inOrder (f : Frame (QualifiedValueSet Q)) :
    (f.map Pass.inOrder).mapM (Pass.replace D r)
      = f.mapM fun s => (s.replace D r).map Prod.fst := by
  rw [mapM_map]
  exact congrArg (f.mapM ·) (funext Pass.replace_inOrder)

/-- A frame after a pass through each of its sets. -/
theorem alike_of_passes {passes : Frame (Pass Q)} {g : Frame (QualifiedValueSet Q)}
    (h : passes.mapM (Pass.replace D r) = .ok g) :
    (passes.map Pass.set).Alike (fun s t => ∃ p : Pass Q, p.set = s ∧ p.replace D r = .ok t) g := by
  obtain ⟨hlocals, hstack, hlimit⟩ := alike_of_mapM h
  refine ⟨?_, ?_, hlimit⟩
  · refine List.forall₂_map_left_iff.2 (hlocals.imp fun p t hpt => ?_)
    cases hpt with
    | none => exact .none
    | some hpt => exact .some ⟨_, rfl, hpt⟩
  · exact List.forall₂_map_left_iff.2 (hstack.imp fun p t hpt => ⟨p, rfl, hpt⟩)

end Frame

namespace Dimension

variable {D : Dimension Q} {fact : Q} {update : Bool} {slot : Slot} {s t : QualifiedValueSet Q}
  {f g : Frame (QualifiedValueSet Q)}

/-! ## Imposing in some order -/

/-- Imposes a fact on values, wherever a frame holds them: a pass through these values makes the
table, and one through each set of the frame applies it. If `update` says so, it is applied to the
values as well. -/
def imposeOnPass (D : Dimension Q) (fact : Q) (update : Bool) (values : Pass Q)
    (f : Frame (Pass Q)) :
    Except AnalysisError (QualifiedValueSet Q × Frame (QualifiedValueSet Q)) := do
  let r ← D.replacements fact values.order .empty
  let t ← values.updated update D r
  let g ← f.mapM (Pass.replace D r)
  return (t, g)

/-- Imposes a fact on the values of a slot, wherever a frame holds them: a pass through these values
makes the table, and one through each set of the frame applies it. -/
def imposeInPasses (D : Dimension Q) (fact : Q) (values : Option (Pass Q)) (f : Frame (Pass Q)) :
    Except AnalysisError (Frame (QualifiedValueSet Q)) :=
  match values with
  | none => .ok (f.map Pass.set)
  | some values => do
    let r ← D.replacements fact values.order .empty
    f.mapM (Pass.replace D r)

theorem imposeInPasses_some (values : Pass Q) (f : Frame (Pass Q)) :
    D.imposeInPasses fact (some values) f = (D.imposeOnPass fact false values f).map Prod.snd := by
  unfold imposeInPasses imposeOnPass
  dsimp only
  cases D.replacements fact values.order .empty with
  | error e => rfl
  | ok r =>
    show f.mapM (Pass.replace D r) =
      (f.mapM (Pass.replace D r) >>= fun g => pure (values.set, g)).map Prod.snd
    cases f.mapM (Pass.replace D r) <;> rfl

theorem imposeOnPass_eq_ok {values : Pass Q} {passes : Frame (Pass Q)}
    (h : D.imposeOnPass fact update values passes = .ok (t, g)) :
    ∃ r, D.replacements fact values.order .empty = .ok r ∧
      values.updated update D r = .ok t ∧
      passes.mapM (Pass.replace D r) = .ok g := by
  unfold imposeOnPass at h
  obtain ⟨r, hr, h⟩ := bind_eq_ok.1 h
  obtain ⟨t', ht, h⟩ := bind_eq_ok.1 h
  obtain ⟨g', hg, h⟩ := bind_eq_ok.1 h
  obtain ⟨rfl, rfl⟩ := Prod.mk.inj (Except.ok.inj h)
  exact ⟨r, hr, ht, hg⟩

/-- In the order of the members, passing through the sets is imposing the fact. -/
theorem imposeOnPass_inOrder (D : Dimension Q) (fact : Q) (update : Bool)
    (values : QualifiedValueSet Q) (f : Frame (QualifiedValueSet Q)) :
    D.imposeOnPass fact update (.inOrder values) (f.map .inOrder)
      = D.imposeOnValues fact update values f := by
  unfold imposeOnPass
  show (D.replacements fact values.members.toList .empty >>= _) = _
  cases hr : D.replacements fact values.members.toList .empty with
  | error e =>
    unfold imposeOnValues
    rw [hr]
    rfl
  | ok r =>
    show ((Pass.inOrder values).updated update D r >>= fun t =>
      (f.map Pass.inOrder).mapM (Pass.replace D r) >>= fun g => pure (t, g)) = _
    unfold Pass.updated
    cases hempty : r.isEmpty with
    | true =>
      -- the frame is not visited, and visiting it with an empty table changes nothing
      have hvisit : (f.map Pass.inOrder).mapM (Pass.replace D r) = .ok f := by
        rw [Frame.mapM_map]
        exact f.mapM_eq_self fun s => (Pass.inOrder s).replace_of_isEmpty hempty
      rw [imposeOnValues_of_isEmpty hr hempty, hvisit, Pass.replace_of_isEmpty hempty]
      cases update <;> rfl
    | false =>
      rw [Frame.mapM_replace_inOrder, Pass.replace_inOrder]
      unfold imposeOnValues
      rw [hr]
      show _ = if r.isEmpty then _ else _
      rw [hempty, if_neg Bool.false_ne_true]
      cases update <;> rfl

/-! ## Every order of imposing -/

/-- What imposing a fact on values may come to, in some order of the passes. -/
def MayImposeOnValues (D : Dimension Q) (fact : Q) (update : Bool) (values : QualifiedValueSet Q)
    (f : Frame (QualifiedValueSet Q))
    (outcome : Except AnalysisError (QualifiedValueSet Q × Frame (QualifiedValueSet Q))) : Prop :=
  ∃ (p : Pass Q) (passes : Frame (Pass Q)), p.set = values ∧ passes.map Pass.set = f ∧
    D.imposeOnPass fact update p passes = outcome

/-- What imposing a fact on a slot may come to, in some order of the passes. -/
def MayImpose (D : Dimension Q) (fact : Q) (slot : Slot) (f : Frame (QualifiedValueSet Q))
    (outcome : Except AnalysisError (Frame (QualifiedValueSet Q))) : Prop :=
  ∃ values passes, values.map Pass.set = f.get? slot ∧ passes.map Pass.set = f ∧
    D.imposeInPasses fact values passes = outcome

/-- Imposing a fact on values is one of the things that it may come to. -/
theorem mayImposeOnValues_imposeOnValues (D : Dimension Q) (fact : Q) (update : Bool)
    (values : QualifiedValueSet Q) (f : Frame (QualifiedValueSet Q)) :
    D.MayImposeOnValues fact update values f (D.imposeOnValues fact update values f) :=
  ⟨.inOrder values, f.map .inOrder, rfl, f.map_set_map fun _ => rfl,
    imposeOnPass_inOrder D fact update values f⟩

/-- What imposing a fact on a slot comes to if an order is chosen for each set. -/
theorem mayImpose_imposeInPasses {order : QualifiedValueSet Q → Pass Q}
    (h : ∀ s, (order s).set = s) (D : Dimension Q) (fact : Q) (slot : Slot)
    (f : Frame (QualifiedValueSet Q)) :
    D.MayImpose fact slot f (D.imposeInPasses fact ((f.get? slot).map order) (f.map order)) := by
  refine ⟨(f.get? slot).map order, f.map order, ?_, f.map_set_map h, rfl⟩
  rw [← Frame.get?_map, ← Frame.get?_map, f.map_set_map h]

/-- Imposing a fact on a slot is one of the things that it may come to. -/
theorem mayImpose_imposeOnSlot (D : Dimension Q) (fact : Q) (slot : Slot)
    (f : Frame (QualifiedValueSet Q)) : D.MayImpose fact slot f (D.imposeOnSlot fact slot f) := by
  have hset : ∀ s : QualifiedValueSet Q, (Pass.inOrder s).set = s := fun _ => rfl
  have hinOrder : D.imposeInPasses fact ((f.get? slot).map .inOrder) (f.map .inOrder)
      = D.imposeOnSlot fact slot f := by
    unfold imposeOnSlot
    cases f.get? slot with
    | none => exact congrArg Except.ok (f.map_set_map hset)
    | some values =>
      show D.imposeInPasses fact (some (.inOrder values)) (f.map .inOrder) =
        (D.imposeOnValues fact false values f).map Prod.snd
      rw [imposeInPasses_some, imposeOnPass_inOrder]
  rw [← hinOrder]
  exact mayImpose_imposeInPasses hset D fact slot f

/-- In whatever order, imposing a fact on a slot is imposing it on the values there; an unset slot
changes nothing. -/
theorem mayImpose_cases (h : D.MayImpose fact slot f (.ok g)) :
    (f.get? slot = none ∧ g = f) ∨
      ∃ values, f.get? slot = some values ∧
        D.MayImposeOnValues fact false values f (.ok (values, g)) := by
  obtain ⟨values, passes, hvalues, rfl, himpose⟩ := h
  cases values with
  | none => exact .inl ⟨hvalues.symm, (Except.ok.inj himpose).symm⟩
  | some values =>
    rw [imposeInPasses_some] at himpose
    obtain ⟨⟨t, g⟩, hpass, rfl⟩ := map_eq_ok.1 himpose
    obtain ⟨_, -, ht, -⟩ := imposeOnPass_eq_ok hpass
    -- the values are not updated
    obtain rfl : values.set = t := Except.ok.inj ht
    exact .inr ⟨values.set, hvalues.symm, values, passes, rfl, rfl, hpass⟩

/-! ## What an imposition leaves -/

/-- What imposing a fact on values may leave of them and of a frame, at its end or where it fails: a
pass through the values makes a table, and each set is replaced by it or has not been come by. -/
def MayLeave (D : Dimension Q) (fact : Q) (values : QualifiedValueSet Q)
    (f : Frame (QualifiedValueSet Q)) (t : QualifiedValueSet Q) (g : Frame (QualifiedValueSet Q)) :
    Prop :=
  ∃ (p : Pass Q) (r : Replacements Q), p.set = values ∧
    D.replacements fact p.order .empty = .ok r ∧ (t = values ∨ p.replace D r = .ok t) ∧
    f.Alike (fun u v => v = u ∨ ∃ q : Pass Q, q.set = u ∧ q.replace D r = .ok v) g

/-- An imposition that comes to its end has come by every set. -/
theorem mayLeave_of_mayImposeOnValues (h : D.MayImposeOnValues fact update s f (.ok (t, g))) :
    D.MayLeave fact s f t g := by
  obtain ⟨p, passes, rfl, rfl, himpose⟩ := h
  obtain ⟨r, hr, ht, hg⟩ := imposeOnPass_eq_ok himpose
  refine ⟨p, r, rfl, hr, ?_, (Frame.alike_of_passes hg).imp fun _ _ h => .inr h⟩
  cases update with
  | false => exact .inl (Except.ok.inj ht).symm
  | true => exact .inr ht

/-- A set looks the same after its members are replaced by a table, if versions of the values in the
table and members of the set look the same where they have one origin. -/
theorem image_of_replace {β : Type} {k : Witness → β} {l : List (QualifiedValue Q)}
    {r : Replacements Q} {p : Pass Q} (hr : D.replacements fact l .empty = .ok r)
    (ht : p.replace D r = .ok t)
    (hk : ∀ u ∈ l, ∀ v ∈ p.set, v.origin = u.origin → k v.base = k u.base) (b : β) :
    (∃ x ∈ t, k x.base = b) ↔ ∃ x ∈ p.set, k x.base = b := by
  obtain ⟨pairs, hpairs, rfl⟩ := Pass.replace_eq_ok ht
  refine QualifiedValueSet.image_afterReplacing (fun v => k v.base)
    (fun x hx => ⟨x.1, ((hpairs x).1 hx).1, rfl⟩) (fun x hx => ?_) b
  -- what is put in for a member is a version of some value with its key, and the key has the origin
  obtain ⟨u, hu, hkeys, hgoes⟩ := source_of_pair hr ((hpairs x).1 hx)
  obtain ⟨hmem, key, hkey, -⟩ := (hpairs x).1 hx
  have horigin : x.1.origin = u.origin := origin_of_key_eq (hkeys.symm.trans hkey) hkeys
  rw [base_of_goesOnAs hgoes, hk u hu x.1 hmem horigin]

end Dimension

end Provenance

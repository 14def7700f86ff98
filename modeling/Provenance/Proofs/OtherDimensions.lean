/-
What imposing a fact in one dimension does to another.

The values of a frame carry facts of several dimensions, and a fact imposed in one of them should
leave the others alone. The versions of a value that are replaced are found by their key in the one
dimension, though, and all of them give way to one version, with its facts of the other dimensions. So
two versions of a value that differ in another dimension only are mixed up.

A frame keeps its keys in another dimension if no two values share a key in the one dimension and
differ in the other, as far as the imposed fact changes them. If no slot holds several versions of a
value, that is the only way for the keys to be kept.
-/
import Mathlib.Data.Set.Defs
import Provenance.Proofs.FactLens
import Provenance.Proofs.Replacement

set_option autoImplicit false

namespace Provenance

variable {Q : Type} [Fact Q]

namespace QualifiedValue

variable {D E : Dimension Q} {u v w : QualifiedValue Q}

theorem key_of_multi {facts : Facts Q} (h : v.qualifier = .multi facts) (D : Dimension Q) :
    v.key D = .ok ⟨v.origin, facts.get? D.id⟩ := by
  unfold key
  rw [h]
  rfl

/-- Another fact in one dimension leaves a value what it is in every other. -/
theorem key_of_withFact {facts : Facts Q} (hD : D.IsPlain) (hne : D.id ≠ E.id)
    (hu : u.qualifier = .multi facts) {fact : Q} (h : u.withFact D fact = .ok w) :
    w.key E = u.key E := by
  rw [withFact_of_multi hD hu] at h
  obtain rfl := Except.ok.inj h
  rw [key_of_multi rfl E, key_of_multi hu E, OrderedMap.get?_insert_of_ne _ _ hne.symm]
  rfl

end QualifiedValue

/-- What the members of a set are in a dimension: the origin of each with its fact there. -/
def QualifiedValueSet.keysIn (E : Dimension Q) (s : QualifiedValueSet Q) : Set (DimensionKey Q) :=
  {key | ∃ v ∈ s, v.key E = .ok key}

namespace Frame

/-- Every value of the frame carries facts of several dimensions. -/
def AllMulti (f : Frame (QualifiedValueSet Q)) : Prop :=
  ∀ slot s, f.get? slot = some s → ∀ v ∈ s, ∃ facts, v.qualifier = .multi facts

/-- No slot of the frame holds two versions of one value. -/
def SingleVersions (f : Frame (QualifiedValueSet Q)) : Prop :=
  ∀ slot s, f.get? slot = some s → ∀ v ∈ s, ∀ w ∈ s, v.origin = w.origin → v = w

/-- The slots of two frames are what they are in a dimension alike. -/
def SameKeysIn (E : Dimension Q) (f g : Frame (QualifiedValueSet Q)) : Prop :=
  ∀ slot, (f.get? slot).map (QualifiedValueSet.keysIn E)
    = (g.get? slot).map (QualifiedValueSet.keysIn E)

end Frame

variable [DecidableEq Q]

omit [DecidableEq Q] in
/-- If a set holds one version of each value, what replaces one of its members is there in the
end. -/
theorem QualifiedValueSet.mem_afterReplacing {s : QualifiedValueSet Q}
    {pairs : List (QualifiedValue Q × QualifiedValue Q)}
    (hsingle : ∀ v ∈ s, ∀ w ∈ s, v.origin = w.origin → v = w)
    (hmem : ∀ p ∈ pairs, p.1 ∈ s) (horigin : ∀ p ∈ pairs, p.2.origin = p.1.origin)
    (hfun : ∀ p ∈ pairs, ∀ q ∈ pairs, p.1 = q.1 → p.2 = q.2)
    {p : QualifiedValue Q × QualifiedValue Q} (hp : p ∈ pairs) :
    p.2 ∈ afterReplacing s.members pairs := by
  -- some version of the replaced value is left, and it cannot be another one
  obtain ⟨x, hx, hxo⟩ := (image_afterReplacing QualifiedValue.origin
    (fun q hq => ⟨q.1, hmem q hq, rfl⟩) horigin p.1.origin).2 ⟨p.1, hmem p hp, rfl⟩
  rcases of_mem_afterReplacing hx with ⟨hxs, hstays⟩ | ⟨q, hq, hqx⟩
  · have hxp : p.1 = x := hsingle p.1 (hmem p hp) x hxs hxo.symm
    exact absurd hxp (hstays p hp)
  · have hqo : q.1.origin = p.1.origin := by
      rw [← horigin q hq, hqx, hxo]
    have hqp : q.1 = p.1 := hsingle q.1 (hmem q hq) p.1 (hmem p hp) hqo
    rw [← hfun q hq p hp hqp, hqx]
    exact hx

namespace Dimension

variable {D E : Dimension Q} {fact : Q} {slot : Slot} {f g : Frame (QualifiedValueSet Q)}

/-- Wherever the frame holds a version with the key of a value in the slot that the imposed fact
changes, the two are the same in another dimension. -/
def Unmixed (D E : Dimension Q) (fact : Q) (slot : Slot) (f : Frame (QualifiedValueSet Q)) :
    Prop :=
  ∀ values, f.get? slot = some values → ∀ u ∈ values, D.Changes fact u →
    ∀ other s, f.get? other = some s → ∀ v ∈ s, v.key D = u.key D → v.key E = u.key E

/-- Keys in another dimension are kept if versions are not mixed. -/
theorem sameKeysIn_of_unmixed (hD : D.IsPlain) (hne : D.id ≠ E.id) (hf : f.AllMulti)
    (h : D.imposeOnSlot fact slot f = .ok g) (hunmixed : D.Unmixed E fact slot f) :
    g.SameKeysIn E f := by
  intro other
  rcases imposeOnSlot_eq_ok h with ⟨-, rfl⟩ | ⟨values, r, hslot, hr, hrel⟩
  · rfl
  · have hother := hrel other
    generalize hs : f.get? other = s at hother
    generalize g.get? other = t at hother
    cases hother with
    | none => rfl
    | @some s t hst =>
      obtain ⟨b, hreplace⟩ := hst
      obtain ⟨pairs, hpairs, rfl⟩ := QualifiedValueSet.replace_eq_ok hreplace
      refine congrArg some (Set.ext fun key => ?_)
      refine QualifiedValueSet.image_afterReplacing (fun v => v.key E)
        (fun p hp => ⟨p.1, ((hpairs p).1 hp).1, rfl⟩) (fun p hp => ?_) (.ok key)
      -- what replaces a member is another version of a value in the slot with the key of the member
      obtain ⟨u, hu, hkey, hgoes⟩ := source_of_pair hr ((hpairs p).1 hp)
      obtain ⟨facts, hfacts⟩ := hf slot values hslot u hu
      obtain ⟨current, hc, hchange, hwith⟩ := hgoes
      have hsame : p.1.key E = u.key E :=
        hunmixed values hslot u hu ⟨current, hc, hchange⟩ other s hs p.1
          ((hpairs p).1 hp).1 hkey
      rw [QualifiedValue.key_of_withFact hD hne hfacts hwith, hsame]

section Table

variable {values s t : QualifiedValueSet Q} {r : Replacements Q}

/-- Among single versions, the entry of the table for a value that changes is the value's own. -/
theorem exists_own_entry (hkeys : ∀ x ∈ values, ∃ key, x.key D = .ok key)
    (hsingle : ∀ v ∈ values, ∀ w ∈ values, v.origin = w.origin → v = w)
    (hr : D.replacements fact values.members.toList .empty = .ok r) {u : QualifiedValue Q}
    (hu : u ∈ values) (hchanges : D.Changes fact u) :
    ∃ key w, u.key D = .ok key ∧ r.get? key = some w ∧ D.GoesOnAs fact u w := by
  obtain ⟨key, hkey⟩ := hkeys u hu
  obtain ⟨w, hw⟩ := Option.isSome_iff_exists.1
    (replacements_isSome hr (.inr ⟨u, hu, hchanges, hkey⟩))
  obtain ⟨u', hu', hkey', hgoes⟩ :=
    source_of_pair (p := (u, w)) (s := values) hr ⟨hu, key, hkey, hw⟩
  obtain ⟨key', hukey'⟩ := hkeys u' hu'
  obtain rfl : u = u' := hsingle u hu u' hu' (origin_of_key_eq hukey' hkey')
  exact ⟨key, w, hkey, hw, hgoes⟩

/-- Among single versions, what the table has for a member is there after the replacement. -/
theorem mem_of_entry (hkeys : ∀ x ∈ values, ∃ key, x.key D = .ok key)
    (hr : D.replacements fact values.members.toList .empty = .ok r)
    (hsingle : ∀ v ∈ s, ∀ w ∈ s, v.origin = w.origin → v = w) {b : Bool}
    (hreplace : QualifiedValueSet.replace D r s = .ok (t, b)) {v w : QualifiedValue Q}
    (hv : v ∈ s) {key : DimensionKey Q} (hkey : v.key D = .ok key)
    (hw : r.get? key = some w) : w ∈ t := by
  obtain ⟨pairs, hpairs, rfl⟩ := QualifiedValueSet.replace_eq_ok hreplace
  refine QualifiedValueSet.mem_afterReplacing hsingle (fun p hp => ((hpairs p).1 hp).1)
    (fun p hp => ?_) (fun p hp q hq hpq => ?_) ((hpairs (v, w)).2 ⟨hv, key, hkey, hw⟩)
  · obtain ⟨x, hx, hxkey, hgoes⟩ := source_of_pair hr ((hpairs p).1 hp)
    obtain ⟨k, hk⟩ := hkeys x hx
    exact (congrArg Witness.origin (base_of_goesOnAs hgoes)).trans (origin_of_key_eq hk hxkey).symm
  · obtain ⟨-, k, hk, hget⟩ := (hpairs p).1 hp
    obtain ⟨-, k', hk', hget'⟩ := (hpairs q).1 hq
    rw [hpq] at hk
    obtain rfl := Except.ok.inj (hk.symm.trans hk')
    exact Option.some.inj (hget.symm.trans hget')

end Table

/-- If no slot holds several versions of a value, keys are kept only if versions are not mixed. -/
theorem unmixed_of_sameKeysIn (hD : D.IsPlain) (hne : D.id ≠ E.id) (hf : f.AllMulti)
    (hsingle : f.SingleVersions) (h : D.imposeOnSlot fact slot f = .ok g)
    (hsame : g.SameKeysIn E f) : D.Unmixed E fact slot f := by
  intro values hslot u hu hchanges other s hs v hv hkey
  rcases imposeOnSlot_eq_ok h with ⟨hnone, -⟩ | ⟨values', r, hslot', hr, hrel⟩
  · rw [hnone] at hslot
    cases hslot
  obtain rfl := Option.some.inj (hslot.symm.trans hslot')
  have hkeys : ∀ x ∈ values, ∃ key, x.key D = .ok key := by
    intro x hx
    obtain ⟨facts, hfacts⟩ := hf slot values hslot x hx
    exact ⟨_, QualifiedValue.key_of_multi hfacts D⟩
  obtain ⟨key, w, hukey, hw, hgoes⟩ :=
    exists_own_entry hkeys (hsingle slot values hslot) hr hu hchanges
  obtain ⟨facts, hfacts⟩ := hf slot values hslot u hu
  obtain ⟨current, -, -, hwith⟩ := hgoes
  have hwE : w.key E = u.key E := QualifiedValue.key_of_withFact hD hne hfacts hwith
  have huE := QualifiedValue.key_of_multi hfacts E
  -- the replacement is there afterwards, so before there was something with its key
  have hsother := hsame other
  have hother := hrel other
  rw [hs] at hsother hother
  generalize g.get? other = t at hsother hother
  cases hother with
  | @some _ t hst =>
    obtain ⟨b, hreplace⟩ := hst
    have hwt : w ∈ t :=
      mem_of_entry hkeys hr (hsingle other s hs) hreplace hv (hkey.trans hukey) hw
    have hmem : (⟨u.origin, facts.get? E.id⟩ : DimensionKey Q) ∈ s.keysIn E := by
      rw [← Option.some.inj hsother]
      exact ⟨w, hwt, hwE.trans huE⟩
    obtain ⟨y, hy, hyE⟩ := hmem
    have hyorigin : y.origin = v.origin := by
      rw [← QualifiedValue.origin_of_key hyE, QualifiedValue.origin_of_key huE,
        origin_of_key_eq hukey hkey]
    rw [← hsingle other s hs y hy v hv hyorigin, hyE, huE]

/-- Imposing a fact on a slot keeps in every slot what the values are in another dimension, if no two
versions that share a key in the one are told apart in the other. If no slot holds several versions of
one value, it does so only then. -/
theorem imposeOnSlot_sameKeysIn (hD : D.IsPlain) (hne : D.id ≠ E.id) (hf : f.AllMulti)
    (h : D.imposeOnSlot fact slot f = .ok g) :
    (D.Unmixed E fact slot f → g.SameKeysIn E f) ∧
      (f.SingleVersions → g.SameKeysIn E f → D.Unmixed E fact slot f) := by
  constructor
  · intro hunmixed
    exact sameKeysIn_of_unmixed hD hne hf h hunmixed
  · intro hsingle hsame
    exact unmixed_of_sameKeysIn hD hne hf hsingle h hsame

/-- An argument of which nothing is known but whether it is written through. -/
def argumentWith (written : ValueFact) : QualifiedValue ValueFact where
  base := ⟨.parameter 0, .int⟩
  qualifier := .multi (.ofList [(nullability.id, .unknown), (mutability.id, written)])

/-- A frame that holds one version of an argument in a local and another one, or the same, in the
next. -/
def argumentTwice (written : ValueFact) : Frame (QualifiedValueSet ValueFact) where
  locals := [some (.single (argumentWith .readOnly)), some (.single (argumentWith written))]
  stack := []
  maxStack := 1

/-- The sets of such a frame. -/
theorem get?_argumentTwice {written : ValueFact} {slot : Slot}
    {s : QualifiedValueSet ValueFact} (h : (argumentTwice written).get? slot = some s) :
    s = .single (argumentWith .readOnly) ∨ s = .single (argumentWith written) := by
  match slot with
  | .var 0 => exact .inl (Option.some.inj h).symm
  | .var 1 => exact .inr (Option.some.inj h).symm
  | .var (_ + 2) => cases h
  | .stack _ => cases h

theorem allMulti_argumentTwice (written : ValueFact) : (argumentTwice written).AllMulti := by
  intro slot s hs v hv
  rcases get?_argumentTwice hs with rfl | rfl
  · obtain rfl := OrderedSet.mem_singleton.1 hv
    exact ⟨_, rfl⟩
  · obtain rfl := OrderedSet.mem_singleton.1 hv
    exact ⟨_, rfl⟩

/-- One version in two locals: that it is not null becomes known of both, and whether it is written
through stays as it was. -/
theorem imposeOnSlot_sameKeysIn_argumentTwice :
    ∃ g, nullability.imposeOnSlot .notNull (.var 0) (argumentTwice .readOnly) = .ok g ∧
      g ≠ argumentTwice .readOnly ∧ g.SameKeysIn mutability (argumentTwice .readOnly) := by
  obtain ⟨g, hg⟩ : ∃ g, nullability.imposeOnSlot .notNull (.var 0) (argumentTwice .readOnly)
      = .ok g := ⟨_, rfl⟩
  refine ⟨g, hg, ?_, ?_⟩
  · rintro rfl
    revert hg
    decide +kernel
  · have hplain : nullability.IsPlain := rfl
    refine (imposeOnSlot_sameKeysIn hplain (by decide) (allMulti_argumentTwice _) hg).1 ?_
    intro values hvalues u hu _ other s hs v hv _
    have hu' : u = argumentWith .readOnly := by
      rcases get?_argumentTwice hvalues with rfl | rfl
      · exact OrderedSet.mem_singleton.1 hu
      · exact OrderedSet.mem_singleton.1 hu
    have hv' : v = argumentWith .readOnly := by
      rcases get?_argumentTwice hs with rfl | rfl
      · exact OrderedSet.mem_singleton.1 hv
      · exact OrderedSet.mem_singleton.1 hv
    rw [hu', hv']

/-- Two versions that differ in whether they are written through: that one of them is not null is
imposed on both, and the other one forgets what it was. -/
theorem not_sameKeysIn_argumentTwice :
    nullability.IsPlain ∧ mutability.IsPlain ∧ nullability.id ≠ mutability.id ∧
      (argumentTwice .mutable).AllMulti ∧
      ∃ g, nullability.imposeOnSlot .notNull (.var 0) (argumentTwice .mutable) = .ok g ∧
        ¬ g.SameKeysIn mutability (argumentTwice .mutable) := by
  obtain ⟨g, hg⟩ : ∃ g, nullability.imposeOnSlot .notNull (.var 0) (argumentTwice .mutable)
      = .ok g := ⟨_, rfl⟩
  refine ⟨rfl, rfl, by decide, allMulti_argumentTwice _, g, hg, fun hsame => ?_⟩
  -- the second local had a mutable version, and what it has now is read-only
  have hafter : g.get? (.var 1) = some (.single ⟨⟨.parameter 0, .int⟩,
      .multi (.ofList [(nullability.id, .notNull), (mutability.id, .readOnly)])⟩) := by
    have h : (nullability.imposeOnSlot .notNull (.var 0)
        (argumentTwice .mutable)).toOption.bind (·.get? (.var 1))
        = some (.single ⟨⟨.parameter 0, .int⟩,
          .multi (.ofList [(nullability.id, .notNull), (mutability.id, .readOnly)])⟩) := by
      decide +kernel
    rwa [hg] at h
  have hlocal := hsame (.var 1)
  rw [hafter] at hlocal
  have hkey : (⟨.parameter 0, some .mutable⟩ : DimensionKey ValueFact)
      ∈ QualifiedValueSet.keysIn mutability (.single (argumentWith .mutable)) :=
    ⟨_, OrderedSet.mem_singleton.2 rfl, by decide +kernel⟩
  rw [← Option.some.inj hlocal] at hkey
  obtain ⟨v, hv, hvkey⟩ := hkey
  obtain rfl := OrderedSet.mem_singleton.1 hv
  revert hvkey
  decide +kernel

end Dimension

end Provenance

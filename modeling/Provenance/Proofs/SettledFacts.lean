/-
Imposing a fact on a slot settles its values.

Several versions of a value may share a slot and a key, so it depends on the order in which the
members of the sets are come by what imposing a fact on the slot comes to; all outcomes are looked
at here (`Dimension.MayImpose`). In each of them what is left in the slot has facts that the imposed
fact does not change again. A member that would be changed has an entry in the table under its key
and is taken out, and what is put in has a fact that was imposed already. Hence the table of a
second imposition is empty.
-/
import Provenance.Proofs.Passes

set_option autoImplicit false

namespace Provenance

variable {Q : Type} [DecidableEq Q] [Fact Q]

/-- The origins of the values of a set. -/
def QualifiedValueSet.origins (s : QualifiedValueSet Q) : Set Origin :=
  {o | ∃ v ∈ s, v.origin = o}

namespace Dimension

variable {D : Dimension Q} {fact : Q} {slot : Slot} {f g : Frame (QualifiedValueSet Q)}

/-! ## Settled values -/

/-- The value has a fact, or one is assumed, that the imposed fact does not change. -/
def Settled (D : Dimension Q) (fact : Q) (v : QualifiedValue Q) : Prop :=
  ∃ current, D.currentFact v = .ok current ∧ D.impose current fact = current

/-- A fact was imposed on a slot of the first frame: the second has settled values there, and the two
are the same if only the origins of the values are looked at, with the same locals unset. -/
structure SettledOn (D : Dimension Q) (fact : Q) (slot : Slot)
    (f g : Frame (QualifiedValueSet Q)) : Prop where
  settled : ∀ s, g.get? slot = some s → ∀ v ∈ s, D.Settled fact v
  origins : g.map QualifiedValueSet.origins = f.map QualifiedValueSet.origins

theorem settled_iff {v : QualifiedValue Q} :
    D.Settled fact v ↔ D.Reads v ∧ ¬ D.Changes fact v := by
  constructor
  · rintro ⟨current, hcurrent, hsame⟩
    refine ⟨exists_currentFact_iff.1 ⟨current, hcurrent⟩, ?_⟩
    rintro ⟨current', hcurrent', hne⟩
    obtain rfl := Except.ok.inj (hcurrent.symm.trans hcurrent')
    exact hne hsame
  · rintro ⟨hreads, hsame⟩
    obtain ⟨current, hcurrent⟩ := exists_currentFact_iff.2 hreads
    exact ⟨current, hcurrent, Decidable.byContradiction fun hne => hsame ⟨current, hcurrent, hne⟩⟩

omit [DecidableEq Q] in
/-- What a value goes on as is settled, if imposing a fact twice is imposing it once. -/
theorem settled_of_goesOnAs (hD : D.IsPlain)
    (htwice : ∀ current, D.impose (D.impose current fact) fact = D.impose current fact)
    {u w : QualifiedValue Q} (h : D.GoesOnAs fact u w) : D.Settled fact w := by
  obtain ⟨current, -, -, hw⟩ := h
  exact ⟨_, currentFact_of_withFact hD hw, htwice current⟩

section Table

variable {l : List (QualifiedValue Q)} {r : Replacements Q} {p : Pass Q}
  {t : QualifiedValueSet Q}

/-- What the values of the table are replaced by settles the set in which all of them are, whichever
of them an entry comes from. -/
theorem settled_of_replace (hD : D.IsPlain)
    (htwice : ∀ current, D.impose (D.impose current fact) fact = D.impose current fact)
    (hr : D.replacements fact l .empty = .ok r) (hl : ∀ v ∈ p.set, v ∈ l)
    (ht : p.replace D r = .ok t) : ∀ v ∈ t, D.Settled fact v := by
  intro v hv
  obtain ⟨pairs, hpairs, rfl⟩ := Pass.replace_eq_ok ht
  rcases QualifiedValueSet.of_mem_afterReplacing hv with ⟨hv, hstays⟩ | ⟨x, hx, rfl⟩
  · -- a value that changes has an entry under its key, and would not have stayed
    have hreads : D.Reads v := (exists_replacements_iff hD).1 ⟨r, hr⟩ v (hl v hv)
    refine settled_iff.2 ⟨hreads, fun hchanges => ?_⟩
    obtain ⟨key, hkey⟩ := exists_key_iff.2 hreads
    obtain ⟨w, hw⟩ := Option.isSome_iff_exists.1
      (replacements_isSome hr (.inr ⟨v, hl v hv, hchanges, hkey⟩))
    exact hstays (v, w) ((hpairs (v, w)).2 ⟨hv, key, hkey, hw⟩) rfl
  · obtain ⟨u, -, -, hgoes⟩ := source_of_pair hr ((hpairs x).1 hx)
    exact settled_of_goesOnAs hD htwice hgoes

/-- A set has versions of the same values after its members are replaced by the table. -/
theorem origins_of_replace (hr : D.replacements fact l .empty = .ok r)
    (ht : p.replace D r = .ok t) :
    QualifiedValueSet.origins t = QualifiedValueSet.origins p.set := by
  refine Set.ext fun o => ?_
  exact image_of_replace (k := Witness.origin) hr ht (fun _ _ _ _ horigin => horigin) o

/-- Settled values make an empty table. -/
theorem replacements_of_settled (hD : D.IsPlain) (hl : ∀ v ∈ l, D.Settled fact v) :
    D.replacements fact l .empty = .ok .empty := by
  obtain ⟨r, hr⟩ : ∃ r, D.replacements fact l .empty = .ok r :=
    (exists_replacements_iff hD).2 fun v hv => (settled_iff.1 (hl v hv)).1
  rw [hr, replacements_of_not_changes hr fun v hv => (settled_iff.1 (hl v hv)).2]

end Table

/-! ## Imposing settles -/

/-- Every outcome of imposing a fact settles the slot. -/
theorem settledOn_of_mayImpose (hD : D.IsPlain)
    (htwice : ∀ current, D.impose (D.impose current fact) fact = D.impose current fact)
    (h : D.MayImpose fact slot f (.ok g)) : D.SettledOn fact slot f g := by
  rcases mayImpose_cases h with ⟨hunset, rfl⟩ | ⟨s, hs, p, passes, rfl, rfl, himpose⟩
  · refine ⟨fun s hs => ?_, rfl⟩
    rw [hunset] at hs
    cases hs
  · obtain ⟨r, hr, -, hpasses⟩ := imposeOnPass_eq_ok himpose
    have halike := Frame.alike_of_passes hpasses
    constructor
    · -- the slot holds the values that the table was made from
      intro t ht
      have hslot := halike.get? slot
      rw [hs, ht] at hslot
      obtain ⟨_, hvalues, q, hq, hreplace⟩ := exists_left_of_rel hslot
      have hset : p.set = q.set := (Option.some.inj hvalues).trans hq.symm
      exact settled_of_replace hD htwice hr (fun v hv => Pass.mem_order.2 (hset ▸ hv)) hreplace
    · refine (Frame.Alike.map_eq (halike.imp ?_)).symm
      rintro _ t ⟨q, rfl, ht⟩
      exact (origins_of_replace hr ht).symm

/-- In a frame whose slot is settled, imposing the fact changes nothing. -/
theorem eq_ok_of_mayImpose (hD : D.IsPlain)
    (hsettled : ∀ s, g.get? slot = some s → ∀ v ∈ s, D.Settled fact v)
    {outcome : Except AnalysisError (Frame (QualifiedValueSet Q))}
    (h : D.MayImpose fact slot g outcome) : outcome = .ok g := by
  obtain ⟨values, passes, hvalues, rfl, rfl⟩ := h
  cases values with
  | none => rfl
  | some values =>
    -- the order in which the table is made does not matter, for no entry is made
    have htable : D.replacements fact values.order .empty = .ok .empty :=
      replacements_of_settled hD fun v hv =>
        hsettled values.set hvalues.symm v (Pass.mem_order.1 hv)
    unfold imposeInPasses
    dsimp only
    rw [htable]
    exact Frame.mapM_eq_map (fun p => rfl) passes

/-- In a plain dimension where imposing a fact twice on another is imposing it once, imposing it on a
slot settles the slot, in whatever order the sets are passed through and however many versions of a
value they hold. Imposing it again succeeds and changes nothing, in whatever order. -/
theorem imposeOnSlot_settles (hD : D.IsPlain)
    (htwice : ∀ current, D.impose (D.impose current fact) fact = D.impose current fact)
    (slot : Slot) (f : Frame (QualifiedValueSet Q)) :
    D.MayImpose fact slot f (D.imposeOnSlot fact slot f) ∧
      ∀ g, D.MayImpose fact slot f (.ok g) → D.SettledOn fact slot f g ∧
        D.imposeOnSlot fact slot g = .ok g ∧
        ∀ outcome, D.MayImpose fact slot g outcome → outcome = .ok g := by
  refine ⟨mayImpose_imposeOnSlot D fact slot f, fun g hg => ?_⟩
  have hsettled : D.SettledOn fact slot f g := settledOn_of_mayImpose hD htwice hg
  have hagain : ∀ outcome, D.MayImpose fact slot g outcome → outcome = .ok g := by
    intro outcome houtcome
    exact eq_ok_of_mayImpose hD hsettled.settled houtcome
  exact ⟨hsettled, hagain _ (mayImpose_imposeOnSlot D fact slot g), hagain⟩

/-- Two versions of an argument of which nothing is known but whether it is written through. -/
def argumentVersions : QualifiedValueSet ValueFact :=
  ⟨1, (OrderedSet.singleton (argumentWith .readOnly)).insert (argumentWith .mutable)⟩

/-- A frame with both versions in one local. -/
def argumentBoth : Frame (QualifiedValueSet ValueFact) where
  locals := [some argumentVersions]
  stack := []
  maxStack := 0

/-- The pass that comes to the second version first. -/
def argumentBackwards : Pass ValueFact :=
  ⟨argumentVersions, argumentVersions.members.toList.reverse, List.reverse_perm _⟩

/-- That the argument is not null becomes known of one version that is left of the two, and it depends
on the order which one is left. Each outcome is settled. -/
theorem imposeOnSlot_settles_argumentBoth :
    nullability.IsPlain ∧
      ∃ g g', g ≠ g' ∧ nullability.imposeOnSlot .notNull (.var 0) argumentBoth = .ok g ∧
        nullability.MayImpose .notNull (.var 0) argumentBoth (.ok g') ∧
        nullability.SettledOn .notNull (.var 0) argumentBoth g ∧
        nullability.SettledOn .notNull (.var 0) argumentBoth g' ∧
        nullability.imposeOnSlot .notNull (.var 0) g = .ok g ∧
        nullability.imposeOnSlot .notNull (.var 0) g' = .ok g' := by
  have hplain : nullability.IsPlain := rfl
  have htwice : ∀ current, nullability.impose (nullability.impose current .notNull) .notNull
      = nullability.impose current .notNull := by
    intro current
    cases current <;> rfl
  obtain ⟨g, hg⟩ : ∃ g, nullability.imposeOnSlot .notNull (.var 0) argumentBoth = .ok g :=
    ⟨_, rfl⟩
  obtain ⟨g', hg'⟩ : ∃ g', nullability.imposeInPasses .notNull (some argumentBackwards)
      (⟨[some argumentBackwards], [], 0⟩ : Frame (Pass ValueFact)) = .ok g' := ⟨_, rfl⟩
  have hmay' : nullability.MayImpose .notNull (.var 0) argumentBoth (.ok g') :=
    ⟨some argumentBackwards, _, rfl, rfl, hg'⟩
  obtain ⟨hmay, hall⟩ := imposeOnSlot_settles hplain htwice (.var 0) argumentBoth
  rw [hg] at hmay
  obtain ⟨hsettled, hagain, -⟩ := hall g hmay
  obtain ⟨hsettled', hagain', -⟩ := hall g' hmay'
  refine ⟨hplain, g, g', ?_, hg, hmay', hsettled, hsettled', hagain, hagain'⟩
  -- the version that is come to last has made the entry
  rintro rfl
  rw [← hg'] at hg
  revert hg
  decide +kernel

end Dimension

end Provenance

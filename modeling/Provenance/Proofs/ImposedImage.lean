/-
Imposing a fact as the image of an update on values.

An imposition is carried out by a table of replacements, and in every set members are taken out and
others put in, one after the other. So a value that was put in for one member might be taken out as
another, and versions with one key give way to one version. None of this shows if values are told
apart by their keys, and if imposing a fact again changes nothing: then the table holds what each
changing value goes on as (`Dimension.get?_iff`), what is put in is never taken out again, and every
set of the frame goes over into its image under one function on values
(`Dimension.imposeOnValues_eq_image`).

An imposition succeeds if there is no value to look at that is of another dimension. The values of the
frame are looked at only if some value changes.
-/
import Provenance.Proofs.Erasure
import Provenance.Proofs.OtherDimensions

set_option autoImplicit false

namespace Provenance

/-! ## Images of sets -/

/-- A function that leaves the members as they are leaves the set as it is. -/
theorem ValueSet.image_eq_self {α : Type} [Coded α] {s : ValueSet α} {φ : α → α}
    (h : ∀ a ∈ s, φ a = a) : s.image φ = s := by
  refine ValueSet.ext rfl (OrderedSet.ext fun a => ?_)
  show a ∈ s.image φ ↔ a ∈ s
  rw [ValueSet.mem_image]
  constructor
  · rintro ⟨b, hb, rfl⟩
    rw [h b hb]
    exact hb
  · intro ha
    exact ⟨a, ha, h a ha⟩

/-! ## Visits that succeed -/

theorem exists_mapM_eq_ok {ε α β : Type} {visit : α → Except ε β} {l : List α} :
    (∃ r, l.mapM visit = .ok r) ↔ ∀ a ∈ l, ∃ b, visit a = .ok b := by
  induction l with
  | nil => exact ⟨fun _ _ ha => (nomatch ha), fun _ => ⟨[], rfl⟩⟩
  | cons a l ih =>
    rw [List.forall_mem_cons, ← ih]
    constructor
    · rintro ⟨r, hr⟩
      rw [List.mapM_cons] at hr
      obtain ⟨b, hb, hr⟩ := bind_eq_ok.1 hr
      obtain ⟨rest, hrest, -⟩ := bind_eq_ok.1 hr
      exact ⟨⟨b, hb⟩, rest, hrest⟩
    · rintro ⟨⟨b, hb⟩, rest, hrest⟩
      refine ⟨b :: rest, ?_⟩
      rw [List.mapM_cons]
      exact bind_eq_ok.2 ⟨b, hb, bind_eq_ok.2 ⟨rest, hrest, rfl⟩⟩

namespace Frame

variable {V W : Type} {ε : Type} {f : Frame V}

/-- Every value can be visited if each of them can. -/
theorem exists_mapM_eq_ok_iff {visit : V → Except ε W} :
    (∃ g, f.mapM visit = .ok g) ↔ ∀ slot v, f.get? slot = some v → ∃ w, visit v = .ok w := by
  constructor
  · rintro ⟨g, hg⟩ slot v hv
    have hslot := (alike_of_mapM hg).get? slot
    rw [hv] at hslot
    generalize g.get? slot = w at hslot
    cases hslot with
    | some hw => exact ⟨_, hw⟩
  · intro h
    obtain ⟨stack, hstack⟩ : ∃ r, f.stack.reverse.mapM visit = .ok r := by
      refine exists_mapM_eq_ok.2 fun v hv => ?_
      obtain ⟨slot, hslot⟩ := exists_get?_of_mem_stack (List.mem_reverse.1 hv)
      exact h slot v hslot
    refine (exists_mapM_eq_ok.2 fun v hv => ?_).elim fun locals hlocals =>
      ⟨_, bind_eq_ok.2 ⟨locals, hlocals, bind_eq_ok.2 ⟨stack, hstack, rfl⟩⟩⟩
    cases v with
    | none => exact ⟨none, rfl⟩
    | some v =>
      obtain ⟨slot, hslot⟩ := exists_get?_of_mem_locals hv
      obtain ⟨w, hw⟩ := h slot v hslot
      exact ⟨some w, bind_eq_ok.2 ⟨w, hw, rfl⟩⟩

theorem mapM_map {X : Type} (visit : W → Except ε X) (φ : V → W) (f : Frame V) :
    (f.map φ).mapM visit = f.mapM (visit ∘ φ) := by
  unfold Frame.mapM Frame.map
  simp only [← List.map_reverse, List.mapM_map]
  congr 2
  funext v
  cases v <;> rfl

/-- A visit that never fails takes a frame to its image. -/
theorem mapM_eq_map {visit : V → Except ε W} {φ : V → W} (h : ∀ v, visit v = .ok (φ v))
    (f : Frame V) : f.mapM visit = .ok (f.map φ) := by
  obtain ⟨g, hg⟩ : ∃ g, f.mapM visit = .ok g :=
    exists_mapM_eq_ok_iff.2 fun _ v _ => ⟨φ v, h v⟩
  have hvisited := (alike_of_mapM hg).imp fun v w hvw => (Except.ok.inj ((h v).symm.trans hvw)).symm
  rw [hg, alike_iff_map.1 hvisited]

theorem mapM_eq_self {visit : V → Except ε V} (h : ∀ v, visit v = .ok v) (f : Frame V) :
    f.mapM visit = .ok f := by
  rw [mapM_eq_map h f]
  exact congrArg Except.ok f.map_id

end Frame

variable {Q : Type} [DecidableEq Q] [Fact Q]

namespace Dimension

variable {D : Dimension Q} {fact : Q}

/-! ## Values of a dimension -/

/-- The value carries facts of the dimension and perhaps of others, not a fact of another one
alone. -/
def Reads (D : Dimension Q) (v : QualifiedValue Q) : Prop :=
  ∃ found, v.qualifier.extract D = .ok found

omit [DecidableEq Q] in
theorem exists_key_iff {v : QualifiedValue Q} : (∃ key, v.key D = .ok key) ↔ D.Reads v :=
  ⟨fun ⟨_, h⟩ => (map_eq_ok.1 h).imp fun _ h => h.1, fun ⟨_, h⟩ => ⟨_, map_eq_ok.2 ⟨_, h, rfl⟩⟩⟩

omit [DecidableEq Q] in
theorem exists_currentFact_iff {v : QualifiedValue Q} :
    (∃ current, D.currentFact v = .ok current) ↔ D.Reads v :=
  ⟨fun ⟨_, h⟩ => (map_eq_ok.1 h).imp fun _ h => h.1, fun ⟨_, h⟩ => ⟨_, map_eq_ok.2 ⟨_, h, rfl⟩⟩⟩

omit [DecidableEq Q] in
/-- A value has the fact that it was given last. -/
theorem currentFact_of_withFact (hD : D.IsPlain) {v w : QualifiedValue Q}
    (h : v.withFact D fact = .ok w) : D.currentFact w = .ok fact := by
  have hq := (QualifiedValue.withFact_eq_ok.1 h).1
  exact map_eq_ok.2 ⟨some fact, Qualifier.extract_of_replaceFact hD hq, rfl⟩

/-! ## The update -/

/-- What a value becomes when a fact is imposed on some values: it goes on as the version with the
imposed fact if it is one of them, and stays as it is otherwise. -/
def imposedOn (D : Dimension Q) (fact : Q) (values : QualifiedValueSet Q)
    (v : QualifiedValue Q) : QualifiedValue Q :=
  if v ∈ values then
    match D.currentFact v with
    | .error _ => v
    | .ok current =>
      if D.impose current fact = current then v
      else (v.withFact D (D.impose current fact)).toOption.getD v
  else v

variable {values : QualifiedValueSet Q} {v w : QualifiedValue Q}

theorem imposedOn_of_goesOnAs (hv : v ∈ values) (h : D.GoesOnAs fact v w) :
    D.imposedOn fact values v = w := by
  obtain ⟨current, hcurrent, hne, hw⟩ := h
  unfold imposedOn
  rw [if_pos hv, hcurrent]
  dsimp only
  rw [if_neg hne, hw]
  rfl

theorem imposedOn_of_not_changes (h : v ∈ values → ¬ D.Changes fact v) :
    D.imposedOn fact values v = v := by
  unfold imposedOn
  split
  · rename_i hv
    split
    · rfl
    · rename_i current hcurrent
      by_cases hi : D.impose current fact = current
      · exact if_pos hi
      · exact absurd ⟨current, hcurrent, hi⟩ (h hv)
  · rfl

omit [DecidableEq Q] in
/-- Only a value that changes goes on as something. -/
theorem exists_goesOnAs_iff (hD : D.IsPlain) :
    (∃ w, D.GoesOnAs fact v w) ↔ D.Changes fact v := by
  constructor
  · rintro ⟨w, current, hcurrent, hne, -⟩
    exact ⟨current, hcurrent, hne⟩
  · rintro ⟨current, hcurrent, hne⟩
    obtain ⟨w, hw⟩ := (v.exists_withFact_iff hD (D.impose current fact)).2
      (exists_currentFact_iff.1 ⟨current, hcurrent⟩)
    exact ⟨w, current, hcurrent, hne, hw⟩

omit [DecidableEq Q] in
theorem GoesOnAs.unique {w' : QualifiedValue Q} (h : D.GoesOnAs fact v w)
    (h' : D.GoesOnAs fact v w') : w = w' := by
  obtain ⟨current, hcurrent, -, hw⟩ := h
  obtain ⟨current', hcurrent', -, hw'⟩ := h'
  obtain rfl := Except.ok.inj (hcurrent.symm.trans hcurrent')
  exact Except.ok.inj (hw.symm.trans hw')

omit [DecidableEq Q] in
/-- What a value goes on as does not change again, if imposing a fact twice is imposing it once. -/
theorem not_changes_of_goesOnAs (hD : D.IsPlain)
    (htwice : ∀ current, D.impose (D.impose current fact) fact = D.impose current fact)
    (h : D.GoesOnAs fact v w) : ¬ D.Changes fact w := by
  obtain ⟨current, -, -, hw⟩ := h
  rintro ⟨current', hcurrent', hne⟩
  obtain rfl := Except.ok.inj ((currentFact_of_withFact hD hw).symm.trans hcurrent')
  exact hne (htwice current)

/-! ## The table -/

/-- A table is made if all values are of the dimension. -/
theorem exists_replacements_iff (hD : D.IsPlain) {l : List (QualifiedValue Q)}
    {r : Replacements Q} : (∃ r', D.replacements fact l r = .ok r') ↔ ∀ v ∈ l, D.Reads v := by
  induction l generalizing r with
  | nil => exact ⟨fun _ _ hv => (nomatch hv), fun _ => ⟨r, rfl⟩⟩
  | cons v l ih =>
    rw [List.forall_mem_cons]
    constructor
    · rintro ⟨r', hr'⟩
      have hv : D.Reads v := by
        rw [replacements] at hr'
        obtain ⟨current, hcurrent, -⟩ := bind_eq_ok.1 hr'
        exact exists_currentFact_iff.1 ⟨current, hcurrent⟩
      rcases replacements_cons hr' with ⟨-, hrest⟩ | ⟨key, w, -, -, hrest⟩
      · exact ⟨hv, ih.1 ⟨r', hrest⟩⟩
      · exact ⟨hv, ih.1 ⟨r', hrest⟩⟩
    · rintro ⟨hv, hl⟩
      obtain ⟨current, hcurrent⟩ := exists_currentFact_iff.2 hv
      rw [replacements, hcurrent]
      show ∃ r', (if D.impose current fact = current then D.replacements fact l r
        else v.key D >>= _) = .ok r'
      by_cases hi : D.impose current fact = current
      · rw [if_pos hi]
        exact ih.2 hl
      · rw [if_neg hi]
        obtain ⟨key, hkey⟩ := exists_key_iff.2 hv
        obtain ⟨w, hw⟩ := (v.exists_withFact_iff hD (D.impose current fact)).2 hv
        obtain ⟨r', hr'⟩ := ih (r := r.insert key w).2 hl
        exact ⟨r', bind_eq_ok.2 ⟨key, hkey, bind_eq_ok.2 ⟨w, hw, hr'⟩⟩⟩

theorem replacements_of_not_changes {l : List (QualifiedValue Q)} {r r' : Replacements Q}
    (h : D.replacements fact l r = .ok r') (hl : ∀ v ∈ l, ¬ D.Changes fact v) : r' = r := by
  induction l with
  | nil => exact (Except.ok.inj h).symm
  | cons v l ih =>
    obtain ⟨hv, hl⟩ := List.forall_mem_cons.1 hl
    rcases replacements_cons h with ⟨-, hrest⟩ | ⟨key, w, -, ⟨current, hcurrent, hne, -⟩, -⟩
    · exact ih hrest hl
    · exact absurd ⟨current, hcurrent, hne⟩ hv

/-- A table is empty if no value changes. -/
theorem isEmpty_replacements_iff (hD : D.IsPlain) {r : Replacements Q}
    (hr : D.replacements fact values.members.toList .empty = .ok r) :
    r.isEmpty = true ↔ ∀ v ∈ values, ¬ D.Changes fact v := by
  constructor
  · intro hempty v hv hchanges
    have hv' : v ∈ values.members.toList := hv
    obtain ⟨key, hkey⟩ := exists_key_iff.2 ((exists_replacements_iff hD).1 ⟨r, hr⟩ v hv')
    have hsome := replacements_isSome hr (.inr ⟨v, hv', hchanges, hkey⟩)
    rw [Replacements.get?_of_isEmpty hempty] at hsome
    cases hsome
  · intro hvalues
    rw [replacements_of_not_changes hr hvalues]
    rfl

/-- Values of which something holds are told apart by their keys. -/
def ToldByKey (D : Dimension Q) (P : QualifiedValue Q → Prop) : Prop :=
  ∀ v w key, P v → P w → v.key D = .ok key → w.key D = .ok key → v = w

variable {P : QualifiedValue Q → Prop} {r : Replacements Q}

/-- If values are told apart by their keys, the table holds for each what it goes on as. -/
theorem get?_iff (hP : D.ToldByKey P) (hvalues : ∀ v ∈ values, P v)
    (hr : D.replacements fact values.members.toList .empty = .ok r) (hv : P v)
    {key : DimensionKey Q} (hkey : v.key D = .ok key) :
    r.get? key = some w ↔ v ∈ values ∧ D.GoesOnAs fact v w := by
  have hforth : ∀ w, r.get? key = some w → v ∈ values ∧ D.GoesOnAs fact v w := by
    intro w hw
    rcases replacements_source hr hw with hempty | ⟨u, hu, hukey, hgoes⟩
    · cases hempty
    · obtain rfl := hP u v key (hvalues u hu) hv hukey hkey
      exact ⟨hu, hgoes⟩
  refine ⟨hforth w, ?_⟩
  rintro ⟨hmem, hgoes⟩
  have hchanges : D.Changes fact v := by
    obtain ⟨current, hcurrent, hne, -⟩ := hgoes
    exact ⟨current, hcurrent, hne⟩
  obtain ⟨w', hw'⟩ := Option.isSome_iff_exists.1
    (replacements_isSome hr (.inr ⟨v, hmem, hchanges, hkey⟩))
  rw [hw', (hforth w' hw').2.unique hgoes]

end Dimension

namespace QualifiedValueSet

variable {D : Dimension Q} {fact : Q} {r : Replacements Q} {s t values : QualifiedValueSet Q}

/-! ## Replacing members -/

theorem exists_replaced_iff {l : List (QualifiedValue Q)} :
    (∃ pairs, replaced D r l = .ok pairs) ↔ ∀ v ∈ l, D.Reads v := by
  induction l with
  | nil => exact ⟨fun _ _ hv => (nomatch hv), fun _ => ⟨[], rfl⟩⟩
  | cons v l ih =>
    rw [List.forall_mem_cons, ← ih, ← Dimension.exists_key_iff]
    constructor
    · rintro ⟨pairs, h⟩
      rw [replaced] at h
      obtain ⟨key, hkey, h⟩ := bind_eq_ok.1 h
      obtain ⟨rest, hrest, -⟩ := bind_eq_ok.1 h
      exact ⟨⟨key, hkey⟩, rest, hrest⟩
    · rintro ⟨⟨key, hkey⟩, rest, hrest⟩
      simp only [replaced, hkey, hrest, bind, Except.bind]
      cases r.get? key with
      | none => exact ⟨rest, rfl⟩
      | some w => exact ⟨(v, w) :: rest, rfl⟩

/-- Members are replaced if they are all of the dimension, or if there is nothing to replace them
by. -/
theorem exists_replace_iff (hr : r.isEmpty = false) :
    (∃ p, s.replace D r = .ok p) ↔ ∀ v ∈ s, D.Reads v := by
  have hreplaced : (∃ pairs, replaced D r s.members.toList = .ok pairs) ↔
      ∀ v ∈ s, D.Reads v := exists_replaced_iff
  rw [← hreplaced]
  unfold replace
  rw [hr]
  constructor
  · rintro ⟨p, h⟩
    obtain ⟨pairs, hpairs, -⟩ := bind_eq_ok.1 h
    exact ⟨pairs, hpairs⟩
  · rintro ⟨pairs, hpairs⟩
    exact ⟨_, bind_eq_ok.2 ⟨pairs, hpairs, rfl⟩⟩

omit [DecidableEq Q] in
/-- What is there or is put in, and is never taken out, is there in the end. -/
theorem mem_afterReplacing_of_kept {members : OrderedSet (QualifiedValue Q)}
    {pairs : List (QualifiedValue Q × QualifiedValue Q)} {x : QualifiedValue Q}
    (hx : x ∈ members ∨ ∃ p ∈ pairs, p.2 = x) (hkept : ∀ p ∈ pairs, p.1 ≠ x) :
    x ∈ afterReplacing members pairs := by
  induction pairs generalizing members with
  | nil =>
    rcases hx with hx | ⟨p, hp, -⟩
    · exact hx
    · cases hp
  | cons p rest ih =>
    obtain ⟨hp, hrest⟩ := List.forall_mem_cons.1 hkept
    refine ih ?_ hrest
    rcases hx with hx | ⟨q, hq, rfl⟩
    · exact .inl (OrderedSet.mem_insert.2 (.inr (OrderedSet.mem_erase.2 ⟨hx, hp.symm⟩)))
    · rcases List.mem_cons.1 hq with rfl | hq
      · exact .inl (OrderedSet.mem_insert.2 (.inl rfl))
      · exact .inr ⟨q, hq, rfl⟩

/-- If values are told apart by their keys and what is imposed once is imposed for good, replacing the
members of a set is taking its image. -/
theorem replace_eq_image (hD : D.IsPlain)
    (htwice : ∀ current, D.impose (D.impose current fact) fact = D.impose current fact)
    {P : QualifiedValue Q → Prop} (hP : D.ToldByKey P) (hvalues : ∀ v ∈ values, P v)
    (hr : D.replacements fact values.members.toList .empty = .ok r) (hs : ∀ v ∈ s, P v) {b : Bool}
    (h : s.replace D r = .ok (t, b)) : t = s.image (D.imposedOn fact values) := by
  obtain ⟨pairs, hpairs, rfl⟩ := replace_eq_ok h
  have hpair : ∀ p ∈ pairs, p.1 ∈ s ∧ p.1 ∈ values ∧ D.GoesOnAs fact p.1 p.2 := by
    intro p hp
    obtain ⟨hmem, key, hkey, hget⟩ := (hpairs p).1 hp
    obtain ⟨hvalue, hgoes⟩ := (Dimension.get?_iff hP hvalues hr (hs _ hmem) hkey).1 hget
    exact ⟨hmem, hvalue, hgoes⟩
  have hof : ∀ v w, v ∈ s → v ∈ values → D.GoesOnAs fact v w → (v, w) ∈ pairs := by
    intro v w hv hvalue hgoes
    obtain ⟨current, hcurrent, -⟩ := (Dimension.exists_goesOnAs_iff hD).1 ⟨w, hgoes⟩
    obtain ⟨key, hkey⟩ :=
      Dimension.exists_key_iff.2 (Dimension.exists_currentFact_iff.1 ⟨current, hcurrent⟩)
    exact (hpairs (v, w)).2
      ⟨hv, key, hkey, (Dimension.get?_iff hP hvalues hr (hs v hv) hkey).2 ⟨hvalue, hgoes⟩⟩
  refine ValueSet.ext rfl (OrderedSet.ext fun x => ?_)
  show x ∈ afterReplacing s.members pairs ↔ x ∈ s.image (D.imposedOn fact values)
  rw [ValueSet.mem_image]
  constructor
  · intro hx
    rcases of_mem_afterReplacing hx with ⟨hxs, hstays⟩ | ⟨p, hp, rfl⟩
    · refine ⟨x, hxs, Dimension.imposedOn_of_not_changes fun hvalue hchanges => ?_⟩
      obtain ⟨w, hw⟩ := (Dimension.exists_goesOnAs_iff hD).2 hchanges
      exact hstays (x, w) (hof x w hxs hvalue hw) rfl
    · obtain ⟨hmem, hvalue, hgoes⟩ := hpair p hp
      exact ⟨p.1, hmem, Dimension.imposedOn_of_goesOnAs hvalue hgoes⟩
  · rintro ⟨v, hv, rfl⟩
    by_cases hchanges : v ∈ values ∧ D.Changes fact v
    · obtain ⟨hvalue, hchanges⟩ := hchanges
      obtain ⟨w, hw⟩ := (Dimension.exists_goesOnAs_iff hD).2 hchanges
      rw [Dimension.imposedOn_of_goesOnAs hvalue hw]
      refine mem_afterReplacing_of_kept (.inr ⟨(v, w), hof v w hv hvalue hw, rfl⟩) ?_
      -- what is taken out changes, and what was put in does not
      rintro p hp rfl
      obtain ⟨-, -, current, hcurrent, hne, -⟩ := hpair p hp
      exact Dimension.not_changes_of_goesOnAs hD htwice hw ⟨current, hcurrent, hne⟩
    · have hsame : v ∈ values → ¬ D.Changes fact v := fun hvalue h => hchanges ⟨hvalue, h⟩
      rw [Dimension.imposedOn_of_not_changes hsame]
      refine mem_afterReplacing_of_kept (.inl hv) ?_
      rintro p hp rfl
      obtain ⟨-, hvalue, current, hcurrent, hne, -⟩ := hpair p hp
      exact hsame hvalue ⟨current, hcurrent, hne⟩

end QualifiedValueSet

namespace Dimension

variable {D : Dimension Q} {fact : Q} {values : QualifiedValueSet Q}
  {f : Frame (QualifiedValueSet Q)}

/-! ## Imposing -/

/-- A value is among some, or in a slot of a frame. -/
def Occurs (values : QualifiedValueSet Q) (f : Frame (QualifiedValueSet Q))
    (v : QualifiedValue Q) : Prop :=
  v ∈ values ∨ ∃ slot s, f.get? slot = some s ∧ v ∈ s

/-- Imposing a fact with a table that is not empty: the frame is visited, and so are the values if they
are updated. -/
theorem imposeOnValues_of_table {update : Bool} {r : Replacements Q}
    (hr : D.replacements fact values.members.toList .empty = .ok r) (hempty : r.isEmpty = false)
    {p : QualifiedValueSet Q × Frame (QualifiedValueSet Q)} :
    D.imposeOnValues fact update values f = .ok p ↔
      (if update then (∃ b, values.replace D r = .ok (p.1, b)) else p.1 = values) ∧
        f.mapM (fun s => (s.replace D r).map Prod.fst) = .ok p.2 := by
  obtain ⟨values', g⟩ := p
  unfold imposeOnValues
  rw [hr]
  show (if r.isEmpty = true then _ else _) = _ ↔ _
  rw [hempty, if_neg Bool.false_ne_true]
  have hlast : ∀ u, ((f.mapM fun s => (s.replace D r).map Prod.fst) >>= fun g =>
      (pure (u, g) : Except AnalysisError _)) = .ok (values', g) ↔
      values' = u ∧ f.mapM (fun s => (s.replace D r).map Prod.fst) = .ok g := by
    intro u
    rw [bind_eq_ok]
    constructor
    · rintro ⟨g', hg', h⟩
      obtain ⟨rfl, rfl⟩ := Prod.mk.inj (Except.ok.inj h)
      exact ⟨rfl, hg'⟩
    · rintro ⟨rfl, hg⟩
      exact ⟨g, hg, rfl⟩
  cases update with
  | false =>
    show (pure values >>= _) = _ ↔ _
    rw [pure_bind]
    exact hlast values
  | true =>
    show ((values.replace D r).map Prod.fst >>= _) = _ ↔ _
    rw [bind_eq_ok]
    constructor
    · rintro ⟨u, hu, h⟩
      obtain ⟨⟨u, b⟩, hb, rfl⟩ := map_eq_ok.1 hu
      obtain ⟨rfl, hg⟩ := (hlast _).1 h
      exact ⟨⟨b, hb⟩, hg⟩
    · rintro ⟨⟨b, hb⟩, hg⟩
      exact ⟨values', map_eq_ok.2 ⟨_, hb, rfl⟩, (hlast _).2 ⟨rfl, hg⟩⟩

/-- Imposing a fact where no value changes: nothing is done. -/
theorem imposeOnValues_of_isEmpty {update : Bool} {r : Replacements Q}
    (hr : D.replacements fact values.members.toList .empty = .ok r) (hempty : r.isEmpty = true) :
    D.imposeOnValues fact update values f = .ok (values, f) := by
  unfold imposeOnValues
  rw [hr]
  exact if_pos hempty

/-- When imposing a fact succeeds. -/
theorem exists_imposeOnValues_iff (hD : D.IsPlain) (update : Bool) :
    (∃ p, D.imposeOnValues fact update values f = .ok p) ↔
      (∀ v ∈ values, D.Reads v) ∧ ((∀ v ∈ values, ¬ D.Changes fact v) ∨
        ∀ slot s, f.get? slot = some s → ∀ v ∈ s, D.Reads v) := by
  have htable : (∃ r, D.replacements fact values.members.toList .empty = .ok r) ↔
      ∀ v ∈ values, D.Reads v := exists_replacements_iff hD
  rw [← htable]
  have hmade : ∀ r, D.replacements fact values.members.toList .empty = .ok r →
      ((∃ p, D.imposeOnValues fact update values f = .ok p) ↔
        (∀ v ∈ values, ¬ D.Changes fact v) ∨
          ∀ slot s, f.get? slot = some s → ∀ v ∈ s, D.Reads v) := by
    intro r hr
    rw [← isEmpty_replacements_iff hD hr]
    cases hempty : r.isEmpty with
    | true =>
      exact ⟨fun _ => .inl rfl, fun _ => ⟨_, imposeOnValues_of_isEmpty hr hempty⟩⟩
    | false =>
      have hset : ∀ s : QualifiedValueSet Q,
          (∃ t, (s.replace D r).map Prod.fst = .ok t) ↔ ∀ v ∈ s, D.Reads v := by
        intro s
        rw [← QualifiedValueSet.exists_replace_iff (D := D) hempty]
        constructor
        · rintro ⟨t, ht⟩
          obtain ⟨p, hp, -⟩ := map_eq_ok.1 ht
          exact ⟨p, hp⟩
        · rintro ⟨p, hp⟩
          exact ⟨p.1, map_eq_ok.2 ⟨p, hp, rfl⟩⟩
      have hframe : (∃ g, f.mapM (fun s => (s.replace D r).map Prod.fst) = .ok g) ↔
          ∀ slot s, f.get? slot = some s → ∀ v ∈ s, D.Reads v := by
        rw [Frame.exists_mapM_eq_ok_iff]
        exact forall_congr' fun slot => forall_congr' fun s => imp_congr_right fun _ => hset s
      rw [or_iff_right Bool.false_ne_true, ← hframe]
      constructor
      · rintro ⟨p, hp⟩
        exact ⟨p.2, ((imposeOnValues_of_table hr hempty).1 hp).2⟩
      · rintro ⟨g, hg⟩
        -- the values themselves were looked at when the table was made
        obtain ⟨t, ht⟩ := (hset values).2 ((exists_replacements_iff hD).1 ⟨r, hr⟩)
        obtain ⟨⟨t, b⟩, hb, rfl⟩ := map_eq_ok.1 ht
        cases update with
        | false => exact ⟨(values, g), (imposeOnValues_of_table hr hempty).2 ⟨rfl, hg⟩⟩
        | true => exact ⟨(t, g), (imposeOnValues_of_table hr hempty).2 ⟨⟨b, hb⟩, hg⟩⟩
  constructor
  · rintro ⟨p, hp⟩
    obtain ⟨r, hr, -⟩ := bind_eq_ok.1 hp
    exact ⟨⟨r, hr⟩, (hmade r hr).1 ⟨p, hp⟩⟩
  · rintro ⟨⟨r, hr⟩, h⟩
    exact (hmade r hr).2 h

/-- Suppose that the values in question are told apart by their origins and facts in a plain dimension,
and that imposing a fact again changes nothing. Then imposing the fact succeeds exactly if the values
it is imposed on are of the dimension, and those of the frame are as well or none of the former
changes. It takes every set of the frame to its image under the update of values, and so the values
themselves if they are to be updated. -/
theorem imposeOnValues_eq_image (hD : D.IsPlain)
    (htwice : ∀ current, D.impose (D.impose current fact) fact = D.impose current fact)
    (htold : D.ToldByKey (Occurs values f)) (update : Bool) :
    ((∃ p, D.imposeOnValues fact update values f = .ok p) ↔
        (∀ v ∈ values, D.Reads v) ∧ ((∀ v ∈ values, ¬ D.Changes fact v) ∨
          ∀ slot s, f.get? slot = some s → ∀ v ∈ s, D.Reads v)) ∧
      ∀ values' g, D.imposeOnValues fact update values f = .ok (values', g) →
        g = f.map (ValueSet.image (D.imposedOn fact values)) ∧
          values' = if update then values.image (D.imposedOn fact values) else values := by
  refine ⟨exists_imposeOnValues_iff hD update, fun values' g h => ?_⟩
  obtain ⟨r, hr, -⟩ := bind_eq_ok.1 h
  cases hempty : r.isEmpty with
  | true =>
    rw [imposeOnValues_of_isEmpty hr hempty] at h
    obtain ⟨rfl, rfl⟩ := Prod.mk.inj (Except.ok.inj h)
    -- no value changes, so the update leaves every value as it is
    have hsame : ∀ s : QualifiedValueSet Q, s.image (D.imposedOn fact values) = s := fun s =>
      ValueSet.image_eq_self fun v _ =>
        imposedOn_of_not_changes fun hv => (isEmpty_replacements_iff hD hr).1 hempty v hv
    refine ⟨?_, ?_⟩
    · exact Frame.alike_iff_map.1 (Frame.Alike.refl (fun s => (hsame s).symm) f)
    · rw [hsame, ite_self]
  | false =>
    obtain ⟨hvalues', hg⟩ := (imposeOnValues_of_table hr hempty).1 h
    have himage : ∀ s t : QualifiedValueSet Q, (∀ v ∈ s, Occurs values f v) →
        (∃ b, s.replace D r = .ok (t, b)) → t = s.image (D.imposedOn fact values) := by
      rintro s t hs ⟨b, hb⟩
      exact QualifiedValueSet.replace_eq_image hD htwice htold (fun v hv => .inl hv) hr hs hb
    have hslot : ∀ slot s, f.get? slot = some s → ∀ t,
        (s.replace D r).map Prod.fst = .ok t → t = s.image (D.imposedOn fact values) := by
      intro slot s hs t ht
      obtain ⟨⟨t, b⟩, hb, rfl⟩ := map_eq_ok.1 ht
      exact himage s t (fun v hv => .inr ⟨slot, s, hs, hv⟩) ⟨b, hb⟩
    refine ⟨Frame.alike_iff_map.1 ((Frame.alike_of_mapM hg).imp_of ?_ ?_), ?_⟩
    · intro k s t hs ht
      exact hslot (.var k) s hs t ht
    · intro s hs t ht
      obtain ⟨slot, hget⟩ := Frame.exists_get?_of_mem_stack hs
      exact hslot slot s hget t ht
    · cases update with
      | false => exact hvalues'
      | true => exact himage values values' (fun v hv => .inl hv) hvalues'

/-- A value of which nothing is known but where it was created. -/
def unknownAt (index : Nat) : QualifiedValue ValueFact where
  base := ⟨.instruction index, .int⟩
  qualifier := .single nullability.id .unknown

/-- A frame with two values in a local, one of which is on the stack as well. -/
def heldTwice : Frame (QualifiedValueSet ValueFact) where
  locals := [some ⟨1, .ofList [unknownAt 0, unknownAt 1]⟩, none]
  stack := [.single (unknownAt 0)]
  maxStack := 1

/-- The values of such a frame are one of the two. -/
theorem eq_unknownAt_of_occurs {v : QualifiedValue ValueFact}
    (h : Occurs (.single (unknownAt 0)) heldTwice v) : v = unknownAt 0 ∨ v = unknownAt 1 := by
  rcases h with hv | ⟨slot, s, hs, hv⟩
  · exact .inl (OrderedSet.mem_singleton.1 hv)
  · match slot with
    | .var 0 =>
      obtain rfl := Option.some.inj hs
      simpa using OrderedSet.mem_ofList.1 hv
    | .var 1 => cases hs
    | .var (_ + 2) => cases hs
    | .stack 0 =>
      obtain rfl := Option.some.inj hs
      exact .inl (OrderedSet.mem_singleton.1 hv)
    | .stack (_ + 1) => cases hs

/-- What is on the stack is not null: this becomes known wherever the value is held, and of no other
value. -/
theorem imposeOnValues_eq_image_heldTwice :
    nullability.imposeOnValues .notNull true (.single (unknownAt 0)) heldTwice
      = .ok ((ValueSet.single (unknownAt 0)).image
            (nullability.imposedOn .notNull (.single (unknownAt 0))),
          heldTwice.map (ValueSet.image (nullability.imposedOn .notNull (.single (unknownAt 0))))) ∧
      nullability.imposedOn .notNull (.single (unknownAt 0)) (unknownAt 0)
        = ⟨⟨.instruction 0, .int⟩, .single nullability.id .notNull⟩ ∧
      nullability.imposedOn .notNull (.single (unknownAt 0)) (unknownAt 1) = unknownAt 1 := by
  have htwice : ∀ current, nullability.impose (nullability.impose current .notNull) .notNull
      = nullability.impose current .notNull := by
    intro current
    cases current <;> rfl
  have htold : nullability.ToldByKey (Occurs (.single (unknownAt 0)) heldTwice) := by
    intro v w key hv hw hvkey hwkey
    have horigin : v.origin = w.origin :=
      (QualifiedValue.origin_of_key hvkey).symm.trans (QualifiedValue.origin_of_key hwkey)
    rcases eq_unknownAt_of_occurs hv with rfl | rfl <;>
      rcases eq_unknownAt_of_occurs hw with rfl | rfl
    · rfl
    · cases horigin
    · cases horigin
    · rfl
  obtain ⟨⟨values, g⟩, h⟩ : ∃ p, nullability.imposeOnValues .notNull true
      (.single (unknownAt 0)) heldTwice = .ok p := ⟨_, rfl⟩
  have hplain : nullability.IsPlain := rfl
  obtain ⟨hg, hvalues⟩ := (imposeOnValues_eq_image hplain htwice htold true).2 values g h
  refine ⟨?_, ?_, ?_⟩
  · rw [h, hg, hvalues, if_pos rfl]
  · decide +kernel
  · decide +kernel

end Dimension

end Provenance

/-
What an imposed fact replaces.

Imposing a fact on the values of a slot makes a table of replacements from these values, and then
every set of the frame has its members replaced by the table. Both steps are told here by what goes
in and what comes out: where an entry of the table comes from (`Dimension.replacements_source`), which
members of a set are replaced by what (`QualifiedValueSet.replace_eq_ok`), and that a frame after the
imposition is the frame before with `replace` applied to each slot
(`Dimension.imposeOnSlot_eq_ok`).
-/
import Provenance.Proofs.Alike
import Provenance.Qualifier.Imposition

set_option autoImplicit false

namespace Provenance

namespace Frame

variable {V W : Type} {ε : Type}

/-! ## Visiting every value of a frame -/

/-- A visit of every value, slot by slot. -/
theorem alike_of_mapM {visit : V → Except ε W} {f : Frame V} {g : Frame W}
    (h : f.mapM visit = .ok g) : f.Alike (fun v w => visit v = .ok w) g := by
  unfold Frame.mapM at h
  obtain ⟨locals, hl, h⟩ := bind_eq_ok.1 h
  obtain ⟨stack, hs, h⟩ := bind_eq_ok.1 h
  obtain rfl := Except.ok.inj h
  refine ⟨(mapM_eq_ok.1 hl).imp fun v w hvw => ?_, ?_, rfl⟩
  · cases v with
    | none =>
      obtain rfl := Except.ok.inj hvw
      exact .none
    | some v =>
      obtain ⟨w', hw, hvw⟩ := bind_eq_ok.1 hvw
      obtain rfl := Except.ok.inj hvw
      exact .some hw
  · -- the stack is visited from the bottom
    have hrev := List.rel_reverse (mapM_eq_ok.1 hs)
    rw [List.reverse_reverse] at hrev
    exact hrev

end Frame

variable {Q : Type} [DecidableEq Q] [Fact Q]

namespace Replacements

omit [Fact Q] in
@[simp] theorem get?_empty (key : DimensionKey Q) :
    (empty : Replacements Q).get? key = none := rfl

omit [Fact Q] in
theorem get?_insert (r : Replacements Q) (key k : DimensionKey Q) (v : QualifiedValue Q) :
    (r.insert key v).get? k = if k = key then some v else r.get? k := by
  unfold get? insert
  rw [List.find?_cons]
  by_cases hk : k = key
  · rw [if_pos hk, decide_eq_true hk.symm]
    rfl
  · rw [if_neg hk, decide_eq_false (Ne.symm hk), List.find?_filter]
    dsimp only
    congr 2
    funext p
    by_cases hp : p.1 = k
    · simp [hp, hk]
    · simp [hp]

omit [Fact Q] in
theorem get?_of_isEmpty {r : Replacements Q} (h : r.isEmpty = true) (key : DimensionKey Q) :
    r.get? key = none := by
  unfold isEmpty at h
  unfold get?
  rw [List.isEmpty_iff.1 h]
  rfl

end Replacements

omit [DecidableEq Q] in
theorem QualifiedValue.origin_of_key {D : Dimension Q} {v : QualifiedValue Q}
    {key : DimensionKey Q} (h : v.key D = .ok key) : key.origin = v.origin := by
  obtain ⟨_, -, rfl⟩ := map_eq_ok.1 h
  rfl

namespace Dimension

variable {D : Dimension Q} {fact : Q}

/-! ## The table of replacements -/

/-- Imposing a fact changes what a value carries. -/
def Changes (D : Dimension Q) (fact : Q) (u : QualifiedValue Q) : Prop :=
  ∃ current, D.currentFact u = .ok current ∧ D.impose current fact ≠ current

/-- A value goes on as another when a fact is imposed on it. -/
def GoesOnAs (D : Dimension Q) (fact : Q) (u w : QualifiedValue Q) : Prop :=
  ∃ current, D.currentFact u = .ok current ∧ D.impose current fact ≠ current ∧
    u.withFact D (D.impose current fact) = .ok w

/-- The table after one more value. -/
theorem replacements_cons {u : QualifiedValue Q} {rest : List (QualifiedValue Q)}
    {r r' : Replacements Q} (h : D.replacements fact (u :: rest) r = .ok r') :
    (¬ D.Changes fact u ∧ D.replacements fact rest r = .ok r') ∨
      ∃ key w, u.key D = .ok key ∧ D.GoesOnAs fact u w ∧
        D.replacements fact rest (r.insert key w) = .ok r' := by
  rw [replacements] at h
  obtain ⟨current, hc, h⟩ := bind_eq_ok.1 h
  dsimp only at h
  by_cases hi : D.impose current fact = current
  · rw [if_pos hi] at h
    refine .inl ⟨?_, h⟩
    rintro ⟨c, hc', hne⟩
    obtain rfl := Except.ok.inj (hc.symm.trans hc')
    exact hne hi
  · rw [if_neg hi] at h
    obtain ⟨key, hk, h⟩ := bind_eq_ok.1 h
    obtain ⟨w, hw, h⟩ := bind_eq_ok.1 h
    exact .inr ⟨key, w, hk, ⟨current, hc, hi, hw⟩, h⟩

/-- Every entry of the table was there before or comes from a value with its key. -/
theorem replacements_source {values : List (QualifiedValue Q)} {r r' : Replacements Q}
    (h : D.replacements fact values r = .ok r') {key : DimensionKey Q} {w : QualifiedValue Q}
    (hw : r'.get? key = some w) :
    r.get? key = some w ∨ ∃ u ∈ values, u.key D = .ok key ∧ D.GoesOnAs fact u w := by
  induction values generalizing r with
  | nil =>
    obtain rfl := Except.ok.inj h
    exact .inl hw
  | cons u rest ih =>
    rcases replacements_cons h with ⟨-, h⟩ | ⟨k, x, hk, hx, h⟩
    · rcases ih h with hr | ⟨v, hv, hkey⟩
      · exact .inl hr
      · exact .inr ⟨v, List.mem_cons_of_mem _ hv, hkey⟩
    · rcases ih h with hr | ⟨v, hv, hkey⟩
      · rw [Replacements.get?_insert] at hr
        by_cases he : key = k
        · rw [if_pos he] at hr
          obtain rfl := Option.some.inj hr
          exact .inr ⟨u, List.mem_cons_self, he ▸ hk, hx⟩
        · rw [if_neg he] at hr
          exact .inl hr
      · exact .inr ⟨v, List.mem_cons_of_mem _ hv, hkey⟩

/-- What was in the table, or has a key of a value that changes, is in the table afterwards. -/
theorem replacements_isSome {values : List (QualifiedValue Q)} {r r' : Replacements Q}
    (h : D.replacements fact values r = .ok r') {key : DimensionKey Q}
    (hkey : (r.get? key).isSome ∨ ∃ u ∈ values, D.Changes fact u ∧ u.key D = .ok key) :
    (r'.get? key).isSome := by
  induction values generalizing r with
  | nil =>
    obtain rfl := Except.ok.inj h
    rcases hkey with hr | ⟨u, hu, -⟩
    · exact hr
    · cases hu
  | cons u rest ih =>
    rcases replacements_cons h with ⟨hsame, h⟩ | ⟨k, x, hk, hx, h⟩
    · refine ih h (hkey.imp_right ?_)
      rintro ⟨v, hv, hchanges, hkey⟩
      rcases List.mem_cons.1 hv with rfl | hv
      · exact absurd hchanges hsame
      · exact ⟨v, hv, hchanges, hkey⟩
    · refine ih h ?_
      rw [Replacements.get?_insert]
      by_cases he : key = k
      · rw [if_pos he]
        exact .inl rfl
      · rw [if_neg he]
        refine hkey.imp_right ?_
        rintro ⟨v, hv, hchanges, hv'⟩
        rcases List.mem_cons.1 hv with rfl | hv
        · exact absurd (Except.ok.inj (hv'.symm.trans hk)) he
        · exact ⟨v, hv, hchanges, hv'⟩

end Dimension

namespace QualifiedValueSet

variable {D : Dimension Q} {r : Replacements Q} {s t : QualifiedValueSet Q}

/-! ## The members of a set -/

/-- Which of some members are replaced, and by what. -/
theorem mem_replaced {l : List (QualifiedValue Q)}
    {pairs : List (QualifiedValue Q × QualifiedValue Q)} (h : replaced D r l = .ok pairs)
    {p : QualifiedValue Q × QualifiedValue Q} :
    p ∈ pairs ↔ p.1 ∈ l ∧ ∃ key, p.1.key D = .ok key ∧ r.get? key = some p.2 := by
  induction l generalizing pairs with
  | nil =>
    obtain rfl := Except.ok.inj h
    exact ⟨nofun, fun h => nomatch h.1⟩
  | cons v rest ih =>
    rw [replaced] at h
    obtain ⟨key, hk, h⟩ := bind_eq_ok.1 h
    obtain ⟨pairs', hp, h⟩ := bind_eq_ok.1 h
    have hv : (p.1 = v ∧ ∃ key, p.1.key D = .ok key ∧ r.get? key = some p.2) ↔
        p.1 = v ∧ r.get? key = some p.2 := by
      constructor
      · rintro ⟨rfl, k, hk', hr⟩
        obtain rfl := Except.ok.inj (hk.symm.trans hk')
        exact ⟨rfl, hr⟩
      · rintro ⟨rfl, hr⟩
        exact ⟨rfl, key, hk, hr⟩
    rw [List.mem_cons, or_and_right, hv, ← ih hp]
    cases hr : r.get? key with
    | none =>
      rw [hr] at h
      obtain rfl := Except.ok.inj h
      exact ⟨.inr, fun h => h.elim (fun h => nomatch h.2) id⟩
    | some w =>
      rw [hr] at h
      obtain rfl := Except.ok.inj h
      rw [List.mem_cons, Prod.ext_iff, Option.some.injEq, eq_comm (a := w)]

/-- The members after every replacement. -/
def afterReplacing (members : OrderedSet (QualifiedValue Q))
    (pairs : List (QualifiedValue Q × QualifiedValue Q)) : OrderedSet (QualifiedValue Q) :=
  pairs.foldl (fun members p => (members.erase p.1).insert p.2) members

/-- An empty table replaces no member. -/
theorem mem_nil_iff_of_isEmpty (hr : r.isEmpty = true) (p : QualifiedValue Q × QualifiedValue Q) :
    p ∈ [] ↔ p.1 ∈ s ∧ ∃ key, p.1.key D = .ok key ∧ r.get? key = some p.2 := by
  refine ⟨nofun, ?_⟩
  rintro ⟨-, key, -, hkey⟩
  rw [Replacements.get?_of_isEmpty hr] at hkey
  cases hkey

/-- A set whose members are replaced by a table. -/
theorem replace_eq_ok {b : Bool} (h : s.replace D r = .ok (t, b)) :
    ∃ pairs, (∀ p, p ∈ pairs ↔ p.1 ∈ s ∧ ∃ key, p.1.key D = .ok key ∧ r.get? key = some p.2) ∧
      t = { s with members := afterReplacing s.members pairs } := by
  unfold replace at h
  by_cases hr : r.isEmpty
  · rw [if_pos hr] at h
    obtain ⟨rfl, -⟩ := Prod.mk.inj (Except.ok.inj h)
    exact ⟨[], mem_nil_iff_of_isEmpty hr, rfl⟩
  · rw [if_neg hr] at h
    obtain ⟨pairs, hp, h⟩ := bind_eq_ok.1 h
    obtain ⟨rfl, -⟩ := Prod.mk.inj (Except.ok.inj h)
    exact ⟨pairs, fun p => mem_replaced hp, rfl⟩

omit [DecidableEq Q] in
/-- A member after every replacement was there and stayed, or replaces one that was. -/
theorem of_mem_afterReplacing {members : OrderedSet (QualifiedValue Q)}
    {pairs : List (QualifiedValue Q × QualifiedValue Q)} {x : QualifiedValue Q}
    (h : x ∈ afterReplacing members pairs) :
    (x ∈ members ∧ ∀ p ∈ pairs, p.1 ≠ x) ∨ ∃ p ∈ pairs, p.2 = x := by
  induction pairs generalizing members with
  | nil => exact .inl ⟨h, nofun⟩
  | cons p rest ih =>
    rcases ih h with ⟨hx, hrest⟩ | ⟨q, hq, rfl⟩
    · rcases OrderedSet.mem_insert.1 hx with rfl | hx
      · exact .inr ⟨p, List.mem_cons_self, rfl⟩
      · obtain ⟨hx, hne⟩ := OrderedSet.mem_erase.1 hx
        refine .inl ⟨hx, fun q hq => ?_⟩
        rcases List.mem_cons.1 hq with rfl | hq
        · exact hne.symm
        · exact hrest q hq
    · exact .inr ⟨q, List.mem_cons_of_mem _ hq, rfl⟩

omit [DecidableEq Q] in
/-- Replacing members keeps all that does not tell a member from what replaces it. -/
theorem image_afterReplacing {β : Type} (k : QualifiedValue Q → β)
    {members : OrderedSet (QualifiedValue Q)}
    {pairs : List (QualifiedValue Q × QualifiedValue Q)}
    (hmem : ∀ p ∈ pairs, ∃ x ∈ members, k x = k p.1) (hk : ∀ p ∈ pairs, k p.2 = k p.1)
    (b : β) : (∃ x ∈ afterReplacing members pairs, k x = b) ↔ ∃ x ∈ members, k x = b := by
  induction pairs generalizing members with
  | nil => exact Iff.rfl
  | cons p rest ih =>
    have hp : k p.2 = k p.1 := hk p List.mem_cons_self
    -- one member goes and one that looks the same comes
    have hstep : ∀ b, (∃ x ∈ (members.erase p.1).insert p.2, k x = b) ↔
        ∃ x ∈ members, k x = b := by
      intro b
      constructor
      · rintro ⟨x, hx, rfl⟩
        rcases OrderedSet.mem_insert.1 hx with rfl | hx
        · obtain ⟨y, hy, hky⟩ := hmem p List.mem_cons_self
          exact ⟨y, hy, hky.trans hp.symm⟩
        · exact ⟨x, (OrderedSet.mem_erase.1 hx).1, rfl⟩
      · rintro ⟨x, hx, rfl⟩
        by_cases hxp : x = p.1
        · exact ⟨p.2, OrderedSet.mem_insert.2 (.inl rfl), by rw [hp, hxp]⟩
        · exact ⟨x, OrderedSet.mem_insert.2 (.inr (OrderedSet.mem_erase.2 ⟨hx, hxp⟩)), rfl⟩
    have hrest : (∃ x ∈ afterReplacing ((members.erase p.1).insert p.2) rest, k x = b) ↔
        ∃ x ∈ (members.erase p.1).insert p.2, k x = b :=
      ih (fun q hq => (hstep _).2 (hmem q (List.mem_cons_of_mem _ hq)))
        fun q hq => hk q (List.mem_cons_of_mem _ hq)
    exact hrest.trans (hstep b)

end QualifiedValueSet

namespace Dimension

variable {D : Dimension Q} {fact : Q} {slot : Slot} {f g : Frame (QualifiedValueSet Q)}

omit [DecidableEq Q] in
/-- A value and what it goes on as have one witness. -/
theorem base_of_goesOnAs {u w : QualifiedValue Q} (h : D.GoesOnAs fact u w) :
    w.base = u.base := by
  obtain ⟨_, -, -, hwith⟩ := h
  obtain ⟨q, -, rfl⟩ := map_eq_ok.1 hwith
  rfl

omit [DecidableEq Q] in
/-- Values with one key have one origin. -/
theorem origin_of_key_eq {u v : QualifiedValue Q} {key : DimensionKey Q} (hu : u.key D = .ok key)
    (h : v.key D = u.key D) : v.origin = u.origin := by
  rw [← QualifiedValue.origin_of_key (h.trans hu), QualifiedValue.origin_of_key hu]

/-- What a table of some values makes of the members of a set: each that it replaces gives way to what
a value with its key goes on as. -/
theorem source_of_pair {l : List (QualifiedValue Q)} {s : QualifiedValueSet Q} {r : Replacements Q}
    (hr : D.replacements fact l .empty = .ok r) {p : QualifiedValue Q × QualifiedValue Q}
    (hp : p.1 ∈ s ∧ ∃ key, p.1.key D = .ok key ∧ r.get? key = some p.2) :
    ∃ u ∈ l, p.1.key D = u.key D ∧ D.GoesOnAs fact u p.2 := by
  obtain ⟨-, key, hk, hget⟩ := hp
  rcases replacements_source hr hget with hempty | ⟨u, hu, huk, hgoes⟩
  · cases hempty
  · exact ⟨u, hu, hk.trans huk.symm, hgoes⟩

/-! ## Imposing -/

/-- A frame after the imposition of a fact on some values: the table of the values is applied to every
slot, and to the values themselves if they are to be updated. -/
theorem imposeOnValues_eq_ok {update : Bool} {values values' : QualifiedValueSet Q}
    (h : D.imposeOnValues fact update values f = .ok (values', g)) :
    ∃ r, D.replacements fact values.members.toList .empty = .ok r ∧
      (values' = values ∨ ∃ b, values.replace D r = .ok (values', b)) ∧
      f.Alike (fun s t => ∃ b, QualifiedValueSet.replace D r s = .ok (t, b)) g := by
  unfold imposeOnValues at h
  obtain ⟨r, hr, h⟩ := bind_eq_ok.1 h
  refine ⟨r, hr, ?_⟩
  by_cases hempty : r.isEmpty
  · -- an empty table replaces nothing
    rw [if_pos hempty] at h
    obtain ⟨rfl, rfl⟩ := Prod.mk.inj (Except.ok.inj h)
    have hsame : ∀ s, ∃ b, QualifiedValueSet.replace D r s = .ok (s, b) := fun s => by
      refine ⟨false, ?_⟩
      unfold QualifiedValueSet.replace
      rw [if_pos hempty]
    exact ⟨.inl rfl, .refl hsame f⟩
  · rw [if_neg hempty] at h
    have hframe : ∀ {u v : QualifiedValueSet Q},
        (f.mapM (fun s => (s.replace D r).map Prod.fst) >>= fun f => pure (u, f)) = .ok (v, g) →
        u = v ∧ f.Alike (fun s t => ∃ b, QualifiedValueSet.replace D r s = .ok (t, b)) g := by
      intro u v huv
      obtain ⟨g', hg, huv⟩ := bind_eq_ok.1 huv
      obtain ⟨rfl, rfl⟩ := Prod.mk.inj (Except.ok.inj huv)
      refine ⟨rfl, (Frame.alike_of_mapM hg).imp fun s t hst => ?_⟩
      obtain ⟨p, hp, rfl⟩ := map_eq_ok.1 hst
      exact ⟨p.2, hp⟩
    cases update with
    | false =>
      obtain ⟨rfl, halike⟩ := hframe h
      exact ⟨.inl rfl, halike⟩
    | true =>
      obtain ⟨updated, hupdated, h⟩ := bind_eq_ok.1 h
      obtain ⟨rfl, halike⟩ := hframe h
      obtain ⟨p, hp, rfl⟩ := map_eq_ok.1 hupdated
      exact ⟨.inr ⟨p.2, hp⟩, halike⟩

/-- Imposing a fact on a slot is imposing it on the values there; an unset slot changes nothing. -/
theorem imposeOnSlot_cases (h : D.imposeOnSlot fact slot f = .ok g) :
    (f.get? slot = none ∧ g = f) ∨
      ∃ values values', f.get? slot = some values ∧
        D.imposeOnValues fact false values f = .ok (values', g) := by
  unfold imposeOnSlot at h
  cases hv : f.get? slot with
  | none =>
    rw [hv] at h
    exact .inl ⟨rfl, (Except.ok.inj h).symm⟩
  | some values =>
    rw [hv] at h
    obtain ⟨p, himpose, rfl⟩ := map_eq_ok.1 h
    exact .inr ⟨values, p.1, rfl, himpose⟩

/-- A frame after the imposition of a fact on a slot: nothing changes if the slot is unset; otherwise
the table of the values in the slot is applied to every slot. -/
theorem imposeOnSlot_eq_ok (h : D.imposeOnSlot fact slot f = .ok g) :
    (f.get? slot = none ∧ g = f) ∨
      ∃ values r, f.get? slot = some values ∧
        D.replacements fact values.members.toList .empty = .ok r ∧
        ∀ other, Option.Rel (fun s t => ∃ b, QualifiedValueSet.replace D r s = .ok (t, b))
          (f.get? other) (g.get? other) := by
  rcases imposeOnSlot_cases h with hnone | ⟨values, values', hslot, himpose⟩
  · exact .inl hnone
  · obtain ⟨r, hr, -, hreplace⟩ := imposeOnValues_eq_ok himpose
    exact .inr ⟨values, r, hslot, hr, hreplace.get?⟩

end Dimension

end Provenance

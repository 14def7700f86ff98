/-
Computations that agree.

Two traced computations agree when they do related things in the same order and end alike: with
related values, or with the same error. Comparing two runs that are not quite of the same kind, one
may have to give up where the first run fails in a way the second does not share; such errors are
tolerated, and nothing is said of the second run then.

Agreement goes through sequencing (`Agree.bind`), so two computations of one shape are compared step
by step.
-/
import Mathlib.Data.List.Forall2
import Provenance.Traced

set_option autoImplicit false

namespace Provenance

/-! ## Lists that are related element by element -/

theorem exists_right_of_forall₂ {α β : Type} {R : α → β → Prop} {l : List α} {r : List β}
    (h : List.Forall₂ R l r) {a : α} (ha : a ∈ l) : ∃ b ∈ r, R a b := by
  obtain ⟨k, hk, rfl⟩ := List.getElem_of_mem ha
  have hk' : k < r.length := h.length_eq ▸ hk
  exact ⟨r[k], List.getElem_mem hk', h.get hk hk'⟩

theorem exists_left_of_forall₂ {α β : Type} {R : α → β → Prop} {l : List α} {r : List β}
    (h : List.Forall₂ R l r) {b : β} (hb : b ∈ r) : ∃ a ∈ l, R a b := by
  obtain ⟨k, hk, rfl⟩ := List.getElem_of_mem hb
  have hk' : k < l.length := h.length_eq ▸ hk
  exact ⟨l[k], List.getElem_mem hk', h.get hk' hk⟩

/-- Elements that are related have something to stand for both. -/
theorem exists_forall₂_of_forall₂ {α β γ : Type} {R : α → β → Prop} {A : α → γ → Prop}
    {B : β → γ → Prop} {l : List α} {r : List β} (h : List.Forall₂ R l r)
    (hR : ∀ a b, R a b → ∃ c, A a c ∧ B b c) :
    ∃ m, List.Forall₂ A l m ∧ List.Forall₂ B r m := by
  induction h with
  | nil => exact ⟨[], .nil, .nil⟩
  | cons hab _ ih =>
    obtain ⟨c, ha, hb⟩ := hR _ _ hab
    obtain ⟨m, hl, hr⟩ := ih
    exact ⟨c :: m, .cons ha hl, .cons hb hr⟩

/-- A list whose elements are the images of those of another is its image. -/
theorem forall₂_iff_eq_map {α β : Type} {φ : α → β} {l : List α} {r : List β} :
    List.Forall₂ (fun a b => b = φ a) l r ↔ r = l.map φ := by
  constructor
  · intro h
    induction h with
    | nil => rfl
    | cons hab _ ih => rw [hab, ih, List.map_cons]
  · rintro rfl
    exact List.forall₂_map_right_iff.2 (List.forall₂_same.2 fun a _ => rfl)

theorem forall₂_set {α β : Type} {R : α → β → Prop} {l : List α} {r : List β}
    (h : List.Forall₂ R l r) (k : Nat) {a : α} {b : β} (hab : R a b) :
    List.Forall₂ R (l.set k a) (r.set k b) := by
  induction h generalizing k with
  | nil => exact .nil
  | cons hcd hrest ih =>
    cases k with
    | zero => exact .cons hab hrest
    | succ k => exact .cons hcd (ih k)

/-- What is related to a value is a value. -/
theorem exists_left_of_rel {α β : Type} {R : α → β → Prop} {a : Option α} {b : β}
    (h : Option.Rel R a (some b)) : ∃ x, a = some x ∧ R x b := by
  cases h with
  | some hxb => exact ⟨_, rfl, hxb⟩

/-- Visiting a list succeeds if every visit does. -/
theorem mapM_eq_ok {ε α β : Type} {f : α → Except ε β} {l : List α} {r : List β} :
    l.mapM f = .ok r ↔ List.Forall₂ (fun a b => f a = .ok b) l r := by
  induction l generalizing r with
  | nil =>
    rw [List.mapM_nil, List.forall₂_nil_left_iff]
    exact ⟨fun h => (Except.ok.inj h).symm, fun h => h ▸ rfl⟩
  | cons a l ih =>
    rw [List.mapM_cons, bind_eq_ok]
    constructor
    · rintro ⟨b, hb, h⟩
      obtain ⟨rest, hrest, h⟩ := bind_eq_ok.1 h
      obtain rfl := Except.ok.inj h
      exact .cons hb (ih.1 hrest)
    · intro h
      cases h with
      | cons hb hrest => exact ⟨_, hb, bind_eq_ok.2 ⟨_, ih.2 hrest, rfl⟩⟩

namespace Traced

variable {κ κ' ε α α' β β' : Type}

/-- Two computations do related things and end alike, unless the first one fails in a tolerated
way. -/
inductive Agree (tolerated : ε → Prop) (steps : κ → κ' → Prop) (values : α → α' → Prop) :
    Traced κ ε α → Traced κ' ε α' → Prop
  /-- Both end in related values. -/
  | ok {t t' a a'} (ht : List.Forall₂ steps t t') (ha : values a a') :
    Agree tolerated steps values ⟨t, .ok a⟩ ⟨t', .ok a'⟩
  /-- Both end in the same error. -/
  | error {t t' e} (ht : List.Forall₂ steps t t') :
    Agree tolerated steps values ⟨t, .error e⟩ ⟨t', .error e⟩
  /-- The first fails in a way that is tolerated. -/
  | tolerated {t e y} (he : tolerated e) : Agree tolerated steps values ⟨t, .error e⟩ y

variable {tolerated : ε → Prop} {steps : κ → κ' → Prop}

namespace Agree

variable {values : α → α' → Prop} {results : β → β' → Prop}

/-! ## Building computations that agree -/

theorem pure {a : α} {a' : α'} (h : values a a') :
    Agree tolerated steps values (Pure.pure a) (Pure.pure a') := .ok .nil h

theorem throw (e : ε) :
    Agree tolerated steps values (MonadExcept.throw e) (MonadExcept.throw e) := .error .nil

/-- One outcome on both sides. -/
theorem same {values : α → α → Prop} (h : ∀ a, values a a) (x : Except ε α) :
    Agree tolerated steps values (quiet x) (quiet x) := by
  cases x with
  | error e => exact .throw e
  | ok a => exact .pure (h a)

/-- Agreement goes through sequencing; what follows may use how the first computation ended. -/
theorem bind_of_ok {x : Traced κ ε α} {y : Traced κ' ε α'} {f : α → Traced κ ε β}
    {g : α' → Traced κ' ε β'} (h : Agree tolerated steps values x y)
    (k : ∀ a a', x.outcome = .ok a → values a a' →
      Agree tolerated steps results (f a) (g a')) :
    Agree tolerated steps results (x >>= f) (y >>= g) := by
  cases h with
  | @ok t t' a a' ht ha =>
    rw [Traced.bind_of_ok rfl, Traced.bind_of_ok rfl]
    have hk := k a a' rfl ha
    generalize f a = p at hk ⊢
    generalize g a' = q at hk ⊢
    cases hk with
    | ok hu hb => exact .ok (List.rel_append ht hu) hb
    | error hu => exact .error (List.rel_append ht hu)
    | tolerated he => exact .tolerated he
  | error ht =>
    rw [bind_of_error rfl, bind_of_error rfl]
    exact .error ht
  | tolerated he =>
    rw [bind_of_error rfl]
    exact .tolerated he

/-- Agreement goes through sequencing. -/
theorem bind {x : Traced κ ε α} {y : Traced κ' ε α'} {f : α → Traced κ ε β}
    {g : α' → Traced κ' ε β'} (h : Agree tolerated steps values x y)
    (k : ∀ a a', values a a' → Agree tolerated steps results (f a) (g a')) :
    Agree tolerated steps results (x >>= f) (y >>= g) :=
  bind_of_ok h fun a a' _ ha => k a a' ha

/-- Related things that have the same kind of outcome. -/
theorem record {k : κ} {k' : κ'} {x y} (hk : steps k k')
    (h : Agree tolerated steps values (quiet x) (quiet y)) :
    Agree tolerated steps values (Traced.record k x) (Traced.record k' y) := by
  generalize hp : (quiet x : Traced κ ε α) = p at h
  generalize hq : (quiet y : Traced κ' ε α') = q at h
  cases h with
  | ok ht ha =>
    obtain ⟨rfl, rfl⟩ := Traced.mk.inj hp
    obtain ⟨rfl, rfl⟩ := Traced.mk.inj hq
    exact .ok (.cons hk .nil) ha
  | error ht =>
    obtain ⟨rfl, rfl⟩ := Traced.mk.inj hp
    obtain ⟨rfl, rfl⟩ := Traced.mk.inj hq
    exact .error (.cons hk .nil)
  | tolerated he =>
    obtain ⟨rfl, rfl⟩ := Traced.mk.inj hp
    exact .tolerated he

/-- What is said of related values may be weakened. -/
theorem mono {values' : α → α' → Prop} {x : Traced κ ε α} {y : Traced κ' ε α'}
    (h : Agree tolerated steps values x y) (k : ∀ a a', values a a' → values' a a') :
    Agree tolerated steps values' x y := by
  cases h with
  | ok ht ha => exact .ok ht (k _ _ ha)
  | error ht => exact .error ht
  | tolerated he => exact .tolerated he

/-! ## What agreement says of outcomes -/

/-- If the first computation succeeds, so does the second, with a related value. -/
theorem of_left {x : Traced κ ε α} {y : Traced κ' ε α'} {a : α}
    (h : Agree tolerated steps values x y) (hx : x.outcome = .ok a) :
    ∃ a', y.outcome = .ok a' ∧ values a a' ∧ List.Forall₂ steps x.trace y.trace := by
  cases h with
  | ok ht ha =>
    obtain rfl := Except.ok.inj hx
    exact ⟨_, rfl, ha, ht⟩
  | error ht => cases hx
  | tolerated he => cases hx

/-- If the second computation succeeds, the first one does with a related value, or it fails in a
tolerated way. -/
theorem of_right {x : Traced κ ε α} {y : Traced κ' ε α'} {a' : α'}
    (h : Agree tolerated steps values x y) (hy : y.outcome = .ok a') :
    (∃ a, x.outcome = .ok a ∧ values a a') ∨ ∃ e, x.outcome = .error e ∧ tolerated e := by
  cases h with
  | ok ht ha =>
    obtain rfl := Except.ok.inj hy
    exact .inl ⟨_, rfl, ha⟩
  | error ht => cases hy
  | tolerated he => exact .inr ⟨_, rfl, he⟩

end Agree

/-! ## Computations that match -/

/-- Two computations agree and nothing is tolerated. -/
abbrev Match (steps : κ → κ' → Prop) (values : α → α' → Prop) :
    Traced κ ε α → Traced κ' ε α' → Prop :=
  Agree (fun _ => False) steps values

/-- Computations that match end alike. -/
theorem Match.outcome {steps : κ → κ' → Prop} {values : α → α' → Prop} {x : Traced κ ε α}
    {y : Traced κ' ε α'} (h : Match steps values x y) :
    (∃ e, x.outcome = .error e ∧ y.outcome = .error e) ∨
      ∃ a a', x.outcome = .ok a ∧ y.outcome = .ok a' ∧ values a a' := by
  cases h with
  | ok _ ha => exact .inr ⟨_, _, rfl, rfl, ha⟩
  | error _ => exact .inl ⟨_, rfl, rfl⟩
  | tolerated he => exact he.elim

/-- What computations that match end in does so too, whatever they did. -/
theorem Match.quiet_outcome {κ₂ κ₂' : Type} {steps : κ → κ' → Prop} {steps' : κ₂ → κ₂' → Prop}
    {values : α → α' → Prop} {x : Traced κ ε α} {y : Traced κ' ε α'}
    (h : Match steps values x y) : Match steps' values (quiet x.outcome) (quiet y.outcome) := by
  cases h with
  | ok _ ha => exact .ok .nil ha
  | error _ => exact .error .nil
  | tolerated he => exact he.elim

/-- Computations that match are the same if they can only match by doing and ending in the same. -/
theorem Match.eq {steps : κ → κ → Prop} {values : α → α → Prop} {x y : Traced κ ε α}
    (h : Match steps values x y) (hsteps : ∀ k k', steps k k' → k = k')
    (hvalues : ∀ a a', values a a' → a = a') : x = y := by
  have htrace : ∀ {t t' : List κ}, List.Forall₂ steps t t' → t = t' := by
    intro t t' ht
    rw [← List.forall₂_eq_eq_eq]
    exact ht.imp fun k k' hk => hsteps k k' hk
  cases h with
  | ok ht ha => rw [htrace ht, hvalues _ _ ha]
  | error ht => rw [htrace ht]
  | tolerated he => exact he.elim

/-! ## Quiet computations -/

@[simp] theorem quiet_pure (a : α) : (quiet (Pure.pure a) : Traced κ ε α) = Pure.pure a := rfl

@[simp] theorem quiet_throw (e : ε) :
    (quiet (MonadExcept.throw e) : Traced κ ε α) = MonadExcept.throw e := rfl

/-- Lifting goes through sequencing. -/
@[simp] theorem quiet_bind (x : Except ε α) (f : α → Except ε β) :
    (quiet (x >>= f) : Traced κ ε β) = quiet x >>= fun a => quiet (f a) := by
  cases x with
  | error e => rfl
  | ok a => rw [bind_of_ok rfl]; rfl

end Traced

end Provenance

/-
Reading and giving facts.

Which facts a qualifier holds is read by one function, and another one gives it a new fact; each looks
for itself whether the qualifier is of the dimension. In a plain dimension they agree. A value can be
given a fact exactly if one can be read from it, the fact given last is the one that is read, and
giving a value what it has changes nothing. What is read in another dimension stays as it is: a
single fact is of no other dimension before and after, and of several facts only one is replaced. So
reading and giving are a lens on the value for every plain dimension (`QualifiedValue.LensFor`), and
the lenses of two dimensions do not get in each other's way.
-/
import Provenance.Qualifier.Nullness
import Provenance.Traced

set_option autoImplicit false

namespace Provenance

variable {Q : Type} [Fact Q] {D E : Dimension Q}

namespace Qualifier

/-! ## The two functions on each kind of qualifier -/

theorem toOption_foreign {α : Type} (D : Dimension Q) (dimension : DimensionId) (fact : Q) :
    (foreign D dimension fact : Except AnalysisError α).toOption = none := rfl

theorem extract_single (hD : D.IsPlain) (dimension : DimensionId) (fact : Q) :
    (single dimension fact).extract D =
      if dimension = D.id then .ok (some fact) else foreign D dimension fact := by
  unfold extract
  rw [hD]
  show (if (dimension == D.id) = true then _ else _) = _
  simp only [beq_iff_eq]

theorem replaceFact_single (hD : D.IsPlain) (dimension : DimensionId) (old fact : Q) :
    (single dimension old).replaceFact D fact =
      if dimension = D.id then .ok (single dimension fact) else foreign D dimension old := by
  unfold replaceFact
  rw [hD]
  show (if (dimension == D.id) = true then _ else _) = _
  simp only [beq_iff_eq]

theorem extract_multi (D : Dimension Q) (facts : Facts Q) :
    (multi facts).extract D = .ok (facts.get? D.id) := rfl

theorem replaceFact_multi (hD : D.IsPlain) (facts : Facts Q) (fact : Q) :
    (multi facts).replaceFact D fact = .ok (multi (facts.insert D.id fact)) := by
  unfold replaceFact
  rw [hD]
  rfl

variable {q q' : Qualifier Q} {fact : Q}

/-- Facts are read from a single fact of the dimension, and from several facts. -/
theorem extract_eq_ok (hD : D.IsPlain) {found : Option Q} :
    q.extract D = .ok found ↔ (∃ fact, q = single D.id fact ∧ found = some fact) ∨
      ∃ facts, q = multi facts ∧ found = facts.get? D.id := by
  constructor
  · intro h
    cases q with
    | single dimension fact =>
      rw [extract_single hD] at h
      by_cases hd : dimension = D.id
      · rw [if_pos hd] at h
        exact .inl ⟨fact, by rw [hd], (Except.ok.inj h).symm⟩
      · rw [if_neg hd] at h
        cases h
    | multi facts => exact .inr ⟨facts, rfl, (Except.ok.inj h).symm⟩
  · rintro (⟨fact, rfl, rfl⟩ | ⟨facts, rfl, rfl⟩)
    · rw [extract_single hD, if_pos rfl]
    · rfl

/-- A fact replaces a single fact of the dimension, or one of several facts. -/
theorem replaceFact_eq_ok (hD : D.IsPlain) :
    q.replaceFact D fact = .ok q' ↔
      (∃ old, q = single D.id old ∧ q' = single D.id fact) ∨
        ∃ facts, q = multi facts ∧ q' = multi (facts.insert D.id fact) := by
  constructor
  · intro h
    cases q with
    | single dimension old =>
      rw [replaceFact_single hD] at h
      by_cases hd : dimension = D.id
      · rw [if_pos hd, hd] at h
        exact .inl ⟨old, by rw [hd], (Except.ok.inj h).symm⟩
      · rw [if_neg hd] at h
        cases h
    | multi facts =>
      rw [replaceFact_multi hD] at h
      exact .inr ⟨facts, rfl, (Except.ok.inj h).symm⟩
  · rintro (⟨old, rfl, rfl⟩ | ⟨facts, rfl, rfl⟩)
    · rw [replaceFact_single hD, if_pos rfl]
    · exact replaceFact_multi hD facts fact

/-! ## The laws on qualifiers -/

/-- A fact can be replaced exactly if there is a place for it to be read from. -/
theorem exists_replaceFact_iff (hD : D.IsPlain) (q : Qualifier Q) (fact : Q) :
    (∃ q', q.replaceFact D fact = .ok q') ↔ ∃ found, q.extract D = .ok found := by
  constructor
  · rintro ⟨q', h⟩
    rcases (replaceFact_eq_ok hD).1 h with ⟨old, hq, -⟩ | ⟨facts, hq, -⟩
    · exact ⟨some old, (extract_eq_ok hD).2 (.inl ⟨old, hq, rfl⟩)⟩
    · exact ⟨facts.get? D.id, (extract_eq_ok hD).2 (.inr ⟨facts, hq, rfl⟩)⟩
  · rintro ⟨found, h⟩
    rcases (extract_eq_ok hD).1 h with ⟨old, hq, -⟩ | ⟨facts, hq, -⟩
    · exact ⟨single D.id fact, (replaceFact_eq_ok hD).2 (.inl ⟨old, hq, rfl⟩)⟩
    · exact ⟨multi (facts.insert D.id fact), (replaceFact_eq_ok hD).2 (.inr ⟨facts, hq, rfl⟩)⟩

/-- The fact that was given is read. -/
theorem extract_of_replaceFact (hD : D.IsPlain) (h : q.replaceFact D fact = .ok q') :
    q'.extract D = .ok (some fact) := by
  rcases (replaceFact_eq_ok hD).1 h with ⟨old, -, rfl⟩ | ⟨facts, -, rfl⟩
  · exact (extract_eq_ok hD).2 (.inl ⟨fact, rfl, rfl⟩)
  · rw [extract_multi, OrderedMap.get?_insert_self]

/-- In another dimension the same is read as before; only the text of a refusal, which spells out the
fact of the wrong dimension, may be another. -/
theorem extract_of_replaceFact_of_ne (hD : D.IsPlain) (hE : E.IsPlain) (hne : E.id ≠ D.id)
    (h : q.replaceFact D fact = .ok q') : (q'.extract E).toOption = (q.extract E).toOption := by
  rcases (replaceFact_eq_ok hD).1 h with ⟨old, rfl, rfl⟩ | ⟨facts, rfl, rfl⟩
  · -- the single fact names this dimension before and after, and so is refused in the other one
    rw [extract_single hE, extract_single hE, if_neg hne.symm, if_neg hne.symm, toOption_foreign,
      toOption_foreign]
  · rw [extract_multi, extract_multi, OrderedMap.get?_insert_of_ne _ _ hne]

/-- Of two facts given the second counts. -/
theorem replaceFact_replaceFact (hD : D.IsPlain) (h : q.replaceFact D fact = .ok q')
    (fact' : Q) : q'.replaceFact D fact' = q.replaceFact D fact' := by
  rcases (replaceFact_eq_ok hD).1 h with ⟨old, rfl, rfl⟩ | ⟨facts, rfl, rfl⟩
  · rw [replaceFact_single hD, replaceFact_single hD, if_pos rfl, if_pos rfl]
  · rw [replaceFact_multi hD, replaceFact_multi hD, OrderedMap.insert_insert]

/-- The fact that is read can be given again, and nothing changes. -/
theorem replaceFact_of_extract (hD : D.IsPlain) (h : q.extract D = .ok (some fact)) :
    q.replaceFact D fact = .ok q := by
  rcases (extract_eq_ok hD).1 h with ⟨old, rfl, hold⟩ | ⟨facts, rfl, hget⟩
  · obtain rfl := Option.some.inj hold
    exact (replaceFact_eq_ok hD).2 (.inl ⟨fact, rfl, rfl⟩)
  · rw [replaceFact_multi hD, OrderedMap.insert_of_get?_eq_some hget.symm]

/-- A fact that cannot be given is refused like any other, for a refusal spells out the fact that is
there. -/
theorem replaceFact_eq_error (hD : D.IsPlain) {e : AnalysisError}
    (h : q.replaceFact D fact = .error e) (fact' : Q) : q.replaceFact D fact' = .error e := by
  cases q with
  | single dimension old =>
    rw [replaceFact_single hD] at h ⊢
    by_cases hd : dimension = D.id
    · rw [if_pos hd] at h
      cases h
    · rwa [if_neg hd] at h ⊢
  | multi facts =>
    rw [replaceFact_multi hD] at h
    cases h

end Qualifier

namespace QualifiedValue

variable {v w : QualifiedValue Q} {fact : Q}

/-! ## The lens on values -/

/-- The facts of a dimension can be read from a value, and given to it, as through a lens. -/
structure LensFor (D : Dimension Q) (v : QualifiedValue Q) : Prop where
  /-- A fact can be given exactly if the value is of the dimension. -/
  given : ∀ fact, (∃ w, v.withFact D fact = .ok w) ↔ ∃ found, v.qualifier.extract D = .ok found
  base : ∀ {fact w}, v.withFact D fact = .ok w → w.base = v.base
  read : ∀ {fact w}, v.withFact D fact = .ok w → w.qualifier.extract D = .ok (some fact)
  /-- In another dimension the same fact is read, or none, or the reading fails. -/
  others : ∀ {fact w}, v.withFact D fact = .ok w → ∀ E : Dimension Q, E.IsPlain → E.id ≠ D.id →
    (w.qualifier.extract E).toOption = (v.qualifier.extract E).toOption
  last : ∀ fact fact', (v.withFact D fact >>= (·.withFact D fact')) = v.withFact D fact'
  back : ∀ {fact}, v.qualifier.extract D = .ok (some fact) → v.withFact D fact = .ok v
  /-- Facts of two dimensions can be given to a value with several facts in any order. -/
  commutes : ∀ E : Dimension Q, E.IsPlain → E.id ≠ D.id → ∀ facts,
    v.qualifier = .multi facts → ∀ fact fact', ∃ w,
      (v.withFact D fact >>= (·.withFact E fact')) = .ok w ∧
      (v.withFact E fact' >>= (·.withFact D fact)) = .ok w

theorem withFact_eq_ok :
    v.withFact D fact = .ok w ↔
      v.qualifier.replaceFact D fact = .ok w.qualifier ∧ w.base = v.base := by
  constructor
  · intro h
    obtain ⟨q, hq, rfl⟩ := map_eq_ok.1 h
    exact ⟨hq, rfl⟩
  · rintro ⟨hq, hbase⟩
    refine map_eq_ok.2 ⟨w.qualifier, hq, ?_⟩
    rw [← hbase]

theorem withFact_of_multi {facts : Facts Q} (hD : D.IsPlain) (h : v.qualifier = .multi facts)
    (fact : Q) :
    v.withFact D fact = .ok { v with qualifier := .multi (facts.insert D.id fact) } := by
  rw [withFact_eq_ok, h]
  exact ⟨Qualifier.replaceFact_multi hD facts fact, rfl⟩

/-- A value can be given a fact exactly if one can be read. -/
theorem exists_withFact_iff (hD : D.IsPlain) (v : QualifiedValue Q) (fact : Q) :
    (∃ w, v.withFact D fact = .ok w) ↔ ∃ found, v.qualifier.extract D = .ok found := by
  rw [← Qualifier.exists_replaceFact_iff hD v.qualifier fact]
  constructor
  · rintro ⟨w, hw⟩
    exact ⟨w.qualifier, (withFact_eq_ok.1 hw).1⟩
  · rintro ⟨q, hq⟩
    exact ⟨{ v with qualifier := q }, withFact_eq_ok.2 ⟨hq, rfl⟩⟩

/-- Of two facts given to a value the second counts, also if neither can be given. -/
theorem withFact_withFact (hD : D.IsPlain) (v : QualifiedValue Q) (fact fact' : Q) :
    (v.withFact D fact >>= (·.withFact D fact')) = v.withFact D fact' := by
  unfold withFact
  cases hq : v.qualifier.replaceFact D fact with
  | ok q =>
    show (q.replaceFact D fact').map _ = (v.qualifier.replaceFact D fact').map _
    rw [Qualifier.replaceFact_replaceFact hD hq fact']
  | error e =>
    -- the first fact is refused as the second one would be
    rw [Qualifier.replaceFact_eq_error hD hq fact']
    rfl

/-- Facts of two dimensions given to a value with several facts, in either order. -/
theorem withFact_comm (hD : D.IsPlain) (hE : E.IsPlain) (hne : E.id ≠ D.id) {facts : Facts Q}
    (h : v.qualifier = .multi facts) (fact fact' : Q) :
    ∃ w, (v.withFact D fact >>= (·.withFact E fact')) = .ok w ∧
      (v.withFact E fact' >>= (·.withFact D fact)) = .ok w := by
  refine ⟨{ v with qualifier := .multi ((facts.insert D.id fact).insert E.id fact') }, ?_, ?_⟩
  · rw [withFact_of_multi hD h]
    exact withFact_of_multi hE rfl fact'
  · rw [withFact_of_multi hE h, OrderedMap.insert_comm facts hne.symm]
    exact withFact_of_multi hD rfl fact

/-- Reading and giving facts of a plain dimension is a lens on every value. -/
theorem lensFor_of_isPlain (hD : D.IsPlain) (v : QualifiedValue Q) : v.LensFor D where
  given fact := exists_withFact_iff hD v fact
  base h := (withFact_eq_ok.1 h).2
  read h := Qualifier.extract_of_replaceFact hD (withFact_eq_ok.1 h).1
  others h _ hE hne := Qualifier.extract_of_replaceFact_of_ne hD hE hne (withFact_eq_ok.1 h).1
  last fact fact' := withFact_withFact hD v fact fact'
  back h := withFact_eq_ok.2 ⟨Qualifier.replaceFact_of_extract hD h, rfl⟩
  commutes _ hE hne _ h fact fact' := withFact_comm hD hE hne h fact fact'

/-- A reference that may be null, with room for facts of other dimensions. -/
def mayBeNull : QualifiedValue ValueFact where
  base := ⟨.parameter 0, .object "java/lang/Object"⟩
  qualifier := .multi (.ofList [(Dimension.nullability.id, .nullable)])

/-- It may be told again what is known of it; and it may be told first that it is not null and then
that it is written through, or the other way round. -/
theorem lensFor_of_isPlain_mayBeNull :
    Dimension.nullability.IsPlain ∧ Dimension.mutability.IsPlain ∧
      mayBeNull.withFact .nullability .nullable = .ok mayBeNull ∧
      ∃ w, (mayBeNull.withFact .nullability .notNull >>= (·.withFact .mutability .mutable)) = .ok w ∧
        (mayBeNull.withFact .mutability .mutable >>= (·.withFact .nullability .notNull)) = .ok w ∧
        w.qualifier.extract .nullability = .ok (some .notNull) ∧
        w.qualifier.extract .mutability = .ok (some .mutable) := by
  have hnull : Dimension.nullability.IsPlain := rfl
  have hmut : Dimension.mutability.IsPlain := rfl
  have hlens := lensFor_of_isPlain hnull mayBeNull
  obtain ⟨w, hfirst, hsecond⟩ := hlens.commutes .mutability hmut (by decide) _ rfl .notNull .mutable
  obtain ⟨u, -, hu⟩ := bind_eq_ok.1 hfirst
  obtain ⟨u', -, hu'⟩ := bind_eq_ok.1 hsecond
  exact ⟨hnull, hmut, hlens.back (eq_ok_of_toOption (by decide +kernel)), w, hfirst, hsecond,
    (lensFor_of_isPlain hnull u').read hu', (lensFor_of_isPlain hmut u).read hu⟩

end QualifiedValue

end Provenance

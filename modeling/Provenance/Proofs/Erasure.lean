/-
Tracking qualifiers and leaving them out.

Where nothing is corrected, what a witness carries is a function of the witness, and every set of
qualified values is the image of a set of witnesses. Images are merged as the sets are
(`ValueSet.merge_image`), and the function is one-to-one, so tracking qualifiers goes through a
method in lockstep with tracking values: it wants more fuel, fails or ends exactly when that does.
Leaving the qualifiers out of its result gives the result of the other, and every value in it carries
what its witness carried at first (`Method.erase_trackQualifiers`).
-/
import Provenance.Analysis.Result
import Provenance.Proofs.AlikeAnalyses

set_option autoImplicit false

namespace Provenance

/-! ## Images of sets -/

namespace ValueSet

variable {α β : Type} [Coded α] [Coded β] {φ : α → β} {s t : ValueSet α}

/-- The set of the images of all members. -/
def image (φ : α → β) (s : ValueSet α) : ValueSet β := ⟨s.width, s.members.image φ⟩

theorem mem_image {b : β} : b ∈ s.image φ ↔ ∃ a ∈ s, φ a = b := OrderedSet.mem_image

theorem isEmpty_image : (s.image φ).isEmpty = s.isEmpty := by
  rw [Bool.eq_iff_iff]
  show (s.members.image φ).isEmpty ↔ s.members.isEmpty
  rw [OrderedSet.isEmpty_iff, OrderedSet.isEmpty_iff]
  constructor
  · intro h
    refine OrderedSet.ext fun a => ⟨fun ha => ?_, fun ha => absurd ha (OrderedSet.not_mem_empty a)⟩
    have hφ : φ a ∈ s.members.image φ := OrderedSet.mem_image.2 ⟨a, ha, rfl⟩
    rw [h] at hφ
    exact absurd hφ (OrderedSet.not_mem_empty _)
  · intro h
    rw [h]
    rfl

/-- Images are merged as the sets are, errors included. -/
theorem merge_image : (s.image φ).merge (t.image φ) = (s.merge t).map (image φ) := by
  unfold merge
  rw [isEmpty_image, isEmpty_image]
  by_cases hs : s.isEmpty
  · rw [if_pos hs, if_pos hs]
    rfl
  by_cases ht : t.isEmpty
  · rw [if_neg hs, if_neg hs, if_pos ht, if_pos ht]
    rfl
  rw [if_neg hs, if_neg hs, if_neg ht, if_neg ht]
  show (if s.width ≠ t.width then _ else _) = _
  by_cases hw : s.width ≠ t.width
  · rw [if_pos hw, if_pos hw]
    rfl
  · rw [if_neg hw, if_neg hw]
    refine congrArg Except.ok (ext rfl (OrderedSet.ext fun b => ?_))
    show b ∈ s.members.image φ ∪ t.members.image φ ↔ b ∈ (s.members ∪ t.members).image φ
    simp only [OrderedSet.mem_union, OrderedSet.mem_image, or_and_right, exists_or]

theorem image_injective (hφ : Function.Injective φ) :
    Function.Injective (image φ : ValueSet α → ValueSet β) := by
  have hback : ∀ {s t : ValueSet α}, s.image φ = t.image φ → ∀ a ∈ s, a ∈ t := by
    intro s t h a ha
    have hmem : φ a ∈ t.image φ := h ▸ mem_image.2 ⟨a, ha, rfl⟩
    obtain ⟨b, hb, hab⟩ := mem_image.1 hmem
    exact hφ hab ▸ hb
  intro s t h
  have hwidth : s.width = t.width := congrArg (fun u : ValueSet β => u.width) h
  exact ext hwidth (OrderedSet.ext fun a => ⟨hback h a, hback h.symm a⟩)

theorem image_single [HasBase α] [HasBase β] {a : α}
    (hbase : HasBase.base (φ a) = HasBase.base a) : (single a).image φ = single (φ a) := by
  refine ext ?_ (OrderedSet.ext fun b => ?_)
  · show (HasBase.base a).width = (HasBase.base (φ a)).width
    rw [hbase]
  · show b ∈ (OrderedSet.singleton a).image φ ↔ b ∈ OrderedSet.singleton (φ a)
    rw [OrderedSet.mem_image, OrderedSet.mem_singleton]
    constructor
    · rintro ⟨c, hc, rfl⟩
      rw [OrderedSet.mem_singleton.1 hc]
    · rintro rfl
      exact ⟨a, OrderedSet.mem_singleton.2 rfl, rfl⟩

end ValueSet

/-- Images are merged alike, whatever the trackers attach. -/
theorem Frame.mergesAlike_image {α β : Type} [Coded α] [HasBase α] [Coded β] [HasBase β]
    (φ : α → β) (tag : Witness → α) (tag' : Witness → β) :
    MergesAlike (fun s t => t = s.image φ) (.tracking tag) (.tracking tag') where
  width := by
    rintro s _ rfl
    rfl
  merge := by
    rintro s _ s' _ rfl rfl
    show Traced.Match _ _ (.quiet (s.merge s')) (.quiet ((s.image φ).merge (s'.image φ)))
    rw [ValueSet.merge_image]
    cases s.merge s' with
    | error e => exact .throw e
    | ok u => exact .pure rfl

/-- A tracker that attaches an image goes along with the one that attaches what it is an image
of. -/
theorem Interpreter.tracksAlike_image {α β : Type} [Coded α] [HasBase α] [Coded β] [HasBase β]
    {φ : α → β} (hφ : Function.Injective φ)
    (hbase : ∀ a, HasBase.base (φ a) = HasBase.base a) (tag : Witness → α) :
    TracksAlike (fun s t => t = s.image φ) tag (φ ∘ tag) where
  created w := (ValueSet.image_single (hbase (tag w))).symm
  merges := Frame.mergesAlike_image φ tag (φ ∘ tag)
  unique := by
    constructor
    · rintro s s' _ rfl h
      exact ValueSet.image_injective hφ h
    · rintro s _ _ rfl rfl
      rfl

/-! ## Leaving qualifiers out -/

section Erasure

variable {Q : Type} [Fact Q]

/-- The frame with the qualifiers of all values left out. -/
def Frame.erase (f : Frame (QualifiedValueSet Q)) : Frame PossibleValues :=
  f.map QualifiedValueSet.erase

/-- The result with the qualifiers of all values left out. -/
def AnalysisResult.erase (r : AnalysisResult (QualifiedValueSet Q)) :
    AnalysisResult PossibleValues :=
  ⟨r.method, r.frames.map (Option.map Frame.erase)⟩

theorem AnalysisResult.frame?_erase (r : AnalysisResult (QualifiedValueSet Q)) (l : Nat) :
    r.erase.frame? l = (r.frame? l).map Frame.erase := by
  unfold AnalysisResult.frame? AnalysisResult.erase
  dsimp only
  rw [Array.getElem?_map, Option.join_map_eq_map_join]

/-- A witness with what it carries at first. -/
def QualifiedValue.atFirst (evaluate : Witness → Qualifier Q) (w : Witness) : QualifiedValue Q :=
  ⟨w, evaluate w⟩

variable {evaluate : Witness → Qualifier Q}

omit [Fact Q] in
theorem QualifiedValue.atFirst_injective : Function.Injective (atFirst evaluate) :=
  fun _ _ h => congrArg QualifiedValue.base h

theorem QualifiedValueSet.erase_image (s : PossibleValues) :
    QualifiedValueSet.erase (s.image (QualifiedValue.atFirst evaluate)) = s := by
  refine ValueSet.ext rfl (OrderedSet.ext fun w => ?_)
  show w ∈ (s.members.image (QualifiedValue.atFirst evaluate)).image QualifiedValue.base ↔ _
  rw [OrderedSet.mem_image]
  constructor
  · rintro ⟨v, hv, rfl⟩
    obtain ⟨w, hw, rfl⟩ := OrderedSet.mem_image.1 hv
    exact hw
  · intro hw
    exact ⟨QualifiedValue.atFirst evaluate w, OrderedSet.mem_image.2 ⟨w, hw, rfl⟩, rfl⟩

theorem Frame.erase_map_image (f : Frame PossibleValues) :
    (f.map (ValueSet.image (QualifiedValue.atFirst evaluate))).erase = f := by
  have herase : QualifiedValueSet.erase ∘ ValueSet.image (QualifiedValue.atFirst evaluate) = id :=
    funext QualifiedValueSet.erase_image
  unfold Frame.erase
  rw [Frame.map_map, herase, Frame.map_id]

/-- Frames of witnesses and of what they carry at first. -/
abbrev Frame.CarryFirst (evaluate : Witness → Qualifier Q) :
    Frame PossibleValues → Frame (QualifiedValueSet Q) → Prop :=
  Frame.Alike fun s t => t = s.image (QualifiedValue.atFirst evaluate)

/-- States that differ in qualifiers only are the same when these are left out. -/
theorem States.erase_of_related {states : States (Frame PossibleValues)}
    {states' : States (Frame (QualifiedValueSet Q))}
    (h : States.Related (Frame.CarryFirst evaluate) states states') :
    states'.map (Option.map Frame.erase) = states := by
  refine States.ext_of_state? (by rw [Array.size_map, h.size]) fun l => ?_
  rw [Array.getElem?_map, Option.join_map_eq_map_join]
  have hrel := h.each l
  generalize states[l]?.join = f at hrel ⊢
  generalize states'[l]?.join = g at hrel ⊢
  cases hrel with
  | none => rfl
  | some hfg =>
    rw [Frame.alike_iff_map.1 hfg]
    exact congrArg some (Frame.erase_map_image _)

end Erasure

/-! ## Tracking qualifiers where nothing is corrected -/

namespace Method

variable {Q : Type} [DecidableEq Q] [Fact Q]

/-- Tracking values and tracking qualifiers go through a method in lockstep. -/
theorem trackValues_match_trackQualifiers (m : Method) (evaluate : Witness → Qualifier Q)
    (fuel : Nat) :
    Traced.Match (Event.Related (Frame.CarryFirst evaluate))
      (Option.Rel (Analyzer.ResultsAlike fun s t =>
        t = s.image (QualifiedValue.atFirst evaluate)))
      (m.trackValues fuel) (m.trackQualifiers .identity evaluate fuel) := by
  have hprepare : Traced.Match (Event.Related (Frame.CarryFirst evaluate))
      (fun A B => ∃ t, A = Analyzer.tracker id .identity m t ∧
        B = Analyzer.tracker (QualifiedValue.atFirst evaluate) .identity m t)
      (.quiet (Analyzer.prepare m .possibleValues .identity))
      (.quiet (Analyzer.prepare m (.qualifiedValues evaluate) .identity)) := by
    unfold Analyzer.prepare
    rw [Traced.quiet_bind, Traced.quiet_bind]
    refine .bind (Traced.match_same _) ?_
    rintro t _ rfl
    exact .pure ⟨t, rfl, rfl⟩
  unfold trackValues trackQualifiers
  refine .bind hprepare ?_
  rintro _ _ ⟨t, rfl, rfl⟩
  exact Analyzer.analyze_alike
    (Interpreter.tracksAlike_image QualifiedValue.atFirst_injective (fun _ => rfl) id) fuel

/-- Where nothing is corrected, tracking qualifiers comes to what tracking values comes to, with any
fuel: to the same error, to no end, or to the same result when the qualifiers are left out. Every
value in that result carries what its witness carried at first. -/
theorem erase_trackQualifiers (m : Method) (evaluate : Witness → Qualifier Q) (fuel : Nat) :
    (m.trackQualifiers .identity evaluate fuel).outcome.map (Option.map AnalysisResult.erase)
        = (m.trackValues fuel).outcome ∧
      ∀ r, (m.trackQualifiers .identity evaluate fuel).outcome = .ok (some r) →
        ∀ l f, r.frame? l = some f → ∀ slot s, f.get? slot = some s →
          ∀ v ∈ s, v.qualifier = evaluate v.base := by
  rcases (trackValues_match_trackQualifiers m evaluate fuel).outcome with
    ⟨e, hvalues, hqualifiers⟩ | ⟨result, result', hvalues, hqualifiers, hrel⟩
  · rw [hvalues, hqualifiers]
    exact ⟨rfl, fun r hr => nomatch hr⟩
  rw [hvalues, hqualifiers]
  cases hrel with
  | none => exact ⟨rfl, fun r hr => nomatch hr⟩
  | @some r r' hrr' =>
    constructor
    · have herase : r'.erase = r := by
        unfold AnalysisResult.erase
        rw [States.erase_of_related hrr'.frames, ← hrr'.method]
      exact congrArg (Except.ok ∘ some) herase
    · rintro _ ⟨⟩ l g hg slot t ht v hv
      have hframe := hrr'.frames.each l
      rw [show r'.frames[l]?.join = some g from hg] at hframe
      obtain ⟨f, -, hfg⟩ := exists_left_of_rel hframe
      -- the frame is an image, and so is the set in the slot
      have hslot := hfg.get? slot
      rw [ht] at hslot
      obtain ⟨s, -, rfl⟩ := exists_left_of_rel hslot
      obtain ⟨w, -, rfl⟩ := ValueSet.mem_image.1 hv
      rfl

end Method

end Provenance

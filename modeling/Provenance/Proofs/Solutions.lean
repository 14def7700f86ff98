/-
What trackers find.

An analysis that tracks witnesses and corrects nothing sees proper frames only. Frames at all
instructions are closed if they hold the entry and what flows along every edge between them; the
frames of an analysis lie within every closed choice of frames (`Analyzer.least`), and they are
closed themselves if no join met different widths in a local (`Analyzer.closed_of_widthsAgree`). So
what there is to know of the joins of a run follows from frames that are closed.
-/
import Provenance.Proofs.Analyses

set_option autoImplicit false

namespace Provenance

/-- A join meets no local that is set on both sides with different widths. -/
def Event.WidthsAgree {V : Type} [AbstractValue V] : Event (Frame V) → Prop
  | join _ held arriving => held.WidthsAgree arriving
  | visit _ | transfer .. | converged .. => True

instance {V : Type} [AbstractValue V] (e : Event (Frame V)) : Decidable e.WidthsAgree :=
  match e with
  | .join _ held arriving => inferInstanceAs (Decidable (held.WidthsAgree arriving))
  | .visit _ | .transfer .. | .converged .. => inferInstanceAs (Decidable True)

namespace Analyzer

variable {α : Type} [Coded α] [HasBase α]

/-- The analyzer tracks witnesses, with something attached, and corrects nothing. -/
structure Tracks (A : Analyzer (ValueSet α)) (tag : Witness → α) : Prop where
  interpreter : A.interpreter = .tracking tag
  transformer : A.transformer = .identity
  base : ∀ w, HasBase.base (tag w) = w

theorem tracks_possibleValues {m : Method} {A : Analyzer PossibleValues}
    (hA : prepare m .possibleValues .identity = .ok A) : A.Tracks id := by
  obtain ⟨t, -, rfl⟩ := prepare_eq_ok.1 hA
  exact ⟨rfl, rfl, fun _ => rfl⟩

theorem method_of_prepare {V : Type} {m : Method} {I : Interpreter V} {T : FrameTransformer V}
    {A : Analyzer V} (hA : prepare m I T = .ok A) : A.method = m := by
  obtain ⟨t, -, rfl⟩ := prepare_eq_ok.1 hA
  rfl

variable {A : Analyzer (ValueSet α)} {tag : Witness → α}

/-- The frame has the size of the method and holds proper sets. -/
abbrev ProperFrame (A : Analyzer (ValueSet α)) (f : Frame (ValueSet α)) : Prop :=
  f.Proper A.method.maxLocals A.method.maxStack

/-! ## The entry -/

/-- The locals before an index, and they alone, may be set; none reaches beyond. -/
structure Seeded (A : Analyzer (ValueSet α)) (index : Nat) (f : Frame (ValueSet α)) : Prop where
  proper : A.ProperFrame f
  clear : f.Clear
  below : ∀ k v, f.local? k = some v → k + v.width ≤ index

theorem seeded_blank : A.Seeded 0 (.blank A.method.maxLocals A.method.maxStack) := by
  refine ⟨⟨List.length_replicate, rfl, fun k v hk => ?_, fun v hv => nomatch hv⟩,
    fun k v hk _ => ?_, fun k v hk => ?_⟩
  · rw [Frame.local?_blank] at hk
    cases hk
  · rw [Frame.local?_blank] at hk
    cases hk
  · rw [Frame.local?_blank] at hk
    cases hk

/-- An argument goes into the first local that is free, and reserves its width. -/
theorem Seeded.set {index : Nat} {f : Frame (ValueSet α)} (hf : A.Seeded index f)
    (hlt : index < f.locals.length) {v : Option (ValueSet α)} {size : Nat}
    (hv : ∀ w, v = some w → w.Proper ∧ w.width = size) :
    A.Seeded (index + size) { f with locals := f.locals.set index v } := by
  refine ⟨hf.proper.set (hf.proper.size ▸ hlt) fun w hw => (hv w hw).1, fun k w hk hwide => ?_,
    fun k w hk => ?_⟩
  · rw [Frame.local?_set hlt] at hk ⊢
    by_cases hki : k = index
    · -- what is free behind the index stays free
      rw [if_neg (by omega)]
      cases hnext : f.local? (k + 1) with
      | none => rfl
      | some x =>
        have hx := hf.below (k + 1) x hnext
        omega
    · rw [if_neg hki] at hk
      have hbelow := hf.below k w hk
      have hwide' : w.width = 2 := hwide
      rw [if_neg (by omega)]
      exact hf.clear k w hk hwide
  · rw [Frame.local?_set hlt] at hk
    by_cases hki : k = index
    · rw [if_pos hki] at hk
      have hw := (hv w hk).2
      omega
    · rw [if_neg hki] at hk
      have hbelow := hf.below k w hk
      omega

theorem seeded_of_seed (hA : A.Tracks tag) {types : List JType} {index : Nat}
    {f g : Frame (ValueSet α)} (hf : A.Seeded index f) (h : A.seed types index f = .ok g) :
    ∃ last, A.Seeded last g := by
  induction types generalizing index f with
  | nil =>
    obtain rfl := Except.ok.inj h
    exact ⟨index, hf⟩
  | cons t rest ih =>
    obtain ⟨v, hv, hlt, h⟩ := seed_cons_eq_ok.1 h
    rw [hA.interpreter] at hv
    obtain rfl : Interpreter.createdAt tag (.parameter index) t = v := Except.ok.inj hv
    exact ih (hf.set hlt fun w hw => Interpreter.proper_of_createdAt hA.base hw) h

/-- The frame at the entry is proper and clear. -/
theorem proper_initialFrame (hA : A.Tracks tag) {f : Frame (ValueSet α)}
    (h : A.initialFrame = .ok f) : A.ProperFrame f ∧ f.Clear := by
  unfold initialFrame at h
  obtain ⟨types, -, h⟩ := bind_eq_ok.1 h
  obtain ⟨last, hf⟩ := seeded_of_seed hA seeded_blank h
  exact ⟨hf.proper, hf.clear⟩

/-! ## Edges -/

variable {i : Instruction} {f g h : Frame (ValueSet α)} {target : Nat}

theorem Edge.proper (hA : A.Tracks tag) (hf : A.ProperFrame f) (he : A.Edge i f target g) :
    A.ProperFrame g := by
  cases he with
  | normal hx _ _ =>
    rw [hA.interpreter] at hx
    exact hf.execute hA.base hx
  | exceptional _ hv =>
    rw [hA.interpreter] at hv
    have hproper := (Interpreter.proper_of_createdAt hA.base (Except.ok.inj hv)).1
    exact ⟨hf.size, hf.limit, hf.locals, fun v hv => List.mem_singleton.1 hv ▸ hproper⟩

theorem Edge.clear (hA : A.Tracks tag) (hf : f.Clear) (he : A.Edge i f target g) : g.Clear := by
  cases he with
  | normal hx _ _ =>
    rw [hA.interpreter] at hx
    exact hf.execute hA.base hx
  | exceptional _ _ => exact hf

/-- What flows from a larger frame is larger. -/
theorem Edge.mono (hA : A.Tracks tag) (hfg : f.Within g) (he : A.Edge i f target h) :
    ∃ k, A.Edge i g target k ∧ h.Within k := by
  cases he with
  | normal hx hs ht =>
    rw [hA.interpreter] at hx
    obtain ⟨k, hk, hhk, -⟩ := hfg.execute.of_left hx
    rw [← hA.interpreter] at hk
    exact ⟨k, .normal hk hs ht, hhk⟩
  | exceptional hh hv =>
    exact ⟨_, .exceptional hh hv, hfg.size, hfg.locals, .cons (.refl _) .nil, hfg.limit⟩

/-! ## Closed frames -/

/-- Frames at some instructions hold what enters the method and what flows along every edge. -/
structure Closed (A : Analyzer (ValueSet α)) (frame? : Nat → Option (Frame (ValueSet α))) :
    Prop where
  entry : 0 < A.method.size → ∀ f, A.initialFrame = .ok f → ∃ g, frame? 0 = some g ∧ f.Within g
  edge : ∀ l i f target g, frame? l = some f → A.method.instruction? l = some i →
    A.Edge i f target g → ∃ h, frame? target = some h ∧ g.Within h

/-- The frame at the end of a path lies within the closed frame there. -/
theorem PathFrame.within {frame? : Nat → Option (Frame (ValueSet α))} (hA : A.Tracks tag)
    (hc : A.Closed frame?) {l : Nat} (hp : A.PathFrame l f) :
    ∃ g, frame? l = some g ∧ f.Within g := by
  induction hp with
  | entry hm h => exact hc.entry hm _ h
  | step _ hi he ih =>
    obtain ⟨g, hg, hfg⟩ := ih
    obtain ⟨k, hk, hwithin⟩ := he.mono hA hfg
    obtain ⟨h, hh, hkh⟩ := hc.edge _ _ _ _ _ hg hi hk
    exact ⟨h, hh, hwithin.trans hkh⟩

variable [DecidableEq α] {fuel : Nat} {r : AnalysisResult (ValueSet α)}

/-- Every frame that an analysis sees is proper. -/
theorem proper_of_analyze (hA : A.Tracks tag) (hr : (A.analyze fuel).outcome = .ok (some r)) :
    (∀ l f, r.frame? l = some f → A.ProperFrame f) ∧
      ∀ e ∈ (A.analyze fuel).trace, e.Holds fun _ f => A.ProperFrame f := by
  refine analyze_keeps hA.transformer hr (fun _ f hf => (proper_initialFrame hA hf).1)
    (fun _ _ _ _ _ _ hf he => he.proper hA hf) ?_
  intro l held arriving joined _ hheld harriving hj
  rw [hA.interpreter] at hj
  exact hheld.join harriving hj

/-- Every frame that an analysis sees lies within the closed frame at its location. -/
theorem least (hA : A.Tracks tag) (hr : (A.analyze fuel).outcome = .ok (some r))
    {frame? : Nat → Option (Frame (ValueSet α))} (hc : A.Closed frame?) :
    (∀ l f, r.frame? l = some f → ∃ g, frame? l = some g ∧ f.Within g) ∧
      ∀ e ∈ (A.analyze fuel).trace, e.Holds fun l f => ∃ g, frame? l = some g ∧ f.Within g := by
  have hproper := (proper_of_analyze hA hr).2
  refine analyze_keeps hA.transformer hr hc.entry ?_ ?_
  · rintro l i f target g hi ⟨h, hh, hfh⟩ he
    obtain ⟨k, hk, hgk⟩ := he.mono hA hfh
    obtain ⟨h', hh', hkh'⟩ := hc.edge l i h target k hh hi hk
    exact ⟨h', hh', hgk.trans hkh'⟩
  · rintro l held arriving joined he ⟨g, hg, hheld⟩ ⟨g', hg', harriving⟩ hj
    obtain rfl := Option.some.inj (hg.symm.trans hg')
    obtain ⟨hp, hp'⟩ : A.ProperFrame held ∧ A.ProperFrame arriving := hproper _ he
    rw [hA.interpreter] at hj
    exact ⟨g, hg, Frame.join_within hp hp' hj hheld harriving⟩

/-- What an analysis finds if no join met different widths: the entry and all that flows has been
taken up. -/
theorem settled_of_widthsAgree (hA : A.Tracks tag)
    (hr : (A.analyze fuel).outcome = .ok (some r))
    (hw : ∀ e ∈ (A.analyze fuel).trace, e.WidthsAgree) :
    (0 < A.method.size → ∀ f, A.initialFrame = .ok f →
        ∃ g, r.frame? 0 = some g ∧ f.Within g) ∧
      ∀ l f, r.frame? l = some f → ∃ i flows, A.method.instruction? l = some i ∧
        (∀ shown, A.transfer i f shown = .ok flows) ∧
        ∀ p ∈ flows, ∃ g, r.frame? p.1 = some g ∧ p.2.Within g := by
  have hproper := (proper_of_analyze hA hr).2
  refine analyze_settled (R := fun _ => Frame.Within) (fun _ => .refl) (fun _ _ _ _ => .trans)
    hA.transformer hr ?_
  intro l held arriving joined he hj
  obtain ⟨hp, hp'⟩ : A.ProperFrame held ∧ A.ProperFrame arriving := hproper _ he
  have hwidths : held.WidthsAgree arriving := hw _ he
  rw [hA.interpreter] at hj
  exact ⟨Frame.within_join_left hp hp' hwidths hj, Frame.within_join_right hp hp' hwidths hj⟩

/-- The frames that an analysis finds are closed if no join met different widths. -/
theorem closed_of_widthsAgree (hA : A.Tracks tag)
    (hr : (A.analyze fuel).outcome = .ok (some r))
    (hw : ∀ e ∈ (A.analyze fuel).trace, e.WidthsAgree) : A.Closed r.frame? := by
  obtain ⟨hentry, hflow⟩ := settled_of_widthsAgree hA hr hw
  refine ⟨hentry, fun l i f target g hf hi he => ?_⟩
  obtain ⟨i', flows, hi', hflows, htaken⟩ := hflow l f hf
  obtain rfl := Option.some.inj (hi.symm.trans hi')
  exact htaken (target, g) ((mem_transfer hA.transformer (hflows #[])).2 he)

end Analyzer

end Provenance

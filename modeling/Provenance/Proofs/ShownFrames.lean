/-
Transformers that look at the frames found so far.

A transformer is shown the frames before all instructions as far as they are known. But an instruction
is visited again when its own frame changes, not when another one does. So a transformer that looks at
other frames may have answered too early, and one more pass over the result, in which it is shown the
frames of the result, may still change them.

What a result does hold is what arrived in the run, all of it and nothing else. Hence one more pass
adds nothing exactly if whatever flows in it is made up of what arrived in the run
(`Method.absorbs_iff_madeOf`). So it is in any case if the transformer does not look at the frames
(`Analyzer.absorbs_of_blind`).

No value is wide here. Joins of locals with different widths forget what they were given, and that is
another way to lose what arrived.
-/
import Provenance.Proofs.Arrivals
import Provenance.Proofs.Independence
import Provenance.Proofs.NarrowFrames

set_option autoImplicit false

namespace Provenance

variable {α : Type} [Coded α] [HasBase α]

/-! ## Methods and transformers without wide values -/

/-- No argument is wide, and no instruction makes a wide value. -/
structure Method.Narrow (m : Method) : Prop where
  arguments : ∀ types, m.argumentTypes = .ok types → ∀ t ∈ types, t.size ≠ 2
  produced : ∀ i ∈ m.instructions, ∀ t, i.Produces t → t.size ≠ 2

omit [HasBase α] in
/-- The transformer answers narrow frames if it is given narrow frames and shown no others. -/
def FrameTransformer.KeepsNarrow (T : FrameTransformer (ValueSet α)) : Prop :=
  ∀ c f, c.before.Narrow → c.after.Narrow → (∀ l g, c.frame? l = some g → g.Narrow) →
    T c = .ok f → f.Narrow

theorem Interpreter.narrow_of_createdAt {tag : Witness → α}
    (htag : ∀ w, HasBase.base (tag w) = w) {origin : Origin} {t : JType} {s : ValueSet α}
    (h : createdAt tag origin t = some s) (ht : t.size ≠ 2) : s.width = 1 := by
  obtain ⟨hproper, hwidth⟩ := proper_of_createdAt htag h
  rcases hproper.size with hone | htwo
  · exact hone
  · exact absurd (hwidth.symm.trans htwo) ht

namespace Analyzer

/-- The analyzer tracks witnesses, with something attached, where no value is wide. -/
structure TracksNarrow (A : Analyzer (ValueSet α)) (tag : Witness → α) : Prop where
  interpreter : A.interpreter = .tracking tag
  base : ∀ w, HasBase.base (tag w) = w
  method : A.method.Narrow
  transformer : A.transformer.KeepsNarrow

variable {A : Analyzer (ValueSet α)} {tag : Witness → α} (hA : A.TracksNarrow tag)
  {f g : Frame (ValueSet α)}
include hA

theorem narrow_seed {types : List JType} (htypes : ∀ t ∈ types, t.size ≠ 2) {index : Nat}
    (hf : f.Narrow) (h : A.seed types index f = .ok g) : g.Narrow := by
  induction types generalizing index f with
  | nil =>
    obtain rfl := Except.ok.inj h
    exact hf
  | cons t rest ih =>
    obtain ⟨ht, hrest⟩ := List.forall_mem_cons.1 htypes
    obtain ⟨v, hv, hlt, h⟩ := seed_cons_eq_ok.1 h
    rw [hA.interpreter] at hv
    obtain rfl : Interpreter.createdAt tag (.parameter index) t = v := Except.ok.inj hv
    have hset : ({ f with locals := f.locals.set index (Interpreter.createdAt tag
        (.parameter index) t) } : Frame (ValueSet α)).Narrow := by
      refine Frame.narrow_of_parts (fun k s hs => ?_) fun s hs => hf.stack hs
      rw [Frame.local?_set hlt] at hs
      split at hs
      · exact Interpreter.narrow_of_createdAt hA.base hs ht
      · exact hf.locals hs
    exact ih hrest hset h

theorem narrow_initialFrame (h : A.initialFrame = .ok f) : f.Narrow := by
  unfold initialFrame at h
  obtain ⟨types, htypes, h⟩ := bind_eq_ok.1 h
  refine narrow_seed hA (fun t ht => ?_) (Frame.narrow_of_parts (fun k s hs => ?_) ?_) h
  · obtain ⟨arguments, harguments, htypes⟩ := bind_eq_ok.1 htypes
    have ht' : t ∈ arguments ∨ t = .object A.method.owner := by
      obtain rfl := Except.ok.inj htypes
      split at ht
      · exact .inl ht
      · exact (List.mem_cons.1 ht).symm
    rcases ht' with ht' | rfl
    · exact hA.method.arguments arguments harguments t ht'
    · exact (by decide : (1 : Nat) ≠ 2)
  · rw [Frame.local?_blank] at hs
    cases hs
  · exact fun _ hs => nomatch hs

theorem narrow_execute {l : Nat} {i : Instruction} (hi : A.method.instruction? l = some i)
    (hf : f.Narrow) (h : (Frame.execute A.interpreter i A.returnType f).outcome = .ok g) :
    g.Narrow := by
  rw [hA.interpreter] at h
  have hmem : i ∈ A.method.instructions := List.mem_of_getElem? hi
  obtain ⟨-, hlocals, hstack, -⟩ := Frame.execute_preserves_each (P := fun s => s.width = 1)
    (fun t ht hvoid => Interpreter.narrow_of_createdAt hA.base (if_neg hvoid)
      (hA.method.produced i hmem t ht)) (fun _ _ hs => hf.locals hs) (fun _ hs => hf.stack hs) h
  exact Frame.narrow_of_parts hlocals hstack

/-- Narrow frames flow on as narrow frames, whatever narrow frames are shown. -/
theorem narrow_transfer {l : Nat} {i : Instruction} (hi : A.method.instruction? l = some i)
    (hf : f.Narrow) {shown : States (Frame (ValueSet α))}
    (hshown : ∀ (k : Nat) (g : Frame (ValueSet α)), shown[k]?.join = some g → g.Narrow)
    {flows : List (Nat × Frame (ValueSet α))} (h : A.transfer i f shown = .ok flows) :
    ∀ p ∈ flows, p.2.Narrow := by
  obtain ⟨after, successors, normal, exceptional, hx, -, hnormal, hexceptional, rfl⟩ :=
    parts_of_transfer h
  have hafter := narrow_execute hA hi hf hx
  intro p hp
  rcases List.mem_append.1 hp with hp | hp
  · obtain ⟨target, -, -, edge, hT⟩ := exists_left_of_forall₂ hnormal hp
    exact hA.transformer ⟨i, edge, f, after, A.method, shown⟩ _ hf hafter hshown hT
  · obtain ⟨handler, -, hto⟩ := exists_left_of_forall₂ hexceptional hp
    obtain ⟨exception, hv, -, rfl⟩ := toHandler_eq_ok.1 hto
    rw [hA.interpreter] at hv
    have hwidth : exception.width = 1 :=
      Interpreter.narrow_of_createdAt hA.base (Except.ok.inj hv) (by decide : (1 : Nat) ≠ 2)
    exact Frame.narrow_of_parts (fun _ _ hs => hf.locals hs) fun s hs =>
      List.mem_singleton.1 hs ▸ hwidth

theorem narrow_flow {l : Nat} (hf : f.Narrow) {shown : States (Frame (ValueSet α))}
    (hshown : ∀ (k : Nat) (g : Frame (ValueSet α)), shown[k]?.join = some g → g.Narrow)
    {flows : List (Nat × Frame (ValueSet α))} (h : A.flow.transfer l f shown = .ok flows) :
    ∀ p ∈ flows, p.2.Narrow := by
  obtain ⟨i, hi, h⟩ := flow_transfer_eq_ok.1 h
  exact narrow_transfer hA hi hf hshown h

theorem joined_of_flow {l : Nat} {joined : Frame (ValueSet α)}
    (h : A.flow.join l f g = .ok joined) : Frame.Joined (.tracking tag) f g joined := by
  have h' := flow_join_eq_ok.1 h
  rwa [hA.interpreter] at h'

end Analyzer

/-! ## What a result holds -/

namespace Analyzer

/-- A transfer is told by what the transformer answers. -/
theorem transfer_congr {V : Type} [AbstractValue V] {A : Analyzer V} {i : Instruction}
    {before : Frame V} {shown other : States (Frame V)}
    (h : ∀ edge after, A.transformer ⟨i, edge, before, after, A.method, shown⟩
      = A.transformer ⟨i, edge, before, after, A.method, other⟩) :
    A.transfer i before shown = A.transfer i before other := by
  have hcross : ∀ after targets edge, A.crossAll i before after shown targets edge
      = A.crossAll i before after other targets edge := by
    intro after targets
    induction targets with
    | nil => exact fun _ => rfl
    | cons target rest ih =>
      intro edge
      unfold crossAll
      rw [h, ih]
  unfold transfer
  simp only [hcross]

section

variable {V : Type} [AbstractValue V] (A : Analyzer V)

/-- A frame arrives at an instruction in the course of some events. -/
def Arrived (events : List (Event (Frame V))) (l : Nat) (f : Frame V) : Prop :=
  0 < A.method.size ∧
    ∃ initial, A.initialFrame = .ok initial ∧ A.flow.Arrived 0 initial events l f

/-- A frame that arrives at an instruction leaves the frame of a result there as it is. -/
def AbsorbedBy (r : AnalysisResult V) (l : Nat) (f : Frame V) : Prop :=
  ∃ g, r.frame? l = some g ∧ (Frame.join A.interpreter g f).outcome = .ok g

/-- One more pass changes nothing, as far as frames can be passed on: all that flows from the frames of
a result when they are shown leaves them as they are. -/
def Absorbs (r : AnalysisResult V) : Prop :=
  ∀ l i f flows, A.method.instruction? l = some i → r.frame? l = some f →
    A.transfer i f r.frames = .ok flows → ∀ p ∈ flows, A.AbsorbedBy r p.1 p.2

end

variable [DecidableEq α] {A : Analyzer (ValueSet α)} {tag : Witness → α} (hA : A.TracksNarrow tag)
  {fuel : Nat} {r : AnalysisResult (ValueSet α)}
  (hr : (A.analyze fuel).outcome = .ok (some r))
include hA hr

/-- The frames of a result are narrow and made up of what arrived. What arrived is narrow and lies
below them, and each of them was passed on as it is, when narrow frames were shown. -/
theorem arrivals_of_analyze :
    (∀ l f, r.frame? l = some f → f.Narrow ∧ f.MadeOf (A.Arrived (A.analyze fuel).trace l) ∧
        ∃ i shown flows, A.method.instruction? l = some i ∧
          .transfer l f shown ∈ (A.analyze fuel).trace ∧ A.transfer i f shown = .ok flows) ∧
      ∀ l f, A.Arrived (A.analyze fuel).trace l f →
        f.Narrow ∧ ∃ g, r.frame? l = some g ∧ f.Below g := by
  obtain ⟨-, ⟨hm, hframes, -⟩ | ⟨initial, hm, hi, hsolve, htrace⟩⟩ := analyze_eq_ok hr
  · refine ⟨fun l f hf => ?_, fun l f hf => absurd hf.1 (by omega)⟩
    rw [AnalysisResult.frame?_of_empty hframes] at hf
    cases hf
  rw [htrace]
  have hinitial : initial.Narrow := narrow_initialFrame hA hi
  have hshown := ForwardAnalysis.solve_shown (P := fun _ f => f.Narrow) hsolve hinitial
    (fun l f shown flows hf hshown => narrow_flow hA hf hshown)
    (fun l held arriving joined hheld harriving hj => hheld.join harriving (joined_of_flow hA hj))
  -- every frame of the run is narrow, and made up of what arrives in the whole of it
  obtain ⟨hstates, hevents⟩ := ForwardAnalysis.solve_keeps
    (P := fun l f => f.Narrow ∧
      f.MadeOf (A.Arrived (A.flow.solve fuel A.method.size 0 initial).trace l)) hsolve
    ⟨hinitial, .self ⟨hm, initial, hi, .initial⟩⟩
    (fun l f shown flows he hf hflows p hp =>
      ⟨narrow_flow hA hf.1 (hshown l f shown he) hflows p hp,
        .self ⟨hm, initial, hi, .flow he hflows hp⟩⟩)
    (fun l held arriving joined _ hheld harriving hj =>
      ⟨hheld.1.join harriving.1 (joined_of_flow hA hj),
        hheld.2.join hheld.1 harriving.1 harriving.2 (joined_of_flow hA hj)⟩)
  obtain ⟨htaken, hpassed⟩ := ForwardAnalysis.solve_arrived (R := fun _ => Frame.Below)
    (fun _ => .refl) (fun _ _ _ _ => .trans) hsolve fun l held arriving joined he hj => by
      obtain ⟨⟨hheld, -⟩, harriving, -⟩ := hevents _ he
      have hjoined := joined_of_flow hA hj
      exact ⟨hjoined.below_left hheld harriving, hjoined.below_right hheld harriving⟩
  refine ⟨fun l f hf => ⟨(hstates l f hf).1, (hstates l f hf).2, ?_⟩, fun l f hf => ?_⟩
  · obtain ⟨shown, flows, he, hflows⟩ := hpassed l f hf
    obtain ⟨i, hl, hflows⟩ := flow_transfer_eq_ok.1 hflows
    exact ⟨i, shown, flows, hl, he, hflows⟩
  · obtain ⟨-, initial', hi', hf⟩ := hf
    obtain rfl := Except.ok.inj (hi.symm.trans hi')
    refine ⟨?_, htaken l f hf⟩
    cases hf with
    | initial => exact hinitial
    | flow he hflows hp =>
      obtain ⟨hs, -⟩ := hevents _ he
      exact narrow_flow hA hs (hshown _ _ _ he) hflows _ hp

/-- A frame without wide values leaves a result as it is exactly if it is made up of what arrived. -/
theorem absorbedBy_iff_madeOf {l : Nat} {f : Frame (ValueSet α)} (hf : f.Narrow) :
    A.AbsorbedBy r l f ↔ f.MadeOf (A.Arrived (A.analyze fuel).trace l) := by
  obtain ⟨hstates, harrived⟩ := arrivals_of_analyze hA hr
  have hiff : ∀ g, r.frame? l = some g → ((Frame.join A.interpreter g f).outcome = .ok g ↔
      f.MadeOf (A.Arrived (A.analyze fuel).trace l)) := by
    intro g hg
    obtain ⟨hnarrow, hmade, -⟩ := hstates l g hg
    rw [hA.interpreter, Frame.join_eq_left_of_narrow hnarrow hf]
    refine Frame.below_iff_madeOf hf hnarrow (fun h hh => ?_) hmade
    obtain ⟨-, g', hg', hhg⟩ := harrived l h hh
    obtain rfl := Option.some.inj (hg.symm.trans hg')
    exact hhg
  constructor
  · rintro ⟨g, hg, hj⟩
    exact (hiff g hg).1 hj
  · intro hmade
    obtain ⟨h, hh, -⟩ := hmade.shape
    obtain ⟨-, g, hg, -⟩ := harrived l h hh
    exact ⟨g, hg, (hiff g hg).2 hmade⟩

/-- What flowed from the frames of a result when they were passed on leaves them as they are. -/
theorem absorbedBy_of_transfer {l : Nat} {i : Instruction} {f : Frame (ValueSet α)}
    {shown : States (Frame (ValueSet α))} {flows : List (Nat × Frame (ValueSet α))}
    (hi : A.method.instruction? l = some i)
    (he : .transfer l f shown ∈ (A.analyze fuel).trace) (h : A.transfer i f shown = .ok flows) :
    ∀ p ∈ flows, A.AbsorbedBy r p.1 p.2 := by
  intro p hp
  obtain ⟨-, harrived⟩ := arrivals_of_analyze hA hr
  have hp' : A.Arrived (A.analyze fuel).trace p.1 p.2 := by
    obtain ⟨-, ⟨-, -, htrace⟩ | ⟨initial, hm, hinitial, -, -⟩⟩ := analyze_eq_ok hr
    · rw [htrace] at he
      cases he
    · exact ⟨hm, initial, hinitial, .flow he (flow_transfer_eq_ok.2 ⟨i, hi, h⟩) hp⟩
  exact (absorbedBy_iff_madeOf hA hr (harrived p.1 p.2 hp').1).2 (.self hp')

/-- If the transformer does not look at the frames, one more pass changes nothing. -/
theorem absorbs_of_blind
    (hblind : ∀ c shown, A.transformer { c with frames := shown } = A.transformer c) :
    A.Absorbs r := by
  intro l i f flows hi hf hflows
  obtain ⟨hstates, -⟩ := arrivals_of_analyze hA hr
  obtain ⟨-, -, i', shown, flows', hi', he, hflows'⟩ := hstates l f hf
  obtain rfl := Option.some.inj (hi.symm.trans hi')
  rw [transfer_congr fun edge after => hblind ⟨i, edge, f, after, A.method, shown⟩ r.frames,
    hflows'] at hflows
  obtain rfl := Except.ok.inj hflows
  exact absorbedBy_of_transfer hA hr hi he hflows'

end Analyzer

/-- Imposing a fact on a slot makes no value wide. -/
theorem Dimension.narrow_imposeOnSlot {Q : Type} [DecidableEq Q] [Fact Q] {D : Dimension Q}
    {fact : Q} {slot : Slot} {f g : Frame (QualifiedValueSet Q)} (hf : f.Narrow)
    (h : D.imposeOnSlot fact slot f = .ok g) : g.Narrow := by
  rcases imposeOnSlot_eq_ok h with ⟨-, rfl⟩ | ⟨values, r, -, -, hrel⟩
  · exact hf
  · intro other t ht
    have hother := hrel other
    rw [ht] at hother
    generalize hs : f.get? other = s at hother
    cases hother with
    | some hreplace =>
      obtain ⟨b, hreplace⟩ := hreplace
      obtain ⟨pairs, -, rfl⟩ := QualifiedValueSet.replace_eq_ok hreplace
      have hwidth := hf other _ hs
      exact hwidth

namespace Method

section

variable {Q : Type} [DecidableEq Q] [Fact Q] {m : Method}
  {T : FrameTransformer (QualifiedValueSet Q)} {evaluate : Witness → Qualifier Q}
  {A : Analyzer (QualifiedValueSet Q)} {fuel : Nat} {r : AnalysisResult (QualifiedValueSet Q)}

/-- Tracking qualifiers is the analysis that is prepared for it. -/
theorem trackQualifiers_eq (hA : Analyzer.prepare m (.qualifiedValues evaluate) T = .ok A)
    (fuel : Nat) : m.trackQualifiers T evaluate fuel = A.analyze fuel := by
  unfold trackQualifiers
  rw [hA]
  show (pure A >>= fun A : Analyzer (QualifiedValueSet Q) => A.analyze fuel) = _
  rw [pure_bind]

omit [DecidableEq Q] in
theorem tracksNarrow_of_prepare (hm : m.Narrow) (hT : T.KeepsNarrow)
    (hA : Analyzer.prepare m (.qualifiedValues evaluate) T = .ok A) :
    A.TracksNarrow (.atFirst evaluate) := by
  obtain ⟨t, -, rfl⟩ := Analyzer.prepare_eq_ok.1 hA
  exact ⟨rfl, fun _ => rfl, hm, hT⟩

/-- Suppose that no value is wide. When the frames of a result were passed on in the run, what flowed
from them leaves the result as it is. When they are passed on again and shown, what flows leaves it as
it is exactly if it is made up of what arrived in the run. -/
theorem absorbs_iff_madeOf (hm : m.Narrow) (hT : T.KeepsNarrow)
    (hA : Analyzer.prepare m (.qualifiedValues evaluate) T = .ok A)
    (hr : (m.trackQualifiers T evaluate fuel).outcome = .ok (some r)) :
    (∀ l f, r.frame? l = some f → ∃ i shown flows, m.instruction? l = some i ∧
        .transfer l f shown ∈ (m.trackQualifiers T evaluate fuel).trace ∧
        A.transfer i f shown = .ok flows ∧ ∀ p ∈ flows, A.AbsorbedBy r p.1 p.2) ∧
      (A.Absorbs r ↔ ∀ l i f flows, m.instruction? l = some i → r.frame? l = some f →
        A.transfer i f r.frames = .ok flows → ∀ p ∈ flows,
          p.2.MadeOf (A.Arrived (m.trackQualifiers T evaluate fuel).trace p.1)) := by
  have hnarrow := tracksNarrow_of_prepare hm hT hA
  rw [trackQualifiers_eq hA] at hr ⊢
  obtain ⟨hstates, -⟩ := Analyzer.arrivals_of_analyze hnarrow hr
  obtain rfl : A.method = m := Analyzer.method_of_prepare hA
  refine ⟨fun l f hf => ?_, ?_⟩
  · obtain ⟨-, -, i, shown, flows, hi, he, hflows⟩ := hstates l f hf
    exact ⟨i, shown, flows, hi, he, hflows,
      Analyzer.absorbedBy_of_transfer hnarrow hr hi he hflows⟩
  · -- what flows again is narrow, for only narrow frames are shown
    have hiff : ∀ l i f flows, A.method.instruction? l = some i → r.frame? l = some f →
        A.transfer i f r.frames = .ok flows → ∀ p ∈ flows, (A.AbsorbedBy r p.1 p.2 ↔
          p.2.MadeOf (A.Arrived (A.analyze fuel).trace p.1)) := by
      intro l i f flows hi hf hflows p hp
      exact Analyzer.absorbedBy_iff_madeOf hnarrow hr (Analyzer.narrow_transfer hnarrow hi
        (hstates l f hf).1 (fun k g hg => (hstates k g hg).1) hflows p hp)
    constructor
    · intro h l i f flows hi hf hflows p hp
      exact (hiff l i f flows hi hf hflows p hp).1 (h l i f flows hi hf hflows p hp)
    · intro h l i f flows hi hf hflows p hp
      exact (hiff l i f flows hi hf hflows p hp).2 (h l i f flows hi hf hflows p hp)

end

/-- Passes the null constant on to the caller. -/
def returnsNull : Method where
  owner := "Sample"
  name := "returnsNull"
  descriptor := "()Ljava/lang/Object;"
  access := ⟨8⟩
  maxLocals := 0
  maxStack := 1
  instructions := [⟨0, .aconstNull, .none⟩, ⟨1, .nop, .none⟩, ⟨2, .areturn, .none⟩]
  handlers := []

theorem narrow_returnsNull : returnsNull.Narrow where
  arguments types h := by
    have hnone : returnsNull.argumentTypes = .ok [] := by decide +kernel
    obtain rfl := Except.ok.inj (hnone.symm.trans h)
    exact fun t ht => nomatch ht
  produced i hi t ht := by
    have h := ht.produced
    have hi' : i = ⟨0, .aconstNull, .none⟩ ∨ i = ⟨1, .nop, .none⟩ ∨ i = ⟨2, .areturn, .none⟩ := by
      simpa [returnsNull] using hi
    rcases hi' with rfl | rfl | rfl
    · cases h
      decide
    · cases h
    · cases h

/-- As soon as the frame before some instruction is known, what the second instruction passes on is
not null. -/
def notNullOnceKnown (seen : Nat) : FrameTransformer (QualifiedValueSet ValueFact) := fun c =>
  if c.instruction.index = 1 ∧ (c.frame? seen).isSome then
    Dimension.nullability.imposeOnSlot .notNull (.stack 0) c.after
  else .ok c.after

/-- The transformer answers the same if it sees of that frame whether it is known. -/
theorem notNullOnceKnown_congr {seen : Nat} {i : Instruction} {edge : Nat}
    {before after : Frame (QualifiedValueSet ValueFact)} {m : Method}
    {shown other : States (Frame (QualifiedValueSet ValueFact))}
    (h : shown[seen]?.join.isSome = other[seen]?.join.isSome) :
    notNullOnceKnown seen ⟨i, edge, before, after, m, shown⟩
      = notNullOnceKnown seen ⟨i, edge, before, after, m, other⟩ := by
  unfold notNullOnceKnown EdgeCrossing.frame?
  rw [h]

theorem keepsNarrow_notNullOnceKnown (seen : Nat) : (notNullOnceKnown seen).KeepsNarrow := by
  intro c f _ hafter _ h
  unfold notNullOnceKnown at h
  split at h
  · exact Dimension.narrow_imposeOnSlot hafter h
  · obtain rfl := Except.ok.inj h
    exact hafter

/-- The analysis of the method with such a transformer. -/
def returnsNullAnalyzer (seen : Nat) : Analyzer (QualifiedValueSet ValueFact) where
  method := returnsNull
  interpreter := .qualifiedValues Witness.withNullness
  transformer := notNullOnceKnown seen
  returnType := .object "java/lang/Object"

theorem prepare_returnsNull (seen : Nat) :
    Analyzer.prepare returnsNull (.qualifiedValues Witness.withNullness) (notNullOnceKnown seen)
      = .ok (returnsNullAnalyzer seen) :=
  Analyzer.prepare_eq_ok.2 ⟨_, by decide +kernel, rfl⟩

/-- The first frame is known from the beginning on, so there is nothing new to see in the end. -/
theorem absorbs_iff_madeOf_returnsNull :
    ∃ r, (returnsNull.trackQualifiers (notNullOnceKnown 0) Witness.withNullness 5).outcome
        = .ok (some r) ∧ (returnsNullAnalyzer 0).Absorbs r := by
  have hA := prepare_returnsNull 0
  obtain ⟨r, hr⟩ : ∃ r, (returnsNull.trackQualifiers (notNullOnceKnown 0)
      Witness.withNullness 5).outcome = .ok (some r) :=
    AnalysisResult.exists_of_isSome (by decide +kernel)
  have hknown : (returnsNull.trackQualifiers (notNullOnceKnown 0)
      Witness.withNullness 5).trace.all (fun e =>
        match e with
        | .transfer _ _ shown => shown[0]?.join.isSome
        | _ => true) = true := by
    decide +kernel
  have hinitial : (returnsNullAnalyzer 0).initialFrame = .ok ⟨[], [], 1⟩ := by decide +kernel
  have hfirst : r.frame? 0 = some ⟨[], [], 1⟩ := AnalysisResult.frame?_eq hr (by decide +kernel)
  obtain ⟨hpassed, hiff⟩ := absorbs_iff_madeOf narrow_returnsNull
    (keepsNarrow_notNullOnceKnown 0) hA hr
  refine ⟨r, hr, hiff.2 fun l i f flows hi hf hflows p hp => ?_⟩
  obtain ⟨i', shown, flows', hi', he, hflows', -⟩ := hpassed l f hf
  obtain rfl := Option.some.inj (hi.symm.trans hi')
  -- the transformer sees no more in the result than it saw in the run
  have hshown : r.frames[0]?.join.isSome = shown[0]?.join.isSome :=
    (congrArg Option.isSome hfirst).trans (List.all_eq_true.1 hknown _ he).symm
  rw [Analyzer.transfer_congr fun edge after => notNullOnceKnown_congr hshown, hflows'] at hflows
  obtain rfl := Except.ok.inj hflows
  exact .self ⟨by decide, _, hinitial,
    .flow he (Analyzer.flow_transfer_eq_ok.2 ⟨i, hi, hflows'⟩) hp⟩

/-- The null constant alone on the stack. -/
def holdsNull (fact : ValueFact) : Frame (QualifiedValueSet ValueFact) where
  locals := []
  stack := [.single ⟨⟨.instruction 0, .null⟩, .single Dimension.nullability.id fact⟩]
  maxStack := 1

/-- The frame before the last instruction is not known when the second one is visited, and when it is
known the second one is not visited again. One more pass would find that what is returned is not
null. -/
theorem not_absorbs_returnsNull :
    returnsNull.Indexed ∧ returnsNull.Narrow ∧ (notNullOnceKnown 2).KeepsNarrow ∧
      Analyzer.prepare returnsNull (.qualifiedValues Witness.withNullness) (notNullOnceKnown 2)
        = .ok (returnsNullAnalyzer 2) ∧
      ∃ r, (returnsNull.trackQualifiers (notNullOnceKnown 2) Witness.withNullness 5).outcome
          = .ok (some r) ∧ ¬ (returnsNullAnalyzer 2).Absorbs r := by
  obtain ⟨r, hr⟩ : ∃ r, (returnsNull.trackQualifiers (notNullOnceKnown 2)
      Witness.withNullness 5).outcome = .ok (some r) :=
    AnalysisResult.exists_of_isSome (by decide +kernel)
  refine ⟨by decide, narrow_returnsNull, keepsNarrow_notNullOnceKnown 2, prepare_returnsNull 2, r,
    hr, fun h => ?_⟩
  have hsecond : r.frame? 1 = some (holdsNull .nullable) :=
    AnalysisResult.frame?_eq hr (by decide +kernel)
  have hthird : r.frame? 2 = some (holdsNull .nullable) :=
    AnalysisResult.frame?_eq hr (by decide +kernel)
  have hagain : (returnsNullAnalyzer 2).transfer ⟨1, .nop, .none⟩ (holdsNull .nullable) r.frames
      = .ok [(2, holdsNull .notNull)] := by
    have hknown : r.frames[2]?.join.isSome
        = (#[none, none, some (holdsNull .nullable)] : States _)[2]?.join.isSome :=
      congrArg Option.isSome hthird
    have hsame : (returnsNullAnalyzer 2).transfer ⟨1, .nop, .none⟩ (holdsNull .nullable) r.frames
        = (returnsNullAnalyzer 2).transfer ⟨1, .nop, .none⟩ (holdsNull .nullable)
          #[none, none, some (holdsNull .nullable)] :=
      Analyzer.transfer_congr fun edge after => notNullOnceKnown_congr hknown
    rw [hsame]
    decide +kernel
  obtain ⟨g, hg, hj⟩ := h 1 _ _ _ rfl hsecond hagain _ (List.mem_singleton_self _)
  obtain rfl := Option.some.inj (hthird.symm.trans hg)
  -- the join holds both versions of the null constant
  revert hj
  decide +kernel

end Method

end Provenance

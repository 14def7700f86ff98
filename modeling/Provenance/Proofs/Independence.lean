/-
Qualifiers do not influence provenance.

Tracking qualifiers with corrections visits a method in another order than tracking values, and more
often, because a new version of a value is a change like any other. When the qualifiers are left out
it nevertheless finds the same, provided that the corrections only impose facts and that an origin
tells its witness (`Method.erase_trackQualifiers_of_onlyImposes`).

Leaving qualifiers out takes the entry to the entry, joins to joins, and what flows out of a frame to
what flows out of what is left of the frame (`Analyzer.erase_transfer`). The frames that tracking
values finds are closed if no join met different widths, so what is left of the other frames stays
within them (`Analyzer.bounded_of_solve`). Hence the joins of the other frames meet no different
widths either, and what is left of these frames at the end is closed as well
(`Analyzer.closed_of_solve`). But tracking values finds the least closed frames.
-/
import Provenance.Proofs.Corrections
import Provenance.Qualifier.Nullness

set_option autoImplicit false

namespace Provenance

section

variable {Q : Type} [Fact Q] {evaluate : Witness → Qualifier Q}

/-! ## What is left of frames -/

/-- A witness with what it carries at first is that witness when the qualifiers are left out. -/
theorem QualifiedValueSet.erase_created (w : Witness) :
    ValueSet.single (id w) = QualifiedValueSet.erase (.single (.atFirst evaluate w)) := by
  have himage : (ValueSet.single (QualifiedValue.atFirst evaluate w)).image QualifiedValue.base
      = .single w := ValueSet.image_single rfl
  exact himage.symm

namespace Frame

/-- A frame and what is left of it. -/
abbrev Leaves : Frame (QualifiedValueSet Q) → Frame PossibleValues → Prop :=
  Alike fun s t => t = QualifiedValueSet.erase s

variable {f g joined : Frame (QualifiedValueSet Q)}

theorem leaves_erase (f : Frame (QualifiedValueSet Q)) : f.Leaves f.erase :=
  alike_iff_map.2 rfl

theorem erase_execute {i : Instruction} {returnType : JType}
    (h : (execute (.tracking (.atFirst evaluate)) i returnType f).outcome = .ok g) :
    (execute (.tracking id) i returnType f.erase).outcome = .ok g.erase := by
  have hexecute : Traced.Match (Call.Related fun s t => t = QualifiedValueSet.erase s) Leaves
      (execute (.tracking (.atFirst evaluate)) i returnType f)
      (execute (.tracking id) i returnType f.erase) := by
    refine Alike.execute ?_ (fun t _ _ => QualifiedValueSet.erase_created _) f.leaves_erase _
    rintro s _ rfl
    rfl
  obtain ⟨g', hg', hgg', -⟩ := hexecute.of_left h
  rw [hg', alike_iff_map.1 hgg']
  rfl

theorem erase_joined
    (h : Joined (.tracking (QualifiedValue.atFirst evaluate)) f g joined) :
    Joined (.tracking id) f.erase g.erase joined.erase := by
  have hjoin : Traced.Match (Call.Related fun s t => t = QualifiedValueSet.erase s) Leaves
      (join (.tracking (QualifiedValue.atFirst evaluate)) f g)
      (join (.tracking id) f.erase g.erase) :=
    Alike.join (mergesAlike_image QualifiedValue.base _ _) f.leaves_erase g.leaves_erase
  obtain ⟨joined', hj, hjj', -⟩ := hjoin.of_left (join_eq_ok.2 h)
  rw [alike_iff_map.1 hjj'] at hj
  exact join_eq_ok.1 hj

end Frame

end

/-! ## What is left of flows -/

namespace Analyzer

variable {Q : Type} [Fact Q]

/-- Tracks values. -/
abbrev plain (m : Method) (returnType : JType) : Analyzer PossibleValues :=
  tracker id .identity m returnType

/-- Tracks qualifiers, which a transformer corrects. -/
abbrev corrected (evaluate : Witness → Qualifier Q)
    (T : FrameTransformer (QualifiedValueSet Q)) (m : Method) (returnType : JType) :
    Analyzer (QualifiedValueSet Q) :=
  tracker (.atFirst evaluate) T m returnType

variable {evaluate : Witness → Qualifier Q} {T : FrameTransformer (QualifiedValueSet Q)}
  {m : Method} {returnType : JType}

theorem tracks_plain : (plain m returnType).Tracks id := ⟨rfl, rfl, fun _ => rfl⟩

theorem erase_initialFrame {f : Frame (QualifiedValueSet Q)}
    (h : (corrected evaluate T m returnType).initialFrame = .ok f) :
    (plain m returnType).initialFrame = .ok f.erase := by
  have hinitial : Traced.Match (fun (_ _ : Unit) => True) Frame.Leaves
      (.quiet (corrected evaluate T m returnType).initialFrame)
      (.quiet (plain m returnType).initialFrame) :=
    initialFrame_alike QualifiedValueSet.erase_created
  obtain ⟨g, hg, hfg, -⟩ := hinitial.of_left h
  rw [Frame.alike_iff_map.1 hfg] at hg
  exact hg

theorem erase_toHandler {f : Frame (QualifiedValueSet Q)} {handler : Handler}
    {p : Nat × Frame (QualifiedValueSet Q)}
    (h : (corrected evaluate T m returnType).toHandler f handler = .ok p) :
    (plain m returnType).toHandler f.erase handler = .ok (p.1, p.2.erase) := by
  have hhandler : Traced.Match (fun (_ _ : Unit) => True)
      (fun p q => p.1 = q.1 ∧ Frame.Leaves p.2 q.2)
      (.quiet ((corrected evaluate T m returnType).toHandler f handler))
      (.quiet ((plain m returnType).toHandler f.erase handler)) := by
    refine toHandler_alike ?_ f.leaves_erase handler
    exact QualifiedValueSet.erase_created
  obtain ⟨q, hq, ⟨hto, hpq⟩, -⟩ := hhandler.of_left h
  have hleft : q = (p.1, p.2.erase) := Prod.ext hto.symm (Frame.alike_iff_map.1 hpq)
  rw [hleft] at hq
  exact hq

variable [DecidableEq Q]

/-- Frames flow on without their qualifiers as they flow on with them, if the corrections only impose
facts. -/
theorem erase_transfer (hT : T.OnlyImposes)
    (hK : ToldByOrigin (· ∈ (plain m returnType).witnesses)) {l : Nat} {i : Instruction}
    (hi : m.instruction? l = some i) {f : Frame (QualifiedValueSet Q)}
    (hf : f.erase.Members (· ∈ (plain m returnType).witnesses))
    {shown : States (Frame (QualifiedValueSet Q))}
    {flows : List (Nat × Frame (QualifiedValueSet Q))}
    (h : (corrected evaluate T m returnType).transfer i f shown = .ok flows)
    (shown' : States (Frame PossibleValues)) :
    (plain m returnType).transfer i f.erase shown'
      = .ok (flows.map fun p => (p.1, p.2.erase)) := by
  obtain ⟨after, successors, normal, exceptional, hx, hs, hn, he, rfl⟩ := parts_of_transfer h
  have hx' : (Frame.execute (.tracking id) i returnType f.erase).outcome = .ok after.erase :=
    Frame.erase_execute hx
  have hafter : after.erase.Members (· ∈ (plain m returnType).witnesses) :=
    members_execute (A := plain m returnType) (fun _ hw => hw) hi hf hx'
  -- whatever crosses an edge was corrected by impositions
  have hnormal : normal.map (fun p => (p.1, p.2.erase))
      = successors.map fun target => (target, after.erase) := by
    rw [← List.forall₂_eq_eq_eq, List.forall₂_map_left_iff, List.forall₂_map_right_iff]
    refine hn.flip.imp fun p target hp => ?_
    obtain ⟨rfl, edge, hedge⟩ := hp
    obtain ⟨copies, hcorrects⟩ := hT _ _ hedge
    exact congrArg (Prod.mk p.1) (hcorrects.erase_eq hK hf hafter).1
  refine (transfer_eq_ok rfl).2 ⟨after.erase, successors, exceptional.map fun p => (p.1, p.2.erase),
    hx', hs, ?_, ?_⟩
  · exact List.forall₂_map_right_iff.2 (he.imp fun _ _ hp => erase_toHandler hp)
  · rw [List.map_append, hnormal]

/-! ## What is left of the frames of a run -/

/-- A frame at an instruction is proper, holds what the method creates, and lies within another. -/
structure Bounded (A : Analyzer PossibleValues) (frame? : Nat → Option (Frame PossibleValues))
    (l : Nat) (f : Frame PossibleValues) : Prop where
  proper : A.ProperFrame f
  members : f.Members (· ∈ A.witnesses)
  within : ∃ g, frame? l = some g ∧ f.Within g

section Bounded

variable {A : Analyzer PossibleValues} {frame? : Nat → Option (Frame PossibleValues)}
  (hA : A.Tracks id) {l : Nat} {f g joined : Frame PossibleValues}
include hA

theorem bounded_initialFrame (hc : A.Closed frame?) (hm : 0 < A.method.size)
    (h : A.initialFrame = .ok f) : A.Bounded frame? 0 f :=
  ⟨(proper_initialFrame hA h).1, members_initialFrame (fun _ hw => hw) hA.interpreter h,
    hc.entry hm f h⟩

theorem Bounded.edge (hc : A.Closed frame?) (hf : A.Bounded frame? l f) {i : Instruction}
    (hi : A.method.instruction? l = some i) {target : Nat} (he : A.Edge i f target g) :
    A.Bounded frame? target g := by
  obtain ⟨b, hb, hfb⟩ := hf.within
  obtain ⟨k, hk, hgk⟩ := he.mono hA hfb
  obtain ⟨h, hh, hkh⟩ := hc.edge l i b target k hb hi hk
  exact ⟨he.proper hA hf.proper, he.members (fun _ hw => hw) hA hi hf.members, h, hh,
    hgk.trans hkh⟩

omit hA in
theorem Bounded.join (hf : A.Bounded frame? l f) (hg : A.Bounded frame? l g)
    (h : Frame.Joined (.tracking id) f g joined) : A.Bounded frame? l joined := by
  obtain ⟨b, hb, hfb⟩ := hf.within
  obtain ⟨b', hb', hgb⟩ := hg.within
  obtain rfl := Option.some.inj (hb.symm.trans hb')
  exact ⟨hf.proper.join hg.proper h, hf.members.join hg.members h, b, hb,
    Frame.join_within hf.proper hg.proper h hfb hgb⟩

omit hA in
/-- A join of frames that lie within one frame goes up. -/
theorem Bounded.within_join (hf : A.Bounded frame? l f) (hg : A.Bounded frame? l g)
    (h : Frame.Joined (.tracking id) f g joined) : f.Within joined ∧ g.Within joined := by
  obtain ⟨b, hb, hfb⟩ := hf.within
  obtain ⟨b', hb', hgb⟩ := hg.within
  obtain rfl := Option.some.inj (hb.symm.trans hb')
  have hwidths : f.WidthsAgree g := Frame.widthsAgree_of_within hfb hgb
  exact ⟨Frame.within_join_left hf.proper hg.proper hwidths h,
    Frame.within_join_right hf.proper hg.proper hwidths h⟩

end Bounded

section Run

variable (hT : T.OnlyImposes) (hK : ToldByOrigin (· ∈ (plain m returnType).witnesses))
  {frame? : Nat → Option (Frame PossibleValues)} (hc : (plain m returnType).Closed frame?)
  {fuel : Nat} {initial : Frame (QualifiedValueSet Q)}
  {states : States (Frame (QualifiedValueSet Q))} (hm : 0 < m.size)
  (hi : (corrected evaluate T m returnType).initialFrame = .ok initial)
  (h : ((corrected evaluate T m returnType).flow.solve fuel m.size 0 initial).outcome
    = .ok (some states))
include hT hK hc hm hi h

/-- Without their qualifiers, the frames that tracking them sees lie within the closed frames of
tracking values. -/
theorem bounded_of_solve :
    (∀ l f, states[l]?.join = some f → (plain m returnType).Bounded frame? l f.erase) ∧
      ∀ e ∈ ((corrected evaluate T m returnType).flow.solve fuel m.size 0 initial).trace,
        e.Holds fun l f => (plain m returnType).Bounded frame? l f.erase := by
  refine ForwardAnalysis.solve_keeps h
    (bounded_initialFrame tracks_plain hc hm (erase_initialFrame hi)) ?_ ?_
  · intro l f shown flows _ hf hflows p hp
    obtain ⟨i, hl, hflows⟩ := flow_transfer_eq_ok.1 hflows
    have herased := erase_transfer hT hK hl hf.members hflows #[]
    have hmem : (p.1, p.2.erase) ∈ flows.map fun p => (p.1, p.2.erase) :=
      List.mem_map_of_mem hp
    exact hf.edge tracks_plain hc hl ((mem_transfer rfl herased).1 hmem)
  · intro l held arriving joined _ hheld harriving hj
    exact hheld.join harriving (Frame.erase_joined (flow_join_eq_ok.1 hj))

/-- Without their qualifiers, the frames that tracking them ends with are closed. -/
theorem closed_of_solve : (plain m returnType).Closed fun l => states[l]?.join.map Frame.erase := by
  obtain ⟨-, hevents⟩ := bounded_of_solve hT hK hc hm hi h
  have hup : (corrected evaluate T m returnType).flow.JoinsGoUp
      (fun _ f g => f.erase.Within g.erase)
      ((corrected evaluate T m returnType).flow.solve fuel m.size 0 initial).trace := by
    intro l held arriving joined he hj
    obtain ⟨hheld, harriving⟩ := hevents _ he
    exact hheld.within_join harriving (Frame.erase_joined (flow_join_eq_ok.1 hj))
  obtain ⟨hentry, hflow⟩ := ForwardAnalysis.solve_settled (R := fun _ f g => f.erase.Within g.erase)
    (fun _ f => .refl f.erase) (fun _ _ _ _ => .trans) h hup
  constructor
  · intro _ f hf
    obtain rfl := Except.ok.inj ((erase_initialFrame hi).symm.trans hf)
    obtain ⟨g, hg, hwithin⟩ := hentry
    exact ⟨g.erase, Option.map_eq_some_iff.2 ⟨g, hg, rfl⟩, hwithin⟩
  · intro l i f target g hf hl he
    obtain ⟨held, hheld, rfl⟩ := Option.map_eq_some_iff.1 hf
    obtain ⟨shown, flows, hflows, htaken⟩ := hflow l held hheld
    obtain ⟨i', hl', hflows⟩ := flow_transfer_eq_ok.1 hflows
    obtain rfl : i = i' := Option.some.inj (hl.symm.trans hl')
    obtain ⟨hbounded, -⟩ := bounded_of_solve hT hK hc hm hi h
    have herased := erase_transfer hT hK hl (hbounded l held hheld).members hflows #[]
    -- what flows along the edge is what is left of something that flowed, and that was taken up
    obtain ⟨p, hp, hpg⟩ := List.mem_map.1 ((mem_transfer (p := (target, g)) rfl herased).2 he)
    obtain ⟨rfl, rfl⟩ := Prod.mk.inj hpg
    obtain ⟨k, hk, hwithin⟩ := htaken p hp
    exact ⟨k.erase, Option.map_eq_some_iff.2 ⟨k, hk, rfl⟩, hwithin⟩

/-- If the closed frames are the least ones, they are those frames without their qualifiers. -/
theorem map_erase_eq_of_least (hleast : ∀ other, (plain m returnType).Closed other →
      ∀ l f, frame? l = some f → ∃ g, other l = some g ∧ f.Within g) (l : Nat) :
    states[l]?.join.map Frame.erase = frame? l := by
  obtain ⟨hbounded, -⟩ := bounded_of_solve hT hK hc hm hi h
  have hleast := hleast _ (closed_of_solve hT hK hc hm hi h)
  cases hf : states[l]?.join with
  | none =>
    cases hg : frame? l with
    | none => rfl
    | some g =>
      obtain ⟨f, hf', -⟩ := hleast l g hg
      rw [hf] at hf'
      cases hf'
  | some f =>
    obtain ⟨g, hg, hfg⟩ := (hbounded l f hf).within
    obtain ⟨f', hf', hgf⟩ := hleast l g hg
    rw [hf] at hf'
    obtain rfl := Option.some.inj hf'
    rw [hg, ← hfg.antisymm hgf]
    rfl

end Run

/-- What tracking qualifiers finds is, without the qualifiers, what tracking values finds. -/
theorem erase_analyze (hT : T.OnlyImposes)
    (hK : ToldByOrigin (· ∈ (plain m returnType).witnesses)) {fuel fuel' : Nat}
    {r : AnalysisResult PossibleValues} {q : AnalysisResult (QualifiedValueSet Q)}
    (hr : ((plain m returnType).analyze fuel).outcome = .ok (some r))
    (hw : ∀ e ∈ ((plain m returnType).analyze fuel).trace, e.WidthsAgree)
    (hq : ((corrected evaluate T m returnType).analyze fuel').outcome = .ok (some q)) :
    q.erase = r := by
  obtain ⟨hmethod, hqframes⟩ := analyze_eq_ok hq
  obtain ⟨hmethod', hrframes⟩ := analyze_eq_ok hr
  suffices hframes : q.erase.frames = r.frames by
    obtain ⟨method, frames⟩ := r
    obtain rfl : method = q.method := hmethod'.trans hmethod.symm
    exact congrArg (AnalysisResult.mk q.method) hframes
  rcases hqframes with ⟨hm, hnone, -⟩ | ⟨initial, hm, hi, hsolve, -⟩ <;>
    rcases hrframes with ⟨hm', hnone', -⟩ | ⟨initial', hm', hi', hsolve', -⟩
  case inl.inl =>
    show q.frames.map (Option.map Frame.erase) = r.frames
    rw [hnone, hnone', Array.map_empty]
  case inl.inr => exact absurd hm (Nat.ne_of_gt hm')
  case inr.inl => exact absurd hm' (Nat.ne_of_gt hm)
  case inr.inr =>
    refine States.ext_of_state? ?_ fun l => ?_
    · show (q.frames.map (Option.map Frame.erase)).size = r.frames.size
      rw [Array.size_map, ForwardAnalysis.solve_size hsolve, ForwardAnalysis.solve_size hsolve']
    · have hc : (plain m returnType).Closed r.frame? := closed_of_widthsAgree tracks_plain hr hw
      have hleast := map_erase_eq_of_least hT hK hc hm hi hsolve
        (fun other hother => (least tracks_plain hr hother).1) l
      exact (q.frame?_erase l).trans hleast

end Analyzer

namespace Method

variable {Q : Type} [DecidableEq Q] [Fact Q] {T : FrameTransformer (QualifiedValueSet Q)}
  {m : Method} {evaluate : Witness → Qualifier Q}

/-- In a method whose instructions sit at their own index, and whose handlers catch one type where
they begin at one place, tracking qualifiers finds what tracking values finds when the qualifiers are
left out, however the qualifiers are corrected, as long as corrections only impose facts. Both must
have a result, and no join of tracking values may meet a local that is set on both sides with
different widths. -/
theorem erase_trackQualifiers_of_onlyImposes (hT : T.OnlyImposes) (hindexed : m.Indexed)
    (hhandlers : ∀ h ∈ m.handlers, ∀ h' ∈ m.handlers, h.entry = h'.entry →
      h.catchType = h'.catchType) {fuel fuel' : Nat} {r : AnalysisResult PossibleValues}
    {q : AnalysisResult (QualifiedValueSet Q)}
    (hr : (m.trackValues fuel).outcome = .ok (some r))
    (hw : ∀ e ∈ (m.trackValues fuel).trace, e.WidthsAgree)
    (hq : (m.trackQualifiers T evaluate fuel').outcome = .ok (some q)) : q.erase = r := by
  obtain ⟨A, hA⟩ := prepare_of_trackValues hr
  rw [trackValues_eq hA] at hr hw
  obtain ⟨t, ht, rfl⟩ := Analyzer.prepare_eq_ok.1 hA
  unfold trackQualifiers at hq
  obtain ⟨B, hB, hq⟩ := Traced.bind_outcome_eq_ok.1 hq
  obtain ⟨t', ht', rfl⟩ := Analyzer.prepare_eq_ok.1 hB
  obtain rfl : t = t' := Except.ok.inj (ht.symm.trans ht')
  have hK : ToldByOrigin (· ∈ (Analyzer.plain m t).witnesses) := fun _ _ hwitness hwitness' =>
    Analyzer.eq_of_origin_eq hindexed hhandlers hwitness hwitness'
  exact Analyzer.erase_analyze hT hK hr hw hq

/-- A pass that comes by the versions of the first argument in their order, and then by the other
members backwards. -/
def crosswise (s : QualifiedValueSet ValueFact) : Pass ValueFact where
  set := s
  order := (s.members.toList.filter fun v => v.origin = .parameter 0) ++
    (s.members.toList.filter fun v => !decide (v.origin = .parameter 0)).reverse
  perm := ((List.reverse_perm _).append_left _).trans (List.filter_append_perm _ _)

/-- On the second edge out of the instruction at 6 the value on the stack becomes one that is
written through, and behind the instruction at 8 it becomes not null, which is imposed crosswise. -/
def writesThenAsks : FrameTransformer (QualifiedValueSet ValueFact) := fun c =>
  if c.instruction.index = 6 ∧ c.edge = 1 then
    Dimension.mutability.imposeOnSlot .mutable (.stack 0) c.after
  else if c.instruction.index = 8 then
    Dimension.nullability.imposeInPasses .notNull ((c.after.get? (.stack 0)).map crosswise)
      (c.after.map crosswise)
  else .ok c.after

theorem onlyImposes_writesThenAsks : writesThenAsks.OnlyImposes := by
  intro c f h
  unfold writesThenAsks at h
  split at h
  · have hmay := Dimension.mayImpose_imposeOnSlot Dimension.mutability .mutable (.stack 0) c.after
    rw [h] at hmay
    exact ⟨[], .slot .start hmay⟩
  split at h
  · have hset : ∀ s, (crosswise s).set = s := fun _ => rfl
    have hmay := Dimension.mayImpose_imposeInPasses hset Dimension.nullability .notNull (.stack 0)
      c.after
    rw [h] at hmay
    exact ⟨[], .slot .start hmay⟩
  · obtain rfl := Except.ok.inj h
    exact ⟨[], .start⟩

/-- Puts one of its two arguments on the stack, branches on whether it is null, and returns it; what
is caught on the way takes the place of the second argument. -/
def picksOne : Method where
  owner := "Sample"
  name := "picksOne"
  descriptor := "(Ljava/lang/Object;Ljava/lang/Object;)Ljava/lang/Object;"
  access := ⟨8⟩
  maxLocals := 2
  maxStack := 2
  instructions := [⟨0, .aload, .var 0⟩, ⟨1, .ifnull, .jump 4⟩, ⟨2, .aload, .var 0⟩,
    ⟨3, .goto, .jump 5⟩, ⟨4, .aload, .var 1⟩, ⟨5, .dup, .none⟩, ⟨6, .ifnull, .jump 8⟩,
    ⟨7, .nop, .none⟩, ⟨8, .nop, .none⟩, ⟨9, .areturn, .none⟩, ⟨10, .astore, .var 1⟩,
    ⟨11, .goto, .jump 0⟩]
  handlers := [⟨0, 2, 10, none⟩, ⟨4, 5, 10, none⟩]

/-- An argument that is not null, in the version that is written through or in the other. -/
def argumentNotNull (position : Nat) (written : Bool) : QualifiedValue ValueFact :=
  ⟨⟨.parameter position, .object "java/lang/Object"⟩,
    .multi (.ofList ((Dimension.nullability.id, .notNull) ::
      if written then [(Dimension.mutability.id, .mutable)] else []))⟩

/-- Both arguments come to the instruction at 8 in both versions, and behind it the second is left
in the one that is written through and the first in the other. In the order of the members the two
would be left alike. Without the qualifiers they are what tracking values finds. -/
theorem erase_trackQualifiers_picksOne :
    ∃ r q, (picksOne.trackValues 23).outcome = .ok (some r) ∧
      (picksOne.trackQualifiers writesThenAsks Witness.withFacts 23).outcome = .ok (some q) ∧
      (∃ s, (q.frame? 9).bind (·.get? (.stack 0)) = some s ∧
        ∀ position < 2, ∀ written,
          argumentNotNull position written ∈ s ↔ (written ↔ position = 1)) ∧
      q.erase = r := by
  obtain ⟨r, hr⟩ : ∃ r, (picksOne.trackValues 23).outcome = .ok (some r) :=
    AnalysisResult.exists_of_isSome (by decide +kernel)
  obtain ⟨q, hq⟩ : ∃ q, (picksOne.trackQualifiers writesThenAsks
      Witness.withFacts 23).outcome = .ok (some q) :=
    AnalysisResult.exists_of_isSome (by decide +kernel)
  have hw : ∀ e ∈ (picksOne.trackValues 23).trace, e.WidthsAgree := by decide +kernel
  have hversions : ((picksOne.trackQualifiers writesThenAsks
      Witness.withFacts 23).outcome.toOption.join.bind fun q =>
        (q.frame? 9).bind (·.get? (.stack 0))).any
      (fun s => ∀ position < 2, ∀ written, argumentNotNull position written ∈ s ↔
        (written ↔ position = 1)) = true := by
    decide +kernel
  rw [hq] at hversions
  obtain ⟨s, hs, hleft⟩ := (Option.any_eq_true _ _).1 hversions
  have herase : q.erase = r :=
    erase_trackQualifiers_of_onlyImposes onlyImposes_writesThenAsks (by decide +kernel)
      (by decide) hr hw hq
  exact ⟨r, q, hr, hq, ⟨s, hs, of_decide_eq_true hleft⟩, herase⟩

end Method

end Provenance

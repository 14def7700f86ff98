/-
No witness is invented.

Every witness that a result holds goes back to something that can happen (`Method.Justified`). The
receiver and the arguments enter in their locals. What an instruction produces goes on along a normal
edge, because the frame that flows to a handler is the one before the instruction; from there control
gets to the place where the witness is held. And what a handler catches was raised at an instruction
that is reached and that the handler protects, and goes on from the entry of the handler.

A justification goes along with control (`Method.Justified.along`). So it is enough to justify
witnesses where they come into being, and to follow them over the edges and the joins of a run.
-/
import Provenance.Proofs.Created
import Provenance.Proofs.Reachability

set_option autoImplicit false

namespace Provenance

/-! ## Values that lie one behind the other -/

/-- How many locals the values of some types take together. -/
def localsTaken : List JType → Nat
  | [] => 0
  | t :: rest => t.size + localsTaken rest

/-- Where values of some types lie one behind the other from a first local on, a value of a type
begins in a local. -/
def Begins (types : List JType) (first index : Nat) (t : JType) : Prop :=
  ∃ before behind, types = before ++ t :: behind ∧ index = first + localsTaken before

/-- The first value begins in the first local, the others behind it. -/
theorem begins_cons {rest : List JType} {first index : Nat} {t u : JType} :
    Begins (u :: rest) first index t ↔
      (index = first ∧ t = u) ∨ Begins rest (first + u.size) index t := by
  constructor
  · rintro ⟨before, behind, h, rfl⟩
    cases before with
    | nil =>
      obtain ⟨rfl, -⟩ := List.cons.inj h
      exact .inl ⟨rfl, rfl⟩
    | cons v before =>
      obtain ⟨rfl, rfl⟩ := List.cons.inj h
      refine .inr ⟨before, behind, rfl, ?_⟩
      rw [localsTaken, Nat.add_assoc]
  · rintro (⟨rfl, rfl⟩ | ⟨before, behind, rfl, rfl⟩)
    · exact ⟨[], rest, rfl, rfl⟩
    · refine ⟨u :: before, behind, rfl, ?_⟩
      rw [localsTaken, Nat.add_assoc]

/-! ## Justifications -/

namespace Method

/-- What the witness of a value before an instruction goes back to, if some instructions are
reached. -/
inductive Justified (m : Method) (reached : Nat → Prop) (s : Nat) : Witness → Prop
  /-- It is the receiver, which enters in the first local. -/
  | receiver (hstatic : m.isStatic = false) :
    Justified m reached s ⟨.parameter 0, .object m.owner⟩
  /-- It is an argument, which enters in the first of its locals, behind the receiver and the
  arguments before it. -/
  | argument {before behind : List JType} {t : JType}
    (ht : m.argumentTypes = .ok (before ++ t :: behind)) :
    Justified m reached s
      ⟨.parameter ((if m.isStatic then 0 else 1) + localsTaken before), t⟩
  /-- An instruction that is reached produces it, and control goes on normally and gets here. -/
  | instruction {l next : Nat} {i : Instruction} {t : JType} (hl : reached l)
    (hi : m.instruction? l = some i) (ht : i.produced = .ok (some t)) (hnext : m.GoesTo l next)
    (hs : m.Reaches next s) : Justified m reached s ⟨.instruction l, t⟩
  /-- A handler catches it, which protects an instruction that is reached, and control gets here
  from the entry of the handler. -/
  | handler {l : Nat} {h : Handler} (hh : h ∈ m.handlers) (hl : reached l) (hc : h.covers l)
    (hs : m.Reaches h.entry s) : Justified m reached s h.witness

/-- A justification goes along with control. -/
theorem Justified.along {m : Method} {reached : Nat → Prop} {s target : Nat} {w : Witness}
    (h : m.Justified reached s w) (htarget : m.Reaches s target) :
    m.Justified reached target w := by
  cases h with
  | receiver hstatic => exact .receiver hstatic
  | argument ht => exact .argument ht
  | instruction hl hi ht hnext hs => exact .instruction hl hi ht hnext (hs.trans htarget)
  | handler hh hl hc hs => exact .handler hh hl hc (hs.trans htarget)

end Method

/-! ## Witnesses where they come into being -/

/-- The witness of an argument has its type, and the local where it begins. -/
theorem exists_begins_of_mem_parameterWitnesses {types : List JType} {first : Nat} {w : Witness}
    (h : w ∈ parameterWitnesses types first) :
    ∃ index t, Begins types first index t ∧ w = ⟨.parameter index, t⟩ := by
  induction types generalizing first with
  | nil => cases h
  | cons u rest ih =>
    have hrest : w ∈ parameterWitnesses rest (first + u.size) →
        ∃ index t, Begins (u :: rest) first index t ∧ w = ⟨.parameter index, t⟩ := by
      intro hw
      obtain ⟨index, t, hb, rfl⟩ := ih hw
      exact ⟨index, t, begins_cons.2 (.inr hb), rfl⟩
    rw [parameterWitnesses] at h
    split at h
    · exact hrest h
    · rcases List.mem_cons.1 h with rfl | h
      · exact ⟨first, u, begins_cons.2 (.inl ⟨rfl, rfl⟩), rfl⟩
      · exact hrest h

theorem Frame.Members.imp {α : Type} [Coded α] {M N : α → Prop} {f : Frame (ValueSet α)}
    (hf : f.Members M) (h : ∀ a, M a → N a) : f.Members N where
  locals k v hk a ha := h a (hf.locals k v hk a ha)
  stack v hv a ha := h a (hf.stack v hv a ha)

namespace Analyzer

variable {A : Analyzer PossibleValues} {reached : Nat → Prop}

/-- The parameters of a method are justified everywhere. -/
theorem justified_of_mem_parameterWitnesses {m : Method} {reached : Nat → Prop} {s : Nat}
    {arguments : List JType} (harguments : m.argumentTypes = .ok arguments) {w : Witness}
    (h : w ∈ parameterWitnesses
      (if m.isStatic then arguments else .object m.owner :: arguments) 0) :
    m.Justified reached s w := by
  have hargument : ∀ index, index = (if m.isStatic then 0 else 1) →
      w ∈ parameterWitnesses arguments index → m.Justified reached s w := by
    rintro index rfl hw
    obtain ⟨_, t, ⟨before, behind, rfl, rfl⟩, rfl⟩ := exists_begins_of_mem_parameterWitnesses hw
    exact .argument harguments
  by_cases hstatic : m.isStatic
  · rw [if_pos hstatic] at h
    exact hargument 0 (if_pos hstatic).symm h
  · have hobject : JType.object m.owner ≠ .void := by simp
    rw [if_neg hstatic, parameterWitnesses, if_neg hobject] at h
    rcases List.mem_cons.1 h with rfl | h
    · exact .receiver (Bool.eq_false_iff.2 hstatic)
    · -- the receiver takes one local
      exact hargument 1 (if_neg hstatic).symm h

/-- What enters a method is justified at the entry. -/
theorem justified_initialFrame (hA : A.Tracks id) {f : Frame PossibleValues}
    (h : A.initialFrame = .ok f) : f.Members (A.method.Justified reached 0) := by
  unfold initialFrame at h
  obtain ⟨types, htypes, h⟩ := bind_eq_ok.1 h
  unfold entryTypes at htypes
  obtain ⟨arguments, harguments, htypes⟩ := bind_eq_ok.1 htypes
  obtain rfl := Except.ok.inj htypes
  refine members_of_seed hA.interpreter (fun w hw => ?_) (Frame.members_blank _ _) h
  exact justified_of_mem_parameterWitnesses harguments hw

/-- What flows along an edge is justified where it gets to. -/
theorem Edge.justified (hA : A.Tracks id) (hindexed : A.method.Indexed) {l target : Nat}
    {i : Instruction} (hi : A.method.instruction? l = some i) (hl : reached l)
    {f g : Frame PossibleValues} (hf : f.Members (A.method.Justified reached l))
    (he : A.Edge i f target g) : g.Members (A.method.Justified reached target) := by
  -- what was held before is justified still
  have hheld : f.Members (A.method.Justified reached target) :=
    hf.imp fun w hw => hw.along (.single (he.leadsTo hindexed hi))
  cases he with
  | normal hx hs ht =>
    rw [hA.interpreter] at hx
    refine hheld.execute (fun t hproduces _ => ?_) hx
    rw [hindexed l i hi]
    exact .instruction hl hi hproduces.produced ⟨i, _, hi, hs, ht⟩ .refl
  | @exceptional h exception hh hv =>
    -- the locals are those before the instruction, so its own result does not get here
    rw [hA.interpreter] at hv
    obtain ⟨hmem, hc⟩ := (Method.mem_handlersAt hindexed hi).1 hh
    have hcaught : A.method.Justified reached h.entry h.witness := .handler hmem hl hc .refl
    exact hheld.withStack (members_of_createdAt (w := h.witness) hcaught (Except.ok.inj hv))

/-! ## Witnesses in results -/

/-- Every witness in the frames of a result is justified. -/
theorem justified_of_frame? (hA : A.Tracks id) (hindexed : A.method.Indexed) {fuel : Nat}
    {r : AnalysisResult PossibleValues} (hr : (A.analyze fuel).outcome = .ok (some r)) {l : Nat}
    {f : Frame PossibleValues} (hf : r.frame? l = some f) :
    f.Members (A.method.Justified (fun l => (r.frame? l).isSome) l) := by
  obtain ⟨hentry, hedge⟩ := hasFrame_entry_and_edge hindexed hr
  have hkept : ∀ l f, r.frame? l = some f → (r.frame? l).isSome ∧
      f.Members (A.method.Justified (fun l => (r.frame? l).isSome) l) := by
    refine (analyze_keeps (P := fun l f => (r.frame? l).isSome ∧
      f.Members (A.method.Justified (fun l => (r.frame? l).isSome) l)) hA.transformer hr
      ?entry ?edge ?join).1
    case entry =>
      intro hm f hf
      exact ⟨hentry hm, justified_initialFrame hA hf⟩
    case edge =>
      rintro l i f target g hi ⟨hl, hf⟩ he
      exact ⟨hedge l target hl (he.leadsTo hindexed hi),
        Edge.justified hA hindexed hi hl hf he⟩
    case join =>
      rintro l held arriving joined - ⟨hl, hheld⟩ ⟨-, harriving⟩ hj
      rw [hA.interpreter] at hj
      exact ⟨hl, hheld.join harriving hj⟩
  exact (hkept l f hf).2

end Analyzer

namespace Method

/-- In a method whose instructions sit at their own index, every witness that tracking values finds
in a slot is justified, by instructions that have frames. -/
theorem justified_of_mem {m : Method} (hindexed : m.Indexed) {fuel : Nat}
    {r : AnalysisResult PossibleValues} (hr : (m.trackValues fuel).outcome = .ok (some r)) {s : Nat}
    {f : Frame PossibleValues} (hf : r.frame? s = some f) {slot : Slot} {v : PossibleValues}
    (hv : f.get? slot = some v) {w : Witness} (hw : w ∈ v) :
    m.Justified (fun l => (r.frame? l).isSome) s w := by
  obtain ⟨A, hA⟩ := prepare_of_trackValues hr
  rw [trackValues_eq hA] at hr
  obtain rfl : A.method = m := Analyzer.method_of_prepare hA
  have hmembers := Analyzer.justified_of_frame? (Analyzer.tracks_possibleValues hA) hindexed hr hf
  exact hmembers.get? hv w hw

/-- When the loop goes round, its local may hold what the handler has caught. -/
theorem justified_of_mem_goesRound :
    ∃ r f v, (goesRound.trackValues 20).outcome = .ok (some r) ∧ r.frame? 2 = some f ∧
      f.get? (.var 0) = some v ∧ ⟨.handler 5, .object "java/lang/Throwable"⟩ ∈ v ∧
      goesRound.Justified (fun l => (r.frame? l).isSome) 2
        ⟨.handler 5, .object "java/lang/Throwable"⟩ := by
  obtain ⟨r, hr⟩ : ∃ r, (goesRound.trackValues 20).outcome = .ok (some r) :=
    AnalysisResult.exists_of_isSome (by decide +kernel)
  obtain ⟨v, hv, hw⟩ : ∃ v : PossibleValues, r.frame? 2 = some ⟨[some v], [], 1⟩ ∧
      ⟨.handler 5, .object "java/lang/Throwable"⟩ ∈ v :=
    ⟨⟨1, .ofList [⟨.instruction 0, .null⟩, ⟨.handler 5, .object "java/lang/Throwable"⟩]⟩,
      AnalysisResult.frame?_eq hr (by decide +kernel), by decide +kernel⟩
  have hslot : (⟨[some v], [], 1⟩ : Frame PossibleValues).get? (.var 0) = some v := rfl
  exact ⟨r, _, v, hr, hv, hslot, hw, justified_of_mem (by decide) hr hv hslot hw⟩

end Method

end Provenance

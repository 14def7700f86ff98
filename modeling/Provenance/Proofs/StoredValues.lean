/-
Keeping what is stored.

On the first edge out of a store, the local gets a new set of what was on top of the stack before
(`FrameTransformer.keepStored`). A tracker hands on what moves between slots as it is, so the store has
put that very set there already, and a set that has members, all of its width, is the set of its
members (`ValueSet.ToldByMembers.ofMembers_toList`). A tracker makes no other sets, whatever it
attaches. So nothing is changed on any edge (`FrameTransformer.keepStored_of_execute`), and an analysis
that keeps what is stored does the same as one that corrects nothing, one thing after the other
(`Method.trackQualifiers_keepStored`).
-/
import Provenance.Proofs.AlikeAnalyses
import Provenance.Proofs.Within

set_option autoImplicit false

namespace Provenance

/-! ## Sets that are told by their members -/

namespace ValueSet

variable {α : Type} [Coded α] [HasBase α] {s t u : ValueSet α}

/-- A set that has members, all of its width. -/
structure ToldByMembers (s : ValueSet α) : Prop where
  nonempty : ∃ a, a ∈ s
  width : ∀ a ∈ s, memberWidth a = s.width

namespace ToldByMembers

theorem single (a : α) : (single a).ToldByMembers where
  nonempty := ⟨a, OrderedSet.mem_singleton.2 rfl⟩
  width b hb := by
    rw [OrderedSet.mem_singleton.1 hb]
    rfl

theorem merge (hs : s.ToldByMembers) (ht : t.ToldByMembers) (h : s.merge t = .ok u) :
    u.ToldByMembers := by
  obtain ⟨a, ha⟩ := hs.nonempty
  obtain ⟨b, hb⟩ := ht.nonempty
  unfold ValueSet.merge at h
  rw [isEmpty_eq_false ha, isEmpty_eq_false hb] at h
  -- neither set gives way, so the merge succeeds only if the widths agree
  by_cases hw : s.width = t.width
  · rw [if_neg Bool.false_ne_true, if_neg Bool.false_ne_true, if_neg (not_not.2 hw)] at h
    obtain rfl := Except.ok.inj h
    refine ⟨⟨a, OrderedSet.mem_union.2 (.inl ha)⟩, fun c hc => ?_⟩
    rcases OrderedSet.mem_union.1 hc with hc | hc
    · exact hs.width c hc
    · exact (ht.width c hc).trans hw.symm
  · rw [if_neg Bool.false_ne_true, if_neg Bool.false_ne_true, if_pos hw] at h
    cases h

/-- Such a set is the set of its members. -/
theorem ofMembers_toList (hs : s.ToldByMembers) : ofMembers s.members.toList = .ok s := by
  obtain ⟨a, ha⟩ := hs.nonempty
  have hwidth : ∀ b ∈ s.members.toList, memberWidth b = s.width := hs.width
  have hmem : a ∈ s.members.toList := ha
  have hsame : OrderedSet.ofList s.members.toList = s.members :=
    OrderedSet.ext fun b => OrderedSet.mem_ofList
  generalize s.members.toList = l at hwidth hmem hsame
  cases l with
  | nil => cases hmem
  | cons b rest =>
    have hb : memberWidth b = s.width := hwidth b List.mem_cons_self
    have hall : (rest.all fun c => memberWidth c = memberWidth b) = true := by
      rw [List.all_eq_true]
      intro c hc
      rw [decide_eq_true_iff, hb]
      exact hwidth c (List.mem_cons_of_mem b hc)
    rw [ofMembers, if_pos hall]
    exact congrArg Except.ok (ext hb hsame)

end ToldByMembers

/-- One set on both sides, told by its members. -/
def Same (s t : ValueSet α) : Prop := s = t ∧ s.ToldByMembers

end ValueSet

namespace Interpreter

variable {α : Type} [Coded α] [HasBase α]

/-- Every tracker is alike to itself, and makes sets only that are told by their members. -/
theorem tracksAlike_same (tag : Witness → α) : TracksAlike ValueSet.Same tag tag where
  created w := ⟨rfl, .single (tag w)⟩
  merges := by
    constructor
    · rintro s _ ⟨rfl, -⟩
      rfl
    · rintro s _ t _ ⟨rfl, hs⟩ ⟨rfl, ht⟩
      show Traced.Match _ _ (.quiet (s.merge t)) (.quiet (s.merge t))
      cases h : s.merge t with
      | error e => exact .throw e
      | ok u => exact .pure ⟨rfl, hs.merge ht h⟩
  unique := by
    constructor
    · rintro s t _ ⟨rfl, -⟩ ⟨rfl, -⟩
      rfl
    · rintro _ s t ⟨rfl, -⟩ ⟨rfl, -⟩
      rfl

end Interpreter

/-! ## Stores -/

namespace Frame

section Steps

variable {V : Type} {f g : Frame V} {index : Nat} {v : V}

/-- Setting a local to what it holds changes nothing. -/
theorem setLocal_of_local? (h : f.local? index = some v) : f.setLocal index (some v) = .ok f := by
  have hlt : index < f.locals.length := lt_of_local? h
  have hheld : f.locals[index] = some v := by
    unfold Frame.local? at h
    rwa [List.getElem?_eq_getElem hlt] at h
  rw [setLocal_of_lt hlt, ← hheld, List.set_getElem_self hlt]

/-- What is stored is in the local, whatever the store unsets besides. -/
theorem local?_of_store [AbstractValue V] (h : f.store index v = .ok g) :
    g.local? index = some v := by
  obtain ⟨⟨hlt, -⟩, rfl⟩ := store_eq_ok.1 h
  rw [local?_stored hlt, afterStore, if_pos rfl]

end Steps

/-- A store that succeeds has put the top of the stack into the local of its operand. -/
theorem local?_of_execute_store {α : Type} [Coded α] [HasBase α] {tag : Witness → α}
    {i : Instruction} {returnType : JType} {f g : Frame (ValueSet α)}
    (hstore : i.opcode.effect = .store)
    (h : (Frame.execute (.tracking tag) i returnType f).outcome = .ok g) :
    ∃ index v, i.operand.var? = some index ∧ f.top? 0 = some v ∧ g.local? index = some v := by
  obtain ⟨index, v, rest, copy, hvar, hstack, hcopy, h⟩ := (execute_store_eq_ok hstore).1 h
  -- a tracker copies a value by handing it on
  obtain rfl : v = copy := Except.ok.inj hcopy
  have htop : f.top? 0 = some v := by
    unfold top?
    rw [hstack]
    rfl
  exact ⟨index, v, hvar, htop, local?_of_store h⟩

end Frame

/-! ## Keeping what is stored -/

section Qualifiers

variable {Q : Type} [Fact Q] {tag : Witness → QualifiedValue Q} {m : Method} {returnType : JType}

/-- What is stored is there already, so keeping it changes nothing. -/
theorem FrameTransformer.keepStored_of_execute {c : EdgeCrossing (QualifiedValueSet Q)}
    (htold : ∀ v ∈ c.before.stack, v.ToldByMembers)
    (h : (Frame.execute (.tracking tag) c.instruction returnType c.before).outcome
      = .ok c.after) : keepStored c = .ok c.after := by
  unfold keepStored
  split
  · rfl
  rename_i hfirst
  -- past the guard the instruction is a store, crossed on its first edge
  have hstore : c.instruction.opcode.effect = .store := by
    rw [Bool.or_eq_true, not_or, Bool.not_eq_true', Bool.not_eq_false] at hfirst
    exact of_decide_eq_true hfirst.1
  obtain ⟨index, v, hvar, htop, hheld⟩ := Frame.local?_of_execute_store hstore h
  have hv : v ∈ c.before.stack := List.mem_of_getElem? htop
  rw [hvar, htop]
  dsimp only
  rw [(htold v hv).ofMembers_toList]
  exact Frame.setLocal_of_local? hheld

namespace Analyzer

/-- The same frames flow out of an instruction if what is stored is kept. -/
theorem transfer_keepStored {f : Frame (QualifiedValueSet Q)}
    (htold : ∀ v ∈ f.stack, v.ToldByMembers) (i : Instruction)
    (shown : States (Frame (QualifiedValueSet Q))) :
    (tracker tag .keepStored m returnType).transfer i f shown
      = (tracker tag .identity m returnType).transfer i f shown := by
  unfold transfer
  cases hx : (Frame.execute (.tracking tag) i returnType f).outcome with
  | error e => rfl
  | ok after =>
    have hkept : ∀ edge, (tracker tag .keepStored m returnType).transformer
        ⟨i, edge, f, after, m, shown⟩ = .ok after := by
      intro edge
      exact FrameTransformer.keepStored_of_execute htold hx
    have hcross : ∀ successors,
        (tracker tag .keepStored m returnType).crossAll i f after shown successors 0
          = (tracker tag .identity m returnType).crossAll i f after shown successors 0 := by
      intro successors
      rw [crossAll_unchanged hkept, crossAll_identity rfl]
    show (m.successors i >>= _) = m.successors i >>= _
    refine bind_congr fun successors => ?_
    rw [hcross successors]
    rfl

/-- What flows through a method goes in lockstep, whether what is stored is kept or nothing is
corrected. -/
theorem lockstep_keepStored :
    (tracker tag .keepStored m returnType).flow.Lockstep
      (tracker tag .identity m returnType).flow (Frame.Alike ValueSet.Same) := by
  have hlockstep : (tracker tag .identity m returnType).flow.Lockstep
      (tracker tag .identity m returnType).flow (Frame.Alike ValueSet.Same) :=
    lockstep (Interpreter.tracksAlike_same tag)
  refine ⟨hlockstep.same, ?_, hlockstep.join⟩
  intro l f g shown shown' hfg hshown
  have htold : ∀ v ∈ f.stack, v.ToldByMembers := by
    intro v hv
    obtain ⟨w, -, hvw⟩ := exists_right_of_forall₂ hfg.stack hv
    exact hvw.2
  have hkept : (tracker tag .keepStored m returnType).flow.transfer l f shown
      = (tracker tag .identity m returnType).flow.transfer l f shown := by
    unfold flow
    dsimp only
    cases m.instruction? l with
    | none => rfl
    | some i => exact congrArg (located l (some i)) (transfer_keepStored htold i shown)
  rw [hkept]
  exact hlockstep.transfer l hfg hshown

/-- An analysis that keeps what is stored is the analysis that corrects nothing. -/
theorem analyze_keepStored [DecidableEq Q] (fuel : Nat) :
    (tracker tag .keepStored m returnType).analyze fuel
      = (tracker tag .identity m returnType).analyze fuel := by
  have hframes : ∀ f g : Frame (QualifiedValueSet Q), f.Alike ValueSet.Same g → f = g := by
    intro f g hfg
    exact Frame.Alike.eq (hfg.imp fun v w hvw => hvw.1.symm)
  have hflow : (tracker tag .keepStored m returnType).flow.Lockstep
      (tracker tag .identity m returnType).flow (Frame.Alike ValueSet.Same) := lockstep_keepStored
  have halike := analyze_alike_of_lockstep (Interpreter.tracksAlike_same tag).created hflow fuel
  apply halike.eq
  · intro e e' he
    exact he.eq hframes
  · -- results are told by their method and their frames
    intro result result' hresults
    cases hresults with
    | none => rfl
    | @some r r' hr =>
      obtain ⟨method, frames⟩ := r
      obtain ⟨method', frames'⟩ := r'
      obtain rfl : method = method' := hr.method
      obtain rfl : frames = frames' := hr.frames.eq hframes
      rfl

end Analyzer

end Qualifiers

namespace Method

/-- Tracking qualifiers does the same, one thing after the other, whether what is stored is kept or
nothing is corrected. With any fuel it has the same frames, fails in the same way or wants more. -/
theorem trackQualifiers_keepStored {Q : Type} [DecidableEq Q] [Fact Q] (m : Method)
    (evaluate : Witness → Qualifier Q) (fuel : Nat) :
    m.trackQualifiers .keepStored evaluate fuel = m.trackQualifiers .identity evaluate fuel := by
  unfold trackQualifiers Analyzer.prepare
  cases m.returnType with
  | error e => rfl
  | ok returnType => exact Analyzer.analyze_keepStored fuel

end Method

end Provenance

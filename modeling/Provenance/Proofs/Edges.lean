/-
The edges along which frames flow.

If nothing is corrected on the way, the frames that flow out of an instruction are told by its edges
(`Analyzer.mem_transfer`). Along a normal edge flows the frame after the instruction, along an
exceptional edge the locals before it with the exception alone on the stack. A path follows edges
from the entry and never joins anything; the frame at its end is what the locals and the stack may
be when control has taken that way.
-/
import Provenance.Analysis.Analyzer
import Provenance.Proofs.Agreement

set_option autoImplicit false

namespace Provenance

/-- The successors of an instruction are its targets, if all of them lie in the method. -/
theorem Method.successors_eq_ok {m : Method} {i : Instruction} {successors : List Nat} :
    m.successors i = .ok successors ↔
      m.targets i = .ok successors ∧ ∀ target ∈ successors, target < m.size := by
  have hinside : ∀ targets : List Nat, targets.find? (fun target => m.size ≤ target) = none ↔
      ∀ target ∈ targets, target < m.size := by
    intro targets
    simp only [List.find?_eq_none, decide_eq_true_eq, Nat.not_le]
  rw [Method.successors, bind_eq_ok]
  constructor
  · rintro ⟨targets, htargets, h⟩
    cases hfind : targets.find? fun target => m.size ≤ target with
    | some target =>
      rw [hfind] at h
      cases h
    | none =>
      rw [hfind] at h
      obtain rfl := Except.ok.inj h
      exact ⟨htargets, (hinside _).1 hfind⟩
  · rintro ⟨htargets, hlt⟩
    refine ⟨successors, htargets, ?_⟩
    rw [(hinside successors).2 hlt]
    rfl

namespace Analyzer

variable {V : Type}

theorem prepare_eq_ok {m : Method} {I : Interpreter V} {T : FrameTransformer V}
    {A : Analyzer V} : prepare m I T = .ok A ↔ ∃ t, m.returnType = .ok t ∧ A = ⟨m, I, T, t⟩ := by
  unfold prepare
  rw [bind_eq_ok]
  constructor
  · rintro ⟨t, ht, h⟩
    exact ⟨t, ht, (Except.ok.inj h).symm⟩
  · rintro ⟨t, ht, rfl⟩
    exact ⟨t, ht, rfl⟩

theorem located_eq_ok {α : Type} {index : Nat} {i : Option Instruction}
    {x : Except AnalysisError α} {a : α} : located index i x = .ok a ↔ x = .ok a := by
  cases x with
  | error e => exact ⟨nofun, nofun⟩
  | ok b => exact Iff.rfl

/-- The exception alone goes onto the stack of a handler. -/
theorem toHandler_eq_ok {A : Analyzer V} {before : Frame V} {h : Handler} {p : Nat × Frame V} :
    A.toHandler before h = .ok p ↔
      ∃ exception, A.interpreter.newValue h.exceptionType (.handler h.entry)
          = .ok (some exception) ∧ 0 < before.maxStack ∧
        p = (h.entry, { before with stack := [exception] }) := by
  unfold toHandler
  rw [bind_eq_ok]
  -- there is room for one entry on a cleared stack, or for none at all
  have hpush : ∀ exception, before.clearStack.push exception
      = if 0 < before.maxStack then .ok { before with stack := [exception] }
        else .error (.stackOverflow before.maxStack) := fun _ => rfl
  constructor
  · rintro ⟨v, hv, h⟩
    cases v with
    | none => cases h
    | some exception =>
      obtain ⟨f, hf, h⟩ := bind_eq_ok.1 h
      rw [hpush] at hf
      split at hf
      · rename_i hm
        obtain rfl := Except.ok.inj hf
        exact ⟨exception, hv, hm, (Except.ok.inj h).symm⟩
      · cases hf
  · rintro ⟨exception, hv, hm, rfl⟩
    refine ⟨some exception, hv, bind_eq_ok.2 ⟨{ before with stack := [exception] }, ?_, rfl⟩⟩
    rw [hpush, if_pos hm]

/-! ## Edges -/

variable [AbstractValue V]

/-- A frame flows out of an instruction to a location. -/
inductive Edge (A : Analyzer V) (i : Instruction) (before : Frame V) : Nat → Frame V → Prop
  | normal {after : Frame V} {successors : List Nat} {target : Nat}
    (hx : (Frame.execute A.interpreter i A.returnType before).outcome = .ok after)
    (hs : A.method.successors i = .ok successors) (ht : target ∈ successors) :
    Edge A i before target after
  | exceptional {h : Handler} {exception : V} (hh : h ∈ A.method.handlersAt i.index)
    (he : A.interpreter.newValue h.exceptionType (.handler h.entry) = .ok (some exception)) :
    Edge A i before h.entry { before with stack := [exception] }

variable {A : Analyzer V} {i : Instruction} {before : Frame V} {shown : States (Frame V)}
  {flows : List (Nat × Frame V)}

omit [AbstractValue V] in
/-- If the transformer leaves a frame as it is on every edge, that frame crosses all edges. -/
theorem crossAll_unchanged {after : Frame V} (hafter : ∀ edge, A.transformer
      ⟨i, edge, before, after, A.method, shown⟩ = .ok after) (targets : List Nat) (edge : Nat) :
    A.crossAll i before after shown targets edge
      = .ok (targets.map fun target => (target, after)) := by
  induction targets generalizing edge with
  | nil => rfl
  | cons target rest ih =>
    unfold crossAll
    rw [hafter, ih]
    rfl

omit [AbstractValue V] in
theorem crossAll_identity (hA : A.transformer = .identity) (after : Frame V)
    (targets : List Nat) (edge : Nat) :
    A.crossAll i before after shown targets edge
      = .ok (targets.map fun target => (target, after)) := by
  refine crossAll_unchanged (fun edge => ?_) targets edge
  rw [hA]
  rfl

omit [AbstractValue V] in
/-- What crosses the edges to some successors is what the transformer makes of it, one by one. -/
theorem forall₂_of_crossAll {after : Frame V} {targets : List Nat} {edge : Nat}
    (h : A.crossAll i before after shown targets edge = .ok flows) :
    List.Forall₂ (fun target p => p.1 = target ∧ ∃ edge, A.transformer
      ⟨i, edge, before, after, A.method, shown⟩ = .ok p.2) targets flows := by
  induction targets generalizing edge flows with
  | nil =>
    obtain rfl := Except.ok.inj h
    exact .nil
  | cons target rest ih =>
    unfold crossAll at h
    obtain ⟨f, hf, h⟩ := bind_eq_ok.1 h
    obtain ⟨flows', hflows, h⟩ := bind_eq_ok.1 h
    obtain rfl := Except.ok.inj h
    exact .cons ⟨rfl, edge, hf⟩ (ih hflows)

/-- What a transfer that succeeds consists of, whatever is corrected on the way. -/
theorem parts_of_transfer (h : A.transfer i before shown = .ok flows) :
    ∃ after successors normal exceptional,
      (Frame.execute A.interpreter i A.returnType before).outcome = .ok after ∧
      A.method.successors i = .ok successors ∧
      List.Forall₂ (fun target p => p.1 = target ∧ ∃ edge, A.transformer
        ⟨i, edge, before, after, A.method, shown⟩ = .ok p.2) successors normal ∧
      List.Forall₂ (fun h p => A.toHandler before h = .ok p) (A.method.handlersAt i.index)
        exceptional ∧
      flows = normal ++ exceptional := by
  unfold transfer at h
  obtain ⟨after, hx, h⟩ := bind_eq_ok.1 h
  obtain ⟨successors, hs, h⟩ := bind_eq_ok.1 h
  obtain ⟨normal, hn, h⟩ := bind_eq_ok.1 h
  obtain ⟨exceptional, he, h⟩ := bind_eq_ok.1 h
  exact ⟨after, successors, normal, exceptional, hx, hs, forall₂_of_crossAll hn, mapM_eq_ok.1 he,
    (Except.ok.inj h).symm⟩

/-- What makes a transfer succeed, and what it answers. -/
theorem transfer_eq_ok (hA : A.transformer = .identity) :
    A.transfer i before shown = .ok flows ↔
      ∃ after successors exceptional,
        (Frame.execute A.interpreter i A.returnType before).outcome = .ok after ∧
        A.method.successors i = .ok successors ∧
        List.Forall₂ (fun h p => A.toHandler before h = .ok p) (A.method.handlersAt i.index)
          exceptional ∧
        flows = (successors.map fun target => (target, after)) ++ exceptional := by
  unfold transfer
  constructor
  · intro h
    obtain ⟨after, hx, h⟩ := bind_eq_ok.1 h
    obtain ⟨successors, hs, h⟩ := bind_eq_ok.1 h
    rw [crossAll_identity hA] at h
    obtain ⟨normal, hn, h⟩ := bind_eq_ok.1 h
    obtain rfl := Except.ok.inj hn
    obtain ⟨exceptional, he, h⟩ := bind_eq_ok.1 h
    exact ⟨after, successors, exceptional, hx, hs, mapM_eq_ok.1 he, (Except.ok.inj h).symm⟩
  · rintro ⟨after, successors, exceptional, hx, hs, he, rfl⟩
    refine bind_eq_ok.2 ⟨after, hx, bind_eq_ok.2 ⟨successors, hs, ?_⟩⟩
    rw [crossAll_identity hA]
    exact bind_eq_ok.2 ⟨_, rfl, bind_eq_ok.2 ⟨exceptional, mapM_eq_ok.2 he, rfl⟩⟩

/-- A transfer does not depend on the states it is shown if nothing is corrected. -/
theorem transfer_shown (hA : A.transformer = .identity) (other : States (Frame V)) :
    A.transfer i before shown = A.transfer i before other := by
  unfold transfer
  simp only [crossAll_identity hA]

/-- What flows out of an instruction flows along its edges, and something flows along each. -/
theorem mem_transfer (hA : A.transformer = .identity)
    (h : A.transfer i before shown = .ok flows) {p : Nat × Frame V} :
    p ∈ flows ↔ A.Edge i before p.1 p.2 := by
  obtain ⟨after, successors, exceptional, hx, hs, he, rfl⟩ := (transfer_eq_ok hA).1 h
  rw [List.mem_append]
  constructor
  · rintro (hp | hp)
    · obtain ⟨target, ht, rfl⟩ := List.mem_map.1 hp
      exact .normal hx hs ht
    · obtain ⟨handler, hh, hto⟩ := exists_left_of_forall₂ he hp
      obtain ⟨exception, hv, -, rfl⟩ := toHandler_eq_ok.1 hto
      exact .exceptional hh hv
  · obtain ⟨target, f⟩ := p
    intro hedge
    cases hedge with
    | normal hx' hs' ht =>
      obtain rfl := Except.ok.inj (hx.symm.trans hx')
      obtain rfl := Except.ok.inj (hs.symm.trans hs')
      exact .inl (List.mem_map.2 ⟨target, ht, rfl⟩)
    | @exceptional handler exception hh hv =>
      obtain ⟨p, hp, hto⟩ := exists_right_of_forall₂ he hh
      obtain ⟨exception', hv', -, rfl⟩ := toHandler_eq_ok.1 hto
      obtain rfl := Option.some.inj (Except.ok.inj (hv.symm.trans hv'))
      exact .inr hp

/-! ## Paths -/

/-- The frame that reaches a location along some path from the entry. -/
inductive PathFrame (A : Analyzer V) : Nat → Frame V → Prop
  | entry {f : Frame V} (hm : 0 < A.method.size) (h : A.initialFrame = .ok f) : PathFrame A 0 f
  | step {l : Nat} {i : Instruction} {f : Frame V} {target : Nat} {g : Frame V}
    (hp : PathFrame A l f) (hi : A.method.instruction? l = some i)
    (he : A.Edge i f target g) : PathFrame A target g

end Analyzer

end Provenance

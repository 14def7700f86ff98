/-
What loading a class checks.

Loading refuses a class at the first fault that it finds, so what it accepts has none: in every method
each instruction sits at its own index, and each handler protects a range of instructions and begins
at one (`Class.sound_of_load`). The first half is what analyses rely on when they take the index of an
instruction for its position; by the second, control never leaves a method through a handler.
-/
import Provenance.Interchange.Load
import Provenance.Proofs.Reachability

set_option autoImplicit false

namespace Provenance

namespace Method

/-! ## Methods without faults -/

/-- Instructions sit at their own index, and handlers lie in the method. -/
structure Sound (m : Method) : Prop where
  indexed : m.Indexed
  handlers : ∀ h ∈ m.handlers, h.fits m.size

/-- No instruction is misplaced exactly if indices count on from the first position. -/
theorem misplaced?_eq_none {m : Method} {position : Nat} {instructions : List Instruction} :
    m.misplaced? position instructions = none ↔
      ∀ (k : Nat) i, instructions[k]? = some i → i.index = position + k := by
  induction instructions generalizing position with
  | nil => exact ⟨fun _ k i hi => by simp at hi, fun _ => rfl⟩
  | cons i rest ih =>
    unfold misplaced?
    by_cases hi : i.index = position
    · rw [if_pos hi, ih]
      constructor
      · intro h k j hj
        cases k with
        | zero =>
          obtain rfl : i = j := Option.some.inj hj
          exact hi
        | succ k =>
          have hk := h k j hj
          omega
      · intro h k j hj
        have hk := h (k + 1) j hj
        omega
    · rw [if_neg hi]
      exact ⟨nofun, fun h => absurd (h 0 i rfl) hi⟩

/-- A method has no fault exactly if it is sound. -/
theorem fault?_eq_none {m : Method} : m.fault? = none ↔ m.Sound := by
  have hindexed : m.misplaced? 0 m.instructions = none ↔ m.Indexed := by
    rw [misplaced?_eq_none]
    simp only [Nat.zero_add]
    exact Iff.rfl
  have hhandlers : m.handlers.find? (fun h => !h.fits m.size) = none ↔
      ∀ h ∈ m.handlers, h.fits m.size := by
    simp only [List.find?_eq_none, Bool.not_eq_true', Bool.not_eq_false]
  unfold fault?
  rw [Option.or_eq_none_iff, Option.map_eq_none_iff, hindexed, hhandlers]
  exact ⟨fun h => ⟨h.1, h.2⟩, fun h => ⟨h.indexed, h.handlers⟩⟩

/-- In a sound method control stays inside. -/
theorem Sound.lt_of_leadsTo {m : Method} (hm : m.Sound) {l target : Nat}
    (h : m.LeadsTo l target) : target < m.size := by
  rcases h with ⟨i, targets, -, htargets, ht⟩ | ⟨i, h, -, hh, -, rfl⟩
  · exact (successors_eq_ok.1 htargets).2 target ht
  · have hfits := hm.handlers h hh
    unfold Handler.fits at hfits
    simp only [Bool.and_eq_true, decide_eq_true_eq] at hfits
    exact hfits.2

end Method

namespace Class

/-! ## Classes that are accepted -/

theorem check_eq_ok {c c' : Class} : c.check = .ok c' ↔ c = c' ∧ ∀ m ∈ c.methods, m.Sound := by
  have hnone : c.methods.findSome? Method.fault? = none ↔ ∀ m ∈ c.methods, m.Sound := by
    simp only [List.findSome?_eq_none_iff, Method.fault?_eq_none]
  unfold check
  rw [← hnone]
  cases c.methods.findSome? Method.fault? with
  | none => exact ⟨fun h => ⟨Except.ok.inj h, rfl⟩, fun h => congrArg Except.ok h.1⟩
  | some e => exact ⟨nofun, fun h => nomatch h.2⟩

/-- The methods of a class that is loaded are sound. -/
theorem sound_of_load {text : String} {c : Class} (h : load text = .ok c) :
    ∀ m ∈ c.methods, m.Sound := by
  unfold load at h
  split at h
  · cases h
  · obtain ⟨rfl, hsound⟩ := check_eq_ok.1 h
    exact hsound

end Class

end Provenance

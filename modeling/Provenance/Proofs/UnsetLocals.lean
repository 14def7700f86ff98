/-
Unset locals and empty ones.

A join treats a local that is unset in one frame as if nothing were known of it, which is what the
empty set stands for, and merging the empty set changes nothing. Still the two are not the same to a
join: the empty set is narrow, and a join looks at the widths of two locals before it merges them. So
a wide value survives where the other frame has nothing, and is forgotten where the other frame has
the empty set (`Frame.not_joinsAlike_holdsWide`).

That is all that can be told between them (`Frame.join_fillUnset`). Whether a join succeeds does not
depend on it, nor does the stack that comes out, nor any local at which the other frame is unset or
narrow.
-/
import Provenance.Proofs.JoinLaws

set_option autoImplicit false

namespace Provenance.Frame

/-! ## Joins that succeed -/

section

variable {V : Type} [AbstractValue V] {I : Interpreter V}

/-- Locals can be joined if each of them can. -/
theorem exists_joinLocals_iff {l m : List (Option V)} (h : l.length = m.length) :
    (∃ r, (joinLocals I l m).outcome = .ok r) ↔
      ∀ k : Nat, ∃ u, JoinedLocal I (l[k]?.join) (m[k]?.join) u := by
  constructor
  · rintro ⟨r, hr⟩ k
    exact ⟨_, joinLocal_eq_ok.1 (((joinLocals_eq_ok h).1 hr).2 k)⟩
  · intro hall
    induction l generalizing m with
    | nil =>
      obtain rfl : m = [] := List.length_eq_zero_iff.1 h.symm
      exact ⟨[], rfl⟩
    | cons v l ih =>
      obtain ⟨w, m, rfl⟩ := List.exists_cons_of_length_eq_add_one h.symm
      obtain ⟨u, hu⟩ := hall 0
      obtain ⟨rest, hrest⟩ := ih (Nat.succ.inj h) fun k => hall (k + 1)
      exact ⟨u :: rest, joinLocals_cons_eq_ok.2 ⟨u, rest, joinLocal_eq_ok.2 hu, hrest, rfl⟩⟩

/-- Frames of one shape can be joined if their stacks can and each of their locals can. -/
theorem exists_join_iff {f g : Frame V} :
    (∃ j, (join I f g).outcome = .ok j) ↔
      f.stack.length = g.stack.length ∧ f.locals.length = g.locals.length ∧
        (∃ s, (joinStacks I f.stack g.stack).outcome = .ok s) ∧
        ∀ k, ∃ u, JoinedLocal I (f.local? k) (g.local? k) u := by
  simp only [join_eq_ok, joined_iff]
  constructor
  · rintro ⟨j, hheight, hsize, -, hlocals, hstack⟩
    exact ⟨hheight, hsize, ⟨_, hstack⟩, (exists_joinLocals_iff hsize).1 ⟨_, hlocals⟩⟩
  · rintro ⟨hheight, hsize, ⟨s, hstack⟩, hall⟩
    obtain ⟨r, hlocals⟩ := (exists_joinLocals_iff hsize).2 hall
    exact ⟨⟨r, s, f.maxStack⟩, hheight, hsize, rfl, hlocals, hstack⟩

end

variable {α : Type} [Coded α] [HasBase α] {tag : Witness → α} {f g j j' : Frame (ValueSet α)}

/-! ## Empty sets in place of unset locals -/

/-- Some of the unset locals are set to the empty set. -/
def fillUnset (chosen : Nat → Bool) (f : Frame (ValueSet α)) : Frame (ValueSet α) :=
  { f with locals := f.locals.mapIdx fun k v => if chosen k ∧ v = none then some .empty else v }

/-- What a local holds, which is nothing if it is unset. -/
def holds (f : Frame (ValueSet α)) (index : Nat) : ValueSet α := (f.local? index).getD .empty

omit [HasBase α] in
theorem length_fillUnset (chosen : Nat → Bool) (f : Frame (ValueSet α)) :
    (f.fillUnset chosen).locals.length = f.locals.length := List.length_mapIdx

omit [HasBase α] in
theorem local?_fillUnset (chosen : Nat → Bool) (f : Frame (ValueSet α)) (k : Nat) :
    (f.fillUnset chosen).local? k =
      if k < f.locals.length ∧ chosen k ∧ f.local? k = none then some .empty else f.local? k := by
  show (f.locals.mapIdx _)[k]?.join = _
  rw [List.getElem?_mapIdx]
  by_cases hk : k < f.locals.length
  · rw [local?, List.getElem?_eq_getElem hk]
    simp only [Option.map_some, Option.join_some, hk, true_and]
  · rw [local?, List.getElem?_eq_none (by omega), if_neg fun h => hk h.1]
    rfl

/-- A local that is empty can be joined whatever it meets. -/
theorem exists_joinedLocal_empty (tag : Witness → α) (y : Option (ValueSet α)) :
    ∃ u, JoinedLocal (.tracking tag) (some .empty) y u := by
  cases y with
  | none => exact ⟨_, .left _⟩
  | some v =>
    by_cases hw : v.width = 1
    · exact ⟨v, .merged hw.symm v.empty_merge⟩
    · exact ⟨_, .dropped (Ne.symm hw)⟩

/-- A join takes an empty local for an unset one exactly if it meets nothing wide. -/
theorem joinedLocal_empty_iff {y a b : Option (ValueSet α)}
    (ha : JoinedLocal (.tracking tag) none y a)
    (hb : JoinedLocal (.tracking tag) (some .empty) y b) :
    a.getD .empty = b.getD .empty ↔ ¬ ∃ v, y = some v ∧ v.width ≠ 1 := by
  cases ha with
  | unset =>
    cases hb with
    | left => exact ⟨fun _ => by simp, fun _ => rfl⟩
  | right v =>
    cases hb with
    | merged hw hm =>
      obtain rfl := Except.ok.inj (v.empty_merge.symm.trans hm)
      refine ⟨fun _ ⟨w, hv, hne⟩ => hne ?_, fun _ => rfl⟩
      exact Option.some.inj hv ▸ hw.symm
    | dropped hw =>
      -- the value survives on one side, and on the other the local is unset
      refine ⟨fun h => absurd ?_ hw, fun h => absurd ⟨v, rfl, Ne.symm hw⟩ h⟩
      exact congrArg ValueSet.width h.symm

/-! ## What a join makes of the two -/

/-- Whether some of the unset locals of a frame are set to the empty set makes no difference to the
success of a join, to its stack, or to what its locals hold, except for those at which the other
frame holds a value that is not narrow. -/
theorem join_fillUnset (tag : Witness → α) (chosen : Nat → Bool) (f g : Frame (ValueSet α)) :
    ((∃ j, (join (.tracking tag) f g).outcome = .ok j) ↔
      ∃ j, (join (.tracking tag) (f.fillUnset chosen) g).outcome = .ok j) ∧
    ∀ j j', (join (.tracking tag) f g).outcome = .ok j →
      (join (.tracking tag) (f.fillUnset chosen) g).outcome = .ok j' →
      j.stack = j'.stack ∧ ∀ k, j.holds k = j'.holds k ↔
        ¬ (chosen k ∧ f.local? k = none ∧ ∃ v, g.local? k = some v ∧ v.width ≠ 1) := by
  refine ⟨?_, fun j j' hj hj' => ⟨?_, fun k => ?_⟩⟩
  · rw [exists_join_iff, exists_join_iff, length_fillUnset]
    refine and_congr_right fun _ => and_congr_right fun _ => and_congr_right fun _ =>
      forall_congr' fun k => ?_
    rw [local?_fillUnset]
    split
    · rename_i h
      rw [h.2.2]
      exact ⟨fun _ => exists_joinedLocal_empty tag _, fun _ => ⟨_, .none_left _ _⟩⟩
    · rfl
  · obtain ⟨-, -, -, -, hstack⟩ := joined_iff.1 (join_eq_ok.1 hj)
    obtain ⟨-, -, -, -, hstack'⟩ := joined_iff.1 (join_eq_ok.1 hj')
    exact Except.ok.inj (hstack.symm.trans hstack')
  · have hk := (join_eq_ok.1 hj).locals k
    have hk' := (join_eq_ok.1 hj').locals k
    rw [local?_fillUnset] at hk'
    unfold holds
    split at hk'
    · rename_i h
      rw [h.2.2] at hk
      rw [joinedLocal_empty_iff hk hk']
      exact not_congr ⟨fun hv => ⟨h.2.1, h.2.2, hv⟩, fun hv => hv.2.2⟩
    · rename_i h
      have heq : j.local? k = j'.local? k :=
        Except.ok.inj ((joinLocal_eq_ok.2 hk).symm.trans (joinLocal_eq_ok.2 hk'))
      rw [heq]
      refine iff_of_true rfl ?_
      rintro ⟨hchosen, hnone, v, hv, -⟩
      -- no frame has a value where the other one has no local
      have hlt : k < f.locals.length := (join_eq_ok.1 hj).size ▸ lt_of_local? hv
      exact h ⟨hlt, hchosen, hnone⟩

/-- Nothing in two locals. -/
def setsNothing : Frame PossibleValues := ⟨[none, none], [], 0⟩

/-- A long argument in two locals. -/
def holdsWide : Frame PossibleValues := ⟨[some (.single ⟨.parameter 0, .long⟩), none], [], 0⟩

/-- An unset local takes the argument of the other frame, and an empty one forgets it. -/
theorem not_joinsAlike_holdsWide :
    setsNothing.Built ∧ holdsWide.Built ∧
    setsNothing.locals.length = holdsWide.locals.length ∧
    setsNothing.stack.length = holdsWide.stack.length ∧
    ∃ j j', (join .possibleValues setsNothing holdsWide).outcome = .ok j ∧
      (join .possibleValues (setsNothing.fillUnset fun k => k = 0) holdsWide).outcome = .ok j' ∧
      j.holds 0 ≠ j'.holds 0 := by
  refine ⟨?_, ?_, rfl, rfl, _, _, rfl, rfl, by decide +kernel⟩
  · intro slot s hs
    match slot with
    | .var 0 | .var 1 | .var (_ + 2) | .stack _ => cases hs
  · intro slot s hs
    match slot with
    | .var 0 => exact Option.some.inj hs ▸ .single _
    | .var 1 | .var (_ + 2) | .stack _ => cases hs

end Provenance.Frame

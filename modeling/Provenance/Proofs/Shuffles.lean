/-
Shuffles, slot by slot.

The machine defines its nine shuffles on slots: a group of one or two slots is taken from the top of
the operand stack, perhaps another group from below it, and something made of both groups is put
back. A frame holds entries, and a wide value is one entry of two slots. So each shuffle has a form for
every way in which values can fill the groups, with its pops and pushes written out.

All the forms come to the same (`Frame.shuffle_outcome`): pop the entries that fill the first group,
then those that fill the second, and push what the shuffle makes of the two. Whether entries can fill
a group is a matter of slots again: enough slots must be there, and no wide value may have one half in
the group and the other one outside (`StackSlot.exists_front_iff`). Hence a shuffle of entries succeeds
where the shuffle of slots is possible, and does the same (`Frame.execute_shuffle`).
-/
import Provenance.Frame.Execute
import Provenance.Interpreter.Tracking

set_option autoImplicit false

namespace Provenance

/-! ## Shuffles of slots -/

namespace Shuffle

/-- The opcode of a shuffle. -/
def opcode : Shuffle → Opcode
  | pop => .pop
  | pop2 => .pop2
  | dup => .dup
  | dupX1 => .dupX1
  | dupX2 => .dupX2
  | dup2 => .dup2
  | dup2X1 => .dup2X1
  | dup2X2 => .dup2X2
  | swap => .swap

theorem effect_opcode (k : Shuffle) : k.opcode.effect = .shuffle k := by
  cases k <;> rfl

/-- How many slots the group at the top has. -/
def top : Shuffle → Nat
  | pop | dup | dupX1 | dupX2 | swap => 1
  | pop2 | dup2 | dup2X1 | dup2X2 => 2

/-- How many slots the group below it has. -/
def below : Shuffle → Nat
  | pop | pop2 | dup | dup2 => 0
  | dupX1 | dup2X1 | swap => 1
  | dupX2 | dup2X2 => 2

/-- What is put back in the place of the two groups. -/
def arranged {S : Type} (k : Shuffle) (top below : List S) : List S :=
  match k with
  | pop | pop2 => []
  | dup | dup2 => top ++ top
  | dupX1 | dupX2 | dup2X1 | dup2X2 => top ++ below ++ top
  | swap => below ++ top

/-- The shuffle of a stack of slots, its top first. -/
def onSlots {S : Type} (k : Shuffle) (slots : List S) : List S :=
  k.arranged (slots.take k.top) ((slots.drop k.top).take k.below) ++ slots.drop (k.top + k.below)

/-- Two slots go below the third. -/
example : dup2X1.onSlots [1, 2, 3, 4] = [1, 2, 3, 1, 2, 4] := by decide

theorem onSlots_append {S : Type} (k : Shuffle) {a b c : List S} (ha : a.length = k.top)
    (hb : b.length = k.below) : k.onSlots (a ++ (b ++ c)) = k.arranged a b ++ c := by
  unfold onSlots
  rw [← List.drop_drop, ← ha, ← hb, List.take_left, List.drop_left, List.take_left, List.drop_left]

theorem flatMap_arranged {S T : Type} (k : Shuffle) (φ : S → List T) (a b : List S) :
    (k.arranged a b).flatMap φ = k.arranged (a.flatMap φ) (b.flatMap φ) := by
  cases k <;> simp [arranged]

end Shuffle

/-! ## The slots of a stack -/

/-- A slot of the operand stack: a narrow value, or a half of a wide one. -/
inductive StackSlot (V : Type) where
  | whole (v : V)
  | upper (v : V)
  | lower (v : V)
deriving DecidableEq

namespace StackSlot

variable {V : Type}

/-- Whether a value goes on in the slot that began in the one above. -/
def isLower : StackSlot V → Bool
  | lower _ => true
  | whole _ | upper _ => false

/-- How many values some slots hold. -/
def entries (slots : List (StackSlot V)) : Nat := slots.countP fun slot => !slot.isLower

/-- A wide value has a half on each side of a depth. -/
def Straddled (slots : List (StackSlot V)) (depth : Nat) : Prop :=
  ∃ v, slots[depth]? = some (.lower v)

variable [AbstractValue V]

/-- The slots of a value, the upper half of a wide one first. -/
def ofValue (v : V) : List (StackSlot V) :=
  if AbstractValue.width v = 2 then [.upper v, .lower v] else [.whole v]

/-- The slots of a stack, its top first. -/
def ofStack (s : List V) : List (StackSlot V) := s.flatMap ofValue

theorem ofStack_cons (v : V) (s : List V) : ofStack (v :: s) = ofValue v ++ ofStack s :=
  List.flatMap_cons

theorem ofStack_append (s t : List V) : ofStack (s ++ t) = ofStack s ++ ofStack t :=
  List.flatMap_append

theorem ofValue_narrow {v : V} (h : AbstractValue.width v = 1) : ofValue v = [.whole v] := by
  unfold ofValue
  rw [if_neg (by omega)]

theorem ofValue_wide {v : V} (h : AbstractValue.width v = 2) :
    ofValue v = [.upper v, .lower v] := if_pos h

theorem length_ofValue_pos (v : V) : 0 < (ofValue v).length := by
  unfold ofValue
  split <;> exact Nat.succ_pos _

/-- Only an empty stack has no slots. -/
theorem eq_nil_of_ofStack {s : List V} (h : (ofStack s).length = 0) : s = [] := by
  cases s with
  | nil => rfl
  | cons v s =>
    rw [ofStack_cons, List.length_append] at h
    have hpos := length_ofValue_pos v
    omega

/-- A stack has as many entries as its slots hold values. -/
theorem entries_ofStack (s : List V) : entries (ofStack s) = s.length := by
  induction s with
  | nil => rfl
  | cons v s ih =>
    have hv : entries (ofValue v) = 1 := by
      unfold ofValue
      split <;> rfl
    unfold entries at hv ih ⊢
    rw [ofStack_cons, List.countP_append, hv, ih, List.length_cons, Nat.add_comm]

/-! ## Entries that fill a group -/

omit [AbstractValue V] in
/-- A boundary behind some slots lies where it lies among the slots behind them. -/
theorem straddled_append (slots rest : List (StackSlot V)) (depth : Nat) :
    Straddled (slots ++ rest) (slots.length + depth) ↔ Straddled rest depth := by
  unfold Straddled
  rw [List.getElem?_append_right (Nat.le_add_right _ _), Nat.add_sub_cancel_left]

/-- If the first entry is among those that fill a group, the others fill what it leaves. -/
theorem exists_front_cons (v : V) (s : List V) (m : Nat) :
    (∃ a b, v :: s = a ++ b ∧ (ofStack a).length = (ofValue v).length + m) ↔
      ∃ a b, s = a ++ b ∧ (ofStack a).length = m := by
  constructor
  · rintro ⟨a, b, hab, ha⟩
    cases a with
    | nil =>
      have hpos := length_ofValue_pos v
      have hzero : (ofStack ([] : List V)).length = 0 := rfl
      omega
    | cons w a =>
      obtain ⟨rfl, rfl⟩ := List.cons.inj hab
      rw [ofStack_cons, List.length_append] at ha
      exact ⟨a, b, rfl, Nat.add_left_cancel ha⟩
  · rintro ⟨a, b, rfl, rfl⟩
    exact ⟨v :: a, b, rfl, by rw [ofStack_cons, List.length_append]⟩

/-- Entries at the front of a stack fill a number of slots, unless there are too few slots or a wide
value stands in the way. -/
theorem exists_front_iff {s : List V}
    (hs : ∀ v ∈ s, AbstractValue.width v = 1 ∨ AbstractValue.width v = 2) (n : Nat) :
    (∃ a b, s = a ++ b ∧ (ofStack a).length = n) ↔
      n ≤ (ofStack s).length ∧ ¬ Straddled (ofStack s) n := by
  induction s generalizing n with
  | nil =>
    constructor
    · rintro ⟨a, b, hab, rfl⟩
      obtain ⟨rfl, rfl⟩ := List.append_eq_nil_iff.1 hab.symm
      exact ⟨Nat.le_refl _, nofun⟩
    · rintro ⟨hn, -⟩
      exact ⟨[], [], rfl, (Nat.le_zero.1 hn).symm⟩
  | cons v s ih =>
    have hrest := ih fun w hw => hs w (List.mem_cons_of_mem v hw)
    by_cases hn : (ofValue v).length ≤ n
    · obtain ⟨m, rfl⟩ := Nat.exists_eq_add_of_le hn
      rw [exists_front_cons, hrest, ofStack_cons, straddled_append, List.length_append,
        Nat.add_le_add_iff_left]
    · -- the group ends before the first entry does, so it is empty or cuts a wide value
      rw [ofStack_cons]
      rcases hs v List.mem_cons_self with hv | hv
      · rw [ofValue_narrow hv] at hn ⊢
        obtain rfl : n = 0 := by
          rw [List.length_singleton] at hn
          omega
        exact ⟨fun _ => ⟨Nat.zero_le _, nofun⟩, fun _ => ⟨[], v :: s, rfl, rfl⟩⟩
      · rw [ofValue_wide hv] at hn ⊢
        match n, hn with
        | 0, _ => exact ⟨fun _ => ⟨Nat.zero_le _, nofun⟩, fun _ => ⟨[], v :: s, rfl, rfl⟩⟩
        | 1, _ =>
          refine ⟨?_, fun h => absurd ⟨v, rfl⟩ h.2⟩
          rintro ⟨a, b, hab, ha⟩
          cases a with
          | nil => cases ha
          | cons w a =>
            obtain ⟨rfl, rfl⟩ := List.cons.inj hab
            rw [ofStack_cons, ofValue_wide hv] at ha
            cases ha
        | n + 2, hn => exact absurd (Nat.le_add_left 2 n) hn

end StackSlot

namespace Shuffle

variable {V : Type}

/-- A stack of slots can be shuffled: both groups are there, no value straddles the lower end of a
group, and what comes out has room. -/
structure Fits (k : Shuffle) (slots : List (StackSlot V)) (maxStack : Nat) : Prop where
  enough : k.top + k.below ≤ slots.length
  top : ¬ StackSlot.Straddled slots k.top
  below : ¬ StackSlot.Straddled slots (k.top + k.below)
  room : StackSlot.entries (k.onSlots slots) ≤ maxStack

end Shuffle

/-! ## Shuffles of entries -/

namespace Frame

variable {V : Type} [AbstractValue V]

/-- The entries that fill so many slots at the top of the stack, and the frame without them. -/
def popGroup (op : Opcode) : Nat → Frame V → Except AnalysisError (List V × Frame V)
  | 0, f => .ok ([], f)
  | 1, f => do
    let (v, f) ← f.popNarrow op
    return ([v], f)
  | n + 2, f => do
    let (v, f) ← f.pop
    let (rest, f) ← if AbstractValue.width v = 1 then popGroup op (n + 1) f else popGroup op n f
    return (v :: rest, f)

variable {I : Interpreter V} {i : Instruction} {f g : Frame V} {op : Opcode}

omit [AbstractValue V] in
theorem askCopy_outcome (hcopy : ∀ v, I.copy i v = .ok v) (v : V) :
    (I.askCopy i v).outcome = .ok v := hcopy v

omit [AbstractValue V] in
theorem pushCopy_outcome (hcopy : ∀ v, I.copy i v = .ok v) (f : Frame V) (v : V) :
    (pushCopy I i f v).outcome = f.push v := by
  unfold pushCopy Interpreter.askCopy
  rw [hcopy]
  rfl

/-- Every form of a shuffle pops what fills its two groups and pushes what it makes of them. -/
theorem shuffle_outcome (hcopy : ∀ v, I.copy i v = .ok v) (f : Frame V) (k : Shuffle) :
    (shuffle I i f k).outcome = (do
      let (a, f) ← popGroup i.opcode k.top f
      let (b, f) ← popGroup i.opcode k.below f
      f.pushAll (k.arranged a b).reverse) := by
  -- what follows a choice of form follows each of the forms
  have hchoice : ∀ {α β : Type} {c : Prop} [Decidable c] (x y : Except AnalysisError α)
      (next : α → Except AnalysisError β),
      (if c then x else y) >>= next = if c then x >>= next else y >>= next := by
    intro α β c _ x y next
    split <;> rfl
  have hlast : ∀ {α : Type} (x : Except AnalysisError α), (x >>= fun a => .ok a) = x := by
    intro α x
    cases x <;> rfl
  have hnext : ∀ {α β : Type} (a : α) (next : α → Except AnalysisError β),
      (.ok a : Except AnalysisError α) >>= next = next a := fun _ _ => rfl
  have hquiet : ∀ {α : Type} (x : Except AnalysisError α),
      (liftM x : Executed V α).outcome = x := fun _ => rfl
  cases k <;>
    simp only [shuffle, Shuffle.top, Shuffle.below, popGroup, Shuffle.arranged, pushAll,
      Traced.bind_outcome, Traced.pure_outcome, apply_ite Traced.outcome, hquiet,
      askCopy_outcome hcopy, pushCopy_outcome hcopy, bind_assoc, pure_bind, hchoice, hnext, hlast,
      List.reverse_cons, List.reverse_nil, List.reverse_append, List.nil_append, List.cons_append]

omit [AbstractValue V] in
theorem pop_eq_ok {p : V × Frame V} :
    f.pop = .ok p ↔ f.stack = p.1 :: p.2.stack ∧ p.2 = { f with stack := p.2.stack } := by
  unfold pop
  constructor
  · intro h
    split at h
    · cases h
    · rename_i v rest hstack
      obtain rfl := Except.ok.inj h
      exact ⟨hstack, rfl⟩
  · rintro ⟨hstack, hg⟩
    rw [hstack]
    exact congrArg (fun g => Except.ok (p.1, g)) hg.symm

theorem popNarrow_eq_ok {p : V × Frame V} :
    f.popNarrow op = .ok p ↔ f.pop = .ok p ∧ AbstractValue.width p.1 = 1 := by
  unfold popNarrow
  rw [bind_eq_ok]
  constructor
  · rintro ⟨q, hq, h⟩
    dsimp only at h
    split at h
    · rename_i hw
      obtain rfl := Except.ok.inj h
      exact ⟨hq, hw⟩
    · cases h
  · rintro ⟨hp, hw⟩
    exact ⟨p, hp, if_pos hw⟩

/-- Some entries fill so many slots at the top of the stack, and a frame is left without them. -/
def Splits (f : Frame V) (n : Nat) (a : List V) (g : Frame V) : Prop :=
  f.stack = a ++ g.stack ∧ (StackSlot.ofStack a).length = n ∧ g = { f with stack := g.stack }

/-- Whatever fills a group begins with the top of the stack. -/
theorem splits_succ {v : V} {f' : Frame V} (h : f.pop = .ok (v, f')) {n : Nat} {a : List V} :
    f.Splits (n + 1) a g ↔
      ∃ rest m, a = v :: rest ∧ n + 1 = (StackSlot.ofValue v).length + m ∧ f'.Splits m rest g := by
  obtain ⟨hstack, hf'⟩ := pop_eq_ok.1 h
  dsimp only at hstack hf'
  constructor
  · rintro ⟨ha, hn, hg⟩
    cases a with
    | nil => cases hn
    | cons w rest =>
      obtain ⟨rfl, hrest⟩ := List.cons.inj (hstack.symm.trans ha)
      rw [StackSlot.ofStack_cons, List.length_append] at hn
      refine ⟨rest, _, rfl, hn.symm, hrest, rfl, ?_⟩
      rw [hf']
      exact hg
  · rintro ⟨rest, m, rfl, hn, hrest, rfl, hg⟩
    refine ⟨?_, ?_, ?_⟩
    · rw [hstack, hrest]
      rfl
    · rw [hn, StackSlot.ofStack_cons, List.length_append]
    · rw [hf'] at hg
      exact hg

theorem not_splits_of_pop {e : AnalysisError} (h : f.pop = .error e) {n : Nat} {a : List V} :
    ¬ f.Splits (n + 1) a g := by
  rintro ⟨ha, hn, -⟩
  have hnil : f.stack = [] := by
    unfold pop at h
    split at h
    · assumption
    · cases h
  rw [hnil] at ha
  obtain ⟨rfl, -⟩ := List.append_eq_nil_iff.1 ha.symm
  cases hn

/-- A narrow value fills one slot of a group. -/
theorem popGroup_of_narrow {v : V} {f' : Frame V} (h : f.pop = .ok (v, f'))
    (hv : AbstractValue.width v = 1) (n : Nat) :
    popGroup op (n + 1) f = (popGroup op n f').map fun p => (v :: p.1, p.2) := by
  cases n with
  | zero =>
    have hnarrow : f.popNarrow op = .ok (v, f') := popNarrow_eq_ok.2 ⟨h, hv⟩
    unfold popGroup
    rw [hnarrow]
    rfl
  | succ n =>
    rw [popGroup, h]
    show (if AbstractValue.width v = 1 then Except.bind (popGroup op (n + 1) f') _
      else Except.bind (popGroup op n f') _) = _
    rw [if_pos hv]
    cases popGroup op (n + 1) f' <;> rfl

/-- A wide value fills two slots of a group, and does not go into one. -/
theorem popGroup_of_wide {v : V} {f' : Frame V} (h : f.pop = .ok (v, f'))
    (hv : AbstractValue.width v = 2) :
    (∀ p, popGroup op 1 f ≠ .ok p) ∧
      ∀ n, popGroup op (n + 2) f = (popGroup op n f').map fun p => (v :: p.1, p.2) := by
  constructor
  · intro p hp
    obtain ⟨⟨w, g⟩, hw, -⟩ := bind_eq_ok.1 hp
    obtain ⟨hpop, hnarrow⟩ := popNarrow_eq_ok.1 hw
    obtain ⟨rfl, -⟩ := Prod.mk.inj (Except.ok.inj (h.symm.trans hpop))
    dsimp only at hnarrow
    omega
  · intro n
    rw [popGroup, h]
    show (if AbstractValue.width v = 1 then Except.bind (popGroup op (n + 1) f') _
      else Except.bind (popGroup op n f') _) = _
    rw [if_neg (by omega)]
    cases popGroup op n f' <;> rfl

/-- A group can be popped if entries at the top of the stack fill it. -/
theorem popGroup_eq_ok (n : Nat)
    (hf : ∀ v ∈ f.stack, AbstractValue.width v = 1 ∨ AbstractValue.width v = 2) {a : List V} :
    popGroup op n f = .ok (a, g) ↔ f.Splits n a g := by
  induction n using Nat.strongRecOn generalizing f a with
  | ind n ih =>
    cases n with
    | zero =>
      constructor
      · intro h
        obtain ⟨rfl, rfl⟩ := Prod.mk.inj (Except.ok.inj h)
        exact ⟨rfl, rfl, rfl⟩
      · rintro ⟨hstack, hn, hg⟩
        obtain rfl := StackSlot.eq_nil_of_ofStack hn
        have hstack' : f.stack = g.stack := hstack
        rw [← hstack'] at hg
        rw [hg]
        rfl
    | succ n =>
      cases hpop : f.pop with
      | error e =>
        refine ⟨fun h => ?_, fun h => absurd h (not_splits_of_pop hpop)⟩
        cases n with
        | zero =>
          obtain ⟨p, hp, -⟩ := bind_eq_ok.1 h
          exact nomatch hpop.symm.trans (popNarrow_eq_ok.1 hp).1
        | succ n =>
          obtain ⟨p, hp, -⟩ := bind_eq_ok.1 h
          exact nomatch hpop.symm.trans hp
      | ok p =>
        obtain ⟨v, f'⟩ := p
        obtain ⟨hstack, -⟩ := pop_eq_ok.1 hpop
        have hf' : ∀ w ∈ f'.stack, AbstractValue.width w = 1 ∨ AbstractValue.width w = 2 :=
          fun w hw => hf w (hstack ▸ List.mem_cons_of_mem v hw)
        have hmap : ∀ m, m < n + 1 →
            ((popGroup op m f').map (fun p => (v :: p.1, p.2)) = .ok (a, g) ↔
              ∃ rest, a = v :: rest ∧ f'.Splits m rest g) := by
          intro m hm
          rw [map_eq_ok]
          constructor
          · rintro ⟨⟨rest, g'⟩, hrest, hag⟩
            obtain ⟨rfl, rfl⟩ := Prod.mk.inj hag
            exact ⟨rest, rfl, (ih m hm hf').1 hrest⟩
          · rintro ⟨rest, rfl, hrest⟩
            exact ⟨(rest, g), (ih m hm hf').2 hrest, rfl⟩
        rw [splits_succ hpop]
        rcases hf v (hstack ▸ List.mem_cons_self) with hv | hv
        · rw [popGroup_of_narrow hpop hv, hmap n (Nat.lt_succ_self n),
            StackSlot.ofValue_narrow hv, List.length_singleton]
          constructor
          · rintro ⟨rest, ha, hrest⟩
            exact ⟨rest, n, ha, Nat.add_comm n 1, hrest⟩
          · rintro ⟨rest, m, ha, hm, hrest⟩
            obtain rfl : m = n := by omega
            exact ⟨rest, ha, hrest⟩
        · obtain ⟨hone, htwo⟩ : (∀ p, popGroup op 1 f ≠ .ok p) ∧ _ := popGroup_of_wide hpop hv
          rw [StackSlot.ofValue_wide hv]
          cases n with
          | zero =>
            refine ⟨fun h => absurd h (hone _), ?_⟩
            rintro ⟨rest, m, -, hm, -⟩
            have hm' : 0 + 1 = 2 + m := hm
            omega
          | succ n =>
            rw [htwo, hmap n (by omega)]
            constructor
            · rintro ⟨rest, ha, hrest⟩
              exact ⟨rest, n, ha, Nat.add_comm n 2, hrest⟩
            · rintro ⟨rest, m, ha, hm, hrest⟩
              have hm' : n + 1 + 1 = 2 + m := hm
              obtain rfl : m = n := by omega
              exact ⟨rest, ha, hrest⟩

omit [AbstractValue V] in
/-- Values can be pushed if there is room for all of them. -/
theorem pushAll_eq_ok {vs : List V} (hf : f.stack.length ≤ f.maxStack) :
    f.pushAll vs = .ok g ↔
      vs.length + f.stack.length ≤ f.maxStack ∧ g = { f with stack := vs.reverse ++ f.stack } := by
  induction vs generalizing f with
  | nil =>
    constructor
    · intro h
      obtain rfl := Except.ok.inj h
      exact ⟨by rwa [List.length_nil, Nat.zero_add], rfl⟩
    · rintro ⟨-, rfl⟩
      rfl
  | cons v vs ih =>
    rw [pushAll, bind_eq_ok]
    unfold push
    by_cases hroom : f.stack.length < f.maxStack
    · rw [if_pos hroom]
      have hnext := ih (f := { f with stack := v :: f.stack }) hroom
      constructor
      · rintro ⟨f', hf', h⟩
        obtain rfl := Except.ok.inj hf'
        obtain ⟨hle, rfl⟩ := hnext.1 h
        have hle' : vs.length + (f.stack.length + 1) ≤ f.maxStack := hle
        refine ⟨by rw [List.length_cons]; omega, ?_⟩
        rw [List.reverse_cons, List.append_assoc]
        rfl
      · rintro ⟨hle, rfl⟩
        rw [List.length_cons] at hle
        have hle' : vs.length + (f.stack.length + 1) ≤ f.maxStack := by omega
        refine ⟨_, rfl, hnext.2 ⟨hle', ?_⟩⟩
        rw [List.reverse_cons, List.append_assoc]
        rfl
    · rw [if_neg hroom]
      constructor
      · rintro ⟨f', hf', -⟩
        cases hf'
      · rintro ⟨hle, -⟩
        rw [List.length_cons] at hle
        omega

/-- A shuffle takes the entries that fill its two groups and puts back what it makes of them, if there
is room. -/
theorem shuffle_eq_ok (hcopy : ∀ v, I.copy i v = .ok v)
    (hf : ∀ v ∈ f.stack, AbstractValue.width v = 1 ∨ AbstractValue.width v = 2)
    (hlimit : f.stack.length ≤ f.maxStack) {k : Shuffle} :
    (shuffle I i f k).outcome = .ok g ↔
      ∃ a b c, f.stack = a ++ (b ++ c) ∧ (StackSlot.ofStack a).length = k.top ∧
        (StackSlot.ofStack b).length = k.below ∧ (k.arranged a b ++ c).length ≤ f.maxStack ∧
        g = { f with stack := k.arranged a b ++ c } := by
  rw [shuffle_outcome hcopy, bind_eq_ok]
  constructor
  · rintro ⟨⟨a, f₁⟩, ha, h⟩
    obtain ⟨⟨b, f₂⟩, hb, h⟩ := bind_eq_ok.1 h
    obtain ⟨hstack, htop, hf₁⟩ := (popGroup_eq_ok k.top hf).1 ha
    have hf₁' : ∀ v ∈ f₁.stack, AbstractValue.width v = 1 ∨ AbstractValue.width v = 2 :=
      fun v hv => hf v (hstack ▸ List.mem_append_right a hv)
    obtain ⟨hstack₁, hbelow, hf₂⟩ := (popGroup_eq_ok k.below hf₁').1 hb
    rw [hf₁] at hf₂
    have hlimit₂ : f₂.stack.length ≤ f₂.maxStack := by
      rw [hstack, hstack₁, List.length_append, List.length_append] at hlimit
      rw [hf₂]
      show f₂.stack.length ≤ f.maxStack
      omega
    obtain ⟨hroom, rfl⟩ := (pushAll_eq_ok hlimit₂).1 h
    rw [List.length_reverse, hf₂] at hroom
    refine ⟨a, b, f₂.stack, by rw [hstack, hstack₁], htop, hbelow, ?_, ?_⟩
    · rw [List.length_append]
      exact hroom
    · rw [List.reverse_reverse, hf₂]
  · rintro ⟨a, b, c, hstack, htop, hbelow, hroom, rfl⟩
    have ha : f.Splits k.top a { f with stack := b ++ c } := ⟨hstack, htop, rfl⟩
    have hb : ({ f with stack := b ++ c } : Frame V).Splits k.below b { f with stack := c } :=
      ⟨rfl, hbelow, rfl⟩
    refine ⟨_, (popGroup_eq_ok k.top hf).2 ha, bind_eq_ok.2 ⟨_, (popGroup_eq_ok k.below ?_).2 hb, ?_⟩⟩
    · exact fun v hv => hf v (hstack ▸ List.mem_append_right a hv)
    · rw [List.length_append] at hroom
      have hlimit' : c.length ≤ f.maxStack := by omega
      refine (pushAll_eq_ok hlimit').2 ⟨?_, ?_⟩
      · rw [List.length_reverse]
        exact hroom
      · rw [List.reverse_reverse]

/-- Entries that fill the two groups of a shuffle, and what lies below them. -/
theorem exists_groups_iff {s : List V}
    (hs : ∀ v ∈ s, AbstractValue.width v = 1 ∨ AbstractValue.width v = 2) (m n : Nat) :
    (∃ a b c, s = a ++ (b ++ c) ∧ (StackSlot.ofStack a).length = m ∧
        (StackSlot.ofStack b).length = n) ↔
      m + n ≤ (StackSlot.ofStack s).length ∧ ¬ StackSlot.Straddled (StackSlot.ofStack s) m ∧
        ¬ StackSlot.Straddled (StackSlot.ofStack s) (m + n) := by
  constructor
  · rintro ⟨a, b, c, rfl, rfl, rfl⟩
    obtain ⟨-, hm⟩ := (StackSlot.exists_front_iff hs _).1 ⟨a, b ++ c, rfl, rfl⟩
    obtain ⟨hmn, hm'⟩ := (StackSlot.exists_front_iff hs _).1
      ⟨a ++ b, c, (List.append_assoc a b c).symm, rfl⟩
    rw [StackSlot.ofStack_append a b, List.length_append] at hmn hm'
    exact ⟨hmn, hm, hm'⟩
  · rintro ⟨hmn, hm, hm'⟩
    obtain ⟨a, s', rfl, rfl⟩ := (StackSlot.exists_front_iff hs m).2 ⟨by omega, hm⟩
    rw [StackSlot.ofStack_append, List.length_append, Nat.add_le_add_iff_left] at hmn
    rw [StackSlot.ofStack_append, StackSlot.straddled_append] at hm'
    obtain ⟨b, c, rfl, rfl⟩ := (StackSlot.exists_front_iff
      (fun v hv => hs v (List.mem_append_right a hv)) n).2 ⟨hmn, hm'⟩
    exact ⟨a, b, c, rfl, rfl, rfl⟩

/-- A shuffle of entries does to the slots what the shuffle of slots does. -/
theorem ofStack_arranged {a b c : List V} {k : Shuffle}
    (ha : (StackSlot.ofStack a).length = k.top) (hb : (StackSlot.ofStack b).length = k.below) :
    StackSlot.ofStack (k.arranged a b ++ c)
      = k.onSlots (StackSlot.ofStack (a ++ (b ++ c))) := by
  rw [StackSlot.ofStack_append, StackSlot.ofStack_append, StackSlot.ofStack_append,
    Shuffle.onSlots_append k ha hb]
  exact congrArg (· ++ StackSlot.ofStack c) (k.flatMap_arranged StackSlot.ofValue a b)

/-- Executing a shuffle where copies are the values themselves, and every value is narrow or wide: it
succeeds exactly if the slots of the stack can be shuffled, and then shuffles them and leaves the rest
of the frame alone. -/
theorem execute_shuffle {k : Shuffle} (hi : i.opcode = k.opcode) (hcopy : ∀ v, I.copy i v = .ok v)
    (hf : ∀ v ∈ f.stack, AbstractValue.width v = 1 ∨ AbstractValue.width v = 2)
    (hlimit : f.stack.length ≤ f.maxStack) (returnType : JType) :
    ((∃ g, (execute I i returnType f).outcome = .ok g) ↔
        k.Fits (StackSlot.ofStack f.stack) f.maxStack) ∧
      ∀ g, (execute I i returnType f).outcome = .ok g →
        StackSlot.ofStack g.stack = k.onSlots (StackSlot.ofStack f.stack) ∧
          g.locals = f.locals ∧ g.maxStack = f.maxStack := by
  have hexecute : execute I i returnType f = shuffle I i f k := by
    unfold execute
    rw [hi, k.effect_opcode]
  rw [hexecute]
  constructor
  · constructor
    · rintro ⟨g, hg⟩
      obtain ⟨a, b, c, hstack, ha, hb, hroom, -⟩ := (shuffle_eq_ok hcopy hf hlimit).1 hg
      obtain ⟨henough, htop, hbelow⟩ := (exists_groups_iff hf _ _).1 ⟨a, b, c, hstack, ha, hb⟩
      refine ⟨henough, htop, hbelow, ?_⟩
      rw [hstack, ← ofStack_arranged ha hb, StackSlot.entries_ofStack]
      exact hroom
    · rintro ⟨henough, htop, hbelow, hroom⟩
      obtain ⟨a, b, c, hstack, ha, hb⟩ := (exists_groups_iff hf _ _).2 ⟨henough, htop, hbelow⟩
      rw [hstack, ← ofStack_arranged ha hb, StackSlot.entries_ofStack] at hroom
      exact ⟨_, (shuffle_eq_ok hcopy hf hlimit).2 ⟨a, b, c, hstack, ha, hb, hroom, rfl⟩⟩
  · intro g hg
    obtain ⟨a, b, c, hstack, ha, hb, -, rfl⟩ := (shuffle_eq_ok hcopy hf hlimit).1 hg
    rw [hstack]
    exact ⟨ofStack_arranged ha hb, rfl, rfl⟩

/-- Two numbers on top of a long one. -/
def twoOverWide : Frame PossibleValues where
  locals := [none]
  stack := [.single ⟨.instruction 2, .int⟩, .single ⟨.instruction 1, .int⟩,
    .single ⟨.instruction 0, .long⟩]
  maxStack := 5

/-- Both numbers go below the long one as well, which has two slots. -/
theorem execute_shuffle_twoOverWide :
    ∃ g, (execute .possibleValues ⟨3, .dup2X2, .none⟩ .void twoOverWide).outcome = .ok g ∧
      StackSlot.ofStack g.stack = [.whole (.single ⟨.instruction 2, .int⟩),
        .whole (.single ⟨.instruction 1, .int⟩), .upper (.single ⟨.instruction 0, .long⟩),
        .lower (.single ⟨.instruction 0, .long⟩), .whole (.single ⟨.instruction 2, .int⟩),
        .whole (.single ⟨.instruction 1, .int⟩)] := by
  obtain ⟨hfits, hshuffled⟩ := execute_shuffle (k := .dup2X2) (f := twoOverWide)
    (I := .possibleValues) (i := ⟨3, .dup2X2, .none⟩) rfl (fun _ => rfl) (by decide +kernel)
    (by decide) .void
  obtain ⟨g, hg⟩ := hfits.2 ⟨by decide +kernel, nofun, nofun, by decide +kernel⟩
  obtain ⟨hslots, -, -⟩ := hshuffled g hg
  exact ⟨g, hg, hslots⟩

end Frame

end Provenance

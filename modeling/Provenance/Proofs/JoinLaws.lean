/-
The laws of joins.

Joining is a partial semilattice operation. A frame joined with itself stays as it is, two frames
may be joined in either order, and three frames in either grouping, if no local holds values of
different widths in two of them: a join forgets such a local, and the value of a third frame meets
nothing in it any more (`Frame.join_laws`).

That holds of frames of sets that can be built: the empty one, those of one member or of several of
one width, and those merged from others. What counts about them is that an empty one is narrow, so
that there is only one; of two empty sets of different widths each would give way to the other.
-/
import Provenance.Proofs.Alike
import Provenance.Proofs.Joins

set_option autoImplicit false

namespace Provenance

namespace ValueSet

variable {α : Type} [Coded α] {s t u v x : ValueSet α}

/-! ## Sets that can be built -/

/-- A set that comes out of the constructors and merges. -/
inductive Built [HasBase α] : ValueSet α → Prop
  | empty : Built .empty
  | single (a : α) : Built (.single a)
  | ofMembers {members : List α} {s : ValueSet α} (h : ofMembers members = .ok s) : Built s
  | merge {s t u : ValueSet α} (hs : Built s) (ht : Built t) (h : s.merge t = .ok u) : Built u

theorem merge_of_isEmpty (hs : s.isEmpty = true) (t : ValueSet α) : s.merge t = .ok t :=
  if_pos hs

theorem empty_merge (s : ValueSet α) : empty.merge s = .ok s := merge_of_isEmpty rfl s

/-- A set merged with itself stays as it is. -/
theorem merge_self (s : ValueSet α) : s.merge s = .ok s := by
  rw [merge_of_width_eq rfl]
  refine congrArg Except.ok (ValueSet.ext rfl (OrderedSet.ext fun a => ?_))
  rw [OrderedSet.mem_union, or_self]

/-- Sets of one width merge into a set of that width. -/
theorem width_of_merge (h : s.merge t = .ok u) (hw : s.width = t.width) : u.width = s.width := by
  rw [merge_of_width_eq hw] at h
  exact Except.ok.inj h ▸ rfl

theorem isEmpty_union (hs : s.isEmpty = false) (w : Nat) :
    (⟨w, s.members ∪ t.members⟩ : ValueSet α).isEmpty = false := by
  by_contra he
  have hunion : s.members ∪ t.members = ∅ := OrderedSet.isEmpty_iff.1 (Bool.not_eq_false _ ▸ he)
  have hempty : s.members = ∅ := OrderedSet.ext fun a =>
    ⟨fun ha => hunion ▸ OrderedSet.mem_union.2 (.inl ha), fun ha => absurd ha (by simp)⟩
  have hs' : s.isEmpty = true := OrderedSet.isEmpty_iff.2 hempty
  rw [hs] at hs'
  cases hs'

namespace Built

variable [HasBase α]

/-- There is only one empty set. -/
theorem eq_empty (hs : s.Built) (he : s.isEmpty = true) : s = .empty := by
  induction hs with
  | empty => rfl
  | single a =>
    have hmem : a ∈ ValueSet.single a := OrderedSet.mem_singleton.2 rfl
    rw [isEmpty_eq_false hmem] at he
    cases he
  | @ofMembers members s h =>
    cases members with
    | nil => exact (Except.ok.inj h).symm
    | cons a rest =>
      rw [ValueSet.ofMembers] at h
      split at h
      · obtain rfl := Except.ok.inj h
        have hmem : a ∈ (⟨memberWidth a, .ofList (a :: rest)⟩ : ValueSet α) :=
          OrderedSet.mem_ofList.2 List.mem_cons_self
        rw [isEmpty_eq_false hmem] at he
        cases he
      · cases h
  | @merge s t u _ _ h ihs iht =>
    cases hse : s.isEmpty with
    | true =>
      rw [merge_of_isEmpty hse] at h
      obtain rfl := Except.ok.inj h
      exact iht he
    | false =>
      cases hte : t.isEmpty with
      | true =>
        have hu : u = s := by
          rw [ValueSet.merge, hse, hte] at h
          exact (Except.ok.inj h).symm
        rw [hu, hse] at he
        cases he
      | false =>
        obtain ⟨-, rfl⟩ := (merge_eq_ok_of_nonempty hse hte).1 h
        rw [isEmpty_union hse] at he
        cases he

/-- The empty set gives way from either side. -/
theorem merge_isEmpty (hs : s.Built) (ht : t.Built) (he : t.isEmpty = true) :
    s.merge t = .ok s := by
  cases hse : s.isEmpty with
  | true => rw [hs.eq_empty hse, ht.eq_empty he, merge_self]
  | false =>
    rw [ValueSet.merge, hse, he]
    rfl

theorem merge_comm (hs : s.Built) (ht : t.Built) (h : s.merge t = .ok u) : t.merge s = .ok u := by
  -- an empty set gives way from either side, and sets with members have one width
  cases hse : s.isEmpty with
  | true =>
    rw [ht.merge_isEmpty hs hse]
    rwa [merge_of_isEmpty hse] at h
  | false =>
    cases hte : t.isEmpty with
    | true =>
      rw [merge_of_isEmpty hte]
      rwa [hs.merge_isEmpty ht hte] at h
    | false =>
      obtain ⟨hw, rfl⟩ := (merge_eq_ok_of_nonempty hse hte).1 h
      refine (merge_eq_ok_of_nonempty hte hse).2 ⟨hw.symm, ValueSet.ext hw ?_⟩
      refine OrderedSet.ext fun a => ?_
      rw [OrderedSet.mem_union, OrderedSet.mem_union, or_comm]

theorem merge_assoc (hs : s.Built) (ht : t.Built) (hu : u.Built) (hx : s.merge t = .ok x)
    (hv : x.merge u = .ok v) : ∃ y, t.merge u = .ok y ∧ s.merge y = .ok v := by
  cases hse : s.isEmpty with
  | true =>
    rw [merge_of_isEmpty hse] at hx
    obtain rfl := Except.ok.inj hx
    exact ⟨v, hv, merge_of_isEmpty hse v⟩
  | false =>
    cases hte : t.isEmpty with
    | true =>
      rw [hs.merge_isEmpty ht hte] at hx
      obtain rfl := Except.ok.inj hx
      exact ⟨u, merge_of_isEmpty hte u, hv⟩
    | false =>
      cases hue : u.isEmpty with
      | true =>
        rw [(Built.merge hs ht hx).merge_isEmpty hu hue] at hv
        obtain rfl := Except.ok.inj hv
        exact ⟨t, ht.merge_isEmpty hu hue, hx⟩
      | false =>
        -- no set gives way, so all have one width
        obtain ⟨hst, rfl⟩ := (merge_eq_ok_of_nonempty hse hte).1 hx
        obtain ⟨hsu, rfl⟩ := (merge_eq_ok_of_nonempty (isEmpty_union hse _) hue).1 hv
        have htu : t.width = u.width := hst.symm.trans hsu
        refine ⟨_, (merge_eq_ok_of_nonempty hte hue).2 ⟨htu, rfl⟩, ?_⟩
        refine (merge_eq_ok_of_nonempty hse (isEmpty_union hte _)).2 ⟨hst, ValueSet.ext rfl ?_⟩
        refine OrderedSet.ext fun a => ?_
        simp only [OrderedSet.mem_union, or_assoc]

end Built

end ValueSet

namespace Frame

variable {α : Type} [Coded α] [HasBase α] {tag : Witness → α} {f g h j : Frame (ValueSet α)}

/-- Every slot holds a set that can be built. -/
def Built (f : Frame (ValueSet α)) : Prop := ∀ slot s, f.get? slot = some s → s.Built

theorem Built.locals (hf : f.Built) {k : Nat} {s : ValueSet α} (hs : f.local? k = some s) :
    s.Built :=
  hf (.var k) s hs

theorem Built.stack (hf : f.Built) {s : ValueSet α} (hs : s ∈ f.stack) : s.Built := by
  obtain ⟨slot, hslot⟩ := exists_get?_of_mem_stack hs
  exact hf slot s hslot

/-- Joins hold sets that can be built if the frames do. -/
theorem Built.join (hf : f.Built) (hg : g.Built) (hj : Joined (.tracking tag) f g j) :
    j.Built := by
  intro slot s hs
  cases slot with
  | var k =>
    rcases hj.of_local? hs with ⟨hv, -⟩ | ⟨-, hw⟩ | ⟨v, w, hv, hw, hm⟩
    · exact hf.locals hv
    · exact hg.locals hw
    · exact .merge (hf.locals hv) (hg.locals hw) hm
  | stack k =>
    obtain ⟨v, hv, w, hw, hm⟩ := hj.exists_of_mem (List.mem_reverse.1 (List.mem_of_getElem? hs))
    exact .merge (hf.stack hv) (hg.stack hw) hm

omit [HasBase α] in
theorem WidthsAgree.symm (hw : f.WidthsAgree g) : g.WidthsAgree f :=
  fun k v w hv hw' => (hw k w v hw' hv).symm

/-! ## One slot -/

namespace JoinedLocal

variable {x y z a b : Option (ValueSet α)}

theorem none_left {V : Type} [AbstractValue V] (I : Interpreter V) (v : Option V) :
    JoinedLocal I none v v := by
  cases v with
  | none => exact .unset
  | some v => exact .right v

theorem self (tag : Witness → α) (x : Option (ValueSet α)) : JoinedLocal (.tracking tag) x x x := by
  cases x with
  | none => exact .unset
  | some s => exact .merged rfl s.merge_self

theorem comm (hx : ∀ s, x = some s → s.Built) (hy : ∀ s, y = some s → s.Built)
    (hxy : JoinedLocal (.tracking tag) x y a) : JoinedLocal (.tracking tag) y x a := by
  cases hxy with
  | unset => exact .unset
  | left v => exact .right v
  | right w => exact .left w
  | merged hw hm => exact .merged hw.symm ((hx _ rfl).merge_comm (hy _ rfl) hm)
  | dropped hw => exact .dropped (Ne.symm hw)

/-- Locals that are set to values of one width are joined in either grouping. -/
theorem assoc (hx : ∀ s, x = some s → s.Built) (hy : ∀ s, y = some s → s.Built)
    (hz : ∀ s, z = some s → s.Built) (hxy : ∀ s t, x = some s → y = some t → s.width = t.width)
    (hxz : ∀ s u, x = some s → z = some u → s.width = u.width)
    (hyz : ∀ t u, y = some t → z = some u → t.width = u.width)
    (ha : JoinedLocal (.tracking tag) x y a) (hb : JoinedLocal (.tracking tag) a z b) :
    ∃ c, JoinedLocal (.tracking tag) y z c ∧ JoinedLocal (.tracking tag) x c b := by
  cases ha with
  | unset =>
    -- where one local is unset, the two groupings are the same
    exact ⟨b, hb, none_left _ b⟩
  | left => exact ⟨z, none_left _ z, hb⟩
  | right => exact ⟨b, hb, none_left _ b⟩
  | dropped hw => exact absurd (hxy _ _ rfl rfl) hw
  | @merged s t m hw hm =>
    cases hb with
    | left => exact ⟨_, .left t, .merged hw hm⟩
    | dropped hw' =>
      -- what is merged has the width of both, so the third local fits it
      have hms : m.width = s.width := ValueSet.width_of_merge hm hw
      exact absurd (hms.trans (hxz _ _ rfl rfl)) hw'
    | merged _ hm' =>
      have htu := hyz _ _ rfl rfl
      obtain ⟨n, hn, hv⟩ := (hx _ rfl).merge_assoc (hy _ rfl) (hz _ rfl) hm hm'
      have hnt : n.width = t.width := ValueSet.width_of_merge hn htu
      exact ⟨_, .merged htu hn, .merged (hw.trans hnt.symm) hv⟩

end JoinedLocal

/-! ## All slots -/

/-- Locals are joined in either grouping if every one of them is. -/
theorem joinLocals_assoc {V : Type} [AbstractValue V] {I : Interpreter V}
    {l m n a b : List (Option V)} (hlm : l.length = m.length) (hmn : m.length = n.length)
    (hassoc : ∀ (k : Nat) v w, JoinedLocal I (l[k]?.join) (m[k]?.join) v →
      JoinedLocal I v (n[k]?.join) w →
      ∃ u, JoinedLocal I (m[k]?.join) (n[k]?.join) u ∧ JoinedLocal I (l[k]?.join) u w)
    (ha : (joinLocals I l m).outcome = .ok a) (hb : (joinLocals I a n).outcome = .ok b) :
    ∃ c, (joinLocals I m n).outcome = .ok c ∧ (joinLocals I l c).outcome = .ok b := by
  induction l generalizing m n a b with
  | nil =>
    obtain rfl : m = [] := List.length_eq_zero_iff.1 hlm.symm
    obtain rfl : n = [] := List.length_eq_zero_iff.1 hmn.symm
    obtain rfl : [] = a := Except.ok.inj ha
    exact ⟨[], rfl, hb⟩
  | cons x l ih =>
    obtain ⟨y, m, rfl⟩ := List.exists_cons_of_length_eq_add_one hlm.symm
    obtain ⟨z, n, rfl⟩ := List.exists_cons_of_length_eq_add_one hmn.symm
    obtain ⟨v, rest, hv, hrest, rfl⟩ := joinLocals_cons_eq_ok.1 ha
    obtain ⟨w, rest', hw, hrest', rfl⟩ := joinLocals_cons_eq_ok.1 hb
    obtain ⟨u, hu, hu'⟩ := hassoc 0 v w (joinLocal_eq_ok.1 hv) (joinLocal_eq_ok.1 hw)
    obtain ⟨c, hc, hc'⟩ := ih (Nat.succ.inj hlm) (Nat.succ.inj hmn)
      (fun k => hassoc (k + 1)) hrest hrest'
    exact ⟨u :: c, joinLocals_cons_eq_ok.2 ⟨u, c, joinLocal_eq_ok.2 hu, hc, rfl⟩,
      joinLocals_cons_eq_ok.2 ⟨w, rest', joinLocal_eq_ok.2 hu', hc', rfl⟩⟩

/-- Stacks are joined in either grouping if their entries are merged so. -/
theorem joinStacks_assoc {V : Type} {I : Interpreter V} {s t r a b : List V}
    (hst : s.length = t.length) (htr : t.length = r.length)
    (hassoc : ∀ x ∈ s, ∀ y ∈ t, ∀ z ∈ r, ∀ v w, I.merge x y = .ok v → I.merge v z = .ok w →
      ∃ u, I.merge y z = .ok u ∧ I.merge x u = .ok w)
    (ha : (joinStacks I s t).outcome = .ok a) (hb : (joinStacks I a r).outcome = .ok b) :
    ∃ c, (joinStacks I t r).outcome = .ok c ∧ (joinStacks I s c).outcome = .ok b := by
  induction s generalizing t r a b with
  | nil =>
    obtain rfl : t = [] := List.length_eq_zero_iff.1 hst.symm
    obtain rfl : r = [] := List.length_eq_zero_iff.1 htr.symm
    obtain rfl : [] = a := Except.ok.inj ha
    exact ⟨[], rfl, hb⟩
  | cons x s ih =>
    obtain ⟨y, t, rfl⟩ := List.exists_cons_of_length_eq_add_one hst.symm
    obtain ⟨z, r, rfl⟩ := List.exists_cons_of_length_eq_add_one htr.symm
    obtain ⟨rest, v, hrest, hv, rfl⟩ := joinStacks_cons_eq_ok.1 ha
    obtain ⟨rest', w, hrest', hw, rfl⟩ := joinStacks_cons_eq_ok.1 hb
    obtain ⟨u, hu, hu'⟩ := hassoc x List.mem_cons_self y List.mem_cons_self z List.mem_cons_self
      v w hv hw
    obtain ⟨c, hc, hc'⟩ := ih (Nat.succ.inj hst) (Nat.succ.inj htr)
      (fun x hx y hy z hz => hassoc x (.tail _ hx) y (.tail _ hy) z (.tail _ hz)) hrest hrest'
    exact ⟨u :: c, joinStacks_cons_eq_ok.2 ⟨c, u, hc, hu, rfl⟩,
      joinStacks_cons_eq_ok.2 ⟨rest', w, hc', hu', rfl⟩⟩

/-! ## Whole frames -/

theorem Joined.self (tag : Witness → α) (f : Frame (ValueSet α)) :
    Joined (.tracking tag) f f f where
  height := rfl
  size := rfl
  limit := rfl
  size_joined := rfl
  locals k := .self tag (f.local? k)
  height_joined := rfl
  stack k v w hv hw := by
    obtain rfl : v = w := Option.some.inj (hv.symm.trans hw)
    exact ⟨v, hv, v.merge_self⟩

theorem Joined.comm (hf : f.Built) (hg : g.Built) (hm : f.maxStack = g.maxStack)
    (hj : Joined (.tracking tag) f g j) : Joined (.tracking tag) g f j where
  height := hj.height.symm
  size := hj.size.symm
  limit := hj.limit.trans hm
  size_joined := hj.size_joined.trans hj.size
  locals k := (hj.locals k).comm (fun _ hs => hf.locals hs) fun _ hs => hg.locals hs
  height_joined := hj.height_joined.trans hj.height
  stack k w v hw hv := by
    obtain ⟨u, hu, hm⟩ := hj.stack k v w hv hw
    exact ⟨u, hu, (hf.stack (List.mem_of_getElem? hv)).merge_comm
      (hg.stack (List.mem_of_getElem? hw)) hm⟩

theorem Joined.assoc {a b : Frame (ValueSet α)} (hf : f.Built) (hg : g.Built) (hh : h.Built)
    (hfg : f.WidthsAgree g) (hfh : f.WidthsAgree h) (hgh : g.WidthsAgree h)
    (ha : Joined (.tracking tag) f g a) (hb : Joined (.tracking tag) a h b) :
    ∃ c, Joined (.tracking tag) g h c ∧ Joined (.tracking tag) f c b := by
  have hheight : g.stack.length = h.stack.length :=
    ha.height.symm.trans (ha.height_joined.symm.trans hb.height)
  have hsize : g.locals.length = h.locals.length :=
    ha.size.symm.trans (ha.size_joined.symm.trans hb.size)
  obtain ⟨-, -, hlimit, hla, hsa⟩ := joined_iff.1 ha
  obtain ⟨-, -, hlimit', hlb, hsb⟩ := joined_iff.1 hb
  obtain ⟨locals, hlocals, hlocals'⟩ := joinLocals_assoc ha.size hsize
    (fun k _ _ => JoinedLocal.assoc (fun _ => hf.locals) (fun _ => hg.locals)
      (fun _ => hh.locals) (hfg k) (hfh k) (hgh k)) hla hlb
  obtain ⟨stack, hstack, hstack'⟩ := joinStacks_assoc ha.height hheight
    (fun _ hx _ hy _ hz _ _ => (hf.stack hx).merge_assoc (hg.stack hy) (hh.stack hz)) hsa hsb
  have hc : Joined (.tracking tag) g h ⟨locals, stack, g.maxStack⟩ :=
    joined_iff.2 ⟨hheight, hsize, rfl, hlocals, hstack⟩
  exact ⟨_, hc, joined_iff.2 ⟨ha.height.trans hc.height_joined.symm,
    ha.size.trans hc.size_joined.symm, hlimit'.trans hlimit, hlocals', hstack'⟩⟩

/-- Joining is idempotent and commutative, and it is associative where no local is set in two of
three frames with different widths. -/
theorem join_laws (tag : Witness → α) (hf : f.Built) (hg : g.Built) (hh : h.Built)
    (hfg : f.maxStack = g.maxStack) (hgh : g.maxStack = h.maxStack) :
    (join (.tracking tag) f f).outcome = .ok f ∧
    (∀ j, (join (.tracking tag) f g).outcome = .ok j ↔ (join (.tracking tag) g f).outcome = .ok j) ∧
    (f.WidthsAgree g → f.WidthsAgree h → g.WidthsAgree h → ∀ j,
      (join (.tracking tag) f g >>= fun fg => join (.tracking tag) fg h).outcome = .ok j ↔
        (join (.tracking tag) g h >>= fun gh => join (.tracking tag) f gh).outcome = .ok j) := by
  refine ⟨join_eq_ok.2 (.self tag f), fun j => ?_, fun hwfg hwfh hwgh j => ?_⟩
  · rw [join_eq_ok, join_eq_ok]
    exact ⟨.comm hf hg hfg, .comm hg hf hfg.symm⟩
  · simp only [Traced.bind_outcome_eq_ok, join_eq_ok]
    constructor
    · rintro ⟨a, ha, hb⟩
      exact ha.assoc hf hg hh hwfg hwfh hwgh hb
    · rintro ⟨c, hc, hb⟩
      -- the other grouping is the first one read from the right
      have hcb := hb.comm hf (hg.join hh hc) (hfg.trans hc.limit.symm)
      obtain ⟨a, ha, hab⟩ := (hc.comm hg hh hgh).assoc hh hg hf hwgh.symm hwfh.symm hwfg.symm hcb
      have hag := ha.comm hg hf hfg.symm
      exact ⟨a, hag, hab.comm hh (hf.join hg hag) (hgh.symm.trans (hfg.symm.trans hag.limit.symm))⟩

/-- An argument in the first local, and a long number on the stack. -/
def setsFirst : Frame PossibleValues :=
  ⟨[some (.single ⟨.parameter 0, .int⟩), none], [.single ⟨.instruction 0, .long⟩], 1⟩

/-- The second local is empty and so is the value on the stack. -/
def setsSecond : Frame PossibleValues := ⟨[none, some .empty], [.empty], 1⟩

/-- A number in each local, and a long one on the stack. -/
def setsBoth : Frame PossibleValues :=
  ⟨[some (.single ⟨.instruction 2, .int⟩), some (.single ⟨.parameter 1, .int⟩)],
    [.single ⟨.instruction 1, .long⟩], 1⟩

theorem built_setsFirst : setsFirst.Built := by
  intro slot s hs
  match slot with
  | .var 0 => exact Option.some.inj hs ▸ .single _
  | .var 1 => cases hs
  | .var (_ + 2) => cases hs
  | .stack 0 => exact Option.some.inj hs ▸ .single _
  | .stack (_ + 1) => cases hs

theorem built_setsSecond : setsSecond.Built := by
  intro slot s hs
  match slot with
  | .var 0 => cases hs
  | .var 1 => exact Option.some.inj hs ▸ .empty
  | .var (_ + 2) => cases hs
  | .stack 0 => exact Option.some.inj hs ▸ .empty
  | .stack (_ + 1) => cases hs

theorem built_setsBoth : setsBoth.Built := by
  intro slot s hs
  match slot with
  | .var 0 => exact Option.some.inj hs ▸ .single _
  | .var 1 => exact Option.some.inj hs ▸ .single _
  | .var (_ + 2) => cases hs
  | .stack 0 => exact Option.some.inj hs ▸ .single _
  | .stack (_ + 1) => cases hs

/-- The first two frames joined with the third, or the first with the other two: the empty sets are
gone either way. -/
theorem join_laws_setsBoth :
    ∃ j, (join .possibleValues setsFirst setsSecond >>=
        fun fg => join .possibleValues fg setsBoth).outcome = .ok j ∧
      (join .possibleValues setsSecond setsBoth >>=
        fun gh => join .possibleValues setsFirst gh).outcome = .ok j ∧
      j.local? 1 = some (.single ⟨.parameter 1, .int⟩) := by
  obtain ⟨-, -, hassoc⟩ := join_laws id built_setsFirst built_setsSecond built_setsBoth rfl rfl
  obtain ⟨j, hj⟩ : ∃ j, (join .possibleValues setsFirst setsSecond >>=
    fun fg => join .possibleValues fg setsBoth).outcome = .ok j := ⟨_, rfl⟩
  refine ⟨j, hj, (hassoc (by decide +kernel) (by decide +kernel) (by decide +kernel) j).1 hj, ?_⟩
  obtain rfl := Except.ok.inj hj
  decide +kernel

end Frame

end Provenance

/-
Frames that are alike, slot by slot.

Two frames are alike in a relation of values if they have the same slots set and the values in each
slot are related. Executing an instruction keeps frames alike if the interpreters make related values
(`Frame.Alike.execute`), and so does a join of two pairs of alike frames if related values are merged
alike (`Frame.Alike.join`); in both cases the two sides ask the same questions and end alike, errors
included. If the relation is a function, the second frame is the image of the first
(`Frame.alike_iff_map`).
-/
import Provenance.Frame.Join
import Provenance.Proofs.Tracking

set_option autoImplicit false

namespace Provenance

namespace Frame

variable {V W : Type}

/-- Frames with related values in the same slots. -/
structure Alike (values : V → W → Prop) (f : Frame V) (g : Frame W) : Prop where
  locals : List.Forall₂ (Option.Rel values) f.locals g.locals
  stack : List.Forall₂ values f.stack g.stack
  limit : f.maxStack = g.maxStack

/-! ## Alike frames, slot by slot -/

variable {values : V → W → Prop} {f : Frame V} {g : Frame W}

theorem Alike.refl {same : V → V → Prop} (h : ∀ v, same v v) (f : Frame V) : f.Alike same f := by
  refine ⟨List.forall₂_same.2 fun v _ => ?_, List.forall₂_same.2 fun v _ => h v, rfl⟩
  cases v with
  | none => exact .none
  | some v => exact .some (h v)

/-- What is said of related values may be weakened, in the light of where the first one is. -/
theorem Alike.imp_of {values' : V → W → Prop} (h : f.Alike values g)
    (hlocals : ∀ k v w, f.local? k = some v → values v w → values' v w)
    (hstack : ∀ v ∈ f.stack, ∀ w, values v w → values' v w) : f.Alike values' g := by
  refine ⟨List.forall₂_iff_get.2 ⟨h.locals.length_eq, fun k hk hk' => ?_⟩,
    List.forall₂_iff_get.2 ⟨h.stack.length_eq, fun k hk hk' => ?_⟩, h.limit⟩
  · have hvw := h.locals.get hk hk'
    have hlocal : f.local? k = f.locals[k] := by
      unfold Frame.local?
      rw [List.getElem?_eq_getElem hk]
      rfl
    show Option.Rel values' f.locals[k] g.locals[k]
    change Option.Rel values f.locals[k] g.locals[k] at hvw
    generalize f.locals[k] = v at hvw hlocal ⊢
    generalize g.locals[k] = w at hvw ⊢
    cases hvw with
    | none => exact .none
    | some hvw => exact .some (hlocals k _ _ hlocal hvw)
  · exact hstack _ (List.getElem_mem hk) _ (h.stack.get hk hk')

theorem Alike.imp {values' : V → W → Prop} (h : f.Alike values g)
    (k : ∀ v w, values v w → values' v w) : f.Alike values' g :=
  h.imp_of (fun _ v w _ => k v w) fun v _ w => k v w

theorem Alike.local? (h : f.Alike values g) (k : Nat) :
    Option.Rel values (f.local? k) (g.local? k) := by
  show Option.Rel values (f.locals[k]?.join) (g.locals[k]?.join)
  have hlen := h.locals.length_eq
  by_cases hk : k < f.locals.length
  · rw [List.getElem?_eq_getElem hk, List.getElem?_eq_getElem (by omega)]
    exact h.locals.get hk (by omega)
  · rw [List.getElem?_eq_none (by omega), List.getElem?_eq_none (by omega)]
    exact .none

theorem Alike.get? (h : f.Alike values g) (slot : Slot) :
    Option.Rel values (f.get? slot) (g.get? slot) := by
  cases slot with
  | var k => exact h.local? k
  | stack height =>
    show Option.Rel values (f.stack.reverse[height]?) (g.stack.reverse[height]?)
    have hrev := List.rel_reverse h.stack
    have hlen := hrev.length_eq
    by_cases hk : height < f.stack.reverse.length
    · rw [List.getElem?_eq_getElem hk, List.getElem?_eq_getElem (by omega)]
      exact .some (hrev.get hk (by omega))
    · rw [List.getElem?_eq_none (by omega), List.getElem?_eq_none (by omega)]
      exact .none

/-- Frames are alike exactly if their locals are related one by one, without gaps. -/
theorem alike_iff_frames :
    f.Alike values g ↔
      (Simulation.pointwise (fun _ => False) values f.maxStack).Frames f g := by
  rw [Simulation.pointwise_frames]
  constructor
  · intro h
    refine ⟨⟨h.locals.length_eq, fun k => ?_⟩, h.stack, rfl, h.limit.symm⟩
    have hk := h.local? k
    generalize f.local? k = v at hk ⊢
    generalize g.local? k = w at hk ⊢
    cases hk with
    | none => exact .unset
    | some hvw => exact .set hvw
  · rintro ⟨⟨hlen, heach⟩, hstack, -, hlimit⟩
    refine ⟨List.forall₂_iff_get.2 ⟨hlen, fun k hk hk' => ?_⟩, hstack, hlimit.symm⟩
    have hlocal : Simulation.Local False values f.locals[k] g.locals[k] := by
      have hk := heach k
      unfold Frame.local? at hk
      rwa [List.getElem?_eq_getElem, List.getElem?_eq_getElem] at hk
    show Option.Rel values f.locals[k] g.locals[k]
    generalize f.locals[k] = v at hlocal ⊢
    generalize g.locals[k] = w at hlocal ⊢
    cases hlocal with
    | unset => exact .none
    | gap hgap _ => exact hgap.elim
    | set hvw => exact .some hvw

/-- An optional value that is the image of another. -/
theorem rel_iff_eq_map {φ : V → W} {v : Option V} {w : Option W} :
    Option.Rel (fun v w => w = φ v) v w ↔ w = v.map φ := by
  constructor
  · intro h
    cases h with
    | none => rfl
    | some h => rw [h, Option.map_some]
  · rintro rfl
    cases v with
    | none => exact .none
    | some v => exact .some rfl

/-- If every value goes with its image under a function, the second frame is the image of the
first. -/
theorem alike_iff_map {φ : V → W} : f.Alike (fun v w => w = φ v) g ↔ g = f.map φ := by
  constructor
  · rintro ⟨hlocals, hstack, hlimit⟩
    have hl : g.locals = f.locals.map (Option.map φ) :=
      forall₂_iff_eq_map.1 (hlocals.imp fun v w h => rel_iff_eq_map.1 h)
    have hs : g.stack = f.stack.map φ := forall₂_iff_eq_map.1 hstack
    cases g
    subst hl hs hlimit
    rfl
  · rintro rfl
    have hl : List.Forall₂ (fun v w => w = Option.map φ v) f.locals (f.map φ).locals :=
      forall₂_iff_eq_map.2 rfl
    exact ⟨hl.imp fun v w h => rel_iff_eq_map.2 h, forall₂_iff_eq_map.2 rfl, rfl⟩

/-- Frames with the same values in the same slots are the same. -/
theorem Alike.eq {f g : Frame V} (h : f.Alike (fun v w => w = v) g) : f = g := by
  have hself : f.Alike (fun v w => w = v) f := by
    apply Alike.refl
    intro v
    rfl
  have hf : f = f.map id := alike_iff_map.1 hself
  have hg : g = f.map id := alike_iff_map.1 h
  exact hf.trans hg.symm

theorem exists_get?_of_mem_stack {f : Frame V} {v : V} (hv : v ∈ f.stack) :
    ∃ slot, f.get? slot = some v := by
  obtain ⟨k, hk⟩ := List.mem_iff_getElem?.1 (List.mem_reverse.2 hv)
  exact ⟨.stack k, hk⟩

theorem exists_get?_of_mem_locals {f : Frame V} {v : V} (hv : some v ∈ f.locals) :
    ∃ slot, f.get? slot = some v := by
  obtain ⟨k, hk⟩ := List.mem_iff_getElem?.1 hv
  refine ⟨.var k, ?_⟩
  show f.locals[k]?.join = some v
  rw [hk]
  rfl

theorem get?_map (φ : V → W) (f : Frame V) (slot : Slot) :
    (f.map φ).get? slot = (f.get? slot).map φ :=
  rel_iff_eq_map.1 ((alike_iff_map.2 rfl : f.Alike (fun v w => w = φ v) (f.map φ)).get? slot)

theorem map_id (f : Frame V) : f.map id = f := by
  unfold Frame.map
  rw [Option.map_id, List.map_id, List.map_id]

theorem map_map {X : Type} (φ : V → W) (ψ : W → X) (f : Frame V) : (f.map φ).map ψ = f.map (ψ ∘ φ) := by
  unfold Frame.map
  simp only [List.map_map, Option.map_comp_map]

/-- Frames that look the same in every slot have the same image. -/
theorem Alike.map_eq {X : Type} {φ : V → X} {ψ : W → X}
    (h : f.Alike (fun v w => φ v = ψ w) g) : f.map φ = g.map ψ := by
  have hrel : ∀ {v : Option V} {w : Option W}, Option.Rel (fun v w => φ v = ψ w) v w →
      v.map φ = w.map ψ := by
    intro v w hvw
    cases hvw with
    | none => rfl
    | some hvw => exact congrArg some hvw
  have hlocals : f.locals.map (Option.map φ) = g.locals.map (Option.map ψ) := by
    rw [← List.forall₂_eq_eq_eq, List.forall₂_map_left_iff, List.forall₂_map_right_iff]
    exact h.locals.imp fun _ _ => hrel
  have hstack : f.stack.map φ = g.stack.map ψ := by
    rw [← List.forall₂_eq_eq_eq, List.forall₂_map_left_iff, List.forall₂_map_right_iff]
    exact h.stack
  unfold Frame.map
  rw [hlocals, hstack, h.limit]

/-! ## Single steps -/

section Steps

variable {κ κ' : Type} {steps : κ → κ' → Prop}

theorem alike_blank (maxLocals maxStack : Nat) :
    (blank maxLocals maxStack : Frame V).Alike values (blank maxLocals maxStack : Frame W) :=
  ⟨List.forall₂_iff_get.2 ⟨by simp [blank], fun k _ _ => by simp [blank]⟩, .nil, rfl⟩

theorem Alike.setLocal (h : f.Alike values g) (index : Nat) {v : Option V} {w : Option W}
    (hv : Option.Rel values v w) :
    Traced.Match steps (Alike values) (.quiet (f.setLocal index v))
      (.quiet (g.setLocal index w)) := by
  unfold Frame.setLocal
  rw [← h.locals.length_eq]
  split
  · exact .pure ⟨forall₂_set h.locals index hv, h.stack, h.limit⟩
  · exact .throw _

theorem Alike.clearStack (h : f.Alike values g) : f.clearStack.Alike values g.clearStack :=
  ⟨h.locals, .nil, h.limit⟩

theorem Alike.push (h : f.Alike values g) {v : V} {w : W} (hv : values v w) :
    Traced.Match steps (Alike values) (.quiet (f.push v)) (.quiet (g.push w)) := by
  unfold Frame.push
  rw [← h.stack.length_eq, ← h.limit]
  split
  · exact .pure ⟨h.locals, .cons hv h.stack, rfl⟩
  · exact .throw _

end Steps

/-! ## Executing an instruction -/

section Tracking

variable {α β : Type} [Coded α] [HasBase α] [Coded β] [HasBase β] {tag : Witness → α}
  {tag' : Witness → β} {values : ValueSet α → ValueSet β → Prop} {i : Instruction}
  {f : Frame (ValueSet α)} {g : Frame (ValueSet β)}

/-- Alike frames are changed alike by trackers that make related values. -/
theorem Alike.execute (hwidth : ∀ v w, values v w → v.width = w.width)
    (hcreated : ∀ t, i.Produces t → t ≠ .void →
      values (.single (tag ⟨.instruction i.index, t⟩))
        (.single (tag' ⟨.instruction i.index, t⟩)))
    (h : f.Alike values g) (returnType : JType) :
    Traced.Match (Call.Related values) (Alike values)
      (Frame.execute (.tracking tag) i returnType f)
      (Frame.execute (.tracking tag') i returnType g) := by
  have hS : (Simulation.pointwise (fun _ => False) values f.maxStack).Respected (.tracking tag)
      (.tracking tag') i :=
    Interpreter.tracking_respected_pointwise hwidth hcreated
  have hx := hS.execute (alike_iff_frames.1 h) returnType
  generalize Frame.execute (.tracking tag) i returnType f = x at hx ⊢
  generalize Frame.execute (.tracking tag') i returnType g = y at hx ⊢
  cases hx with
  | @ok t t' f' g' ht hfr =>
    have hlimit : f'.maxStack = f.maxStack := hfr.limit
    exact .ok ht (alike_iff_frames.2 (hlimit ▸ hfr))
  | error ht => exact .error ht
  | tolerated he =>
    obtain ⟨_, hgap, -⟩ := he
    exact hgap.elim

end Tracking

/-! ## Joins -/

section Joins

variable [AbstractValue V] [AbstractValue W] {I : Interpreter V} {J : Interpreter W}

/-- What two interpreters must satisfy for joins of alike frames to be alike. -/
structure MergesAlike (values : V → W → Prop) (I : Interpreter V) (J : Interpreter W) : Prop where
  width : ∀ {v w}, values v w → AbstractValue.width v = AbstractValue.width w
  merge : ∀ {v w v' w'}, values v w → values v' w' →
    Traced.Match (Call.Related values) values (.quiet (I.merge v v')) (.quiet (J.merge w w'))

namespace MergesAlike

variable (hm : MergesAlike values I J)
include hm

theorem askMerge {v v' : V} {w w' : W} (h : values v w) (h' : values v' w') :
    Traced.Match (Call.Related values) values (I.askMerge v v') (J.askMerge w w') :=
  .record (.merge h h') (hm.merge h h')

theorem joinLocal {v v' : Option V} {w w' : Option W} (h : Option.Rel values v w)
    (h' : Option.Rel values v' w') :
    Traced.Match (Call.Related values) (Option.Rel values) (Frame.joinLocal I v v')
      (Frame.joinLocal J w w') := by
  cases h with
  | none =>
    cases h' with
    | none => exact .pure .none
    | some h' => exact .pure (.some h')
  | some h =>
    cases h' with
    | none => exact .pure (.some h)
    | some h' =>
      unfold Frame.joinLocal
      dsimp only
      rw [hm.width h, hm.width h']
      split
      · exact .bind (hm.askMerge h h') fun _ _ hu => .pure (.some hu)
      · exact .pure .none

theorem joinLocals {l l' : List (Option V)} {r r' : List (Option W)}
    (h : List.Forall₂ (Option.Rel values) l r) (h' : List.Forall₂ (Option.Rel values) l' r') :
    Traced.Match (Call.Related values) (List.Forall₂ (Option.Rel values)) (Frame.joinLocals I l l')
      (Frame.joinLocals J r r') := by
  induction h generalizing l' r' with
  | nil => exact .pure .nil
  | cons hv _ ih =>
    cases h' with
    | nil => exact .pure .nil
    | cons hv' h' =>
      refine .bind (hm.joinLocal hv hv') fun _ _ hu => ?_
      exact .bind (ih h') fun _ _ hrest => .pure (.cons hu hrest)

theorem joinStacks {s s' : List V} {r r' : List W} (h : List.Forall₂ values s r)
    (h' : List.Forall₂ values s' r') :
    Traced.Match (Call.Related values) (List.Forall₂ values) (Frame.joinStacks I s s')
      (Frame.joinStacks J r r') := by
  induction h generalizing s' r' with
  | nil => exact .pure .nil
  | cons hv _ ih =>
    cases h' with
    | nil => exact .pure .nil
    | cons hv' h' =>
      refine .bind (ih h') fun _ _ hrest => ?_
      exact .bind (hm.askMerge hv hv') fun _ _ hu => .pure (.cons hu hrest)

end MergesAlike

/-- Alike frames are joined alike. -/
theorem Alike.join (hm : MergesAlike values I J) {f' : Frame V} {g' : Frame W}
    (h : f.Alike values g) (h' : f'.Alike values g') :
    Traced.Match (Call.Related values) (Alike values) (Frame.join I f f') (Frame.join J g g') := by
  unfold Frame.join
  rw [← h.stack.length_eq, ← h'.stack.length_eq, ← h.locals.length_eq, ← h'.locals.length_eq]
  split
  · exact .throw _
  split
  · exact .throw _
  refine .bind (hm.joinLocals h.locals h'.locals) fun _ _ hlocals => ?_
  exact .bind (hm.joinStacks h.stack h'.stack) fun _ _ hstack => .pure ⟨hlocals, hstack, h.limit⟩

end Joins

end Frame

end Provenance

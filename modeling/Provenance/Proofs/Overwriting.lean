/-
What a store overwrites.

A store writes the local of its operand. If the value is wide it needs the local behind as well, and
unsets it; if the local before holds a wide value, its second half is written over, and it is unset
too. Both neighbours may be halves of other values, and either may not be there. A store changes
nothing else (`Frame.Overwritten`), and what it has written can be loaded back.

So frames in which no wide local overlaps the one behind stay so. Besides stores only increments
write to a local. It holds a value already, and what they write is narrow.
-/
import Provenance.Proofs.WellFormed

set_option autoImplicit false

namespace Provenance

namespace Opcode

/-- The instructions that push the value of a local. -/
def loads : List Opcode := [.iload, .lload, .fload, .dload, .aload]

/-- The instructions that pop a value into a local. -/
def stores : List Opcode := [.istore, .lstore, .fstore, .dstore, .astore]

theorem mem_loads {op : Opcode} : op ∈ loads ↔ op.effect = .load := by
  cases op <;> decide

theorem mem_stores {op : Opcode} : op ∈ stores ↔ op.effect = .store := by
  cases op <;> decide

end Opcode

namespace Frame

section Store

variable {V : Type} [AbstractValue V] {f g : Frame V} {index : Nat} {v : V}

/-- A value has been written to a local: the local behind is unset if the value is wide, the local
before is unset if it held a wide value, and all others are as they were. -/
structure Overwritten (f : Frame V) (index : Nat) (v : V) (g : Frame V) : Prop where
  size : g.locals.length = f.locals.length
  held : g.local? index = some v
  behind : AbstractValue.width v = 2 → g.local? (index + 1) = none
  before : ∀ k w, k + 1 = index → f.local? k = some w → AbstractValue.width w = 2 →
    g.local? k = none
  kept : ∀ k, k ≠ index → (k = index + 1 → AbstractValue.width v ≠ 2) →
    (k + 1 = index → ∀ w, f.local? k = some w → AbstractValue.width w ≠ 2) →
    g.local? k = f.local? k

/-- A store overwrites as it should, whatever is on the stack. -/
theorem overwritten_stored (h : index < f.locals.length) (v : V) (rest : List V) :
    f.Overwritten index v (({ f with stack := rest } : Frame V).stored index v) := by
  have hlocal : ∀ k, (({ f with stack := rest } : Frame V).stored index v).local? k
      = afterStore index v k (f.local? k) := local?_stored (f := { f with stack := rest }) h v
  refine ⟨length_stored _ index v, ?_, fun hv => ?_, fun k w hk hw hwide => ?_,
    fun k hne hbehind hbefore => ?_⟩
  · rw [hlocal, afterStore, if_pos rfl]
  · rw [hlocal, afterStore, if_neg (by omega), if_pos ⟨rfl, hv⟩]
  · rw [hlocal, afterStore, if_neg (by omega), if_neg (by omega), hw]
    exact if_pos ⟨hk, decide_eq_true hwide⟩
  · rw [hlocal, afterStore, if_neg hne, if_neg fun hk => hbehind hk.1 hk.2, if_neg]
    rintro ⟨hk, hany⟩
    obtain ⟨w, hw, hwide⟩ := (Option.any_eq_true ..).1 hany
    exact hbefore hk w hw (of_decide_eq_true hwide)

/-! ## Loads and stores -/

variable {I : Interpreter V} {i : Instruction} {rest : List V}

/-- What a store of the top of the stack into a local does: it succeeds exactly if there is room for
the value in the locals, overwrites what it should and leaves the rest of the stack, and a load brings
the value back. -/
structure StoresInto (I : Interpreter V) (i : Instruction) (returnType : JType) (f : Frame V)
    (index : Nat) (v : V) (rest : List V) : Prop where
  succeeds : (∃ g, (execute I i returnType f).outcome = .ok g) ↔
    index < f.locals.length ∧ (AbstractValue.width v = 2 → index + 1 < f.locals.length)
  overwritten : ∀ g, (execute I i returnType f).outcome = .ok g → f.Overwritten index v g
  popped : ∀ g, (execute I i returnType f).outcome = .ok g → g.stack = rest
  loaded : ∀ g, (execute I i returnType f).outcome = .ok g → ∀ j : Instruction,
    j.opcode ∈ Opcode.loads → j.operand.var? = some index → ∀ returnType,
      (execute I j returnType g).outcome = .ok { g with stack := f.stack }

variable (hcopy : ∀ i v, I.copy i v = .ok v) (hop : i.opcode ∈ Opcode.stores)
  (hvar : i.operand.var? = some index) (hstack : f.stack = v :: rest)
include hcopy hop hvar hstack

/-- A storing instruction stores the top of the stack if copies are the values themselves. -/
theorem execute_store_iff (returnType : JType) :
    (execute I i returnType f).outcome = .ok g ↔
      (index < f.locals.length ∧ (AbstractValue.width v = 2 → index + 1 < f.locals.length)) ∧
        g = ({ f with stack := rest } : Frame V).stored index v := by
  rw [execute_store_eq_ok (Opcode.mem_stores.1 hop), hvar, hstack]
  refine Iff.trans ?_ (store_eq_ok (f := { f with stack := rest }))
  constructor
  · rintro ⟨index', v', rest', copy, hvar', hstack', hcopied, h⟩
    obtain rfl := Option.some.inj hvar'
    obtain ⟨rfl, rfl⟩ := List.cons.inj hstack'
    obtain rfl : v = copy := Except.ok.inj ((hcopy i v).symm.trans hcopied)
    exact h
  · intro h
    exact ⟨index, v, rest, v, rfl, rfl, hcopy i v, h⟩

theorem storesInto (hfits : f.Fits) (returnType : JType) :
    StoresInto I i returnType f index v rest := by
  have hexecute := fun g =>
    execute_store_iff (g := g) hcopy hop hvar hstack returnType
  have hoverwritten : ∀ g, (execute I i returnType f).outcome = .ok g →
      f.Overwritten index v g := by
    intro g hg
    obtain ⟨⟨hlt, -⟩, rfl⟩ := (hexecute g).1 hg
    exact overwritten_stored hlt v rest
  refine ⟨?_, hoverwritten, fun g hg => ?_, fun g hg j hj hjvar returnType => ?_⟩
  · exact ⟨fun ⟨g, hg⟩ => ((hexecute g).1 hg).1, fun h => ⟨_, (hexecute _).2 ⟨h, rfl⟩⟩⟩
  · obtain ⟨-, rfl⟩ := (hexecute g).1 hg
    rfl
  · have hheld := (hoverwritten g hg).held
    obtain ⟨-, rfl⟩ := (hexecute g).1 hg
    -- the entry that was popped has left room for itself
    have hroom : rest.length < f.maxStack := by
      have hle : f.stack.length ≤ f.maxStack := hfits
      rw [hstack, List.length_cons] at hle
      exact hle
    rw [execute_load_eq_ok (Opcode.mem_loads.1 hj), hstack]
    exact ⟨index, v, v, hjvar, hheld, hcopy j v, if_pos hroom⟩

end Store

/-! ## Frames without overlaps -/

section Spaced

variable {α : Type} [Coded α] [HasBase α] {tag : Witness → α} {i : Instruction}
  {returnType : JType} {f g : Frame (ValueSet α)}

/-- Every value is narrow or wide, and a local that holds a wide one is followed by an unset one. -/
structure Spaced (f : Frame (ValueSet α)) : Prop where
  locals : ∀ k v, f.local? k = some v → v.width = 1 ∨ v.width = 2
  stack : ∀ v ∈ f.stack, v.width = 1 ∨ v.width = 2
  clear : f.Clear

/-- Executing an instruction makes no overlaps, and no values but narrow and wide ones. -/
theorem Spaced.execute (htag : ∀ w, HasBase.base (tag w) = w) (hf : f.Spaced)
    (h : (Frame.execute (.tracking tag) i returnType f).outcome = .ok g) : g.Spaced := by
  have hcreated : ∀ t, i.Produces t → t ≠ .void →
      (ValueSet.single (tag ⟨.instruction i.index, t⟩)).width = 1 ∨
        (ValueSet.single (tag ⟨.instruction i.index, t⟩)).width = 2 :=
    fun t _ ht => (Interpreter.proper_single htag ht).size
  obtain ⟨-, hlocals, hstack, -⟩ := execute_preserves_each
    (P := fun v => v.width = 1 ∨ v.width = 2) hcreated hf.locals hf.stack h
  exact ⟨hlocals, hstack, hf.clear.execute htag h⟩

end Spaced

/-- Where copies are the values themselves, stores overwrite what they overlap and nothing else; and
no instruction leaves an overlap among tracked values where there was none. -/
theorem stores_overwrite_and_execute_spaced :
    (∀ (V : Type) [AbstractValue V] (I : Interpreter V) (i : Instruction) (returnType : JType)
      (f : Frame V) (index : Nat) (v : V) (rest : List V), (∀ i v, I.copy i v = .ok v) →
      i.opcode ∈ Opcode.stores → i.operand.var? = some index → f.stack = v :: rest → f.Fits →
      StoresInto I i returnType f index v rest) ∧
    ∀ (i : Instruction) (returnType : JType) (f g : Frame PossibleValues), f.Spaced →
      (execute .possibleValues i returnType f).outcome = .ok g → g.Spaced := by
  constructor
  · intro V _ I i returnType f index v rest hcopy hop hvar hstack hfits
    exact storesInto hcopy hop hvar hstack hfits returnType
  · intro i returnType f g hf h
    exact hf.execute (fun _ => rfl) h

/-- A long value in the first two of three locals, a number in the third, and on the stack another
long value on top of another number. -/
def longBeforeInt : Frame PossibleValues where
  locals := [some (.single ⟨.parameter 0, .long⟩), none, some (.single ⟨.parameter 2, .int⟩)]
  stack := [.single ⟨.instruction 1, .long⟩, .single ⟨.instruction 0, .int⟩]
  maxStack := 2

/-- Stored into the second local, the long value writes over a half of the one before and over the
number behind. -/
theorem stores_overwrite_and_execute_spaced_longBeforeInt :
    ∃ g, (execute .possibleValues ⟨2, .lstore, .var 1⟩ .void longBeforeInt).outcome = .ok g ∧
      g.locals = [none, some (.single ⟨.instruction 1, .long⟩), none] ∧
      longBeforeInt.Overwritten 1 (.single ⟨.instruction 1, .long⟩) g ∧ g.Spaced ∧
      (execute .possibleValues ⟨3, .lload, .var 1⟩ .void g).outcome
        = .ok { g with stack := longBeforeInt.stack } := by
  have hspaced : longBeforeInt.Spaced := by
    refine ⟨fun k v hk => ?_, by decide +kernel, fun k v hk hv => ?_⟩
    · match k with
      | 0 => exact Option.some.inj hk ▸ .inr rfl
      | 2 => exact Option.some.inj hk ▸ .inl rfl
      | 1 | _ + 3 => cases hk
    · match k with
      | 0 => rfl
      | 2 =>
        obtain rfl := Option.some.inj hk
        cases hv
      | 1 | _ + 3 => cases hk
  obtain ⟨hstores, hexecute⟩ := stores_overwrite_and_execute_spaced
  have hinto := hstores PossibleValues .possibleValues ⟨2, .lstore, .var 1⟩ .void longBeforeInt 1
    (.single ⟨.instruction 1, .long⟩) [.single ⟨.instruction 0, .int⟩] (fun _ _ => rfl) (by decide)
    rfl rfl (Nat.le_refl 2)
  have hg : (execute .possibleValues ⟨2, .lstore, .var 1⟩ .void longBeforeInt).outcome
      = .ok ⟨[none, some (.single ⟨.instruction 1, .long⟩), none],
        [.single ⟨.instruction 0, .int⟩], 2⟩ := rfl
  exact ⟨_, hg, rfl, hinto.overwritten _ hg, hexecute _ _ _ _ hspaced hg,
    hinto.loaded _ hg ⟨3, .lload, .var 1⟩ (by decide) rfl .void⟩

end Frame

end Provenance

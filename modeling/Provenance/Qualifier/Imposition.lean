/-
Imposing facts on the values of a frame.

When a fact is imposed on some values, each of them goes on with the fact that its dimension makes
of the old one and the new one. A value may be in many slots at once, so its new version replaces
the old one wherever the frame holds it. In one dimension two versions with the same fact count as
one value; replacements are therefore looked up by the key of the dimension, and all versions with
that key give way to one.

Which one that is depends on the order in which the values are come by, and a set has no order of
its own. Here the members are taken in the sorted order in which they are kept, which stands for one
order among all those that there are; what an imposition may come to in any of them is
`Dimension.MayImpose`.
-/
import Provenance.Frame.Basic
import Provenance.Qualifier.QualifiedValue

set_option autoImplicit false

namespace Provenance

variable {Q : Type} [DecidableEq Q] [Fact Q]

/-- What replaces the values with some keys. -/
structure Replacements (Q : Type) where
  toList : List (DimensionKey Q × QualifiedValue Q)

namespace Replacements

omit [DecidableEq Q] [Fact Q] in
def empty : Replacements Q := ⟨[]⟩

omit [DecidableEq Q] [Fact Q] in
def isEmpty (r : Replacements Q) : Bool := r.toList.isEmpty

omit [Fact Q] in
/-- The replacements with one more, in place of one with the same key. -/
def insert (r : Replacements Q) (key : DimensionKey Q) (v : QualifiedValue Q) :
    Replacements Q :=
  ⟨(key, v) :: r.toList.filter fun p => p.1 ≠ key⟩

omit [Fact Q] in
/-- What replaces the values with a key. -/
def get? (r : Replacements Q) (key : DimensionKey Q) : Option (QualifiedValue Q) :=
  (r.toList.find? fun p => p.1 = key).map Prod.snd

end Replacements

namespace QualifiedValueSet

/-- The members for which there is a replacement, each with it, in the order of the list. -/
def replaced (D : Dimension Q) (r : Replacements Q) :
    List (QualifiedValue Q) → Except AnalysisError (List (QualifiedValue Q × QualifiedValue Q))
  | [] => .ok []
  | v :: rest => do
    let key ← v.key D
    let rest ← replaced D r rest
    match r.get? key with
    | some w => return (v, w) :: rest
    | none => return rest

/-- The set with members replaced, and whether any was. Nothing is looked at if there are no
replacements. The sorted order of the members stands for one of all orders; another may leave other
members, where one that was put in is taken out again. -/
def replace (D : Dimension Q) (r : Replacements Q) (s : QualifiedValueSet Q) :
    Except AnalysisError (QualifiedValueSet Q × Bool) :=
  if r.isEmpty then .ok (s, false)
  else do
    let pairs ← replaced D r s.members.toList
    let members := pairs.foldl (fun members p => (members.erase p.1).insert p.2) s.members
    return ({ s with members }, !pairs.isEmpty)

end QualifiedValueSet

namespace Dimension

/-- The fact of a value, or what is assumed of it if it carries none. -/
def currentFact (D : Dimension Q) (v : QualifiedValue Q) : Except AnalysisError Q :=
  (v.qualifier.extract D).map fun fact => fact.getD D.initial

/-- What replaces the values on which a fact is imposed, a later value counting if two share a key;
a value whose fact does not change is not replaced. The values of a set are listed in their sorted
order, which stands for one order of a set that has none of its own: where versions of a value share
a key, another order may make another table. -/
def replacements (D : Dimension Q) (fact : Q) :
    List (QualifiedValue Q) → Replacements Q → Except AnalysisError (Replacements Q)
  | [], r => .ok r
  | v :: rest, r => do
    let current ← D.currentFact v
    let imposed := D.impose current fact
    if imposed = current then replacements D fact rest r
    else
      let key ← v.key D
      let w ← v.withFact D imposed
      replacements D fact rest (r.insert key w)

/-- Imposes a fact on values wherever a frame holds them. The values themselves are answered as they
are afterwards if `update` says so, and as they were otherwise. This is the outcome in the sorted
order of the members; `Dimension.MayImposeOnValues` is said of all outcomes. -/
def imposeOnValues (D : Dimension Q) (fact : Q) (update : Bool) (values : QualifiedValueSet Q)
    (f : Frame (QualifiedValueSet Q)) :
    Except AnalysisError (QualifiedValueSet Q × Frame (QualifiedValueSet Q)) := do
  let r ← D.replacements fact values.members.toList .empty
  if r.isEmpty then return (values, f)
  else
    let values ← if update then (values.replace D r).map Prod.fst else pure values
    let f ← f.mapM fun s => (s.replace D r).map Prod.fst
    return (values, f)

/-- Imposes a fact on the values of a slot, wherever the frame holds them. A slot without a value
changes nothing. Where versions of a value share a key, it depends on the order of the members what
is left of them. This is the outcome in the sorted order, which stands for one order of sets that
have none of their own; `Dimension.MayImpose` is said of all outcomes. -/
def imposeOnSlot (D : Dimension Q) (fact : Q) (slot : Slot) (f : Frame (QualifiedValueSet Q)) :
    Except AnalysisError (Frame (QualifiedValueSet Q)) :=
  match f.get? slot with
  | none => .ok f
  | some values => (D.imposeOnValues fact false values f).map Prod.snd

end Dimension

end Provenance

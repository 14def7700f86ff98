/-
Values, qualifiers and frames read from JSON documents.

What is read is taken as it stands: a set need not have the width of its members, nor a stack keep to
its limit. The stack of a frame comes with its bottom first. Of two facts for one dimension the later
one counts.
-/
import Provenance.Frame.Basic
import Provenance.Interchange.Read
import Provenance.Qualifier.Nullness

set_option autoImplicit false

namespace Provenance

/-! ## Sets of witnesses -/

structure PossibleValuesDraft where
  width : Option Nat
  witnesses : Option (List Witness)

def PossibleValues.read (levels : Nat) (d : Document) : Read PossibleValues :=
  d.readRecord levels
    [.plain "width" (·.width) (fun a s => { s with width := some a }) Document.readIndex,
     .nested "witnesses" (·.witnesses) (fun a s => { s with witnesses := some a })
       fun levels => Document.readList levels Witness.read]
    (PossibleValuesDraft.mk none none)
    fun s => do return ⟨← s.width, .ofList (← s.witnesses)⟩

/-! ## Qualifiers -/

section Qualifiers

variable {Q : Type} [Fact Q]

structure SingleDraft (Q : Type) where
  dimension : Option DimensionId
  fact : Option Q

structure MultiDraft (Q : Type) where
  facts : Option (List (DimensionId × Q))

def Qualifier.variant? (readFact : Nat → Document → Read Q) :
    String → Option (Variant (Qualifier Q))
  | "Single" => some (.record
      [.plain "dimension" (·.dimension) (fun a s => { s with dimension := some a })
        Document.readString,
       .nested "value" (·.fact) (fun a s => { s with fact := some a }) readFact]
      (SingleDraft.mk none none)
      fun s => do return .single (← s.dimension) (← s.fact))
  | "Multi" => some (.record
      [.nested "qualifiers" (·.facts) (fun a s => { s with facts := some a })
        fun levels => Document.readEntries levels readFact]
      (MultiDraft.mk none)
      fun s => do return .multi (.ofList (← s.facts)))
  | _ => none

def Qualifier.read (readFact : Nat → Document → Read Q) (levels : Nat) (d : Document) :
    Read (Qualifier Q) :=
  d.readVariant levels (Qualifier.variant? readFact)

structure QualifiedValueDraft (Q : Type) where
  base : Option Witness
  qualifier : Option (Qualifier Q)

def QualifiedValue.read (readFact : Nat → Document → Read Q) (levels : Nat) (d : Document) :
    Read (QualifiedValue Q) :=
  d.readRecord levels
    [.nested "base" (·.base) (fun a s => { s with base := some a }) Witness.read,
     .nested "qualifier" (·.qualifier) (fun a s => { s with qualifier := some a })
       (Qualifier.read readFact)]
    (QualifiedValueDraft.mk none none)
    fun s => do return ⟨← s.base, ← s.qualifier⟩

end Qualifiers

def ValueFact.read (levels : Nat) (d : Document) : Read ValueFact :=
  d.readVariant levels fun name => (ValueFact.ofName? name).map .unit

/-! ## Frames -/

def Slot.variant? : String → Option (Variant Slot)
  | "Local" => some (.plain Document.readIndex .var)
  | "Stack" => some (.plain Document.readIndex .stack)
  | _ => none

def Slot.read (levels : Nat) (d : Document) : Read Slot := d.readVariant levels Slot.variant?

structure FrameDraft (V : Type) where
  locals : Option (List (Option V))
  stack : Option (List V)
  maxStack : Option Nat

/-- Reads a frame whose values are read by `readValue`. -/
def Frame.read {V : Type} (readValue : Nat → Document → Read V) (levels : Nat) (d : Document) :
    Read (Frame V) :=
  d.readRecord levels
    [.nested "locals" (·.locals) (fun a s => { s with locals := some a })
       (fun levels => Document.readList levels fun levels =>
         Document.readOptional (readValue levels)),
     .nested "stack" (·.stack) (fun a s => { s with stack := some a })
       (fun levels => Document.readList levels readValue),
     .plain "max_stack" (·.maxStack) (fun a s => { s with maxStack := some a })
       Document.readIndex]
    (FrameDraft.mk none none none)
    fun s => do return ⟨← s.locals, (← s.stack).reverse, ← s.maxStack⟩

end Provenance

/-
Frames and results as JSON.

A frame is written with its stack from the bottom. The dump of a result holds the text of the method
and one entry for each instruction, null where it is not reached.
-/
import Provenance.Analysis.Result
import Provenance.Interchange.Write

set_option autoImplicit false

namespace Provenance

/-- A set of witnesses as JSON. -/
def PossibleValues.toJson (s : PossibleValues) : Json :=
  .object [("width", .natural s.width),
    ("witnesses", .array (s.members.toList.map Witness.toJson))]

section Qualified

variable {Q : Type} [Fact Q]

/-- A qualifier as JSON. -/
def Qualifier.toJson : Qualifier Q → Json
  | .single dimension fact =>
    .variant "Single" (.object
      [("dimension", .string dimension), ("value", .string (Fact.text fact))])
  | .multi facts =>
    .variant "Multi" (.object
      [("qualifiers", .object (facts.toList.map fun p => (p.1, .string (Fact.text p.2))))])

/-- A qualified value as JSON. -/
def QualifiedValue.toJson (v : QualifiedValue Q) : Json :=
  .object [("base", v.base.toJson), ("qualifier", v.qualifier.toJson)]

/-- A set of qualified values as JSON. -/
def QualifiedValueSet.toJson (s : QualifiedValueSet Q) : Json :=
  .object [("width", .natural s.width),
    ("values", .array (s.members.toList.map QualifiedValue.toJson))]

end Qualified

/-- A frame as JSON. -/
def Frame.toJson {V : Type} (valueToJson : V → Json) (f : Frame V) : Json :=
  .object [("locals", .array (f.locals.map (Json.optional valueToJson))),
    ("stack", .array (f.stack.reverse.map valueToJson)),
    ("max_stack", .natural f.maxStack)]

/-- The dump of a result. -/
def AnalysisResult.toJson {V : Type} (valueToJson : V → Json) (r : AnalysisResult V) : Json :=
  .object [("method", .string r.method.text),
    ("frames", .array (r.frames.toList.map (Json.optional (Frame.toJson valueToJson))))]

end Provenance

import LiveTemplate.Json.Basic
import LiveTemplate.Template.Compile

/-!
# Options

How sources are compiled and which updates may be chosen, and the JSON form of both. Fields that are
missing in a record have their defaults.
-/

namespace LiveTemplate

/-- The greatest number of edits that an update of a list may have: half the longer list and one
more, a fixed number, or any number. -/
inductive EditBudget where
  | half
  | fixed (limit : Nat)
  | unbounded
  deriving DecidableEq, Repr

/-- Whether a number of edits between lists of the given lengths is within the budget. -/
def EditBudget.allows (budget : EditBudget) (edits oldLength newLength : Nat) : Bool :=
  match budget with
  | .half => edits ≤ max oldLength newLength / 2 + 1
  | .fixed limit => edits ≤ limit
  | .unbounded => true

/-- Which updates may be chosen besides keyed updates and replacements. -/
structure UpdateOptions where
  markers : Bool := true
  edits : Bool := true
  budget : EditBudget := .half
  deriving DecidableEq, Repr

/-! ## JSON -/

/-- The budget that a JSON value describes. -/
def EditBudget.ofJson? : Json → Option EditBudget
  | .object [("fixed", limit)] => .fixed <$> limit.natBelow? Json.limit64
  | json =>
    match json.constant? with
    | some "half" => some .half
    | some "unbounded" => some .unbounded
    | _ => none

/-- The JSON form of a budget. -/
def EditBudget.toJson : EditBudget → Json
  | .half => .text "half"
  | .fixed limit => .object [("fixed", .integer limit)]
  | .unbounded => .text "unbounded"

/-- The options that a JSON value describes. -/
def UpdateOptions.ofJson? (json : Json) : Option UpdateOptions := do
  let fields ← json.recordOf? ["markers", "granular", "granular_budget"]
  let markers ← Json.fieldOr Json.bool? true "markers" fields
  let edits ← Json.fieldOr Json.bool? true "granular" fields
  let budget ← Json.fieldOr EditBudget.ofJson? .half "granular_budget" fields
  some ⟨markers, edits, budget⟩

/-- The JSON form of options, with all fields. -/
def UpdateOptions.toJson (options : UpdateOptions) : Json :=
  Json.ofFields
    [("markers", .bool options.markers), ("granular", .bool options.edits),
      ("granular_budget", options.budget.toJson)]

/-- The options that a JSON value describes. -/
def CompileOptions.ofJson? (json : Json) : Option CompileOptions := do
  let fields ← json.recordOf? ["max_include_depth"]
  let depth ← Json.fieldOr (Json.natBelow? Json.limit64) 32 "max_include_depth" fields
  some ⟨depth⟩

/-- The JSON form of options, with all fields. -/
def CompileOptions.toJson (options : CompileOptions) : Json :=
  .object [("max_include_depth", .integer options.maxIncludeDepth)]

end LiveTemplate

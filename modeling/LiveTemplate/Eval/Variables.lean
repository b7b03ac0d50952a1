import LiveTemplate.Value.Basic

/-!
# Variables

The variables that are declared at a point of a template, the innermost first. A name may be
declared more than once; it means its innermost variable.
-/

namespace LiveTemplate

/-- Variables with their values, the innermost first. -/
abbrev Variables := List (String × Value)

namespace Variables

/-- The variables with one more. -/
def declare (name : String) (value : Value) (vars : Variables) : Variables :=
  (name, value) :: vars

/-- The variables with a new value for the innermost one of a name, none if there is no such
variable. -/
def assign? (name : String) (value : Value) : Variables → Option Variables
  | [] => none
  | (declared, old) :: outer =>
    if declared = name then some ((declared, value) :: outer)
    else (assign? name value outer).map ((declared, old) :: ·)

/-- The outermost `count` variables. -/
def keepOuter (count : Nat) (vars : Variables) : Variables :=
  vars.drop (vars.length - count)

end Variables

end LiveTemplate

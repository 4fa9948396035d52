import LineCompiler.Program.Outline

/-!
# Complaints

A complaint is a named reason with details.  It stands in a line of ever more general reasons, and
its text is that of its only detail, or of all of them in parentheses.
-/

namespace LineCompiler

/-- The named reasons to complain. -/
inductive Complaint where
  /-- A size is to be decreased by more than there is. -/
  | decreaseTooLarge
  /-- A variable has a type that it cannot have. -/
  | invalidType
  deriving DecidableEq

namespace Complaint

/-- The name of a reason. -/
def name : Complaint → String
  | .decreaseTooLarge => "NSizeToDecreaseIsLarge"
  | .invalidType => "InvalidVariableType"

/-- The reason with a given name. -/
def ofName? (name : String) : Option Complaint :=
  [decreaseTooLarge, invalidType].find? fun complaint => complaint.name = name

theorem ofName?_name (complaint : Complaint) : ofName? complaint.name = some complaint := by
  cases complaint <;> rfl

/-- A reason and all the more general ones. -/
def lineage (complaint : Complaint) : List String :=
  [complaint.name, "Exception", "BaseException", "object"]

/-- The text of a complaint's details. -/
def text : List Node → String
  | [] => ""
  | [detail] => detail.plain
  | details => "(" ++ ", ".intercalate (details.map Node.display) ++ ")"

end Complaint

end LineCompiler

import Workflow.Json.Writer
import Workflow.Number.Decimal
import Workflow.Net.Element
import Workflow.Step.Basic
import Workflow.Text.Blank

/-!
# Metadata of tasks

Three attributes of a task mean something to the engine and become extensions:
the code of the candidate strategy, the candidate parameter, and the permissions
on form fields. An attribute that is absent or null gives no extension. One of
another form than its rule asks for is a defect, and the first of the three that
breaks its rule is reported.
-/

namespace Workflow

open Json (Value)

/-- The attribute with the code of the candidate strategy. -/
def strategyKey : String := "candidateStrategy"

/-- The attribute with the parameter of the candidate strategy. -/
def parameterKey : String := "candidateParam"

/-- The attribute with the list of permissions on form fields. -/
def permissionsKey : String := "formFieldPermissions"

/-- The text of a value that is one, a number or a truth value. -/
def scalarText? : Value → Option String
  | .string text => some text
  | .number n => some (String.ofList n.text)
  | .bool true => some "true"
  | .bool false => some "false"
  | _ => none

/-- An integer that fits into a signed word. -/
def strategyCode (n : Int) : Except AttributeRule (Option Int) :=
  if Decimal.fitsSigned64 n then .ok (some n) else .error .integer

/-- The strategy code in an attribute: an integer, or a text that spells one
between blanks. -/
def strategy : Option Value → Except AttributeRule (Option Int)
  | none => .ok none
  | some .null => .ok none
  | some (.number (.int n)) => strategyCode n
  | some (.string text) =>
      match Decimal.integer? (Text.trim text.toList) with
      | some n => strategyCode n
      | none => .error .integer
  | some _ => .error .integer

/-- The parameter in an attribute. -/
def parameter : Option Value → Except AttributeRule (Option String)
  | none => .ok none
  | some .null => .ok none
  | some value =>
      match scalarText? value with
      | some text => .ok (some text)
      | none => .error .scalar

/-- The fields of one permission entry, those that are null left out. -/
def permissionFields : List (String × Value) → Except AttributeRule (List (String × String))
  | [] => .ok []
  | (_, .null) :: rest => permissionFields rest
  | (key, value) :: rest =>
      match scalarText? value with
      | some text => (permissionFields rest).map ((key, text) :: ·)
      | none => .error .scalars

/-- The entries of a permission list. -/
def permissionEntries : List Value → Except AttributeRule (List (List (String × String)))
  | [] => .ok []
  | .object fields :: rest => do
      let entry ← permissionFields fields
      let entries ← permissionEntries rest
      pure (entry :: entries)
  | _ :: _ => .error .objects

/-- The permissions in an attribute. -/
def permissions : Option Value → Except AttributeRule (List (List (String × String)))
  | none => .ok []
  | some .null => .ok []
  | some (.array entries) => permissionEntries entries
  | some _ => .error .list

namespace Step

/-- A result under an attribute's rule, its failure told as a defect of a step. -/
def underRule {α : Type} (id key : String) : Except AttributeRule α → Except Defect α
  | .ok value => .ok value
  | .error rule => .error (.badAttribute id key rule)

/-- The extensions that say who may take a task. -/
def candidateExtensions (step : Step) (id : String) : Except Defect (List Extension) := do
  let code ← underRule id strategyKey (strategy (step.attributes.lookup strategyKey))
  let text ← underRule id parameterKey (parameter (step.attributes.lookup parameterKey))
  pure ((code.map fun n => Extension.ofText strategyKey (String.ofList (Json.intText n))).toList ++
    (text.map (Extension.ofText parameterKey)).toList)

/-- The extensions that say what a task's form allows, one an entry. -/
def permissionExtensions (step : Step) (id : String) : Except Defect (List Extension) := do
  let entries ← underRule id permissionsKey (permissions (step.attributes.lookup permissionsKey))
  pure (entries.map (Extension.ofAttributes permissionsKey))

end Step

end Workflow

import Lifter.Config.Basic
import Lifter.Json.Basic

/-!
# Settings of a host program

A host program hands over its settings as one JSON value. What is missing or of another type is left
open.

* `Settings.inputLength?`, `Settings.inputName?`, `Settings.stepBudget?`: the single settings.
* `Layer.ofSettings`: all of them as a layer.
-/

namespace Lifter

namespace Settings

/-- The settings about input. -/
def readSection? (settings : Json) : Option Json :=
  (settings.field? "regvm").bind (Json.field? "readStr")

/-- The length of the input, if it is a positive whole number. -/
def inputLength? (settings : Json) : Option Nat :=
  (((readSection? settings).bind (Json.field? "length")).bind Json.natural?).filter (0 < ·)

/-- The name of the input buffer. -/
def inputName? (settings : Json) : Option String :=
  ((readSection? settings).bind (Json.field? "name")).bind Json.string?

/-- The step budget, if it is a whole number. -/
def stepBudget? (settings : Json) : Option Nat :=
  (((settings.field? "regvm").bind (Json.field? "exploration")).bind
    (Json.field? "stepBudget")).bind Json.natural?

end Settings

/-- What the settings of a host program say. -/
def Layer.ofSettings (settings : Json) : Layer where
  inputLength := Settings.inputLength? settings
  inputName := Settings.inputName? settings
  stepBudget := Settings.stepBudget? settings

end Lifter

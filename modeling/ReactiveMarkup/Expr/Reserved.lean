/-!
# Reserved names

Names that never stand for declared values: constants, host globals, and everything that begins with
two underscores, which is kept for generated values.
-/
namespace ReactiveMarkup.Reserved

/-- The object whose value an event handler sees. -/
def event : String := "event"

/-- Objects and functions that the host provides. -/
def hostGlobals : List String :=
  ["Math", "JSON", "String", "Number", "Boolean", "Array", "Object", "console", event]

/-- Whether a name belongs to the host. -/
def isHostGlobal (name : String) : Bool := hostGlobals.contains name

/-- Whether a name is one of the generated ones. -/
def isGenerated (name : String) : Bool := "__".toList.isPrefixOf name.toList

/-- Whether a name is never looked up among the declared values. -/
def isReserved (name : String) : Bool :=
  isGenerated name || ["null", "true", "false", "undefined"].contains name || isHostGlobal name

end ReactiveMarkup.Reserved

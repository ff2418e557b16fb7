import Janus.Js.Text

/-!
# Js/Value — what a caller passes, as far as it is read

A property read answers a `Value`, a missing one `undefined`.  An argument of type `unknown` is an
`Arg`: nobody, something that is no object, or a `Record`, which is what reading it answers — its
own properties and the ones it inherits alike.
-/

namespace Js

/-- What a property holds: `other` is anything else, by what `String()` makes of it. -/
inductive Value where
  | undefined
  | null
  | str (s : Str)
  | other (text : Str)
deriving DecidableEq

/-- `String(value)`. -/
def Value.toText : Value → Str
  | .undefined => js "undefined"
  | .null => js "null"
  | .str s => s
  | .other text => text

/-- The string a value is, if it is one. -/
def Value.asString : Value → Option Str
  | .str s => some s
  | _ => none

/-- An object: what each property read answers, and whether the mark `setOf()` makes is on it. -/
structure Record where
  field : Str → Value
  marked : Bool

/-- An argument. -/
inductive Arg where
  | undefined
  | null
  | other
  | record (r : Record)

/-- An object with these properties and no others. -/
def Record.of (fields : List (Str × Value)) (marked : Bool) : Record where
  field name := (fields.lookup name).getD .undefined
  marked := marked

end Js

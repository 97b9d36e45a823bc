import Mathlib.Data.List.Basic

/-
  JSON values as the sidecar writes them and the client reads
  them.  All numbers of the protocol are natural numbers.

  Key definitions include:
    * `Json`
    * `Json.field`
    * `Json.ofOption`
-/

----------
-- Values
----------

namespace ArktsServer

inductive Json where
| null
| bool (value : Bool)
| num (value : Nat)
| str (value : String)
| arr (items : List Json)
| obj (fields : List (String × Json))

namespace Json

/- Property access; `none` is the value `undefined`. -/
def field (key : String) : Json → Option Json
| obj fields => fields.lookup key
| _ => none

/- An optional value that is written as `null`. -/
def ofOption {α : Type} (write : α → Json) : Option α → Json
| some value => write value
| none => null

def strings (items : List String) : Json :=
  arr (items.map str)

/- A field that is written only when it is present. -/
def optionalField
    {α : Type}
    (key : String)
    (write : α → Json) :
    Option α → List (String × Json)
| some value => [(key, write value)]
| none => []

end Json

end ArktsServer

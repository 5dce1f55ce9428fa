import DurableRuntime.Foundation.Members
import Mathlib.Algebra.GroupWithZero.Nat
import Mathlib.Data.List.Basic
import Mathlib.Data.Rat.Defs

/-!
# JSON values

Workflow definitions and run inputs travel as JSON: parsed and written by the
control plane, stored as `jsonb`, decoded again by the worker.  A JavaScript
string may hold surrogates without their other half, and a parsed number may be
infinite; `JsValue` has both, `Json` is what can be written of them.
-/

namespace DurableRuntime

/-! ## JavaScript strings -/

/-- A code point of a JavaScript string; a surrogate that is not half of a pair stands alone. -/
inductive CodePoint where
  | scalar (c : Char)
  | lone (surrogate : Fin 2048)
  deriving DecidableEq

abbrev JsString := List CodePoint

namespace CodePoint

def isLone : CodePoint → Bool
  | scalar _ => false
  | lone _ => true

/-- The length in UTF-16 code units. -/
def units : CodePoint → Nat
  | scalar c => if c.toNat < 0x10000 then 1 else 2
  | lone _ => 1

/-- UTF-8 has no lone surrogates: encoders and Go's JSON decoder put U+FFFD in their place. -/
def replaced : CodePoint → Char
  | scalar c => c
  | lone _ => '\uFFFD'

/--
`JSON.stringify` escapes a lone surrogate as `\ud800` and so on.  `jsonb` refuses
that escape as it refuses `\u0000`, so U+0000 stands for it.
-/
def escaped : CodePoint → Char
  | scalar c => c
  | lone _ => '\x00'

end CodePoint

namespace JsString

def ofString (text : String) : JsString := text.toList.map CodePoint.scalar

def length16 (text : JsString) : Nat := (text.map CodePoint.units).sum

def replaced (text : JsString) : String := String.ofList (text.map CodePoint.replaced)

def escaped (text : JsString) : String := String.ofList (text.map CodePoint.escaped)

/-- The string as Unicode text, if it is that. -/
def text? (text : JsString) : Option String :=
  if text.any CodePoint.isLone then none else some text.replaced

end JsString

/-! ## Values -/

inductive Json where
  | null
  | bool (value : Bool)
  | num (value : Rat)
  | str (value : String)
  | arr (items : List Json)
  | obj (members : List (String × Json))

/-- A property of a parsed object; the last of several members of one name counts. -/
def Json.member? (name : String) (members : List (String × Json)) : Option Json :=
  Foundation.last? name members

/-- The length of a JavaScript string: its UTF-16 code units. -/
def utf16Length (s : String) : Nat :=
  (s.toList.map fun c => if c.toNat < 0x10000 then 1 else 2).sum

/-- The bytes of one character inside a JSON string written by `JSON.stringify`. -/
def jsonCharSize (c : Char) : Nat :=
  if c = '"' ∨ c = '\\' ∨ c = '\n' ∨ c = '\r' ∨ c = '\t' ∨ c.toNat = 8 ∨ c.toNat = 12 then 2
  else if c.toNat < 0x20 then 6
  else c.utf8Size

/-- The bytes of a string written by `JSON.stringify`, without its quotes. -/
def jsonStringSize (text : JsString) : Nat :=
  (text.map fun point =>
    match point with
    | .scalar c => jsonCharSize c
    | .lone _ => 6).sum

/-- A value that `JSON.parse` returns. -/
inductive JsValue where
  | null
  | bool (value : Bool)
  | num (value : Rat)
  | negativeZero
  | infinite (negative : Bool)
  | str (value : JsString)
  | arr (items : List JsValue)
  | obj (members : List (JsString × JsValue))

namespace JsValue

mutual

/-- What `JSON.stringify` writes of a value. -/
def toJson : JsValue → Json
  | .null => .null
  | .bool value => .bool value
  | .num value => .num value
  | .negativeZero => .num 0
  | .infinite _ => .null
  | .str value => .str value.escaped
  | .arr items => .arr (itemsToJson items)
  | .obj members => .obj (membersToJson members)

def itemsToJson : List JsValue → List Json
  | [] => []
  | item :: items => item.toJson :: itemsToJson items

def membersToJson : List (JsString × JsValue) → List (String × Json)
  | [] => []
  | (name, value) :: members => (name.escaped, value.toJson) :: membersToJson members

end

mutual

/-- What `JSON.parse` returns of a text that `jsonb` prints. -/
def ofJson : Json → JsValue
  | .null => .null
  | .bool value => .bool value
  | .num value => .num value
  | .str value => .str (.ofString value)
  | .arr items => .arr (itemsOfJson items)
  | .obj members => .obj (membersOfJson members)

def itemsOfJson : List Json → List JsValue
  | [] => []
  | item :: items => ofJson item :: itemsOfJson items

def membersOfJson : List (String × Json) → List (JsString × JsValue)
  | [] => []
  | (name, value) :: members => (.ofString name, ofJson value) :: membersOfJson members

end

/-- `object[name]`: the last of several members of one name counts. -/
def member? (name : String) (members : List (JsString × JsValue)) : Option JsValue :=
  Foundation.last? (.ofString name) members

end JsValue

end DurableRuntime

import Mathlib.Data.List.Basic
import Mathlib.Data.Int.Notation

/-!
# Decoded JSON values and the exceptions of the SDK

Values are what `json.loads` and `response.json()` return: an array is a list
and an object is its bindings in order. Numbers keep their sign, digits and
exponent, as nothing in the SDK computes with one. How a list is spelled in
the cache is a parameter that is only known to read back what it wrote.
-/

namespace HeliosPermissions.JsonValues

/-- A number as JSON spells it. It is an integer exactly when it has neither
fraction digits nor an exponent. -/
structure JsonNumber where
  /-- A leading minus sign. -/
  negative : Bool
  /-- The digits before the point. -/
  whole : ℕ
  /-- The digits after the point. -/
  fraction : List (Fin 10)
  /-- The power of ten, when one is written. -/
  exponent : Option ℤ
  deriving DecidableEq, Repr

/-- A decoded JSON value. -/
inductive Json where
  | null
  | bool (b : Bool)
  | number (n : JsonNumber)
  | str (s : String)
  | arr (items : List Json)
  | obj (fields : List (String × Json))

/-- The exceptions that the SDK raises or lets through. -/
inductive PyError where
  /-- `HeliosUnreachableError` with its message. -/
  | heliosUnreachable (message : String)
  /-- `json.JSONDecodeError`. -/
  | jsonDecodeError
  /-- `UnicodeDecodeError`. -/
  | unicodeDecodeError
  /-- A `ValueError` of neither kind: an integer with more digits than the interpreter converts. -/
  | valueError
  /-- `RecursionError`. -/
  | recursionError
  /-- `KeyError` with the missing key. -/
  | keyError (key : String)
  /-- `TypeError`. -/
  | typeError
  /-- `asyncio.InvalidStateError`: the future is already done. -/
  | invalidStateError
  /-- `asyncio.CancelledError`. -/
  | cancelledError
  /-- Whatever the Redis client raises when a command fails. -/
  | redisError
  deriving DecidableEq, Repr

/-- The first value bound to a key of an object. -/
def Json.field (key : String) : List (String × Json) → Option Json
  | [] => none
  | (k, v) :: rest => if k = key then some v else Json.field key rest

/-- `value[key]` with a string key: only objects can be indexed so. -/
def Json.getItem (value : Json) (key : String) : Except PyError Json :=
  match value with
  | .obj fields => match Json.field key fields with
    | some v => .ok v
    | none => .error (.keyError key)
  | _ => .error .typeError

/-- `list(value)`: the items of an array, the characters of a string, the keys
of an object; other values are not iterable. -/
def Json.toList (value : Json) : Except PyError (List Json) :=
  match value with
  | .arr items => .ok items
  | .str s => .ok (s.toList.map fun c => .str (String.singleton c))
  | .obj fields => .ok (fields.map fun f => .str f.1)
  | _ => .error .typeError

/-- `value == text` for a string on the right. -/
def Json.isStr (text : String) : Json → Bool
  | .str s => s = text
  | _ => false

theorem Json.isStr_iff {text : String} {value : Json} :
    value.isStr text = true ↔ value = .str text := by
  cases value <;> simp [Json.isStr]

/-- How cached permission lists are spelled: `json.dumps` on a list, and
`json.loads` on what Redis returns, in some type of raw values. The law is the
documented round trip. -/
structure JsonCodec (Raw : Type) where
  /-- `json.dumps(list(perms))` as it is stored. -/
  dumps : List Json → Raw
  /-- `json.loads(raw)`. -/
  loads : Raw → Except PyError Json
  /-- Reading what was written gives the list back. -/
  loads_dumps : ∀ perms, loads (dumps perms) = .ok (.arr perms)

/-- Lists kept as they are, without a spelling. -/
def plainCodec : JsonCodec (List Json) where
  dumps := id
  loads perms := .ok (.arr perms)
  loads_dumps _ := rfl

end HeliosPermissions.JsonValues

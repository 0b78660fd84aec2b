-- JSON values as a library of maps and vectors keeps them: an object is an ordered
-- map, so its fields are sorted by key and no key stands twice. Reading, writing and
-- the accessors are a parameter, with the laws of them that programs rest on.
import Mymuduo.Bytes

open bytes words

namespace json

/-- A number is an integer or the bits of a `double`. -/
inductive Json
  | null
  | bool (value : Bool)
  | integer (value : Int)
  | float (bits : UInt64)
  | string (value : Bytes)
  | array (values : List Json)
  | object (fields : List (Bytes × Json))

/-- What an operation on a value throws: an error of the parser, or one of the other
exceptions of the library. -/
inductive Thrown
  | parseError
  | other
  deriving DecidableEq

def getField (key : Bytes) : List (Bytes × Json) → Option Json
  | [] => none
  | (k, value) :: fields => if k = key then some value else getField key fields

def setField (key : Bytes) (value : Json) : List (Bytes × Json) → List (Bytes × Json)
  | [] => [(key, value)]
  | (k, old) :: fields =>
    if k = key then (key, value) :: fields
    else if key < k then (key, value) :: (k, old) :: fields
    else (k, old) :: setField key value fields

@[simp] theorem getField_setField_self (key : Bytes) (value : Json) (fields : List (Bytes × Json)) :
    getField key (setField key value fields) = some value := by
  induction fields with
  | nil => simp [setField, getField]
  | cons field fields ih =>
    rw [setField]
    split
    · simp [getField]
    · rename_i hne
      split
      · simp [getField]
      · rw [getField, if_neg hne, ih]

theorem getField_setField_of_ne {key other : Bytes} (h : key ≠ other) (value : Json)
    (fields : List (Bytes × Json)) :
    getField other (setField key value fields) = getField other fields := by
  induction fields with
  | nil => simp [setField, getField, h]
  | cons field fields ih =>
    rw [setField]
    split
    · rename_i heq
      subst heq
      simp [getField, h]
    · split
      · simp [getField, h]
      · rw [getField, getField, ih]

/-- The functions of the library. `dump` is `none` where it throws, for a string that is not
UTF-8. `index` is `operator[]` of a value that may be changed, and gives the value at the key
with the changed value: a key that is not there gets null. -/
structure Library where
  parse : Bytes → Option Json
  dump : Json → Option Bytes
  index : Bytes → Json → Except Thrown (Json × Json)
  /-- `get<std::string>()` -/
  getString : Json → Except Thrown Bytes
  /-- `value(key, default)` for an `int`, an `int64_t` and a text -/
  valueInt : Bytes → Int → Json → Except Thrown Int
  valueInt64 : Bytes → Int → Json → Except Thrown Int
  valueString : Bytes → Bytes → Json → Except Thrown Bytes
  index_of_field : ∀ {key fields value}, getField key fields = some value →
    index key (.object fields) = .ok (value, .object fields)
  index_object : ∀ key fields, ∃ fields',
    index key (.object fields) = .ok ((getField key fields).getD .null, .object fields') ∧
      ∀ other, key ≠ other → getField other fields' = getField other fields
  getString_string : ∀ value, getString (.string value) = .ok value
  valueInt_integer : ∀ {key fields n}, getField key fields = some (.integer n) → -2 ^ 31 ≤ n →
    n < 2 ^ 31 → ∀ default, valueInt key default (.object fields) = .ok n
  valueInt64_integer : ∀ {key fields n}, getField key fields = some (.integer n) → -2 ^ 63 ≤ n →
    n < 2 ^ 63 → ∀ default, valueInt64 key default (.object fields) = .ok n
  valueString_string : ∀ {key fields value}, getField key fields = some (.string value) →
    ∀ default, valueString key default (.object fields) = .ok value

/-- The library writes the value, and reads it back. -/
def Library.Writes (library : Library) (value : Json) : Prop :=
  ∃ body, library.dump value = some body ∧ library.parse body = some value

/-- `get<std::map<std::string, std::string>>()` of the fields of an object -/
def Library.stringMap (library : Library) :
    List (Bytes × Json) → Except Thrown (List (Bytes × Bytes))
  | [] => .ok []
  | (key, value) :: fields => do
    let value ← library.getString value
    let rest ← library.stringMap fields
    return (key, value) :: rest

theorem Library.stringMap_map (library : Library) (entries : List (Bytes × Bytes)) :
    library.stringMap (entries.map (fun entry => (entry.1, .string entry.2))) = .ok entries := by
  induction entries with
  | nil => rfl
  | cons entry entries ih =>
    rw [List.map_cons, stringMap, ih, library.getString_string]
    rfl

namespace Json

def field (key : Bytes) : Json → Option Json
  | object fields => getField key fields
  | _ => none

/-- What a loop over the value goes through. A value that is no container stands for
itself. -/
def elements : Json → List Json
  | null => []
  | array values => values
  | object fields => fields.map Prod.snd
  | value => [value]

/-! ## A library for some values -/

mutual

/-- A value in the shortest form, as far as texts need no escape. -/
def compact : Json → Bytes
  | null => text "null"
  | bool value => if value then text "true" else text "false"
  | integer value => if value < 0 then text "-" ++ decimal value.natAbs else decimal value.natAbs
  | float _ => text "0.0"
  | string value => text "\"" ++ value ++ text "\""
  | array values => text "[" ++ compactValues values ++ text "]"
  | object fields => text "\x7b" ++ compactFields fields ++ text "\x7d"

def compactValues : List Json → Bytes
  | [] => []
  | [value] => compact value
  | value :: values => compact value ++ text "," ++ compactValues values

def compactFields : List (Bytes × Json) → Bytes
  | [] => []
  | [(key, value)] => text "\"" ++ key ++ text "\":" ++ compact value
  | (key, value) :: fields =>
    text "\"" ++ key ++ text "\":" ++ compact value ++ text "," ++ compactFields fields

end

/-- `operator[]`: null becomes an object. -/
def index (key : Bytes) : Json → Except Thrown (Json × Json)
  | null => .ok (null, object [(key, null)])
  | object fields =>
    match getField key fields with
    | some value => .ok (value, object fields)
    | none => .ok (null, object (setField key null fields))
  | _ => .error .other

def getString : Json → Except Thrown Bytes
  | string value => .ok value
  | _ => .error .other

/-- A `bool` is read as an `int`, and not as an `int64_t`. -/
def getInt : Json → Except Thrown Int
  | integer value => .ok (int32 value)
  | bool value => .ok (if value then 1 else 0)
  | _ => .error .other

def getInt64 : Json → Except Thrown Int
  | integer value => .ok (int64 value)
  | _ => .error .other

/-- `value(key, default)`, with the accessor for the type of the default -/
def value {α : Type} (get : Json → Except Thrown α) (key : Bytes) (default : α) :
    Json → Except Thrown α
  | object fields =>
    match getField key fields with
    | some value => get value
    | none => .ok default
  | _ => .error .other

theorem value_of_field {α : Type} {get : Json → Except Thrown α} {key : Bytes}
    {fields : List (Bytes × Json)} {j : Json} {a : α} (h : getField key fields = some j)
    (hget : get j = .ok a) (default : α) : (object fields).value get key default = .ok a := by
  rw [value, h]
  exact hget

end Json

/-- A library that writes any value without a `double`, and reads these. -/
def Library.reading (values : List Json) : Library where
  parse body := values.find? (fun value => value.compact = body)
  dump value := some value.compact
  index := Json.index
  getString := Json.getString
  valueInt := Json.value Json.getInt
  valueInt64 := Json.value Json.getInt64
  valueString := Json.value Json.getString
  index_of_field h := by rw [Json.index, h]
  index_object key fields := by
    rw [Json.index]
    cases h : getField key fields with
    | some value => exact ⟨fields, rfl, fun _ _ => rfl⟩
    | none =>
      exact ⟨setField key .null fields, rfl, fun _ hne => getField_setField_of_ne hne .null fields⟩
  getString_string _ := rfl
  valueInt_integer h hlow hhigh :=
    Json.value_of_field h (congrArg Except.ok (int32_eq hlow hhigh))
  valueInt64_integer h hlow hhigh :=
    Json.value_of_field h (congrArg Except.ok (int64_eq hlow hhigh))
  valueString_string h := Json.value_of_field h rfl

theorem Library.reads_head (value : Json) (values : List Json) :
    (Library.reading (value :: values)).parse value.compact = some value := by
  dsimp only [reading]
  rw [List.find?_cons_of_pos (by simp)]

end json

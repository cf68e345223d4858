import Inversion.Json.Number
import Inversion.Json.Parser

/-!
The JSON form of a type: how its values are written, and which JSON values are read as one. A record
may also be read from an array of its fields in order; a case without content is a string, a case with
content an object with that one key. Reading enters at most 127 containers, one inside another.
-/

namespace Inversion

/-- A type with a JSON form. `read?` is told how many containers it may still enter. -/
class JsonForm (α : Type) where
  write : α → Json
  read? : Nat → Json → Option α

namespace Json

/-- How many containers may be entered from the top of a text. -/
def maxDepth : Nat := 127

/-- Enters one container. -/
def enter {α : Type} (budget : Nat) (read : Nat → Option α) : Option α :=
  match budget with
  | 0 => none
  | budget + 1 => read budget

/-- The members of an object under a name. -/
def membersNamed (members : List (Option String × Json)) (name : String) : List Json :=
  (members.filter (·.1 = some name)).map (·.2)

/-- The value of each named field of a record. A name may stand only once; other names are ignored.
    In place of the record there may be an array of the leading fields. -/
def fields? (names : List String) : Json → Option (List (Option Json))
  | object members =>
    if members.all (·.1.isSome) then
      names.mapM fun name =>
        match membersNamed members name with
        | [] => some none
        | [value] => some (some value)
        | _ => none
    else none
  | array items =>
    if items.length ≤ names.length then
      some (items.map some ++ List.replicate (names.length - items.length) none)
    else none
  | _ => none

/-- A case of a sum: its name, and its content with the budget that is left for it. -/
def case? {α : Type} (budget : Nat) (read : String → Option (Nat × Json) → Option α) : Json → Option α
  | string (some name) => read name none
  | object [(some name, content)] => enter budget fun budget => read name (some (budget, content))
  | _ => none

/-- Reads a case without content; `null` may stand for none. -/
def bare {α : Type} (value : α) : Option (Nat × Json) → Option α
  | none => some value
  | some (_, null) => some value
  | _ => none

/-- Reads a case with content. -/
def holding {α β : Type} [JsonForm α] (make : α → β) : Option (Nat × Json) → Option β
  | some (budget, content) => (JsonForm.read? budget content).map make
  | none => none

/-- Reads a field that must be there. -/
def required {α : Type} [JsonForm α] (budget : Nat) (field : Option Json) : Option α :=
  field.bind (JsonForm.read? budget)

/-- Reads a field that may be left out. -/
def optional {α : Type} [JsonForm α] (budget : Nat) (default : α) : Option Json → Option α
  | none => some default
  | some value => JsonForm.read? budget value

/-- Reads a whole text. -/
def read? {α : Type} [JsonForm α] (s : String) : Option α :=
  (parse? s).bind (JsonForm.read? maxDepth)

/-- The names of a sum without content, read back by their position in the list. -/
def named? {α : Type} (cases : List (String × α)) (budget : Nat) (j : Json) : Option α :=
  case? budget (fun name content => (cases.lookup name).bind fun value => bare value content) j

end Json

instance : JsonForm Bool where
  write := .bool
  read?
    | _, .bool b => some b
    | _, _ => none

instance : JsonForm String where
  write := .text
  read?
    | _, .string s => s
    | _, _ => none

/-- Sizes and counts, which fit a 64-bit word. -/
instance : JsonForm Nat where
  write := .nat
  read?
    | _, .number n => n.toNat? UInt64.size
    | _, _ => none

instance : JsonForm UInt8 where
  write n := .nat n.toNat
  read?
    | _, .number n => (n.toNat? UInt8.size).map UInt8.ofNat
    | _, _ => none

instance : JsonForm UInt16 where
  write n := .nat n.toNat
  read?
    | _, .number n => (n.toNat? UInt16.size).map UInt16.ofNat
    | _, _ => none

instance : JsonForm UInt32 where
  write n := .nat n.toNat
  read?
    | _, .number n => (n.toNat? UInt32.size).map UInt32.ofNat
    | _, _ => none

instance : JsonForm Int64 where
  write i := .int i.toInt
  read?
    | _, .number n => (n.toInt?.filter fun i =>
      Int64.minValue.toInt ≤ i ∧ i ≤ Int64.maxValue.toInt).map Int64.ofInt
    | _, _ => none

/-- What has no numeral is written as `null`, which is not read back. -/
instance : JsonForm Single where
  write x := (x.jsonNumeral?.map Json.number).getD .null
  read?
    | _, .number n => n.toSingle?
    | _, _ => none

instance {α : Type} [JsonForm α] : JsonForm (List α) where
  write xs := .array (xs.map JsonForm.write)
  read?
    | budget, .array items => Json.enter budget fun budget => items.mapM (JsonForm.read? budget)
    | _, _ => none

instance {α : Type} [JsonForm α] : JsonForm (Option α) where
  write x := (x.map JsonForm.write).getD .null
  read?
    | _, .null => some none
    | budget, j => (JsonForm.read? budget j).map some

end Inversion

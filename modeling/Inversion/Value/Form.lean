import Inversion.Value
import Inversion.Json.Form

/-!
The JSON form of values: a vector is a record, a value a case with content.
-/

namespace Inversion

instance : JsonForm Vec2 where
  write v := .record [("x", JsonForm.write v.x), ("y", JsonForm.write v.y)]
  read? budget j := Json.enter budget fun budget => do
    match ← Json.fields? ["x", "y"] j with
    | [x, y] => return ⟨← Json.required budget x, ← Json.required budget y⟩
    | _ => none

instance : JsonForm Value where
  write
    | .int i => .record [("Int", JsonForm.write i)]
    | .float x => .record [("Float", JsonForm.write x)]
    | .vector v => .record [("Vector", JsonForm.write v)]
    | .bool b => .record [("Bool", JsonForm.write b)]
  read? budget j := Json.case? budget (fun name content =>
    match name with
    | "Int" => Json.holding Value.int content
    | "Float" => Json.holding Value.float content
    | "Vector" => Json.holding Value.vector content
    | "Bool" => Json.holding Value.bool content
    | _ => none) j

end Inversion

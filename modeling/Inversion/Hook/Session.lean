import Inversion.Json.Form

/-!
Sessions of the host program. A session has a name and tags; the tags stand in order, each once.
-/

namespace Inversion

/-- A session. -/
structure Session where
  name : String
  tags : List String
  deriving DecidableEq

namespace Session

/-- Puts a tag among others, in its place by code points. -/
def insertTag (tag : String) : List String → List String
  | [] => [tag]
  | t :: rest =>
    if tag = t then t :: rest
    else if tag < t then tag :: t :: rest
    else t :: insertTag tag rest

/-- A session with tags in any order. -/
def tagged (name : String) (tags : List String) : Session :=
  ⟨name, tags.foldl (fun sorted tag => insertTag tag sorted) []⟩

/-- Whether a session has a tag. -/
def hasTag (s : Session) (tag : String) : Bool := decide (tag ∈ s.tags)

end Session

/-- The tags may be left out. -/
instance : JsonForm Session where
  write s := .record [("name", .text s.name), ("tags", JsonForm.write s.tags)]
  read? budget j := Json.enter budget fun budget => do
    match ← Json.fields? ["name", "tags"] j with
    | [name, tags] => return .tagged (← Json.required budget name) (← Json.optional budget [] tags)
    | _ => none

end Inversion

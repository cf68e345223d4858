import Inversion.CommandLine.Execution

/-!
A working directory in memory, where commands can be carried out without a file system. A file is
known by its place: the names that lead to it. Paths lead to places as they would on a disk: empty
parts and dots stay, two dots step back, and only a folder can be entered. A path that leaves the
directory, or that does not end in a name, leads nowhere.
-/

namespace Inversion

/-- A working directory: the texts of the files at some places. Folders are there because there are
    files in them. -/
structure Directory where
  entries : List (List (List Char) × String)

namespace Directory

/-- The parts of a path. -/
def parts (path : String) : List (List Char) := Text.pieces (· == '/') path.toList

/-- Whether a part stays where it is. -/
def stays (part : List Char) : Bool := part = [] || part = ['.']

/-- Whether a part can be the name of a file. -/
def isName (part : List Char) : Bool :=
  !stays part && part ≠ ['.', '.'] && !part.contains '\x00'
    && decide ((String.ofList part).utf8ByteSize ≤ 255)

/-- Whether there are files below a place. -/
def isFolder (d : Directory) (place : List (List Char)) : Bool :=
  d.entries.any fun (other, _) => place.isPrefixOf other && other ≠ place

/-- The place that some parts of a path lead to, from a folder on. -/
def walk (d : Directory) (place : List (List Char)) :
    List (List Char) → Option (List (List Char))
  | [] => none
  | [part] => if isName part then some (place ++ [part]) else none
  | part :: rest =>
    if stays part then walk d place rest
    else if part = ['.', '.'] then
      if place = [] then none else walk d place.dropLast rest
    else if isName part && d.isFolder (place ++ [part]) then walk d (place ++ [part]) rest
    else none

/-- The place of the file that a path names, whether or not it is there. -/
def place? (d : Directory) (path : String) : Option (List (List Char)) :=
  if path.toList.head? = some '/' then none
  else (d.walk [] (parts path)).filter fun place => !d.isFolder place

/-- The text of the file that a path names. -/
def read? (d : Directory) (path : String) : Option String :=
  (d.place? path).bind fun place => d.entries.lookup place

/-- Whether a path names a file that can be written. -/
def accepts (d : Directory) (path : String) : Bool := (d.place? path).isSome

/-- The directory with a text at a place. -/
def put (d : Directory) (place : List (List Char)) (text : String) : Directory :=
  ⟨(place, text) :: d.entries.filter (·.1 ≠ place)⟩

/-- The directory after a file has been written. -/
def write (d : Directory) (path text : String) : Directory :=
  match d.place? path with
  | some place => d.put place text
  | none => d

/-- The directory of some files with their names and texts. -/
def ofFiles (files : List (String × String)) : Directory :=
  files.foldl (fun d (name, text) => d.put ((parts name).filter fun part => !stays part) text) ⟨[]⟩

/-- The directory as commands see it. -/
def files (d : Directory) : Files := ⟨d.read?, d.accepts⟩

/-- Carries out a command: the text it prints, and the directory after it. -/
def perform (d : Directory) (detail : Level) (c : Command) :
    Attempt CommandError (String × Directory) := do
  let printout ← c.execute d.files detail
  match printout.report with
  | some (path, text) => return (printout.text, d.write path text)
  | none => return (printout.text, d)

end Directory

end Inversion

import Inversion.Orientation
import Inversion.Text.Blank

/-!
The commands and how they are written on a command line. Words are first sorted into inputs and
options, which depends only on the names of the options and on which of them take a value; the command
is then made of what was found. Whatever is not exactly a command is refused as a whole.
-/

namespace Inversion

/-- A command. Rules, settings and the report are given as paths of files. -/
inductive Command where
  /-- Prints a body in its plain form, or as JSON. -/
  | decode (input : String) (json : Bool)
  /-- Patches a body and prints the result. -/
  | patch (input : String) (rules config emit : Option String)
  /-- Runs a body, patched if rules are given or `patches` is set. -/
  | run (input : String) (gravity : Orientation) (args : List String) (rules : Option String)
      (patches : Bool) (config : Option String)
  deriving DecidableEq

namespace CommandLine

/-- What a word, or an option with its value, stands for. -/
inductive Item where
  | input (text : String)
  | flag (name : String)
  | setting (name value : String)
  deriving DecidableEq

/-- The options of a command: those that take a value, and those that do not. -/
structure Options where
  valued : List String
  flags : List String

/-- Whether a word may not be taken for an input or a value. -/
def isDashed (word : String) : Bool :=
  match word.toList with
  | '-' :: _ :: _ => true
  | _ => false

/-- The name of an option and what stands behind its equals sign, if the word is an option. -/
def option? (word : String) : Option (String × Option String) :=
  match word.toList with
  | '-' :: '-' :: rest =>
    match Text.cutAt? (· == '=') rest with
    | some (name, value) => some (String.ofList name, some (String.ofList value))
    | none => some (String.ofList rest, none)
  | _ => none

/-- What a word stands for that needs no further one. -/
def Options.single? (o : Options) (word : String) : Option Item :=
  match option? word with
  | some (name, some value) => if name ∈ o.valued then some (.setting name value) else none
  | some (name, none) => if name ∈ o.flags then some (.flag name) else none
  | none => if isDashed word then none else some (.input word)

/-- The option that a word is, if its value is the next word. -/
def Options.waiting? (o : Options) (word : String) : Option String :=
  match option? word with
  | some (name, none) => if name ∈ o.valued then some name else none
  | _ => none

/-- Sorts words. Behind two dashes there are only inputs. -/
def scan (o : Options) : List String → Option (List Item)
  | [] => some []
  | [word] =>
    if word = "--" then some [] else (o.single? word).map fun item => [item]
  | word :: next :: rest =>
    if word = "--" then some (.input next :: rest.map .input)
    else
      match o.waiting? word with
      | some name =>
        if isDashed next then none else (scan o rest).map (.setting name next :: ·)
      | none => do
        let item ← o.single? word
        return item :: (← scan o (next :: rest))

/-- The inputs among the items. -/
def inputs (items : List Item) : List String :=
  items.filterMap fun
    | .input text => some text
    | _ => none

/-- The values of an option in order. -/
def valuesOf (name : String) (items : List Item) : List String :=
  items.filterMap fun
    | .setting other value => if other = name then some value else none
    | _ => none

/-- The only input. -/
def input? (items : List Item) : Option String :=
  match inputs items with
  | [text] => some text
  | _ => none

/-- The value of an option that may stand once. -/
def value? (name : String) (items : List Item) : Option (Option String) :=
  match valuesOf name items with
  | [] => some none
  | [value] => some (some value)
  | _ => none

/-- Whether an option without a value stands; once at most. -/
def flag? (name : String) (items : List Item) : Option Bool :=
  match items.count (.flag name) with
  | 0 => some false
  | 1 => some true
  | _ => none

/-- The orientation that is meant; normal if none is given. -/
def gravity? : Option String → Option Orientation
  | none | some "normal" => some .normal
  | some "inverted" => some .inverted
  | some _ => none

/-- The command that is meant, if it is one. A run is patched by given rules or by those for all
    arithmetic, but not by both. -/
def parse? : List String → Option Command
  | "decode" :: words => do
    let items ← scan ⟨[], ["json"]⟩ words
    return .decode (← input? items) (← flag? "json" items)
  | "rewrite" :: words => do
    let items ← scan ⟨["rules", "config", "emit"], []⟩ words
    return .patch (← input? items) (← value? "rules" items) (← value? "config" items)
      (← value? "emit" items)
  | "run" :: words => do
    let items ← scan ⟨["gravity", "arg", "rules", "config"], ["patch"]⟩ words
    let rules ← value? "rules" items
    let patches ← flag? "patch" items
    if rules.isSome && patches then none
    else
      return .run (← input? items) (← gravity? (← value? "gravity" items)) (valuesOf "arg" items)
        rules patches (← value? "config" items)
  | _ => none

end CommandLine

end Inversion

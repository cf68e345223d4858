import Inversion.CommandLine.Arguments
import Inversion.Document
import Inversion.Evaluation
import Inversion.Gravity.Dispatch
import Inversion.Patching.Form
import Inversion.Rule.Library

/-!
What the commands do. A command is carried out without touching a file: it is told what the files
contain and which can be written, and it says what is to be printed and what is to be written.
-/

namespace Inversion

/-- The files around a command: the text of a file, and whether a file can be written. -/
structure Files where
  read? : String → Option String
  accepts : String → Bool

/-- Why a command fails. -/
inductive CommandError where
  /-- A file cannot be read or written. -/
  | file
  /-- The input is no body, or a faulty one. -/
  | decode (e : BodyError)
  /-- Patching or running fails. -/
  | transform (e : Error)
  /-- An argument of a run is not a value. -/
  | badValue (text : String)
  deriving DecidableEq

/-- The message of an error. -/
def CommandError.message : CommandError → String
  | .file => "file error"
  | .decode e => s!"decode error: {e.message}"
  | .transform e => s!"transform error: {e.message}"
  | .badValue text => s!"invalid argument: bad value `{text}`"

/-- What a command comes to: the text to print, and the file to write with its text. -/
structure Printout where
  text : String
  report : Option (String × String)
  deriving DecidableEq

namespace Command

/-- The files that a command reads, the input among them if it is one. -/
def reads : Command → List String
  | decode input _ => [input]
  | patch input rules config _ => input :: rules.toList ++ config.toList
  | run input _ _ rules _ config => input :: rules.toList ++ config.toList

/-- The text of a file that must be there. -/
def readFile (files : Files) (path : String) : Except CommandError String :=
  match files.read? path with
  | some text => .ok text
  | none => .error .file

/-- The assembly text that is meant by an input: that of the file, or else the input itself, with a
    semicolon at the end of each line. -/
def assembly (files : Files) (input : String) : String :=
  (files.read? input).getD (String.ofList (input.toList.map fun c => if c = ';' then '\n' else c))

/-- The body that is meant by an input. -/
def bodyOf (files : Files) (input : String) : Except CommandError Body :=
  (Body.parse (assembly files input)).mapError .decode

/-- The settings in a file, or those that hold when nothing else is said. -/
def configOf (files : Files) : Option String → Except CommandError Config
  | none => .ok .default
  | some path => do
    match Json.read? (← readFile files path) with
    | some config => return config
    | none => throw (.transform .json)

/-- The rules in a file with their target, or those for all arithmetic. -/
def rulesOf (files : Files) : Option String → Except CommandError (Method × RuleSet)
  | none => .ok (⟨"<input>", "body"⟩, .arithmetic "arithmetic")
  | some path => do
    let text ← readFile files path
    ((Document.parse text).bind Document.compile).mapError .transform

/-- Patches a body by the rules in a file. -/
def patchBy (files : Files) (rules : Option String) (config : Config) (b : Body) :
    Attempt CommandError (Body × Report) := do
  let (target, set) ← Attempt.of (rulesOf files rules)
  ((Engine.ofConfig config).patch target set b).adapt .transform

/-- Reads the arguments of a run. -/
def valuesOf (args : List String) : Except CommandError (List Value) :=
  args.mapM fun text =>
    match Value.ofText? text.toList with
    | some v => .ok v
    | none => .error (.badValue text)

/-- Turns gravity as a run wants it; nobody listens. -/
def turnGravity (g : Orientation) : Logged Orientation := do
  match g with
  | .normal => return .normal
  | .inverted =>
    let scene : Scene Empty Unit := ⟨.start .normal, ()⟩
    let told := scene.setGravity .nobody ⟨.inverted, .one false, false⟩
    Account.tellAll (Moment.log told.events)
    return told.value.coordinator.current

/-- Writes a report, if a path is given. -/
def emitReport (files : Files) (report : Report) :
    Option String → Attempt CommandError (Option (String × String))
  | none => return none
  | some path => do
    if files.accepts path then
      Attempt.tell ⟨.info, s!"wrote rewrite report to {path}"⟩
      return some (path, report.render)
    else throw .file

/-- Prints a body. -/
def executeDecode (files : Files) (input : String) (json : Bool) :
    Attempt CommandError Printout := do
  let b ← Attempt.of (bodyOf files input)
  b.check.adapt .decode
  if json then return ⟨s!"{(JsonForm.write b.instructions).pretty}\n", none⟩
  else return ⟨b.render, none⟩

/-- Patches a body and prints the result. -/
def executePatch (files : Files) (input : String) (rules config emit : Option String) :
    Attempt CommandError Printout := do
  let b ← Attempt.of (bodyOf files input)
  let config ← Attempt.of (configOf files config)
  let (patched, report) ← patchBy files rules config b
  return ⟨patched.render, ← emitReport files report emit⟩

/-- Patches a body in front of a run. -/
def patched (files : Files) (rules : Option String) (config : Config) (b : Body) :
    Attempt CommandError Body := do
  let (b, report) ← patchBy files rules config b
  Attempt.tell ⟨.info, s!"patched {report.total} site(s) before running"⟩
  return b

/-- Runs a body and prints its value. The run is traced if that much detail is asked for. -/
def executeRun (files : Files) (detail : Level) (input : String) (gravity : Orientation)
    (args : List String) (rules : Option String) (patches : Bool) (config : Option String) :
    Attempt CommandError Printout := do
  let config ← Attempt.of (configOf files config)
  let b ← Attempt.of (bodyOf files input)
  let b ← if rules.isSome || patches then patched files rules config b else pure b
  let args ← Attempt.of (valuesOf args)
  let g ← ExceptT.lift (turnGravity gravity)
  Attempt.tellAll (b.runEvents (detail = .trace) (.bare g) config.maxSteps args ())
  let result ← Attempt.of ((b.run (.bare g) config.maxSteps args ()).result.mapError .transform)
  let text := (result.map Value.display).getD "(no value)"
  return ⟨s!"{text}\n", none⟩

/-- Carries out a command, with an account of at least the events up to a level. -/
def execute (files : Files) (detail : Level) : Command → Attempt CommandError Printout
  | decode input json => executeDecode files input json
  | patch input rules config emit => executePatch files input rules config emit
  | run input gravity args rules patches config =>
    executeRun files detail input gravity args rules patches config

end Command

end Inversion

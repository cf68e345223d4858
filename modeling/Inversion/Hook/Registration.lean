import Inversion.Patching

/-!
A rule set bound to one method for one time of loading. Applying it installs the patched body and
keeps the former one; reverting it installs that again. Whatever fails leaves the registration
at the stage where it was, so that it can be tried once more.
-/

namespace Inversion

instance : JsonForm Stage where
  write s := .text s.name
  read? := Json.named? (Stage.all.map fun s => (s.name, s))

/-- The methods of a host program, which may change as their bodies are replaced: the method that a
    name stands for, the body of a method, and the replacement of a body, which may be refused for a
    reason. -/
structure Host (σ : Type) where
  resolve : σ → Method → Option Method
  bodyOf : σ → Method → Except Error Body
  install : σ → Method → Body → Except String Unit × σ

namespace Host

variable {σ : Type}

/-- Installs a body. -/
def replace (h : Host σ) (s : σ) (target : Method) (b : Body) : Except Error Unit × σ :=
  let (accepted, s) := h.install s target b
  (accepted.mapError (.refused target), s)

end Host

/-- A rule set that is bound to a method. -/
structure Registration where
  target : Method
  rules : RuleSet
  stage : Stage
  former : Option Body
  report : Option Report

namespace Registration

variable {σ : Type}

/-- A registration that has gone through no stage yet. -/
def start (target : Method) (rules : RuleSet) : Registration :=
  ⟨target, rules, .unregistered, none, none⟩

/-- The registration at another stage. -/
def moveTo (r : Registration) (next : Stage) : Except Error Registration :=
  if r.stage.canMoveTo next then .ok { r with stage := next }
  else .error (.wrongStage r.target r.stage next)

/-- Registers it. -/
def register (r : Registration) : Except Error Registration := r.moveTo .registered

/-- Patches the body of the target and installs the result. -/
def apply (e : Engine) (h : Host σ) (r : Registration) (s : σ) :
    Logged (Except Error Registration × σ) :=
  match r.moveTo .applied, h.bodyOf s r.target with
  | .error fault, _ => pure (.error fault, s)
  | .ok _, .error fault => pure (.error fault, s)
  | .ok moved, .ok former => do
    match ← (e.patch r.target r.rules former).run with
    | .error fault => return (.error fault, s)
    | .ok (patched, report) =>
      let (installed, s) := h.replace s r.target patched
      return (installed.map fun _ => { moved with former := some former, report := some report }, s)

/-- Installs the former body of an applied registration, and disposes it. -/
def revert (h : Host σ) (r : Registration) (s : σ) : Except Error Registration × σ :=
  match r.moveTo .disposed, r.former with
  | .error fault, _ => (.error fault, s)
  | .ok moved, none => (.ok moved, s)
  | .ok moved, some former =>
    let (installed, s) := h.replace s r.target former
    (installed.map fun _ => { moved with former := none }, s)

/-- Disposes a registration that is not applied. -/
def dispose (r : Registration) : Except Error Registration :=
  if r.stage = .applied then .error (.wrongStage r.target .applied .disposed)
  else r.moveTo .disposed

end Registration

end Inversion

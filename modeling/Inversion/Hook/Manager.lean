import Inversion.Hook.Registration
import Inversion.Hook.Session

/-!
Patching many methods together. A manager knows which methods are to be patched and by which rules; it
patches them all in the order in which they were registered, and restores them in the opposite order.
If one of them cannot be patched, those before it are restored or stay patched, as the settings have
it. A method that the host does not let be restored stays applied, so that it can be tried again.
-/

namespace Inversion

/-- Whether the registered methods are patched. -/
inductive LoadState where
  | unloaded
  | loaded
  deriving DecidableEq

/-- The name of a state. -/
def LoadState.name : LoadState → String
  | .unloaded => "Unloaded"
  | .loaded => "Loaded"

instance : JsonForm LoadState where
  write s := .text s.name
  read? := Json.named? ([.unloaded, .loaded].map fun s => (s.name, s))

/-- The registered methods with their rules, and those of them that are patched. -/
structure Manager where
  config : Config
  targets : List (Method × RuleSet)
  applied : List Registration
  state : LoadState

/-- What an operation on a manager comes to: its result, and the manager and the host after it. -/
structure Managed (σ α : Type) where
  result : Except Error α
  manager : Manager
  host : σ

namespace Manager

variable {σ : Type}

/-- A manager without registrations. -/
def start (config : Config) : Manager := ⟨config, [], [], .unloaded⟩

/-- How the manager patches bodies. -/
def engine (m : Manager) : Engine := .ofConfig m.config

/-- The methods that are to be patched. -/
def registeredTargets (m : Manager) : List Method := m.targets.map (·.1)

/-- The methods that are patched. -/
def appliedTargets (m : Manager) : List Method := m.applied.map (·.target)

/-- What has been done to the patched methods. -/
def reports (m : Manager) : List Report := m.applied.filterMap (·.report)

/-! ### Registering -/

/-- Registers a method that is not registered yet. -/
def registerRules (target : Method) (rules : RuleSet) (m : Manager) : Attempt Error Manager := do
  if target ∈ m.registeredTargets then throw (.alreadyRegistered target)
  Attempt.tell ⟨.debug, s!"registered `{rules.name}` for {target.display}"⟩
  return { m with targets := m.targets ++ [(target, rules)] }

/-- Registers the method that a name stands for. -/
def registerNamed (h : Host σ) (s : σ) (name : Method) (rules : RuleSet) (m : Manager) :
    Attempt Error (Method × Manager) := do
  match h.resolve s name with
  | none => throw (.noMethod name.display)
  | some target => return (target, ← m.registerRules target rules)

/-- Takes out a method that is not patched; whether it was registered. -/
def unregister (target : Method) (m : Manager) : Except Error (Bool × Manager) :=
  if target ∈ m.appliedTargets then .error (.wrongStage target .applied .unregistered)
  else
    .ok (decide (target ∈ m.registeredTargets),
      { m with targets := m.targets.filter (·.1 ≠ target) })

/-! ### Restoring -/

/-- Reverts some registrations one after the other, past failures: the errors, and the registrations
    that could not be reverted. -/
def revertEach (h : Host σ) : List Registration → σ → Logged (List Error × List Registration × σ)
  | [], s => pure ([], [], s)
  | r :: rest, s => do
    match r.revert h s with
    | (.ok _, s) => revertEach h rest s
    | (.error fault, s) =>
      Account.tell ⟨.error, s!"failed to restore {r.target.display}: {fault.message}"⟩
      let (faults, stuck, s) ← revertEach h rest s
      return (fault :: faults, r :: stuck, s)

/-- Restores every patched method, the latest first: the first error, if there is one. -/
def revertAll (h : Host σ) (m : Manager) (s : σ) : Logged (Option Error × Manager × σ) := do
  let (faults, stuck, s) ← revertEach h m.applied.reverse s
  return (faults.head?, { m with applied := stuck.reverse }, s)

/-- Restores every patched method, unless nothing is loaded. -/
def deactivate (h : Host σ) (m : Manager) (s : σ) : Logged (Managed σ Unit) := do
  match m.state with
  | .unloaded =>
    Account.tell ⟨.debug, "hooks already unloaded"⟩
    return ⟨.ok (), m, s⟩
  | .loaded =>
    let count := m.applied.length
    match ← m.revertAll h s with
    | (some fault, m, s) =>
      let left := m.applied.length
      Account.tell ⟨.warn, s!"unloaded {count - left} of {count} hook(s); {left} still applied"⟩
      return ⟨.error fault, m, s⟩
    | (none, m, s) =>
      Account.tell ⟨.info, s!"unloaded {count} hook(s)"⟩
      return ⟨.ok (), { m with state := .unloaded }, s⟩

/-! ### Patching -/

/-- Patches methods one after the other until one fails: the error, if there is one, and the
    registrations that are applied. -/
def applyEach (e : Engine) (h : Host σ) :
    List (Method × RuleSet) → σ → Logged (Option Error × List Registration × σ)
  | [], s => pure (none, [], s)
  | (target, rules) :: rest, s => do
    let r := { Registration.start target rules with stage := .registered }
    match ← r.apply e h s with
    | (.error fault, s) =>
      Account.tell ⟨.error, s!"failed to hook {target.display}: {fault.message}"⟩
      return (some fault, [], s)
    | (.ok r, s) =>
      let sites := (r.report.map Report.total).getD 0
      Account.tell ⟨.info, s!"hooked {target.display} ({sites} site(s))"⟩
      let (fault, applied, s) ← applyEach e h rest s
      return (fault, r :: applied, s)

/-- Ends an activation that has failed. -/
def abort (h : Host σ) (fault : Error) (m : Manager) (s : σ) : Logged (Managed σ Unit) := do
  let count := m.applied.length
  match m.config.loadPolicy with
  | .transactional =>
    if count ≠ 0 then Account.tell ⟨.warn, s!"rolling back {count} hook(s)"⟩
    match ← m.revertAll h s with
    | (none, m, s) => return ⟨.error fault, m, s⟩
    | (some rollback, m, s) =>
      return ⟨.error (.rollbackFailed fault rollback), { m with state := .loaded }, s⟩
  | .keepPatched =>
    if count = 0 then return ⟨.error fault, m, s⟩
    else
      Account.tell ⟨.warn, s!"partial load: {count} hook(s) remain applied"⟩
      return ⟨.error fault, { m with state := .loaded }, s⟩

/-- Patches every registered method, unless they are loaded already. -/
def activate (h : Host σ) (m : Manager) (s : σ) : Logged (Managed σ Unit) := do
  match m.state with
  | .loaded =>
    Account.tell ⟨.debug, "hooks already loaded"⟩
    return ⟨.ok (), m, s⟩
  | .unloaded =>
    let (fault, applied, s) ← applyEach m.engine h m.targets s
    let m := { m with applied := m.applied ++ applied }
    match fault with
    | some fault => m.abort h fault s
    | none =>
      Account.tell ⟨.info, s!"loaded {m.applied.length} hook(s)"⟩
      return ⟨.ok (), { m with state := .loaded }, s⟩

/-- Patches or restores the methods, as a session asks for: whether they are to be patched. -/
def syncWithSession (policy : Session → Bool) (session : Session) (h : Host σ) (m : Manager)
    (s : σ) : Logged (Managed σ Bool) := do
  let required := policy session
  Account.tell ⟨.debug, s!"session `{session.name}` requires hooks: {required}"⟩
  let done ← if required then m.activate h s else m.deactivate h s
  return ⟨done.result.map fun _ => required, done.manager, done.host⟩

end Manager

end Inversion

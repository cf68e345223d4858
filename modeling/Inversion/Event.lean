/-!
Log events, and results that come with an account of the work that led to them. What a computation
returns never depends on its account: `value` and `outcome` pass through every way of putting
computations together.
-/

namespace Inversion

/-- How severe an event is. -/
inductive Level where
  | error
  | warn
  | info
  | debug
  | trace
  deriving DecidableEq

namespace Level

/-- The name of a level. -/
def name : Level → String
  | error => "ERROR"
  | warn => "WARN"
  | info => "INFO"
  | debug => "DEBUG"
  | trace => "TRACE"

/-- The levels in order, most severe first. -/
def rank : Level → Nat
  | error => 0
  | warn => 1
  | info => 2
  | debug => 3
  | trace => 4

end Level

/-- Something worth telling about. -/
structure Event where
  level : Level
  message : String
  deriving DecidableEq

namespace Event

/-- The text of an event. -/
def text (e : Event) : String := s!"{e.level.name} {e.message}"

/-- The events that are at least as severe as a level. -/
def upTo (l : Level) (events : List Event) : List Event :=
  events.filter fun e => e.level.rank ≤ l.rank

end Event

/-- A value together with an account of what happened on the way to it. -/
structure Account (ε α : Type) where
  value : α
  events : List ε

namespace Account

variable {ε α β : Type}

instance : Monad (Account ε) where
  pure a := ⟨a, []⟩
  bind x f :=
    let y := f x.value
    ⟨y.value, x.events ++ y.events⟩

/-- Reports one event. -/
def tell (e : ε) : Account ε Unit := ⟨(), [e]⟩

/-- Reports some events. -/
def tellAll (events : List ε) : Account ε Unit := ⟨(), events⟩

@[simp] theorem value_pure (a : α) : (pure a : Account ε α).value = a := rfl

@[simp] theorem value_bind (x : Account ε α) (f : α → Account ε β) :
    (x >>= f).value = (f x.value).value := rfl

@[simp] theorem events_pure (a : α) : (pure a : Account ε α).events = [] := rfl

@[simp] theorem events_bind (x : Account ε α) (f : α → Account ε β) :
    (x >>= f).events = x.events ++ (f x.value).events := rfl

@[simp] theorem events_tell (e : ε) : (tell e).events = [e] := rfl

@[simp] theorem events_tellAll (events : List ε) : (tellAll events).events = events := rfl

end Account

/-- A value together with the log events on the way to it. -/
abbrev Logged := Account Event

/-- A computation that may fail, with the events up to its end or its failure. -/
abbrev Attempt (ε α : Type) := ExceptT ε Logged α

namespace Attempt

variable {ε α β : Type}

/-- What a computation comes to. -/
def outcome (x : Attempt ε α) : Except ε α := (ExceptT.run x).value

/-- The events of a computation. -/
def events (x : Attempt ε α) : List Event := (ExceptT.run x).events

/-- Reports one event. -/
def tell (e : Event) : Attempt ε Unit := ExceptT.lift (Account.tell e)

/-- Reports some events. -/
def tellAll (events : List Event) : Attempt ε Unit := ExceptT.lift (Account.tellAll events)

/-- A finished outcome without events. -/
def of (x : Except ε α) : Attempt ε α := ExceptT.mk ⟨x, []⟩

/-- The same computation with its errors restated. -/
def adapt {ε' : Type} (x : Attempt ε α) (f : ε → ε') : Attempt ε' α :=
  ExceptT.mk ⟨(outcome x).mapError f, events x⟩

@[simp] theorem outcome_pure (a : α) : outcome (pure a : Attempt ε α) = .ok a := rfl

@[simp] theorem outcome_throw (e : ε) : outcome (throw e : Attempt ε α) = .error e := rfl

@[simp] theorem outcome_of (x : Except ε α) : outcome (of x) = x := rfl

@[simp] theorem outcome_tell (e : Event) : outcome (tell e : Attempt ε Unit) = .ok () := rfl

@[simp] theorem outcome_tellAll (es : List Event) :
    outcome (tellAll es : Attempt ε Unit) = .ok () := rfl

@[simp] theorem outcome_adapt {ε' : Type} (x : Attempt ε α) (f : ε → ε') :
    outcome (adapt x f) = (outcome x).mapError f := rfl

@[simp] theorem outcome_bind (x : Attempt ε α) (f : α → Attempt ε β) :
    outcome (x >>= f) = outcome x >>= fun a => outcome (f a) := by
  simp only [outcome, bind, ExceptT.bind, ExceptT.run, ExceptT.mk]
  cases Account.value x <;> rfl

theorem outcome_bind_eq_ok {x : Attempt ε α} {f : α → Attempt ε β} {b : β} :
    outcome (x >>= f) = .ok b ↔ ∃ a, outcome x = .ok a ∧ outcome (f a) = .ok b := by
  rw [outcome_bind]
  cases outcome x with
  | error e => exact ⟨fun h => (nomatch h), fun ⟨_, h, _⟩ => (nomatch h)⟩
  | ok a => exact ⟨fun h => ⟨a, rfl, h⟩, fun ⟨_, ha, h⟩ => by cases ha; exact h⟩

theorem outcome_bind_eq_error {x : Attempt ε α} {f : α → Attempt ε β} {e : ε} :
    outcome (x >>= f) = .error e ↔
      outcome x = .error e ∨ ∃ a, outcome x = .ok a ∧ outcome (f a) = .error e := by
  rw [outcome_bind]
  cases outcome x with
  | error e' =>
    refine ⟨fun h => Or.inl (congrArg Except.error (Except.error.inj h)), fun h => ?_⟩
    rcases h with h | ⟨_, ha, _⟩
    · exact congrArg Except.error (Except.error.inj h)
    · cases ha
  | ok a =>
    refine ⟨fun h => Or.inr ⟨a, rfl, h⟩, fun h => ?_⟩
    rcases h with h | ⟨_, ha, h⟩
    · cases h
    · cases ha
      exact h

theorem outcome_adapt_eq_ok {ε' : Type} {x : Attempt ε α} {f : ε → ε'} {a : α} :
    outcome (adapt x f) = .ok a ↔ outcome x = .ok a := by
  rw [outcome_adapt]
  cases outcome x with
  | error _ => exact ⟨nofun, nofun⟩
  | ok _ => exact ⟨fun h => by cases h; rfl, fun h => by cases h; rfl⟩

theorem outcome_adapt_eq_error {ε' : Type} {x : Attempt ε α} {f : ε → ε'} {e : ε'} :
    outcome (adapt x f) = .error e ↔ ∃ e', outcome x = .error e' ∧ e = f e' := by
  rw [outcome_adapt]
  cases outcome x with
  | error e' =>
    refine ⟨fun h => ⟨e', rfl, (Except.error.inj h).symm⟩, ?_⟩
    rintro ⟨_, h, rfl⟩
    cases h
    rfl
  | ok _ => exact ⟨nofun, fun ⟨_, h, _⟩ => (nomatch h)⟩

/-- What follows only matters where there is an outcome to go on from. -/
theorem bind_congr_of_ok {x : Attempt ε α} {f g : α → Attempt ε β}
    (h : ∀ a, outcome x = .ok a → f a = g a) : x >>= f = x >>= g := by
  obtain ⟨value, events⟩ := x
  cases value with
  | error e => rfl
  | ok a =>
    exact congrArg (fun y : Attempt ε β => (⟨y.outcome, events ++ y.events⟩ : Account Event _))
      (h a rfl)

end Attempt

end Inversion

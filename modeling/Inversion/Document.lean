import Inversion.Rule.Form
import Inversion.Assembly.Parser
import Inversion.Error

/-!
Rule documents: rule sets in JSON, with the method that they are meant for. Reading a document and
compiling it are two steps. Compiling refuses what a rule cannot mean: an unknown mnemonic, a constant
that is no value, an anchor or a span outside the window, a substitution that consumes nothing.
-/

namespace Inversion

namespace Document

/-- A predicate in a document. -/
inductive Test where
  | any
  | op (mnemonic : String)
  | rewritable
  | callTo (name : String)
  | callTransform (t : Transform)
  | constant (literal : String)
  | unitY
  | not (test : Test)
  deriving DecidableEq

/-- A rule in a document. -/
structure RuleText where
  name : String
  pattern : List Test
  anchor : Nat
  consume : Option Nat
  direction : Direction
  occurrence : Occurrence
  replacement : Replacement
  reset : Bool
  deriving DecidableEq

end Document

/-- A rule set in writing, and its target. -/
structure Document where
  name : String
  target : Method
  rules : List Document.RuleText
  deriving DecidableEq

namespace Document

/-! ### JSON -/

/-- The JSON value of a predicate. -/
def Test.toJson : Test → Json
  | any => .text "any"
  | op mnemonic => .record [("op", .text mnemonic)]
  | rewritable => .text "rewritable"
  | callTo name => .record [("call_to", .text name)]
  | callTransform t => .record [("call_transform", JsonForm.write t)]
  | constant literal => .record [("constant", .text literal)]
  | unitY => .text "unit_y"
  | not test => .record [("not", test.toJson)]

/-- Reads a predicate that is not a negation. -/
def Test.readPlain? (name : String) (content : Option (Nat × Json)) : Option Test :=
  match name with
  | "any" => Json.bare any content
  | "op" => Json.holding op content
  | "rewritable" => Json.bare rewritable content
  | "call_to" => Json.holding callTo content
  | "call_transform" => Json.holding callTransform content
  | "constant" => Json.holding constant content
  | "unit_y" => Json.bare unitY content
  | _ => none

/-- Reads a predicate. Every negation enters a container. -/
def Test.ofJson? : Nat → Json → Option Test
  | budget + 1, .object [(some "not", content)] => (ofJson? budget content).map not
  | budget, j => Json.case? budget readPlain? j

instance : JsonForm Test where
  write := Test.toJson
  read? := Test.ofJson?

/-- The anchor, the direction, the occurrence, `consume` and `reset` may be left out. -/
instance : JsonForm RuleText where
  write r := .record [("name", .text r.name), ("pattern", JsonForm.write r.pattern),
    ("anchor", .nat r.anchor), ("consume", JsonForm.write r.consume),
    ("direction", JsonForm.write r.direction), ("occurrence", JsonForm.write r.occurrence),
    ("replacement", JsonForm.write r.replacement), ("reset", .bool r.reset)]
  read? budget j := Json.enter budget fun budget => do
    match ← Json.fields? ["name", "pattern", "anchor", "consume", "direction", "occurrence",
        "replacement", "reset"] j with
    | [name, pattern, anchor, consume, direction, occurrence, replacement, reset] =>
      return ⟨← Json.required budget name, ← Json.required budget pattern,
        ← Json.optional budget 0 anchor, ← Json.optional budget none consume,
        ← Json.optional budget .forward direction, ← Json.optional budget .first occurrence,
        ← Json.required budget replacement, ← Json.optional budget false reset⟩
    | _ => none

end Document

instance : JsonForm Method where
  write m := .record [("owner", .text m.owner), ("signature", .text m.signature)]
  read? budget j := Json.enter budget fun budget => do
    match ← Json.fields? ["owner", "signature"] j with
    | [owner, signature] =>
      return ⟨← Json.required budget owner, ← Json.required budget signature⟩
    | _ => none

instance : JsonForm Document where
  write d := .record [("name", .text d.name), ("target", JsonForm.write d.target),
    ("rules", JsonForm.write d.rules)]
  read? budget j := Json.enter budget fun budget => do
    match ← Json.fields? ["name", "target", "rules"] j with
    | [name, target, rules] =>
      return ⟨← Json.required budget name, ← Json.required budget target,
        ← Json.required budget rules⟩
    | _ => none

namespace Document

/-- Reads a document. -/
def parse (text : String) : Except Error Document :=
  match Json.read? text with
  | some d => .ok d
  | none => .error .json

/-- The text of a document. -/
def render (d : Document) : String := (JsonForm.write d).pretty

/-! ### Compiling -/

/-- The predicate that is meant. -/
def Test.compile : Test → Except DocumentFault Predicate
  | any => .ok .any
  | op mnemonic =>
    match Opcode.ofMnemonic? mnemonic with
    | some opcode => .ok (.op opcode)
    | none => .error (.unknownMnemonic mnemonic)
  | rewritable => .ok .rewritable
  | callTo name => .ok (.callTo name)
  | callTransform t => .ok (.callTransform t)
  | constant literal =>
    match Value.ofText? literal.toList with
    | some v => .ok (.constant v)
    | none => .error (.invalidConstant literal)
  | unitY => .ok .unitY
  | not test => test.compile.map Predicate.not

namespace RuleText

/-- What is wrong with the numbers of a rule, if anything is. They are added up as natural numbers, which
    is meant for sums that fit a machine word. -/
def spanFault? (r : RuleText) : Option DocumentFault :=
  let width := r.pattern.length
  if width = 0 then some (.emptyPattern r.name)
  else if width ≤ r.anchor then some (.anchorOutside r.name r.anchor width)
  else
    match r.consume, r.replacement with
    | some 0, .substitute _ => some (.consumesNothing r.name)
    | some consume, _ =>
      if width < r.anchor + consume then some (.consumesTooMuch r.name) else none
    | none, _ => none

/-- The pattern of a rule, made of its compiled predicates. -/
def window (r : RuleText) (predicates : List Predicate) : Pattern :=
  let p := ((Pattern.window r.name predicates).withAnchor r.anchor).withDirection r.direction
  match r.consume with
  | some consume => p.withConsume consume
  | none => p

/-- The rule that is meant. -/
def compile (r : RuleText) : Except DocumentFault Rule :=
  match r.spanFault? with
  | some fault => .error fault
  | none => do
    let predicates ← r.pattern.mapM Test.compile
    return ⟨r.name, r.window predicates, r.replacement, r.occurrence, r.reset⟩

end RuleText

/-- The target and the rule set that are meant. -/
def compile (d : Document) : Except Error (Method × RuleSet) :=
  match d.rules.mapM RuleText.compile with
  | .ok rules => .ok (d.target, ⟨d.name, rules⟩)
  | .error fault => .error (.document fault)

end Document

end Inversion

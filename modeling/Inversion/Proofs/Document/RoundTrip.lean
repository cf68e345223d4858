import Inversion.Document
import Inversion.Proofs.Json.Form

/-!
Writing a rule document as JSON and reading it back. Predicates are the only part of a document that can
nest, and every negation is one more container around what it negates. A document whose predicates are
not nested deeper than a reader goes is read back as it was; any other is written all the same and then
refused.
-/

namespace Inversion

/-! ### Parts of a rule -/

namespace Json

theorem formed_nat (n : Nat) : Formed (nat n) := .number rfl

theorem read?_nat (n budget : Nat) :
    JsonForm.read? budget (nat n) = if n < UInt64.size then some n else none := by
  show (Numeral.ofNat n).toNat? UInt64.size = _
  simp [Numeral.toNat?, Numeral.toInt?, Numeral.ofNat]

theorem formed_count (n : Option Nat) : Formed (JsonForm.write n) := by
  cases n with
  | none => exact .null
  | some n => exact formed_nat n

theorem read?_count (n : Option Nat) (budget : Nat) : JsonForm.read? budget (JsonForm.write n)
    = if ∀ m ∈ n, m < UInt64.size then some n else none := by
  cases n with
  | none => simp; rfl
  | some n =>
    show (JsonForm.read? budget (nat n)).map some = _
    rw [read?_nat]
    by_cases hn : n < UInt64.size <;> simp [hn]

end Json

theorem Direction.read?_write (d : Direction) (budget : Nat) :
    JsonForm.read? budget (JsonForm.write d) = some d := by
  cases d <;> rfl

theorem Direction.formed_write (d : Direction) : Json.Formed (JsonForm.write d) := by
  cases d <;> exact .string _

theorem Transform.read?_write (t : Transform) (budget : Nat) :
    JsonForm.read? budget (JsonForm.write t) = some t := by
  cases t <;> rfl

theorem Transform.formed_write (t : Transform) : Json.Formed (JsonForm.write t) := .string _

theorem Replacement.formed_write (r : Replacement) : Json.Formed (JsonForm.write r) := by
  cases r <;> exact Json.formed_record (List.forall_mem_singleton.2 (Transform.formed_write _))

theorem Replacement.read?_write (r : Replacement) (budget : Nat) :
    JsonForm.read? (budget + 1) (JsonForm.write r) = some r := by
  cases r with
  | substitute t =>
    show (JsonForm.read? budget (JsonForm.write t)).map substitute = _
    rw [t.read?_write, Option.map_some]
  | append t =>
    show (JsonForm.read? budget (JsonForm.write t)).map append = _
    rw [t.read?_write, Option.map_some]

namespace Occurrence

/-- The count that is written. -/
def count : Occurrence → Nat
  | first | all _ => 0
  | exactly n | atMost n => n

theorem formed_write (o : Occurrence) : Json.Formed (JsonForm.write o) := by
  cases o with
  | first => exact .string _
  | all allowZero =>
    exact Json.formed_record (List.forall_mem_singleton.2
      (Json.formed_record (List.forall_mem_singleton.2 (.bool allowZero))))
  | exactly n => exact Json.formed_record (List.forall_mem_singleton.2 (Json.formed_nat n))
  | atMost n => exact Json.formed_record (List.forall_mem_singleton.2 (Json.formed_nat n))

theorem read?_write (o : Occurrence) (budget : Nat) : JsonForm.read? (budget + 2) (JsonForm.write o)
    = if o.count < UInt64.size then some o else none := by
  cases o with
  | first => rfl
  | all allowZero => cases allowZero <;> rfl
  | exactly n =>
    show (JsonForm.read? (budget + 1) (Json.nat n)).map exactly = _
    rw [Json.read?_nat, apply_ite (Option.map exactly)]
    rfl
  | atMost n =>
    show (JsonForm.read? (budget + 1) (Json.nat n)).map atMost = _
    rw [Json.read?_nat, apply_ite (Option.map atMost)]
    rfl

end Occurrence

namespace Document

/-! ### Predicates -/

/-- How many containers a predicate is written in. -/
def Test.depth : Test → Nat
  | any | rewritable | unitY => 0
  | op _ | callTo _ | callTransform _ | constant _ => 1
  | not test => test.depth + 1

theorem Test.formed_write (t : Test) : Json.Formed (JsonForm.write t) := by
  induction t with
  | any | rewritable | unitY => exact .string _
  | op m => exact Json.formed_record (List.forall_mem_singleton.2 (.string m))
  | callTo m => exact Json.formed_record (List.forall_mem_singleton.2 (.string m))
  | callTransform t => exact Json.formed_record (List.forall_mem_singleton.2 t.formed_write)
  | constant m => exact Json.formed_record (List.forall_mem_singleton.2 (.string m))
  | not t ih => exact Json.formed_record (List.forall_mem_singleton.2 ih)

/-- A predicate is read back if its containers may all be entered. -/
theorem Test.read?_write (t : Test) (budget : Nat) :
    JsonForm.read? budget (JsonForm.write t) = if t.depth ≤ budget then some t else none := by
  induction t generalizing budget with
  | any | rewritable | unitY => cases budget <;> rfl
  | op m => cases budget <;> rfl
  | callTo m => cases budget <;> rfl
  | callTransform t =>
    cases budget with
    | zero => rfl
    | succ budget =>
      show (JsonForm.read? budget (JsonForm.write t)).map callTransform = _
      rw [t.read?_write, Option.map_some]
      exact (if_pos (Nat.succ_pos budget)).symm
  | constant m => cases budget <;> rfl
  | not t ih =>
    cases budget with
    | zero => rfl
    | succ budget =>
      show (JsonForm.read? budget (JsonForm.write t)).map not = _
      rw [ih]
      by_cases ht : t.depth ≤ budget <;> simp [depth, ht]

/-! ### Rules -/

namespace RuleText

/-- The counts of a rule fit a 64-bit word. -/
def Sized (r : RuleText) : Prop :=
  r.anchor < UInt64.size ∧ (∀ n ∈ r.consume, n < UInt64.size) ∧ r.occurrence.count < UInt64.size

instance (r : RuleText) : Decidable r.Sized := inferInstanceAs (Decidable (_ ∧ _ ∧ _))

theorem formed_write (r : RuleText) : Json.Formed (JsonForm.write r) := by
  refine Json.formed_record ?_
  simp only [List.forall_mem_cons]
  exact ⟨.string _, Json.formed_list fun t _ => t.formed_write, Json.formed_nat _,
    Json.formed_count _, r.direction.formed_write, r.occurrence.formed_write,
    r.replacement.formed_write, .bool _, nofun⟩

theorem read?_write (r : RuleText) (budget : Nat) : JsonForm.read? (budget + 3) (JsonForm.write r)
    = if r.Sized ∧ ∀ t ∈ r.pattern, t.depth ≤ budget + 1 then some r else none := by
  have hfields : Json.fields? ["name", "pattern", "anchor", "consume", "direction", "occurrence",
      "replacement", "reset"] (JsonForm.write r) = some [some (.text r.name),
        some (JsonForm.write r.pattern), some (.nat r.anchor), some (JsonForm.write r.consume),
        some (JsonForm.write r.direction), some (JsonForm.write r.occurrence),
        some (JsonForm.write r.replacement), some (.bool r.reset)] :=
    Json.fields?_record [("name", .text r.name), ("pattern", JsonForm.write r.pattern),
      ("anchor", .nat r.anchor), ("consume", JsonForm.write r.consume),
      ("direction", JsonForm.write r.direction), ("occurrence", JsonForm.write r.occurrence),
      ("replacement", JsonForm.write r.replacement), ("reset", .bool r.reset)] (by simp)
  have hname : JsonForm.read? (budget + 2) (Json.text r.name) = some r.name := rfl
  have hreset : JsonForm.read? (budget + 2) (Json.bool r.reset) = some r.reset := rfl
  have hpattern : JsonForm.read? (budget + 2) (JsonForm.write r.pattern)
      = if r.pattern.all (·.depth ≤ budget + 1) then some r.pattern else none :=
    Json.read?_list fun t _ => by simpa using t.read?_write (budget + 1)
  change Json.enter (budget + 3) _ = _
  simp only [Json.enter, hfields, Json.required, Json.optional, Option.bind_some, hname, hreset,
    hpattern, Json.read?_nat, Json.read?_count, r.direction.read?_write, r.occurrence.read?_write,
    r.replacement.read?_write, Option.bind_eq_bind, List.all_eq_true, decide_eq_true_eq, bind_guarded,
    ← ite_and]
  exact if_congr and_comm rfl rfl

end RuleText

end Document

/-! ### Documents -/

theorem Method.formed_write (m : Method) : Json.Formed (JsonForm.write m) := by
  refine Json.formed_record ?_
  simp only [List.forall_mem_cons]
  exact ⟨.string _, .string _, nofun⟩

theorem Method.read?_write (m : Method) (budget : Nat) :
    JsonForm.read? (budget + 1) (JsonForm.write m) = some m := by
  have hfields : Json.fields? ["owner", "signature"] (JsonForm.write m)
      = some [some (.text m.owner), some (.text m.signature)] :=
    Json.fields?_record [("owner", .text m.owner), ("signature", .text m.signature)] (by simp)
  have htext (s : String) : JsonForm.read? budget (Json.text s) = some s := rfl
  change Json.enter (budget + 1) _ = _
  simp only [Json.enter, hfields, Json.required, Option.bind_some, htext, Option.bind_eq_bind]
  rfl

namespace Document

/-- The counts of every rule fit a 64-bit word. -/
def Sized (d : Document) : Prop := ∀ r ∈ d.rules, r.Sized

instance (d : Document) : Decidable d.Sized := inferInstanceAs (Decidable (∀ r ∈ d.rules, r.Sized))

/-- No predicate is nested too deep to be read. It stands in a list in a rule in a list in the
    document, which are four containers. -/
def Shallow (d : Document) : Prop :=
  ∀ r ∈ d.rules, ∀ t ∈ r.pattern, t.depth + 4 ≤ Json.maxDepth

instance (d : Document) : Decidable d.Shallow :=
  inferInstanceAs (Decidable (∀ r ∈ d.rules, ∀ t ∈ r.pattern, t.depth + 4 ≤ Json.maxDepth))

theorem formed_write (d : Document) : Json.Formed (JsonForm.write d) := by
  refine Json.formed_record ?_
  simp only [List.forall_mem_cons]
  exact ⟨.string _, d.target.formed_write, Json.formed_list fun r _ => r.formed_write, nofun⟩

theorem read?_write (d : Document) (budget : Nat) : JsonForm.read? (budget + 5) (JsonForm.write d)
    = if d.rules.all fun r => r.Sized ∧ ∀ t ∈ r.pattern, t.depth ≤ budget + 1
      then some d else none := by
  have hfields : Json.fields? ["name", "target", "rules"] (JsonForm.write d) = some [some (.text d.name),
      some (JsonForm.write d.target), some (JsonForm.write d.rules)] :=
    Json.fields?_record [("name", .text d.name), ("target", JsonForm.write d.target),
      ("rules", JsonForm.write d.rules)] (by simp)
  have hname : JsonForm.read? (budget + 4) (Json.text d.name) = some d.name := rfl
  have hrules : JsonForm.read? (budget + 4) (JsonForm.write d.rules)
      = if d.rules.all fun r => r.Sized ∧ ∀ t ∈ r.pattern, t.depth ≤ budget + 1
        then some d.rules else none :=
    Json.read?_list fun r _ => by simpa using r.read?_write budget
  change Json.enter (budget + 5) _ = _
  simp only [Json.enter, hfields, Json.required, Option.bind_some, hname, d.target.read?_write, hrules,
    Option.bind_eq_bind, bind_guarded]
  rfl

/-- The text of a document is read as that document, or refused. -/
theorem parse_render (d : Document) :
    parse d.render = if d.Sized ∧ d.Shallow then .ok d else .error .json := by
  have hall : (d.rules.all fun r => r.Sized ∧ ∀ t ∈ r.pattern, t.depth ≤ 123) = true ↔
      d.Sized ∧ d.Shallow := by
    simp only [List.all_eq_true, decide_eq_true_eq, Sized, Shallow, Json.maxDepth, ← forall₂_and]
    refine forall₂_congr fun r _ => and_congr_right fun _ => forall₂_congr fun t _ => ?_
    omega
  have hread : (JsonForm.read? Json.maxDepth (JsonForm.write d) : Option Document)
      = if d.Sized ∧ d.Shallow then some d else none :=
    (d.read?_write 122).trans (if_congr hall rfl rfl)
  unfold parse render
  rw [Json.read?_pretty d.formed_write, hread]
  by_cases h : d.Sized ∧ d.Shallow
  · rw [if_pos h, if_pos h]
  · rw [if_neg h, if_neg h]

/-- A document that is not nested too deep is read back from its text as it was, so that it compiles to
    the same rules or fails with the same error. One that is nested too deep is refused. -/
theorem comes_back (d : Document) (hsized : d.Sized) :
    (d.Shallow → parse d.render = .ok d ∧ (parse d.render >>= compile) = d.compile) ∧
    (¬ d.Shallow → parse d.render = .error .json) := by
  rw [d.parse_render]
  constructor
  · intro h
    rw [if_pos ⟨hsized, h⟩]
    exact ⟨rfl, rfl⟩
  · intro h
    exact if_neg fun hboth => h hboth.2

/-- An addition, negated a number of times. -/
def Test.negated : Nat → Test
  | 0 => .op "add"
  | n + 1 => .not (negated n)

/-- A document with every form of predicate, one of them negated many times over. -/
def knotted (negations : Nat) : Document :=
  ⟨"say \"jump\"\n", ⟨"Player", "Jump(é)"⟩,
    [⟨"knot", [.negated negations, .any, .rewritable, .callTo "", .constant "no value"], 4, none,
        .backward, .all true, .substitute .vecAdd, true⟩,
      ⟨"", [.not .unitY, .callTransform .vecAdd], 9, some 0, .forward, .exactly 3, .append .vecAdd,
        false⟩]⟩

theorem Test.negated_depth : ∀ n, (negated n).depth = n + 1
  | 0 => rfl
  | n + 1 => congrArg (· + 1) (negated_depth n)

theorem knotted_shallow (n : Nat) : (knotted n).Shallow ↔ n ≤ 122 := by
  simp only [Shallow, knotted, List.forall_mem_cons, List.not_mem_nil, false_imp_iff, implies_true,
    and_true, Test.negated_depth, Test.depth, Json.maxDepth]
  omega

theorem knotted_sized (n : Nat) : (knotted n).Sized := by
  simp [Sized, knotted, RuleText.Sized, Occurrence.count, UInt64.size]

theorem comes_back_knotted : (knotted 122).Sized ∧ parse (knotted 122).render = .ok (knotted 122) ∧
    (parse (knotted 122).render >>= compile) = (knotted 122).compile ∧
    (knotted 123).Sized ∧ parse (knotted 123).render = .error .json := by
  obtain ⟨hback, -⟩ := (knotted 122).comes_back (knotted_sized 122)
  obtain ⟨-, hrefused⟩ := (knotted 123).comes_back (knotted_sized 123)
  obtain ⟨hparse, hcompile⟩ := hback ((knotted_shallow 122).2 (by decide))
  have hdeep : ¬ (knotted 123).Shallow := fun h => absurd ((knotted_shallow 123).1 h) (by decide)
  exact ⟨knotted_sized 122, hparse, hcompile, knotted_sized 123, hrefused hdeep⟩

end Document

end Inversion

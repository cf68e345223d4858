import Inversion.Document
import Inversion.Proofs.Assembly.Grammar
import Inversion.Proofs.Pass

/-!
What rule documents compile to. The numbers of a rule are checked first, and then the pattern is built
step by step, where every step would clamp what does not fit. No step ever has to: a rule that passes
the checks gets the numbers that were written, and one whose numbers would be changed is refused. So
whatever compiles acts inside the windows that it finds, and what substitutes takes something out.
-/

namespace Inversion

/-! ### Rules that stay inside their windows -/

namespace Rule

variable {rule : Rule} {c w : Cursor}

end Rule

namespace Document

/-! ### Predicates -/

/-- The predicates that stand for those in documents. -/
inductive Test.Means : Test → Predicate → Prop where
  | any : Means .any .any
  | op {mnemonic : String} {shape : Mnemonic.Shape} : Mnemonic.shape? mnemonic = some shape →
      Means (.op mnemonic) (.op shape.opcode)
  | rewritable : Means .rewritable .rewritable
  | callTo (name : String) : Means (.callTo name) (.callTo name)
  | callTransform (t : Transform) : Means (.callTransform t) (.callTransform t)
  | constant {text : String} {literal : List Char} {v : Value} : Value.Literal literal v →
      Text.Around literal text.toList → Means (.constant text) (.constant v)
  | unitY : Means .unitY .unitY
  | not {t : Test} {p : Predicate} : Means t p → Means (.not t) p.not

theorem Test.Means.compile {t : Test} {p : Predicate} (h : t.Means p) : t.compile = .ok p := by
  induction h with
  | any | rewritable | callTo _ | callTransform _ | unitY => rfl
  | op hshape =>
    unfold Test.compile Opcode.ofMnemonic?
    rw [hshape]
    rfl
  | constant hliteral haround =>
    unfold Test.compile
    rw [Value.ofText?_eq_some.2 ⟨_, hliteral, haround⟩]
  | not _ ih =>
    unfold Test.compile
    rw [ih]
    rfl

theorem Test.means_of_compile {t : Test} {p : Predicate} (h : t.compile = .ok p) : t.Means p := by
  induction t generalizing p with
  | any => cases h; exact .any
  | rewritable => cases h; exact .rewritable
  | callTo name => cases h; exact .callTo name
  | callTransform t => cases h; exact .callTransform t
  | unitY => cases h; exact .unitY
  | op mnemonic =>
    unfold compile Opcode.ofMnemonic? at h
    cases hshape : Mnemonic.shape? mnemonic with
    | none => rw [hshape] at h; cases h
    | some shape => rw [hshape] at h; cases h; exact .op hshape
  | constant text =>
    unfold compile at h
    cases hv : Value.ofText? text.toList with
    | none => rw [hv] at h; cases h
    | some v =>
      rw [hv] at h
      cases h
      obtain ⟨literal, hliteral, haround⟩ := Value.ofText?_eq_some.1 hv
      exact .constant hliteral haround
  | not t ih =>
    unfold compile at h
    cases ht : t.compile with
    | error e => rw [ht] at h; cases h
    | ok q => rw [ht] at h; cases h; exact .not (ih ht)

theorem Test.compile_eq_ok {t : Test} {p : Predicate} : t.compile = .ok p ↔ t.Means p :=
  ⟨means_of_compile, Means.compile⟩

theorem mapM_compile_eq_ok : ∀ {tests : List Test} {predicates : List Predicate},
    tests.mapM Test.compile = .ok predicates ↔ List.Forall₂ Test.Means tests predicates
  | [], predicates => by
    rw [List.forall₂_nil_left_iff]
    exact ⟨by rintro ⟨⟩; rfl, by rintro rfl; rfl⟩
  | t :: rest, predicates => by
    rw [List.mapM_cons, List.forall₂_cons_left_iff]
    simp only [Assembly.bind_eq_ok, Test.compile_eq_ok, mapM_compile_eq_ok]
    constructor
    · rintro ⟨p, hp, ps, hps, hcons⟩
      cases hcons
      exact ⟨p, ps, hp, hps, rfl⟩
    · rintro ⟨p, ps, hp, hps, rfl⟩
      exact ⟨p, hp, ps, hps, rfl⟩

namespace RuleText

/-- What a rule consumes, counted from its anchor: all of the window if nothing is written, and at
    least the instruction at the anchor. -/
def consumed (r : RuleText) : Nat :=
  match r.consume with
  | none => r.pattern.length - r.anchor
  | some 0 => 1
  | some n => n

theorem consumed_of_none {r : RuleText} (h : r.consume = none) :
    r.consumed = r.pattern.length - r.anchor := by
  unfold consumed
  rw [h]

theorem consumed_of_some {r : RuleText} {n : Nat} (h : r.consume = some n) :
    r.consumed = max n 1 := by
  unfold consumed
  rw [h]
  cases n with
  | zero => rfl
  | succ n => exact (Nat.max_eq_left (Nat.succ_pos n)).symm

/-- A rule that can be meant. -/
structure Valid (r : RuleText) : Prop where
  occupied : r.pattern ≠ []
  anchored : r.anchor < r.pattern.length
  meant : ∀ t ∈ r.pattern, ∃ p, t.Means p
  inside : ∀ n, r.consume = some n → r.anchor + n ≤ r.pattern.length
  consuming : ∀ t, r.replacement = .substitute t → r.consume ≠ some 0

/-- The rule that is written, word for word. -/
structure Says (r : RuleText) (rule : Rule) : Prop where
  name : rule.name = r.name ∧ rule.pattern.name = r.name
  predicates : List.Forall₂ Test.Means r.pattern rule.pattern.predicates
  anchor : rule.pattern.anchor = r.anchor
  consume : rule.pattern.consume = r.consumed
  direction : rule.pattern.direction = r.direction
  replacement : rule.replacement = r.replacement
  occurrence : rule.occurrence = r.occurrence
  reset : rule.reset = r.reset

theorem spanFault?_eq_none {r : RuleText} : r.spanFault? = none ↔
    r.anchor < r.pattern.length ∧ (∀ n, r.consume = some n → r.anchor + n ≤ r.pattern.length) ∧
      ∀ t, r.replacement = .substitute t → r.consume ≠ some 0 := by
  unfold spanFault?
  dsimp only
  by_cases hempty : r.pattern.length = 0
  · rw [if_pos hempty]
    exact ⟨nofun, fun h => by omega⟩
  rw [if_neg hempty]
  by_cases hanchor : r.pattern.length ≤ r.anchor
  · rw [if_pos hanchor]
    exact ⟨nofun, fun h => by omega⟩
  rw [if_neg hanchor]
  have hlt : r.anchor < r.pattern.length := Nat.lt_of_not_le hanchor
  have hbound (n : Nat) : (if r.pattern.length < r.anchor + n then
      some (DocumentFault.consumesTooMuch r.name) else none) = none ↔
      r.anchor + n ≤ r.pattern.length := by
    split
    · exact ⟨nofun, fun h => by omega⟩
    · exact ⟨fun _ => by omega, fun _ => rfl⟩
  cases r.consume with
  | none => exact ⟨fun _ => ⟨hlt, nofun, nofun⟩, fun _ => rfl⟩
  | some n =>
    cases n with
    | succ n =>
      refine (hbound (n + 1)).trans ⟨fun h => ⟨hlt, ?_, nofun⟩, fun h => h.2.1 _ rfl⟩
      rintro _ ⟨⟩
      exact h
    | zero =>
      cases r.replacement with
      | substitute t => exact ⟨nofun, fun h => absurd rfl (h.2.2 t rfl)⟩
      | append t =>
        refine (hbound 0).trans ⟨fun h => ⟨hlt, ?_, nofun⟩, fun h => h.2.1 _ rfl⟩
        rintro _ ⟨⟩
        exact h

/-- The steps that build the pattern of a rule clamp nothing once its numbers are checked. -/
theorem window_eq {r : RuleText} (hanchor : r.anchor < r.pattern.length)
    (hinside : ∀ n, r.consume = some n → r.anchor + n ≤ r.pattern.length)
    {predicates : List Predicate} (hlength : predicates.length = r.pattern.length) :
    r.window predicates = ⟨r.name, predicates, r.direction, r.anchor, r.consumed⟩ := by
  have hkept : min r.anchor (predicates.length - 1) = r.anchor := by omega
  have hrest : min predicates.length (predicates.length - r.anchor)
      = r.pattern.length - r.anchor := by omega
  unfold window
  cases hc : r.consume with
  | none =>
    simp only [consumed_of_none hc, Pattern.window, Pattern.withAnchor, Pattern.withDirection,
      Pattern.length, hkept, hrest]
  | some n =>
    have hn := hinside n hc
    have hspan : min (max n 1) (predicates.length - r.anchor) = max n 1 := by omega
    simp only [consumed_of_some hc, Pattern.window, Pattern.withAnchor, Pattern.withDirection,
      Pattern.withConsume, Pattern.length, hkept, hspan]

/-- A rule is compiled to what is written, and to nothing else, exactly if it can be meant. -/
theorem compile_eq_ok {r : RuleText} {rule : Rule} :
    r.compile = .ok rule ↔ r.Valid ∧ r.Says rule := by
  unfold compile
  constructor
  · intro h
    cases hf : r.spanFault? with
    | some fault => rw [hf] at h; cases h
    | none =>
      rw [hf] at h
      obtain ⟨predicates, hp, hreturn⟩ := Assembly.bind_eq_ok.1 h
      cases hreturn
      obtain ⟨hanchor, hinside, hconsuming⟩ := spanFault?_eq_none.1 hf
      have hmeans := mapM_compile_eq_ok.1 hp
      have hwindow := window_eq hanchor hinside hmeans.length_eq.symm
      refine ⟨⟨?_, hanchor, ?_, hinside, hconsuming⟩, ?_⟩
      · rintro hnil
        rw [hnil] at hanchor
        exact absurd hanchor (Nat.not_lt_zero _)
      · intro t ht
        obtain ⟨i, hi, rfl⟩ := List.getElem_of_mem ht
        exact ⟨_, hmeans.get hi (hmeans.length_eq ▸ hi)⟩
      · exact ⟨⟨rfl, by rw [hwindow]⟩, by rw [hwindow]; exact hmeans, by rw [hwindow], by rw [hwindow],
          by rw [hwindow], rfl, rfl, rfl⟩
  · rintro ⟨hvalid, hrule⟩
    rw [spanFault?_eq_none.2 ⟨hvalid.anchored, hvalid.inside, hvalid.consuming⟩]
    refine Assembly.bind_eq_ok.2 ⟨_, mapM_compile_eq_ok.2 hrule.predicates, ?_⟩
    rw [window_eq hvalid.anchored hvalid.inside hrule.predicates.length_eq.symm]
    obtain ⟨name, ⟨title, predicates, direction, anchor, consume⟩, replacement, occurrence, reset⟩ :=
      rule
    obtain ⟨⟨rfl, rfl⟩, -, rfl, rfl, rfl, rfl, rfl, rfl⟩ := hrule
    rfl

end RuleText

end Document

end Inversion

import Inversion.Proofs.Pass
import Inversion.Proofs.Spacing

/-!
Rules that put a call behind every instruction that passes a test. Such a rule searches forward from
behind the call that it has put in last, so it comes by each instruction once. What it leaves is the
given body with room: behind each of its sites there is one call, and no room elsewhere.
-/

namespace Inversion

open Instruction (gate landing)

/-- A rule that puts a call behind the instructions that pass a test, which the call does not. -/
structure Rule.Appends (rule : Rule) (test : Instruction → Bool) (t : Transform) : Prop where
  pattern : ∃ name predicate, rule.pattern = .single name (.ofInstruction predicate test)
  replacement : rule.replacement = .append t
  spares : ∀ l, test (.transformCall l t) = false

/-- The room of a body in which calls stand behind the instructions with some labels, which all pass
    the test. -/
structure Body.Appended (b : Body) (test : Instruction → Bool) (t : Transform) (sites : List Label)
    (room : Nat → List Instruction) : Prop where
  front : room 0 = []
  site {k : Nat} {i : Instruction} : b.get? k = some i → i.label ∈ sites →
    test i = true ∧ ∃ l, room (k + 1) = [.transformCall l t]
  plain {k : Nat} {i : Instruction} : b.get? k = some i → i.label ∉ sites → room (k + 1) = []

/-- A cursor behind which nothing has been appended yet. -/
structure Cursor.Appending (c : Cursor) (b : Body) (test : Instruction → Bool) (t : Transform)
    (sites : List Label) (room : Nat → List Instruction) (k : Nat) : Prop where
  numbered : c.body.Numbered
  spaced : b.Spaced room c.body
  appended : b.Appended test t sites room
  index : c.index = landing room k
  behind {j : Nat} {i : Instruction} : b.get? j = some i → i.label ∈ sites → j < k

variable {rule : Rule} {test : Instruction → Bool} {t : Transform} {b : Body}
  {sites sites' : List Label} {room : Nat → List Instruction} {c c' found after : Cursor}
  {site : Instruction} {k : Nat}

namespace Body

/-- No label stands in two places. -/
theorem Numbered.index_eq (hb : b.Numbered) {j k : Nat} {i i' : Instruction} (hj : b.get? j = some i)
    (hk : b.get? k = some i') (hl : i.label = i'.label) : j = k := by
  have hj' : b.labels[j]? = some i.label := by rw [labels, List.getElem?_map]; exact congrArg _ hj
  have hk' : b.labels[k]? = some i.label := by
    rw [labels, List.getElem?_map, hl]
    exact congrArg _ hk
  obtain ⟨_, hj'⟩ := List.getElem?_eq_some_iff.1 hj'
  obtain ⟨_, hk'⟩ := List.getElem?_eq_some_iff.1 hk'
  exact hb.nodup.getElem_inj_iff.1 (hj'.trans hk'.symm)

theorem appended_nil (b : Body) (test : Instruction → Bool) (t : Transform) :
    b.Appended test t [] fun _ => [] :=
  ⟨rfl, fun _ h => (nomatch h), fun _ _ => rfl⟩

/-- What passes the test stands at its place, since no call does. -/
theorem Appended.exists_landing (h : b.Appended test t sites room) (hr : rule.Appends test t)
    {b' : Body} (hs : b.Spaced room b') {j : Nat} {i : Instruction} (hi : b'.get? j = some i)
    (htest : test i = true) : ∃ k, j = landing room k ∧ b.get? k = some i := by
  rcases hs.landing_or_room hi with hlanding | ⟨k, hk, hroom⟩
  · exact hlanding
  · cases k with
    | zero =>
      rw [h.front] at hroom
      cases hroom
    | succ k =>
      have hx : b.get? k = some b.instructions[k] := List.getElem?_eq_getElem hk
      by_cases hmem : b.instructions[k].label ∈ sites
      · obtain ⟨-, l, hl⟩ := h.site hx hmem
        rw [hl, List.mem_singleton] at hroom
        rw [hroom, hr.spares] at htest
        cases htest
      · rw [h.plain hx hmem] at hroom
        cases hroom

/-- One site more, with its call. -/
theorem Appended.update (h : b.Appended test t sites room) (hb : b.Numbered)
    (hk : b.get? k = some site) (htest : test site = true) (l : Label) :
    b.Appended test t (sites ++ [site.label])
      (Function.update room (k + 1) [.transformCall l t]) where
  front := (Function.update_of_ne (Nat.succ_ne_zero k).symm ..).trans h.front
  site {j i} hj hmem := by
    by_cases hjk : j = k
    · subst hjk
      cases hj.symm.trans hk
      exact ⟨htest, l, Function.update_self ..⟩
    · rw [Function.update_of_ne (by omega)]
      rcases List.mem_append.1 hmem with hmem | hmem
      · exact h.site hj hmem
      · exact absurd (hb.index_eq hj hk (List.mem_singleton.1 hmem)) hjk
  plain {j i} hj hmem := by
    rw [List.mem_append, List.mem_singleton, not_or] at hmem
    have hjk : j ≠ k := by
      rintro rfl
      cases hj.symm.trans hk
      exact hmem.2 rfl
    rw [Function.update_of_ne (by omega)]
    exact h.plain hj hmem.1

end Body

namespace Rule

/-- The search of such a rule stops at an instruction that passes the test. -/
theorem Appends.finds (hr : rule.Appends test t) (h : rule.Finds sites c found site) :
    c.body.get? found.index = some site ∧ test site = true ∧ c.index ≤ found.index := by
  obtain ⟨name, predicate, hp⟩ := hr.pattern
  have hsite : c.body.get? found.index = some site := by
    have hanchored := h.anchored
    rwa [h.body, hp] at hanchored
  have hfind := (Cursor.seek?_eq_some h.sought).2
  rw [hp] at hfind
  have hmatch := Pattern.findNext_matchesAt hfind
  unfold Body.get? at hsite
  rw [Pattern.single_matchesAt, hsite] at hmatch
  exact ⟨hsite, hmatch, (Pattern.findNext_forward_first hfind).1⟩

theorem Appends.patched (hr : rule.Appends test t) (c : Cursor) : rule.patched c
    = ⟨⟨c.body.instructions.take (c.index + 1) ++ .transformCall c.body.nextLabel t ::
        c.body.instructions.drop (c.index + 1), c.body.next + 1⟩, c.index + 2,
      some c.body.nextLabel⟩ := by
  obtain ⟨name, predicate, hp⟩ := hr.pattern
  have hoffset : rule.offset = 1 := by
    unfold offset
    rw [hr.replacement, hp]
    rfl
  have hdisplaced : rule.displaced = 0 := by
    unfold displaced
    rw [hr.replacement]
  unfold Rule.patched
  rw [hoffset, hdisplaced, hr.replacement]
  simp [Body.exchange, Body.span, Replacement.transform]

/-- One site more. -/
theorem Appends.step (hr : rule.Appends test t) (hb : b.Numbered)
    (h : c.Appending b test t sites room k) (hf : rule.Finds sites c found site)
    {events : List Event} (hw : rule.patchWindow found = .ok (events, after)) :
    ∃ room k, after.Appending b test t (sites ++ [site.label]) room k := by
  have hnumbered : after.body.Numbered := (hf.exchanges h.numbered hw).numbered h.numbered
  obtain ⟨-, hn, rfl⟩ := patchWindow_eq_ok (by rw [hf.body]; exact h.numbered) hw
  obtain ⟨hsite, htest, hle⟩ := hr.finds hf
  obtain ⟨k', hindex, hk'⟩ := h.appended.exists_landing hr h.spaced hsite htest
  -- The search starts behind the last call, and instructions keep their order.
  have hahead : k ≤ k' := by
    by_contra hlt
    have hlanding := Instruction.landing_lt_landing room (Nat.lt_of_not_le hlt)
    rw [← hindex, ← h.index] at hlanding
    exact Nat.not_lt_of_le hle hlanding
  have hnew : site.label ∉ sites := fun hmem => Nat.not_lt_of_le hahead (h.behind hk' hmem)
  have hgate : found.index + 1 = gate room (k' + 1) := congrArg (· + 1) hindex
  have hlen : k' + 1 ≤ b.length := (List.getElem?_eq_some_iff.1 hk').1
  refine ⟨Function.update room (k' + 1) [.transformCall c.body.nextLabel t], k' + 1, hnumbered,
    ?_, h.appended.update hb hk' htest _, ?_, fun hj hmem => ?_⟩
  · rw [hr.patched, hf.body, hgate]
    rw [hf.body] at hn
    exact h.spaced.update h.numbered hn hlen (h.appended.plain hk' hnew) rfl _
  · rw [hr.patched, landing, Instruction.gate_update (Nat.le_refl _), Function.update_self, ← hgate]
    rfl
  · rcases List.mem_append.1 hmem with hmem | hmem
    · exact Nat.lt_succ_of_lt (Nat.lt_of_lt_of_le (h.behind hj hmem) hahead)
    · rw [hb.index_eq hj hk' (List.mem_singleton.1 hmem)]
      exact Nat.lt_succ_self _

/-- A pass puts a call behind each of its sites, and changes nothing else. -/
theorem Pass.appended {x : Except BodyError (List Label × Cursor)} (h : rule.Pass sites c x)
    (hx : x = .ok (sites', c')) (hr : rule.Appends test t) (hb : b.Numbered)
    (hc : ∃ room k, c.Appending b test t sites room k) :
    ∃ room, b.Spaced room c'.body ∧ b.Appended test t sites' room := by
  obtain ⟨name, predicate, hp⟩ := hr.pattern
  have hforward : ∀ found after : Cursor, rule.resume found after = .ok (some after) := by
    intro found after
    unfold resume
    rw [hp]
    rfl
  induction h with
  | sated | exhausted =>
    cases hx
    obtain ⟨room, k, h⟩ := hc
    exact ⟨room, h.spaced, h.appended⟩
  | siteless _ hs _ =>
    cases hx
    obtain ⟨room, k, h⟩ := hc
    rw [Cursor.seek?_body hs]
    exact ⟨room, h.spaced, h.appended⟩
  | refused | stuck => cases hx
  | last _ _ hl =>
    rw [hforward] at hl
    cases hl
  | next hf hw hn _ ih =>
    rw [hforward] at hn
    cases hn
    obtain ⟨room, k, h⟩ := hc
    exact ih hx (hr.step hb h hf hw)

end Rule

end Inversion

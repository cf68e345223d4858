import Inversion.Json.Form
import Inversion.Proofs.Json.Grammar

/-!
Reading the JSON form of a value from its text. A record is read field by field from the members that it
was written with, and a list item by item; the text itself is read back as the value that was printed.
-/

namespace Inversion

/-- An operation on every item that fails exactly on some of them. -/
theorem mapM_guarded {α β : Type} {f : α → Option β} {p : α → Bool} {g : α → β} {xs : List α}
    (h : ∀ x ∈ xs, f x = if p x then some (g x) else none) :
    xs.mapM f = if xs.all p then some (xs.map g) else none := by
  induction xs with
  | nil => rfl
  | cons x xs ih =>
    obtain ⟨hx, hxs⟩ := List.forall_mem_cons.1 h
    rw [List.mapM_cons, hx, ih hxs]
    by_cases hp : p x = true
    · by_cases hall : xs.all p = true <;> simp [hp, hall]
    · simp [hp]

/-- Going on from what is there under a condition. -/
theorem bind_guarded {α β : Type} {p : Prop} [Decidable p] {a : α} (f : α → Option β) :
    (if p then some a else none).bind f = if p then f a else none := by
  split <;> rfl

namespace Json

/-! ### Printable values -/

theorem formed_record {members : List (String × Json)} (h : ∀ m ∈ members, Formed m.2) :
    Formed (record members) :=
  .object (List.forall_mem_map.2 fun _ _ => nofun) (List.forall_mem_map.2 h)

theorem formed_list {α : Type} [JsonForm α] {xs : List α}
    (h : ∀ x ∈ xs, Formed (JsonForm.write x)) : Formed (JsonForm.write xs) :=
  .array (List.forall_mem_map.2 h)

/-! ### Reading -/

/-- A text that has been printed is read as the value that was printed. -/
theorem read?_line {α : Type} [JsonForm α] {j : Json} (h : Formed j) :
    (Json.read? j.line : Option α) = JsonForm.read? maxDepth j := by
  rw [Json.read?, parse?_line h]
  rfl

theorem read?_pretty {α : Type} [JsonForm α] {j : Json} (h : Formed j) :
    (Json.read? j.pretty : Option α) = JsonForm.read? maxDepth j := by
  rw [Json.read?, parse?_pretty h]
  rfl

theorem membersNamed_record {members : List (String × Json)} (hnodup : (members.map (·.1)).Nodup)
    {m : String × Json} (hm : m ∈ members) :
    membersNamed (members.map fun (key, value) => (some key, value)) m.1 = [m.2] := by
  induction members with
  | nil => cases hm
  | cons first members ih =>
    obtain ⟨hfirst, hnodup⟩ := List.nodup_cons.1 hnodup
    unfold membersNamed at ih ⊢
    rcases List.mem_cons.1 hm with rfl | hm
    · have hnone : (members.map fun (key, value) => ((some key, value) : Option String × Json)).filter
          (·.1 = some m.1) = [] := by
        rw [List.filter_eq_nil_iff]
        simp only [List.forall_mem_map, decide_eq_true_eq, Option.some.injEq]
        exact fun other hother heq => hfirst (List.mem_map.2 ⟨other, hother, heq⟩)
      simp [hnone]
    · have hne : first.1 ≠ m.1 := fun heq => hfirst (List.mem_map.2 ⟨m, hm, heq.symm⟩)
      simpa [hne] using ih hnodup hm

/-- The fields of a record are the values that it was made of. -/
theorem fields?_record (members : List (String × Json)) (hnodup : (members.map (·.1)).Nodup) :
    fields? (members.map (·.1)) (record members) = some (members.map fun m => some m.2) := by
  have hkeys : (members.map fun (key, value) => ((some key, value) : Option String × Json)).all
      (·.1.isSome) = true := by
    simp
  unfold fields? record
  dsimp only
  rw [if_pos hkeys, List.mapM_map, mapM_guarded (p := fun _ => true) (g := fun m => some m.2)]
  · simp
  · intro m hm
    simp only [Function.comp_apply, membersNamed_record hnodup hm, if_true]

/-- A list is read when all its items are. -/
theorem read?_list {α : Type} [JsonForm α] {xs : List α} {budget : Nat} {p : α → Bool}
    (h : ∀ x ∈ xs, JsonForm.read? budget (JsonForm.write x) = if p x then some x else none) :
    JsonForm.read? (budget + 1) (JsonForm.write xs) = if xs.all p then some xs else none := by
  have hread : JsonForm.read? (budget + 1) (JsonForm.write xs) =
      (xs.map JsonForm.write).mapM (JsonForm.read? (α := α) budget) := rfl
  have hguarded := mapM_guarded (f := JsonForm.read? (α := α) budget ∘ JsonForm.write) (g := id) h
  rw [hread, List.mapM_map, hguarded, List.map_id]

end Json

end Inversion

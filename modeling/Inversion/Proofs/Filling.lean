import Inversion.Proofs.Plain

/-!
Spans of a body that give way to calls all at once. Each span leaves a gap that one call fills; every
branch into a span leads to its call, and nothing else changes. Filling one gap more is one exchange, at
the place to which the gaps before it have moved the span. So exchanges that are made one after the
other, in whatever order, come to what filling their gaps at once comes to.
-/

namespace Inversion

/-- A span that gives way to a call: where it starts, and the label of the call. -/
structure CallGap where
  start : Nat
  call : Label

/-- The instruction, pointed to what takes the place of its target if it is a branch and there is
    such a thing. -/
def Instruction.rerouted (heir? : Label → Option Label) (i : Instruction) : Instruction :=
  match i.target?.bind heir? with
  | some l => i.retargeted l
  | none => i

namespace Body

/-- The call that takes the place of the instruction with a label, if it stands in a gap. -/
def heir? (b : Body) (width : Nat) (gaps : List CallGap) (l : Label) : Option Label :=
  (gaps.find? fun g => l ∈ (b.span g.start width).map (·.label)).map (·.call)

/-- What the instruction at an index becomes: a call at the start of a gap, nothing in the rest of it,
    and outside the gaps the instruction, pointed to the call that takes the place of its target. -/
def fill (b : Body) (width : Nat) (t : Transform) (gaps : List CallGap) (i : Instruction)
    (index : Nat) : List Instruction :=
  match gaps.find? fun g => g.start ≤ index ∧ index < g.start + width with
  | some g => if index = g.start then [.transformCall g.call t] else []
  | none => [i.rerouted (b.heir? width gaps)]

/-- What consecutive instructions become of which the first stands at an index. -/
def fillFrom (b : Body) (width : Nat) (t : Transform) (gaps : List CallGap) (is : List Instruction)
    (index : Nat) : List Instruction :=
  (is.zipIdx index).flatMap fun (i, k) => b.fill width t gaps i k

/-- The body with its gaps filled. -/
def filled (b : Body) (width : Nat) (t : Transform) (gaps : List CallGap) : Body :=
  ⟨b.fillFrom width t gaps b.instructions 0, b.next + gaps.length⟩

/-- Gaps at some starts, with the labels for their calls that are given out next. -/
def gapsAt (b : Body) (starts : List Nat) : List CallGap :=
  starts.zipIdx.map fun (start, n) => ⟨start, ⟨UInt32.ofNat (b.next + n)⟩⟩

/-- Where the instruction at an index is moved to. -/
def place (b : Body) (width : Nat) (t : Transform) (gaps : List CallGap) (index : Nat) : Nat :=
  (b.fillFrom width t gaps (b.instructions.take index) 0).length

/-- No gap reaches in between two indices. -/
def Clear (width : Nat) (gaps : List CallGap) (front back : Nat) : Prop :=
  ∀ g ∈ gaps, g.start + width ≤ front ∨ back ≤ g.start

variable {b : Body} {width index k front back s : Nat} {t : Transform} {gaps : List CallGap}
  {g : CallGap} {is js : List Instruction} {i : Instruction} {l : Label}

/-! ### Gaps -/

theorem gapsAt_concat (b : Body) (starts : List Nat) (s : Nat) : b.gapsAt (starts ++ [s])
    = b.gapsAt starts ++ [⟨s, ⟨UInt32.ofNat (b.next + starts.length)⟩⟩] := by
  simp [gapsAt, List.zipIdx_append]

theorem gapsAt_length (b : Body) (starts : List Nat) : (b.gapsAt starts).length = starts.length := by
  simp [gapsAt]

theorem exists_of_mem_gapsAt {starts : List Nat} (h : g ∈ b.gapsAt starts) :
    g.start ∈ starts ∧ ∃ n < starts.length, g.call = ⟨UInt32.ofNat (b.next + n)⟩ := by
  obtain ⟨⟨start, n⟩, hmem, rfl⟩ := List.mem_map.1 h
  have hn := List.mem_zipIdx_iff_getElem?.1 hmem
  exact ⟨List.mem_of_getElem? hn, n, (List.getElem?_eq_some_iff.1 hn).1, rfl⟩

theorem clear_gapsAt {starts : List Nat}
    (h : ∀ s ∈ starts, s + width ≤ front ∨ back ≤ s) : Clear width (b.gapsAt starts) front back :=
  fun _ hg => h _ (exists_of_mem_gapsAt hg).1

/-- The calls of the gaps are new to the body. -/
theorem Numbered.gapsAt_fresh (hb : b.Numbered) {starts : List Nat}
    (hn : starts.length ≤ b.unused) : ∀ g ∈ b.gapsAt starts, g.call ∉ b.labels := by
  intro g hg hm
  obtain ⟨-, n, hlt, hcall⟩ := exists_of_mem_gapsAt hg
  have hbelow := hb.below _ hm
  have hnumber : (UInt32.ofNat (b.next + n)).toNat = b.next + n :=
    UInt32.toNat_ofNat_of_lt (Nat.add_lt_of_lt_sub' (Nat.lt_of_lt_of_le hlt hn))
  rw [hcall, hnumber] at hbelow
  omega

/-! ### Filling gaps -/

theorem Clear.find?_eq_none (h : Clear width gaps front back) (hf : front ≤ index)
    (hb : index < back) :
    (gaps.find? fun g => g.start ≤ index ∧ index < g.start + width) = none := by
  rw [List.find?_eq_none]
  intro g hg
  have := h g hg
  simp only [decide_eq_true_eq]
  omega

theorem fill_of_clear (h : Clear width gaps front back) (hf : front ≤ index) (hb : index < back)
    (i : Instruction) : b.fill width t gaps i index = [i.rerouted (b.heir? width gaps)] := by
  unfold fill
  rw [h.find?_eq_none hf hb]

theorem fillFrom_cons (i : Instruction) (is : List Instruction) (index : Nat) :
    b.fillFrom width t gaps (i :: is) index
      = b.fill width t gaps i index ++ b.fillFrom width t gaps is (index + 1) := rfl

theorem fillFrom_append (is js : List Instruction) (index : Nat) :
    b.fillFrom width t gaps (is ++ js) index = b.fillFrom width t gaps is index
      ++ b.fillFrom width t gaps js (index + is.length) := by
  unfold fillFrom
  rw [List.zipIdx_append, List.flatMap_append]

/-- Between gaps there is an instruction for each. -/
theorem fillFrom_of_clear : ∀ {is : List Instruction} {index : Nat},
    Clear width gaps index (index + is.length) →
    b.fillFrom width t gaps is index = is.map (Instruction.rerouted (b.heir? width gaps))
  | [], _, _ => rfl
  | i :: is, index, h => by
    have hrest : Clear width gaps (index + 1) (index + 1 + is.length) := fun g hg => by
      have := h g hg
      rw [List.length_cons] at this
      omega
    rw [fillFrom_cons, fill_of_clear h (Nat.le_refl _) (by rw [List.length_cons]; omega),
      fillFrom_of_clear hrest]
    rfl

/-- A gap is filled by its call. -/
theorem fillFrom_gap (hcovers : ∀ k, g.start ≤ k → k < g.start + width →
      gaps.find? (fun g' => g'.start ≤ k ∧ k < g'.start + width) = some g) (hi : is.length = width)
    (hw : 0 < width) : b.fillFrom width t gaps is g.start = [.transformCall g.call t] := by
  have hnothing : ∀ {js : List Instruction} {index : Nat}, g.start < index →
      index + js.length ≤ g.start + width → b.fillFrom width t gaps js index = [] := by
    intro js
    induction js with
    | nil => intro index _ _; rfl
    | cons j js ih =>
      intro index hlt hle
      rw [List.length_cons] at hle
      have hnone : b.fill width t gaps j index = [] := by
        unfold fill
        rw [hcovers index (by omega) (by omega)]
        exact if_neg (by omega)
      rw [fillFrom_cons, hnone, ih (by omega) (by omega)]
      rfl
  cases is with
  | nil =>
    rw [List.length_nil] at hi
    omega
  | cons i is =>
    rw [List.length_cons] at hi
    have hcall : b.fill width t gaps i g.start = [.transformCall g.call t] := by
      unfold fill
      rw [hcovers g.start (Nat.le_refl _) (by omega)]
      exact if_pos rfl
    rw [fillFrom_cons, hcall, hnothing (Nat.lt_succ_self _) (by omega)]
    rfl

end Body

/-! ### One gap more -/

namespace Instruction

theorem rerouted_eq_retargeted {heir? : Label → Option Label} {i : Instruction} {l : Label}
    (h : i.target?.bind heir? = some l) : i.rerouted heir? = i.retargeted l := by
  unfold rerouted
  rw [h]

theorem rerouted_eq_self {heir? : Label → Option Label} {i : Instruction}
    (h : i.target?.bind heir? = none) : i.rerouted heir? = i := by
  unfold rerouted
  rw [h]

@[simp] theorem rerouted_label (heir? : Label → Option Label) (i : Instruction) :
    (i.rerouted heir?).label = i.label := by
  unfold rerouted
  split <;> rfl

@[simp] theorem gist_rerouted (heir? : Label → Option Label) (i : Instruction) :
    (i.rerouted heir?).gist = i.gist := by
  unfold rerouted
  split
  · exact gist_retargeted i _
  · rfl

end Instruction

/-- A plain window matches wherever the instructions stand that it matches, whatever their branches
    lead to. -/
theorem Pattern.Plain.matchesAt_rerouted {p : Pattern} (hp : p.Plain) {b b' : Body} {i j : Nat}
    {heir? : Label → Option Label} (h : ∀ k < p.length,
      b'.get? (j + k) = (b.get? (i + k)).map (Instruction.rerouted heir?)) :
    p.matchesAt b'.instructions j = p.matchesAt b.instructions i := by
  refine hp.matchesAt_congr fun k hk => ?_
  have hget := h k hk
  unfold Body.get? at hget
  rw [hget, Option.map_map]
  exact Option.map_congr fun i _ => Instruction.gist_rerouted _ i

namespace Body

theorem label_of_rerouted {b b' : Body} {i j : Nat} {heir? : Label → Option Label}
    (h : b'.get? j = (b.get? i).map (Instruction.rerouted heir?)) :
    (b'.get? j).map (·.label) = b.labels[i]? := by
  rw [h, Option.map_map, labels, List.getElem?_map]
  exact Option.map_congr fun i _ => Instruction.rerouted_label _ i

variable {b : Body} {width index k front back s : Nat} {t : Transform} {gaps : List CallGap}
  {g : CallGap} {is js : List Instruction} {i : Instruction} {l x : Label}

theorem heir?_concat (b : Body) (width : Nat) (gaps : List CallGap) (g : CallGap) (x : Label) :
    b.heir? width (gaps ++ [g]) x = (b.heir? width gaps x).or
      (if x ∈ (b.span g.start width).map (·.label) then some g.call else none) := by
  unfold heir?
  rw [List.find?_append, Option.map_or]
  congr 1
  rw [List.find?_singleton]
  by_cases hx : x ∈ (b.span g.start width).map (·.label) <;> simp [hx]

theorem call_of_heir? (h : b.heir? width gaps x = some l) : ∃ g ∈ gaps, g.call = l := by
  obtain ⟨g, hg, rfl⟩ := Option.map_eq_some_iff.1 h
  exact ⟨g, List.mem_of_find?_eq_some hg, rfl⟩

theorem mem_labels_of_mem_span (h : x ∈ (b.span index width).map (·.label)) : x ∈ b.labels := by
  obtain ⟨i, hi, rfl⟩ := List.mem_map.1 h
  exact mem_labels (List.mem_of_mem_drop (List.mem_of_mem_take hi))

theorem filled_nil (b : Body) (width : Nat) (t : Transform) : b.filled width t [] = b := by
  have hself : b.instructions.map (Instruction.rerouted (b.heir? width [])) = b.instructions :=
    List.map_id'' (fun _ => Instruction.rerouted_eq_self (Option.bind_eq_none_iff.2 fun _ _ => rfl)) _
  have hfill : b.fillFrom width t [] b.instructions 0 = _ := fillFrom_of_clear nofun
  rw [filled, hfill, hself]
  rfl

/-- One gap more points the branches into its span to its call. -/
theorem rerouted_redirected (hfresh : ∀ g' ∈ gaps, g'.call ∉ b.labels) (i : Instruction) :
    (i.rerouted (b.heir? width gaps)).redirected ((b.span g.start width).map (·.label)) g.call
      = i.rerouted (b.heir? width (gaps ++ [g])) := by
  cases ht : i.target? with
  | none =>
    rw [Instruction.rerouted_eq_self (by rw [ht]; rfl), Instruction.rerouted_eq_self (by rw [ht]; rfl)]
    exact Instruction.redirected_of_target?_eq_none ht
  | some x =>
    have hconcat := b.heir?_concat width gaps g x
    cases hx : b.heir? width gaps x with
    | some y =>
      -- the target is gone already, and the call that has taken its place is in no span
      rw [hx, Option.some_or] at hconcat
      rw [Instruction.rerouted_eq_retargeted (l := y) (by rw [ht]; exact hx),
        Instruction.rerouted_eq_retargeted (l := y) (by rw [ht]; exact hconcat)]
      obtain ⟨g', hg', rfl⟩ := call_of_heir? hx
      exact Instruction.redirected_of_notMem (by rw [Instruction.target?_retargeted, ht]; rfl)
        fun hm => hfresh g' hg' (mem_labels_of_mem_span hm)
    | none =>
      rw [hx, Option.none_or] at hconcat
      rw [Instruction.rerouted_eq_self (by rw [ht]; exact hx)]
      by_cases hs : x ∈ (b.span g.start width).map (·.label)
      · rw [if_pos hs] at hconcat
        rw [Instruction.rerouted_eq_retargeted (l := g.call) (by rw [ht]; exact hconcat)]
        exact Instruction.redirected_of_mem ht hs
      · rw [if_neg hs] at hconcat
        rw [Instruction.rerouted_eq_self (by rw [ht]; exact hconcat)]
        exact Instruction.redirected_of_notMem ht hs

theorem fill_concat (hfresh : ∀ g' ∈ gaps, g'.call ∉ b.labels)
    (hout : ¬(g.start ≤ index ∧ index < g.start + width)) (i : Instruction) :
    b.fill width t (gaps ++ [g]) i index = (b.fill width t gaps i index).map
      (Instruction.redirected ((b.span g.start width).map (·.label)) g.call) := by
  unfold fill
  rw [List.find?_append, List.find?_singleton, if_neg (by simpa using hout), Option.or_none]
  split
  · split <;> simp
  · rw [List.map_singleton, rerouted_redirected hfresh]

theorem fillFrom_concat (hfresh : ∀ g' ∈ gaps, g'.call ∉ b.labels) :
    ∀ {is : List Instruction} {index : Nat},
    (g.start + width ≤ index ∨ index + is.length ≤ g.start) →
    b.fillFrom width t (gaps ++ [g]) is index = (b.fillFrom width t gaps is index).map
      (Instruction.redirected ((b.span g.start width).map (·.label)) g.call)
  | [], _, _ => rfl
  | i :: is, index, hout => by
    rw [List.length_cons] at hout
    rw [fillFrom_cons, fillFrom_cons, List.map_append, fill_concat hfresh (by omega),
      fillFrom_concat hfresh (by omega)]

theorem span_length (hfit : s + width ≤ b.length) : (b.span s width).length = width := by
  unfold length at hfit
  rw [span, List.length_take, List.length_drop]
  omega

/-- What stands in front of an index and what stands from there on. -/
theorem filled_split (hi : index ≤ b.length) : (b.filled width t gaps).instructions
    = b.fillFrom width t gaps (b.instructions.take index) 0
      ++ b.fillFrom width t gaps (b.instructions.drop index) index := by
  have hfront : (b.instructions.take index).length = index := List.length_take_of_le hi
  conv_lhs => rw [filled, ← List.take_append_drop index b.instructions]
  rw [fillFrom_append, hfront, Nat.zero_add]

/-- What stands from an index on is some instructions and what stands behind them. -/
theorem fillFrom_span {n : Nat} (hfit : s + n ≤ b.length) :
    b.fillFrom width t gaps (b.instructions.drop s) s = b.fillFrom width t gaps (b.span s n) s
      ++ b.fillFrom width t gaps (b.instructions.drop (s + n)) (s + n) := by
  conv_lhs => rw [← List.take_append_drop n (b.instructions.drop s), List.drop_drop]
  rw [fillFrom_append]
  exact congrArg (fun k => _ ++ b.fillFrom width t gaps _ (s + k)) (span_length hfit)

/-- A span between gaps stays, but for where its branches lead. -/
theorem fillFrom_span_of_clear {n : Nat} (hfit : s + n ≤ b.length)
    (hclear : Clear width gaps s (s + n)) : b.fillFrom width t gaps (b.span s n) s
      = (b.span s n).map (Instruction.rerouted (b.heir? width gaps)) :=
  fillFrom_of_clear (by rwa [span_length hfit])

/-- The span of one gap more gives way to its call. -/
theorem fillFrom_concat_gap (hw : 0 < width) (hfit : g.start + width ≤ b.length)
    (hclear : Clear width gaps g.start (g.start + width)) :
    b.fillFrom width t (gaps ++ [g]) (b.span g.start width) g.start = [.transformCall g.call t] := by
  refine fillFrom_gap (fun k hle hlt => ?_) (span_length hfit) hw
  rw [List.find?_append, hclear.find?_eq_none hle hlt, Option.none_or, List.find?_singleton,
    if_pos (by simp [hle, hlt])]

/-- Filling one gap more is an exchange, where the other gaps have moved its span to. -/
theorem filled_concat (hw : 0 < width) (hfit : g.start + width ≤ b.length)
    (hclear : Clear width gaps g.start (g.start + width))
    (hfresh : ∀ g' ∈ gaps, g'.call ∉ b.labels) (hcall : g.call = (b.filled width t gaps).nextLabel) :
    b.filled width t (gaps ++ [g])
      = (b.filled width t gaps).exchange (b.place width t gaps g.start) width t := by
  have hspan := span_length hfit
  have hmiddle := fillFrom_span_of_clear (t := t) hfit hclear
  have hgap := fillFrom_concat_gap (b := b) (t := t) hw hfit hclear
  have hstart : g.start ≤ b.length := Nat.le_trans (Nat.le_add_right _ _) hfit
  have hparts : (b.filled width t gaps).instructions = _ := filled_split hstart
  rw [fillFrom_span hfit] at hparts
  have hkept : ((b.filled width t gaps).span (b.place width t gaps g.start) width).map (·.label)
      = (b.span g.start width).map (·.label) := by
    rw [Body.span, hparts, place, List.drop_left, hmiddle, List.take_left' (by simpa using hspan),
      List.map_map]
    exact List.map_congr_left fun i _ => Instruction.rerouted_label _ i
  have hfront : (b.filled width t gaps).instructions.take (b.place width t gaps g.start)
      = b.fillFrom width t gaps (b.instructions.take g.start) 0 := by
    rw [hparts, place, List.take_left]
  have hback : (b.filled width t gaps).instructions.drop (b.place width t gaps g.start + width)
      = b.fillFrom width t gaps (b.instructions.drop (g.start + width)) (g.start + width) := by
    rw [hparts, place, ← List.drop_drop, List.drop_left, hmiddle,
      List.drop_left' (by simpa using hspan)]
  have hinstructions : (b.filled width t (gaps ++ [g])).instructions
      = ((b.filled width t gaps).exchange (b.place width t gaps g.start) width t).instructions := by
    rw [filled_split hstart, fillFrom_span hfit, hgap, fillFrom_concat hfresh (Or.inr ?_),
      fillFrom_concat hfresh (Or.inl (Nat.le_refl _)), exchange, hkept, ← hcall, hfront, hback]
    · rfl
    · rw [List.length_take]
      omega
  have hnext : (b.filled width t (gaps ++ [g])).next
      = ((b.filled width t gaps).exchange (b.place width t gaps g.start) width t).next := by
    simp [filled, Nat.add_assoc]
  exact congrArg₂ Body.mk hinstructions hnext

/-- Filling a gap at one start more. -/
theorem Numbered.filled_gapsAt_concat (hb : b.Numbered) {starts : List Nat} (hw : 0 < width)
    (hn : starts.length ≤ b.unused) (hfit : s + width ≤ b.length)
    (hclear : Clear width (b.gapsAt starts) s (s + width)) :
    b.filled width t (b.gapsAt (starts ++ [s])) = (b.filled width t (b.gapsAt starts)).exchange
      (b.place width t (b.gapsAt starts) s) width t := by
  have hcall : (⟨UInt32.ofNat (b.next + starts.length)⟩ : Label)
      = (b.filled width t (b.gapsAt starts)).nextLabel := by
    rw [nextLabel, filled, gapsAt_length]
  rw [gapsAt_concat, filled_concat hw hfit hclear (hb.gapsAt_fresh hn) hcall]

/-! ### Places -/

theorem filled_length (b : Body) (width : Nat) (t : Transform) (gaps : List CallGap) :
    (b.filled width t gaps).length = b.place width t gaps b.length := by
  unfold place length
  rw [List.take_length]
  rfl

/-- Between gaps the places go on one by one. -/
theorem place_add {n : Nat} (hclear : Clear width gaps index (index + n))
    (hi : index + n ≤ b.length) :
    b.place width t gaps (index + n) = b.place width t gaps index + n := by
  have hfront : (b.instructions.take index).length = index :=
    List.length_take_of_le (Nat.le_trans (Nat.le_add_right _ _) hi)
  unfold place
  rw [List.take_add, fillFrom_append, hfront, Nat.zero_add, List.length_append]
  rw [← span, fillFrom_span_of_clear hi hclear, List.length_map, span_length hi]

/-- In front of all gaps the places are as they were. -/
theorem place_eq_self (hclear : Clear width gaps 0 index) (hi : index ≤ b.length) :
    b.place width t gaps index = index := by
  have hzero : b.place width t gaps (0 + index) = b.place width t gaps 0 + index :=
    place_add (by rwa [Nat.zero_add]) (by rwa [Nat.zero_add])
  rwa [Nat.zero_add, show b.place width t gaps 0 = 0 from rfl, Nat.zero_add] at hzero

/-- Behind a gap that is filled last, places go on behind its call. -/
theorem place_concat (hw : 0 < width) (hfit : g.start + width ≤ b.length)
    (hclear : Clear width gaps g.start (g.start + width))
    (hfresh : ∀ g' ∈ gaps, g'.call ∉ b.labels) :
    b.place width t (gaps ++ [g]) (g.start + width) = b.place width t gaps g.start + 1 := by
  have hfront : (b.instructions.take g.start).length = g.start :=
    List.length_take_of_le (Nat.le_trans (Nat.le_add_right _ _) hfit)
  unfold place
  rw [List.take_add, fillFrom_append, hfront, Nat.zero_add, List.length_append, ← span,
    fillFrom_concat_gap hw hfit hclear, fillFrom_concat hfresh (Or.inr (by omega)), List.length_map]
  rfl

/-- Between gaps the body stands as it was but for where its branches lead. -/
theorem filled_get? {n m : Nat} (hclear : Clear width gaps index (index + n))
    (hi : index + n ≤ b.length) (hm : m < n) :
    (b.filled width t gaps).get? (b.place width t gaps index + m)
      = (b.get? (index + m)).map (Instruction.rerouted (b.heir? width gaps)) := by
  have hin : m < ((b.span index n).map (Instruction.rerouted (b.heir? width gaps))).length := by
    rwa [List.length_map, span_length hi]
  unfold get?
  rw [filled_split (Nat.le_trans (Nat.le_add_right _ _) hi), fillFrom_span hi,
    fillFrom_span_of_clear hi hclear]
  rw [place, List.getElem?_append_right (Nat.le_add_right _ _), Nat.add_sub_cancel_left,
    List.getElem?_append_left hin, List.getElem?_map, span, List.getElem?_take_of_lt hm,
    List.getElem?_drop]

end Body

end Inversion

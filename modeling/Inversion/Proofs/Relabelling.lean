import Mathlib.Data.List.Pairwise
import Inversion.Proofs.Series
import Inversion.Proofs.Filling

/-!
Bodies with filled gaps, up to the labels of their calls. In which order the gaps are listed makes no
difference, and other labels for the calls make a body that is renamed. So when the labels that come
next are given out to the same gaps in the opposite order, what comes about is the same body under a
renaming that leaves the labels of the given body alone.
-/

namespace Inversion

/-! ### Renaming -/

/-- The instruction under a renaming of labels: its own, and that of its target if it is a branch. -/
def Instruction.relabelled (name : Label → Label) (i : Instruction) : Instruction :=
  { i.rerouted (fun l => if name l = l then none else some (name l)) with label := name i.label }

/-- The body under a renaming of labels. -/
def Body.relabelled (name : Label → Label) (b : Body) : Body :=
  ⟨b.instructions.map (Instruction.relabelled name), b.next⟩

/-- The gap with its call renamed. -/
def CallGap.relabelled (name : Label → Label) (g : CallGap) : CallGap := ⟨g.start, name g.call⟩

namespace Instruction

variable {name : Label → Label} {i : Instruction} {l : Label}

theorem relabelled_of_fixed (hl : name i.label = i.label)
    (ht : ∀ l, i.target? = some l → name l = l) : i.relabelled name = i := by
  have hself : i.rerouted (fun l => if name l = l then none else some (name l)) = i :=
    rerouted_eq_self (Option.bind_eq_none_iff.2 fun l hi => if_pos (ht l hi))
  unfold relabelled
  rw [hself, hl]

/-- A branch that is pointed elsewhere follows the renaming of its new target. -/
theorem relabelled_retargeted (hl : name i.label = i.label) (new : Label)
    (ht : i.target?.isSome) : (i.retargeted new).relabelled name = i.retargeted (name new) := by
  obtain ⟨l, hl'⟩ := Option.isSome_iff_exists.1 ht
  have htarget : (i.retargeted new).target? = some new := by
    rw [target?_retargeted, hl']
    rfl
  by_cases hn : name new = new
  · rw [hn]
    refine relabelled_of_fixed hl fun x hx => ?_
    rw [Option.some.inj (hx.symm.trans htarget), hn]
  · have hmoved : (i.retargeted new).rerouted (fun l => if name l = l then none else some (name l))
        = i.retargeted (name new) := by
      rw [rerouted_eq_retargeted (l := name new) (by rw [htarget]; exact if_neg hn),
        retargeted_retargeted]
    unfold relabelled
    rw [hmoved]
    exact congrArg (fun l => { i.retargeted (name new) with label := l }) hl

end Instruction

namespace Body

variable {b : Body} {width index k front back s : Nat} {t : Transform} {gaps gaps' : List CallGap}
  {g : CallGap} {is : List Instruction} {i : Instruction} {l : Label} {name : Label → Label}
  {starts : List Nat}

theorem heir?_relabelled (b : Body) (width : Nat) (gaps : List CallGap) (l : Label) :
    b.heir? width (gaps.map (CallGap.relabelled name)) l = (b.heir? width gaps l).map name := by
  unfold heir?
  rw [List.find?_map, Option.map_map, Option.map_map]
  rfl

/-- Where branches lead is renamed with the calls. -/
theorem Sound.rerouted_relabelled (hb : b.Sound) (hname : ∀ l ∈ b.labels, name l = l)
    (hi : i ∈ b.instructions) : i.rerouted (b.heir? width (gaps.map (CallGap.relabelled name)))
      = (i.rerouted (b.heir? width gaps)).relabelled name := by
  have hlabel := hname _ (mem_labels hi)
  cases hx : i.target?.bind (b.heir? width gaps) with
  | none =>
    have hnone : i.target?.bind (b.heir? width (gaps.map (CallGap.relabelled name))) = none := by
      rw [Option.bind_eq_none_iff] at hx ⊢
      intro l hl
      rw [heir?_relabelled, hx l hl]
      rfl
    rw [Instruction.rerouted_eq_self hx, Instruction.rerouted_eq_self hnone]
    exact (Instruction.relabelled_of_fixed hlabel fun l hl => hname l (hb.target_mem hi hl)).symm
  | some new =>
    obtain ⟨l, hl, hnew⟩ := Option.bind_eq_some_iff.1 hx
    have hsome : i.target?.bind (b.heir? width (gaps.map (CallGap.relabelled name)))
        = some (name new) := by
      rw [hl, Option.bind_some, heir?_relabelled, hnew]
      rfl
    rw [Instruction.rerouted_eq_retargeted hx, Instruction.rerouted_eq_retargeted hsome]
    exact (Instruction.relabelled_retargeted hlabel new (by rw [hl]; rfl)).symm

theorem Sound.fill_relabelled (hb : b.Sound) (hname : ∀ l ∈ b.labels, name l = l)
    (hi : i ∈ b.instructions) (index : Nat) :
    b.fill width t (gaps.map (CallGap.relabelled name)) i index
      = (b.fill width t gaps i index).map (Instruction.relabelled name) := by
  unfold fill
  rw [List.find?_map]
  cases hg : gaps.find? fun g => g.start ≤ index ∧ index < g.start + width with
  | none =>
    rw [show gaps.find? ((fun g : CallGap => decide (g.start ≤ index ∧ index < g.start + width)) ∘
      CallGap.relabelled name) = none from hg]
    exact congrArg (fun i => [i]) (hb.rerouted_relabelled hname hi)
  | some g =>
    rw [show gaps.find? ((fun g : CallGap => decide (g.start ≤ index ∧ index < g.start + width)) ∘
      CallGap.relabelled name) = some g from hg]
    show (if index = g.start then _ else _) = List.map _ (if index = g.start then _ else _)
    split <;> rfl

/-- Other labels for the calls make a body that is renamed. -/
theorem Sound.filled_relabelled (hb : b.Sound) (hname : ∀ l ∈ b.labels, name l = l) :
    b.filled width t (gaps.map (CallGap.relabelled name)) = (b.filled width t gaps).relabelled name := by
  have hfill : ∀ (is : List Instruction) (index : Nat), (∀ i ∈ is, i ∈ b.instructions) →
      b.fillFrom width t (gaps.map (CallGap.relabelled name)) is index
        = (b.fillFrom width t gaps is index).map (Instruction.relabelled name) := by
    intro is
    induction is with
    | nil => intro _ _; rfl
    | cons i is ih =>
      intro index his
      rw [fillFrom_cons, fillFrom_cons, List.map_append,
        hb.fill_relabelled hname (his i List.mem_cons_self),
        ih (index + 1) fun j hj => his j (List.mem_cons_of_mem i hj)]
  have hnext : (gaps.map (CallGap.relabelled name)).length = gaps.length := List.length_map _
  unfold filled relabelled
  rw [hfill _ 0 fun _ hi => hi, hnext]

/-! ### The order of gaps -/

/-- No two gaps of a list overlap. -/
def Apart (width : Nat) (gaps : List CallGap) : Prop :=
  gaps.Pairwise fun g g' => g.start + width ≤ g'.start ∨ g'.start + width ≤ g.start

/-- Gaps that have a place in common are the same. -/
theorem Apart.eq (h : Apart width gaps) {g g' : CallGap} (hg : g ∈ gaps) (hg' : g' ∈ gaps)
    (hk : g.start ≤ k ∧ k < g.start + width) (hk' : g'.start ≤ k ∧ k < g'.start + width) :
    g = g' := by
  have : Std.Symm fun g g' : CallGap => g.start + width ≤ g'.start ∨ g'.start + width ≤ g.start :=
    ⟨fun _ _ => Or.symm⟩
  by_contra hne
  have hapart := List.Pairwise.forall h hg hg' hne
  omega

/-- What at most one element of a list passes is found there in whatever order. -/
theorem find?_eq_of_perm {α : Type} {l l' : List α} {test : α → Bool} (h : l.Perm l')
    (hone : ∀ a ∈ l, ∀ b ∈ l, test a = true → test b = true → a = b) :
    l.find? test = l'.find? test := by
  cases hl : l.find? test with
  | none =>
    rw [List.find?_eq_none] at hl
    exact (List.find?_eq_none.2 fun a ha => hl a (h.mem_iff.2 ha)).symm
  | some a =>
    cases hl' : l'.find? test with
    | none =>
      have := List.find?_eq_none.1 hl' a (h.mem_iff.1 (List.mem_of_find?_eq_some hl))
      exact absurd (List.find?_some hl) this
    | some b => rw [hone a (List.mem_of_find?_eq_some hl) b
        (h.mem_iff.2 (List.mem_of_find?_eq_some hl')) (List.find?_some hl) (List.find?_some hl')]

theorem exists_of_mem_span (h : l ∈ (b.span index width).map (·.label)) :
    ∃ k, (index ≤ k ∧ k < index + width) ∧ b.labels[k]? = some l := by
  rw [span_labels] at h
  obtain ⟨n, hn⟩ := List.mem_iff_getElem?.1 h
  have hlt : n < width := by
    by_contra hge
    rw [List.getElem?_eq_none (by rw [List.length_take]; omega)] at hn
    cases hn
  rw [List.getElem?_take_of_lt hlt, List.getElem?_drop] at hn
  exact ⟨index + n, by omega, hn⟩

/-- It makes no difference in which order gaps are listed that do not overlap. -/
theorem Numbered.filled_perm (hb : b.Numbered) (h : gaps.Perm gaps') (hgaps : Apart width gaps) :
    b.filled width t gaps = b.filled width t gaps' := by
  have hheir : b.heir? width gaps = b.heir? width gaps' := by
    funext l
    unfold heir?
    rw [find?_eq_of_perm h]
    intro g hg g' hg' hl hl'
    obtain ⟨k, hk, hat⟩ := exists_of_mem_span (of_decide_eq_true hl)
    obtain ⟨k', hk', hat'⟩ := exists_of_mem_span (of_decide_eq_true hl')
    obtain ⟨hlt, hget⟩ := List.getElem?_eq_some_iff.1 hat
    obtain ⟨hlt', hget'⟩ := List.getElem?_eq_some_iff.1 hat'
    obtain rfl : k = k' := hb.nodup.getElem_inj_iff.1 (hget.trans hget'.symm)
    exact hgaps.eq hg hg' hk hk'
  have hfind (k : Nat) : (gaps.find? fun g => g.start ≤ k ∧ k < g.start + width)
      = gaps'.find? fun g => g.start ≤ k ∧ k < g.start + width :=
    find?_eq_of_perm h fun g hg g' hg' hk hk' =>
      hgaps.eq hg hg' (of_decide_eq_true hk) (of_decide_eq_true hk')
  have hfill : b.fill width t gaps = b.fill width t gaps' := by
    funext i k
    unfold fill
    rw [hfind k, hheir]
  unfold filled fillFrom
  rw [hfill, h.length_eq]

/-! ### Labels in the opposite order -/

/-- The labels that are given out next, so many of them, in the opposite order. -/
def mirror (b : Body) (n : Nat) (l : Label) : Label :=
  if b.next ≤ l.number.toNat ∧ l.number.toNat < b.next + n then
    ⟨UInt32.ofNat (b.next + (b.next + n - 1 - l.number.toNat))⟩
  else l

theorem Numbered.mirror_of_mem (hb : b.Numbered) (n : Nat) (hl : l ∈ b.labels) :
    b.mirror n l = l := by
  have hbelow := hb.below l hl
  exact if_neg (by omega)

theorem mirror_fresh {n m : Nat} (hn : n ≤ b.unused) (hm : m < n) :
    b.mirror n ⟨UInt32.ofNat (b.next + m)⟩ = ⟨UInt32.ofNat (b.next + (n - 1 - m))⟩ := by
  have hnumber : (UInt32.ofNat (b.next + m)).toNat = b.next + m :=
    UInt32.toNat_ofNat_of_lt (Nat.add_lt_of_lt_sub' (Nat.lt_of_lt_of_le hm hn))
  unfold mirror
  rw [hnumber, if_pos (by omega), show b.next + n - 1 - (b.next + m) = n - 1 - m by omega]

theorem mirror_involutive {n : Nat} (hn : n ≤ b.unused) : Function.Involutive (b.mirror n) := by
  intro l
  by_cases hl : b.next ≤ l.number.toNat ∧ l.number.toNat < b.next + n
  · obtain ⟨m, hm⟩ := Nat.exists_eq_add_of_le hl.1
    obtain rfl : l = ⟨UInt32.ofNat (b.next + m)⟩ := by rw [← hm, UInt32.ofNat_toNat]
    have hlt : m < n := by omega
    rw [mirror_fresh hn hlt, mirror_fresh hn (by omega), show n - 1 - (n - 1 - m) = m by omega]
  · have hself : b.mirror n l = l := if_neg hl
    rw [hself, hself]

/-- Gaps that are listed the other way round get the labels of their calls in the opposite order. -/
theorem gapsAt_reverse (hn : starts.length ≤ b.unused) : b.gapsAt starts.reverse
    = ((b.gapsAt starts).map (CallGap.relabelled (b.mirror starts.length))).reverse := by
  refine List.ext_getElem (by simp [gapsAt]) fun k hk _ => ?_
  have hlt : k < starts.length := by simpa [gapsAt] using hk
  have hmirror := mirror_fresh (m := starts.length - 1 - k) hn (by omega)
  simp only [gapsAt, List.getElem_map, List.getElem_zipIdx, List.getElem_reverse, List.length_map,
    List.length_zipIdx, CallGap.relabelled, Nat.zero_add, hmirror]
  congr 4
  omega

/-- The gaps of a body, filled in the opposite order, make the same body up to the labels of the
    calls. -/
theorem Sound.filled_reverse (hb : b.Sound) (hn : starts.length ≤ b.unused)
    (hstarts : starts.Pairwise fun s s' => s + width ≤ s') :
    b.filled width t (b.gapsAt starts.reverse)
      = (b.filled width t (b.gapsAt starts)).relabelled (b.mirror starts.length) := by
  have hmap : ((b.gapsAt starts).map (CallGap.relabelled (b.mirror starts.length))).map (·.start)
      = starts := by
    simp [gapsAt, CallGap.relabelled, Function.comp_def]
  have hapart : Apart width ((b.gapsAt starts).map (CallGap.relabelled (b.mirror starts.length))) := by
    rw [← hmap, List.pairwise_map] at hstarts
    exact hstarts.imp Or.inl
  rw [gapsAt_reverse hn, ← hb.toNumbered.filled_perm (List.reverse_perm _).symm hapart,
    hb.filled_relabelled fun l hl => hb.toNumbered.mirror_of_mem _ hl]

end Body

end Inversion

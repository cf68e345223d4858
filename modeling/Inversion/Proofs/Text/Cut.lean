import Mathlib.Data.List.Basic
import Mathlib.Data.List.TakeWhile
import Inversion.Text.Blank

/-!
What is kept when a text is taken apart. A tight text begins and ends without white space; trimming finds
the tight text between two stretches of white space. Cutting finds the first character that passes the
test, the words of a text are its stretches without white space, and the lines of a text that ends every
line with a line feed are the lines that it was made of.
-/

namespace Inversion.Text

/-- Nothing but white space. -/
def Blank (cs : List Char) : Prop := ∀ c ∈ cs, isBlank c = true

/-- Neither begins nor ends with white space. -/
def Tight (cs : List Char) : Prop :=
  (∀ c ∈ cs.head?, isBlank c = false) ∧ ∀ c ∈ cs.getLast?, isBlank c = false

/-- White space between two tokens. -/
def Gap (cs : List Char) : Prop := cs ≠ [] ∧ Blank cs

/-- A token with white space around it. -/
def Around (token cs : List Char) : Prop := ∃ a b, Blank a ∧ Blank b ∧ cs = a ++ token ++ b

/-- Something without white space. -/
def Word (cs : List Char) : Prop := cs ≠ [] ∧ ∀ c ∈ cs, isBlank c = false

instance (cs : List Char) : Decidable (Blank cs) := List.decidableBAll (isBlank · = true) cs

instance (cs : List Char) : Decidable (Word cs) :=
  @instDecidableAnd _ _ inferInstance (List.decidableBAll (isBlank · = false) cs)

theorem Blank.nil : Blank [] := nofun

theorem Around.refl (cs : List Char) : Around cs cs := ⟨[], [], Blank.nil, Blank.nil, by simp⟩

theorem Around.behind {a : List Char} (ha : Blank a) (cs : List Char) : Around cs (a ++ cs) :=
  ⟨a, [], ha, Blank.nil, by simp⟩

theorem Tight.nil : Tight [] := ⟨by simp, by simp⟩

theorem Blank.append {a b : List Char} (ha : Blank a) (hb : Blank b) : Blank (a ++ b) := by
  rintro c hc
  rcases List.mem_append.1 hc with hc | hc
  · exact ha c hc
  · exact hb c hc

theorem Word.tight {w : List Char} (h : Word w) : Tight w :=
  ⟨fun c hc => h.2 c (List.mem_of_mem_head? hc), fun c hc => h.2 c (List.mem_of_mem_getLast? hc)⟩

theorem Around.mem {token cs : List Char} (h : Around token cs) {c : Char} (hc : c ∈ cs) :
    isBlank c = true ∨ c ∈ token := by
  obtain ⟨a, b, ha, hb, rfl⟩ := h
  simp only [List.mem_append] at hc
  rcases hc with (hc | hc) | hc
  · exact .inl (ha c hc)
  · exact .inr hc
  · exact .inl (hb c hc)

/-- A text that begins with one tight text and ends with another is tight. -/
theorem Tight.append {a b : List Char} (middle : List Char) (ha : Tight a) (hb : Tight b)
    (ha' : a ≠ []) (hb' : b ≠ []) : Tight (a ++ middle ++ b) := by
  refine ⟨fun c hc => ha.1 c ?_, fun c hc => hb.2 c ?_⟩
  · rwa [List.append_assoc, List.head?_append_of_ne_nil _ ha'] at hc
  · rwa [List.getLast?_append_of_ne_nil _ hb'] at hc

theorem Tight.front {a b : List Char} (h : Tight (a ++ b)) (ha : Blank a) : a = [] := by
  cases a with
  | nil => rfl
  | cons c a =>
    have hc := ha c (List.mem_cons_self ..)
    rw [h.1 c rfl] at hc
    cases hc

theorem Tight.back {a b : List Char} (h : Tight (a ++ b)) (hb : Blank b) : b = [] := by
  by_contra hne
  obtain ⟨c, hc⟩ := List.getLast?_isSome.2 hne |> Option.isSome_iff_exists.1
  have hlast := h.2 c (by rw [List.getLast?_append_of_ne_nil _ hne]; exact hc)
  rw [hb c (List.mem_of_getLast? hc)] at hlast
  cases hlast

/-! ### Stretches -/

theorem takeWhile_append {p : Char → Bool} {a rest : List Char} (ha : ∀ c ∈ a, p c = true)
    (hrest : ∀ c ∈ rest.head?, p c = false) : (a ++ rest).takeWhile p = a := by
  rw [List.takeWhile_append_of_pos ha]
  cases rest with
  | nil => simp
  | cons c rest => simp [hrest c rfl]

theorem dropWhile_append {p : Char → Bool} {a rest : List Char} (ha : ∀ c ∈ a, p c = true)
    (hrest : ∀ c ∈ rest.head?, p c = false) : (a ++ rest).dropWhile p = rest := by
  rw [List.dropWhile_append_of_pos ha]
  cases rest with
  | nil => rfl
  | cons c rest => simp [hrest c rfl]

theorem dropWhile_head? (p : Char → Bool) (cs : List Char) :
    ∀ c ∈ (cs.dropWhile p).head?, p c = false := by
  rintro c hc
  have hnot := List.head?_dropWhile_not p cs
  rw [Option.mem_def] at hc
  rw [hc] at hnot
  simpa using hnot

/-! ### Trimming -/

theorem trimLeft_append {a : List Char} (ha : Blank a) (cs : List Char) :
    trimLeft (a ++ cs) = trimLeft cs := List.dropWhile_append_of_pos ha

theorem trimLeft_of_head? {cs : List Char} (h : ∀ c ∈ cs.head?, isBlank c = false) :
    trimLeft cs = cs := by
  cases cs with
  | nil => rfl
  | cons c rest => exact List.dropWhile_cons_of_neg (by simp [h c rfl])

theorem trimLeft_head? (cs : List Char) : ∀ c ∈ (trimLeft cs).head?, isBlank c = false :=
  dropWhile_head? isBlank cs

theorem trimLeft_eq_drop (cs : List Char) : ∃ a, Blank a ∧ cs = a ++ trimLeft cs :=
  ⟨cs.takeWhile isBlank, fun _ hc => List.mem_takeWhile_imp hc, List.takeWhile_append_dropWhile.symm⟩

theorem trimRight_eq (cs : List Char) : trimRight cs = (trimLeft cs.reverse).reverse := rfl

/-- What trimming takes away is white space, and what it leaves is tight. -/
theorem trim_spec (cs : List Char) :
    ∃ a b, Blank a ∧ Blank b ∧ cs = a ++ trim cs ++ b ∧ Tight (trim cs) := by
  obtain ⟨a, ha, hleft⟩ := trimLeft_eq_drop cs
  obtain ⟨b, hb, hright⟩ := trimLeft_eq_drop (trimLeft cs).reverse
  have htrim : trimLeft cs = trim cs ++ b.reverse := by
    rw [trim, trimRight_eq, ← List.reverse_append, ← hright, List.reverse_reverse]
  refine ⟨a, b.reverse, ha, fun c hc => hb c (List.mem_reverse.1 hc), ?_, ?_, ?_⟩
  · rw [List.append_assoc, ← htrim, ← hleft]
  · rintro c hc
    refine trimLeft_head? cs c ?_
    rw [htrim]
    exact List.mem_head?_append_of_mem_head? hc
  · rintro c hc
    refine trimLeft_head? (trimLeft cs).reverse c ?_
    rwa [trim, trimRight_eq, List.getLast?_reverse] at hc

/-- White space around a tight text is trimmed away, and nothing else. -/
theorem trim_append {a cs b : List Char} (ha : Blank a) (hcs : Tight cs) (hb : Blank b) :
    trim (a ++ cs ++ b) = cs := by
  have hb' : Blank b.reverse := fun c hc => hb c (List.mem_reverse.1 hc)
  by_cases hnil : cs = []
  · subst hnil
    rw [List.append_nil, trim, ← List.append_nil (a ++ b), trimLeft_append (ha.append hb)]
    rfl
  · have hleft : trimLeft (a ++ cs ++ b) = cs ++ b := by
      rw [List.append_assoc, trimLeft_append ha]
      refine trimLeft_of_head? fun c hc => hcs.1 c ?_
      rwa [List.head?_append_of_ne_nil _ hnil] at hc
    rw [trim, hleft, trimRight_eq, List.reverse_append, trimLeft_append hb',
      trimLeft_of_head?, List.reverse_reverse]
    rintro c hc
    rw [List.head?_reverse] at hc
    exact hcs.2 c hc

theorem trim_of_tight {cs : List Char} (h : Tight cs) : trim cs = cs := by
  simpa using trim_append Blank.nil h Blank.nil

theorem around_trim (cs : List Char) : Around (trim cs) cs := by
  obtain ⟨a, b, ha, hb, hcs, -⟩ := trim_spec cs
  exact ⟨a, b, ha, hb, hcs⟩

theorem trim_around {token cs : List Char} (h : Around token cs) : trim cs = trim token := by
  obtain ⟨a, b, ha, hb, rfl⟩ := h
  obtain ⟨p, q, hp, hq, htoken, htight⟩ := trim_spec token
  have h := trim_append (ha.append hp) htight (hq.append hb)
  conv_lhs => rw [htoken]
  simpa using h

theorem trim_of_around {cs t : List Char} (ht : Tight t) (h : Around t cs) : trim cs = t := by
  rw [trim_around h, trim_of_tight ht]

theorem trim_eq_nil_iff (cs : List Char) : trim cs = [] ↔ Blank cs := by
  constructor
  · intro h
    obtain ⟨a, b, ha, hb, hcs⟩ := around_trim cs
    rw [hcs, h, List.append_nil]
    exact ha.append hb
  · intro h
    exact trim_of_around Tight.nil ⟨cs, [], h, Blank.nil, by simp⟩

/-! ### Cutting -/

theorem cutAt?_eq_some {test : Char → Bool} {cs a b : List Char} :
    cutAt? test cs = some (a, b) ↔
      ∃ c, test c = true ∧ cs = a ++ c :: b ∧ ∀ x ∈ a, test x = false := by
  induction cs generalizing a with
  | nil => simp [cutAt?]
  | cons x rest ih =>
    by_cases hx : test x = true
    · simp only [cutAt?, hx, if_true, Option.some.injEq, Prod.mk.injEq]
      constructor
      · rintro ⟨rfl, rfl⟩
        exact ⟨x, hx, rfl, nofun⟩
      · rintro ⟨c, -, hcs, hnot⟩
        cases a with
        | nil => exact ⟨rfl, (List.cons.inj hcs).2⟩
        | cons y a =>
          have hy := hnot y (List.mem_cons_self ..)
          rw [← (List.cons.inj hcs).1, hx] at hy
          cases hy
    · rw [cutAt?, if_neg hx, Option.map_eq_some_iff]
      constructor
      · rintro ⟨⟨a', b'⟩, hcut, heq⟩
        cases heq
        obtain ⟨c, hc, rfl, hnot⟩ := ih.1 hcut
        exact ⟨c, hc, rfl, List.forall_mem_cons.2 ⟨by simpa using hx, hnot⟩⟩
      · rintro ⟨c, hc, hcs, hnot⟩
        cases a with
        | nil =>
          rw [← (List.cons.inj hcs).1] at hc
          exact absurd hc hx
        | cons y a =>
          obtain ⟨rfl, rfl⟩ := List.cons.inj hcs
          exact ⟨(a, b), ih.2 ⟨c, hc, rfl, (List.forall_mem_cons.1 hnot).2⟩, rfl⟩

theorem cutAt?_append {test : Char → Bool} {a : List Char} {c : Char} (b : List Char)
    (ha : ∀ x ∈ a, test x = false) (hc : test c = true) :
    cutAt? test (a ++ c :: b) = some (a, b) :=
  cutAt?_eq_some.2 ⟨c, hc, rfl, ha⟩

theorem cutAt?_eq_none {test : Char → Bool} {cs : List Char} :
    cutAt? test cs = none ↔ ∀ x ∈ cs, test x = false := by
  induction cs with
  | nil => simp [cutAt?]
  | cons x rest ih =>
    by_cases hx : test x = true
    · simp [cutAt?, hx]
    · simp [cutAt?, hx, ih]

/-! ### Pieces, words and lines -/

theorem pieces_ne_nil (test : Char → Bool) (cs : List Char) : pieces test cs ≠ [] := by
  cases cs with
  | nil => exact List.cons_ne_nil _ _
  | cons c rest =>
    unfold pieces
    split
    · exact List.cons_ne_nil _ _
    · split <;> exact List.cons_ne_nil _ _

theorem pieces_append {test : Char → Bool} {c : Char} (hc : test c = true) (a b : List Char) :
    pieces test (a ++ c :: b) = pieces test a ++ pieces test b := by
  induction a with
  | nil => simp [pieces, hc]
  | cons x a ih =>
    rw [List.cons_append, pieces, pieces, ih]
    by_cases hx : test x = true
    · simp only [hx, if_true, List.cons_append]
    · rw [if_neg hx, if_neg hx]
      cases ha : pieces test a with
      | nil => exact absurd ha (pieces_ne_nil test a)
      | cons p ps => rfl

theorem pieces_of_none {test : Char → Bool} {a : List Char} (ha : ∀ x ∈ a, test x = false) :
    pieces test a = [a] := by
  induction a with
  | nil => rfl
  | cons x a ih =>
    obtain ⟨hx, ha⟩ := List.forall_mem_cons.1 ha
    simp [pieces, hx, ih ha]

theorem mem_of_mem_pieces {test : Char → Bool} {cs p : List Char} (hp : p ∈ pieces test cs) :
    p ⊆ cs := by
  induction cs generalizing p with
  | nil =>
    obtain rfl := List.mem_singleton.1 hp
    exact List.Subset.refl []
  | cons x rest ih =>
    unfold pieces at hp
    split at hp
    · rcases List.mem_cons.1 hp with rfl | hp
      · exact List.nil_subset _
      · exact List.subset_cons_of_subset x (ih hp)
    · split at hp
      · rename_i hnil
        exact absurd hnil (pieces_ne_nil test rest)
      · rename_i q qs hqs
        rw [hqs] at ih
        rcases List.mem_cons.1 hp with rfl | hp
        · exact List.cons_subset_cons x (ih (List.mem_cons_self ..))
        · exact List.subset_cons_of_subset x (ih (List.mem_cons_of_mem q hp))

theorem Word.words {w : List Char} (hw : Word w) : words w = [w] := by
  rw [Text.words, pieces_of_none hw.2]
  simp [hw.1]

/-- Begins where a word has ended: at the end of the text or with white space. -/
def Apart : List Char → Prop
  | [] => True
  | c :: _ => isBlank c = true

theorem Blank.apart {a : List Char} (ha : Blank a) : Apart a := by
  cases a with
  | nil => trivial
  | cons c a => exact ha c (List.mem_cons_self ..)

theorem Gap.apart {gap : List Char} (h : Gap gap) (rest : List Char) : Apart (gap ++ rest) := by
  obtain ⟨hne, hblank⟩ := h
  cases gap with
  | nil => exact absurd rfl hne
  | cons c gap => exact hblank c (List.mem_cons_self ..)

/-- A token behind the end of another has white space in front. -/
theorem gap_of_apart {a b rest : List Char} (ha : Blank a) (hb : ∀ c ∈ b.head?, isBlank c = false)
    (hne : b ≠ []) (h : Apart (a ++ b ++ rest)) : Gap a := by
  refine ⟨?_, ha⟩
  rintro rfl
  cases b with
  | nil => exact absurd rfl hne
  | cons c b =>
    have hc : isBlank c = true := h
    rw [hb c rfl] at hc
    cases hc

theorem words_append {rest : List Char} (hrest : Apart rest) (cs : List Char) :
    words (cs ++ rest) = words cs ++ words rest := by
  cases rest with
  | nil => simp [words, pieces]
  | cons c rest =>
    have hrest : isBlank c = true := hrest
    rw [words, pieces_append hrest, List.filter_append, ← words, words, words, pieces, if_pos hrest]
    rfl

theorem words_of_blank {a : List Char} (ha : Blank a) : words a = [] := by
  induction a with
  | nil => rfl
  | cons c a ih =>
    obtain ⟨hc, ha⟩ := List.forall_mem_cons.1 ha
    simpa [words, pieces, hc] using ih ha

/-- White space in front of a text adds no word. -/
theorem words_blank_append {a : List Char} (ha : Blank a) (cs : List Char) :
    words (a ++ cs) = words cs := by
  induction a with
  | nil => rfl
  | cons c a ih =>
    obtain ⟨hc, ha⟩ := List.forall_mem_cons.1 ha
    rw [← ih ha]
    simp [words, pieces, hc]

theorem words_around {token cs : List Char} (h : Around token cs) : words cs = words token := by
  obtain ⟨a, b, ha, hb, rfl⟩ := h
  rw [words_append hb.apart, words_of_blank hb, List.append_nil, words_blank_append ha]

/-- Every text is white space, or a word behind white space and in front of some rest. -/
theorem blank_or_word (cs : List Char) :
    Blank cs ∨ ∃ a w rest, Blank a ∧ Word w ∧ Apart rest ∧ cs = a ++ w ++ rest := by
  obtain ⟨a, ha, hcs⟩ := trimLeft_eq_drop cs
  by_cases hnil : trimLeft cs = []
  · left
    rwa [hcs, hnil, List.append_nil]
  · right
    let inWord := fun c => !isBlank c
    have hsplit : trimLeft cs = (trimLeft cs).takeWhile inWord ++ (trimLeft cs).dropWhile inWord :=
      List.takeWhile_append_dropWhile.symm
    have hword : Word ((trimLeft cs).takeWhile inWord) := by
      refine ⟨?_, fun c hc => by simpa [inWord] using List.mem_takeWhile_imp hc⟩
      cases hleft : trimLeft cs with
      | nil => exact absurd hleft hnil
      | cons c rest =>
        have hc := trimLeft_head? cs c (by rw [hleft]; rfl)
        simp [inWord, hc]
    have hapart : Apart ((trimLeft cs).dropWhile inWord) := by
      have hnot := dropWhile_head? inWord (trimLeft cs)
      cases hdrop : (trimLeft cs).dropWhile inWord with
      | nil => trivial
      | cons c rest => simpa [hdrop, inWord, Apart] using hnot
    exact ⟨a, _, _, ha, hword, hapart, by rw [List.append_assoc, ← hsplit, ← hcs]⟩

theorem words_eq_nil_iff (cs : List Char) : words cs = [] ↔ Blank cs := by
  refine ⟨fun h => ?_, words_of_blank⟩
  rcases blank_or_word cs with hblank | ⟨a, w, rest, ha, hw, hrest, rfl⟩
  · exact hblank
  · rw [words_append hrest, words_blank_append ha, hw.words] at h
    cases h

/-- The first word of a text, and the rest in which the others are found. -/
theorem words_eq_cons_iff {cs w : List Char} {ws : List (List Char)} :
    words cs = w :: ws ↔
      ∃ a rest, Blank a ∧ Word w ∧ Apart rest ∧ cs = a ++ w ++ rest ∧ words rest = ws := by
  constructor
  · intro h
    rcases blank_or_word cs with hblank | ⟨a, w', rest, ha, hw, hrest, rfl⟩
    · rw [words_of_blank hblank] at h
      cases h
    · rw [words_append hrest, words_blank_append ha, hw.words] at h
      obtain ⟨rfl, hws⟩ := List.cons.inj h
      exact ⟨a, rest, ha, hw, hrest, rfl, hws⟩
  · rintro ⟨a, rest, ha, hw, hrest, rfl, rfl⟩
    rw [words_append hrest, words_blank_append ha, hw.words]
    rfl

/-- The lines of a text are made of its characters. -/
theorem mem_of_mem_lines {cs l : List Char} (hl : l ∈ lines cs) : l ⊆ cs := by
  rcases List.mem_append.1 hl with hl | hl
  · obtain ⟨p, hp, rfl⟩ := List.mem_map.1 hl
    have hdrop : dropReturn p ⊆ p := by
      unfold dropReturn
      split
      · exact List.dropLast_subset p
      · exact List.Subset.refl p
    exact List.Subset.trans hdrop (mem_of_mem_pieces ((List.dropLast_sublist _).subset hp))
  · have hlast := (List.mem_filter.1 hl).1
    exact mem_of_mem_pieces (List.mem_of_getLast? (by simpa using hlast))

/-- A line that can be written with a line feed behind it and read back. -/
def Lined (l : List Char) : Prop := '\n' ∉ l ∧ l.getLast? ≠ some '\r'

theorem lines_flatMap {ls : List (List Char)} (h : ∀ l ∈ ls, Lined l) :
    lines (ls.flatMap (· ++ ['\n'])) = ls := by
  have hpieces : pieces (· == '\n') (ls.flatMap (· ++ ['\n'])) = ls ++ [[]] := by
    induction ls with
    | nil => rfl
    | cons l ls ih =>
      obtain ⟨hl, hls⟩ := List.forall_mem_cons.1 h
      have hfeed : ∀ x ∈ l, (x == '\n') = false := by
        rintro x hx
        rw [beq_eq_false_iff_ne]
        rintro rfl
        exact hl.1 hx
      rw [List.flatMap_cons, List.append_assoc, List.singleton_append, pieces_append rfl,
        pieces_of_none hfeed, ih hls, List.cons_append]
      rfl
  have hreturn : ls.map dropReturn = ls := by
    have hid : ls.map dropReturn = ls.map id := by
      refine List.map_congr_left fun l hl => ?_
      simp only [dropReturn, (h l hl).2, if_false, id]
    rw [hid, List.map_id]
  simp [lines, hpieces, hreturn]

end Inversion.Text

import Inversion.Proofs.Json.Scan

/-!
The texts of a JSON value. White space may stand inside of every bracket and around every comma and
colon, and whatever it is, the reader gets the value back. Both printers write such texts, the one
without white space and the other with every item and member on a line of its own.
-/

namespace Inversion

namespace Json

/-! ### The grammar -/

/-- White space, if there is anything. -/
def Spaces (gap : List Char) : Prop := ∀ c ∈ gap, isSpace c = true

mutual

/-- The texts of a value, with its strings and numbers as they are printed. -/
inductive Written : Json → List Char → Prop where
  | null : Written null ['n', 'u', 'l', 'l']
  | bool (b : Bool) : Written (bool b) (boolText b)
  | number {n : Numeral} : n.Formed → Written (number n) (n.text true)
  | string (s : String) : Written (string (some s)) (quote (some s))
  | empty {gap : List Char} : Spaces gap → Written (array []) ('[' :: (gap ++ [']']))
  | array {items : List Json} {cs gap : List Char} : WrittenItems items cs → Spaces gap →
      Written (array items) ('[' :: (cs ++ gap ++ [']']))
  | bare {gap : List Char} : Spaces gap → Written (object []) ('\x7b' :: (gap ++ ['\x7d']))
  | object {members : List (Option String × Json)} {cs gap : List Char} :
      WrittenMembers members cs → Spaces gap →
      Written (object members) ('\x7b' :: (cs ++ gap ++ ['\x7d']))

/-- The texts of the items of an array, without the white space behind the last one. -/
inductive WrittenItems : List Json → List Char → Prop where
  | last {item : Json} {before cs : List Char} : Spaces before → Written item cs →
      WrittenItems [item] (before ++ cs)
  | more {item : Json} {items : List Json} {before cs after rest : List Char} : Spaces before →
      Written item cs → Spaces after → WrittenItems items rest →
      WrittenItems (item :: items) (before ++ cs ++ after ++ ',' :: rest)

/-- The texts of the members of an object, without the white space behind the last one. -/
inductive WrittenMembers : List (Option String × Json) → List Char → Prop where
  | last (key : String) {value : Json} {before middle gap cs : List Char} : Spaces before →
      Spaces middle → Spaces gap → Written value cs →
      WrittenMembers [(some key, value)] (before ++ quote (some key) ++ middle ++ ':' :: (gap ++ cs))
  | more (key : String) {value : Json} {members : List (Option String × Json)}
      {before middle gap cs after rest : List Char} : Spaces before → Spaces middle → Spaces gap →
      Written value cs → Spaces after → WrittenMembers members rest →
      WrittenMembers ((some key, value) :: members)
        (before ++ quote (some key) ++ middle ++ ':' :: (gap ++ cs) ++ after ++ ',' :: rest)

end

/-! ### White space -/

theorem spaces_nil : Spaces [] := nofun

variable {gap : List Char}

theorem skipSpace_append (h : Spaces gap) (cs : List Char) :
    skipSpace (gap ++ cs) = skipSpace cs :=
  List.dropWhile_append_of_pos h

theorem skipSpace_gap (h : Spaces gap) {c : Char} (hc : isSpace c = false) (cs : List Char) :
    skipSpace (gap ++ c :: cs) = c :: cs := by
  rw [skipSpace_append h, skipSpace_cons hc]

theorem scanValue_gap (h : Spaces gap) (fuel : Nat) (cs : List Char) :
    scanValue fuel (gap ++ cs) = scanValue fuel cs := by
  cases fuel with
  | zero => rfl
  | succ fuel => rw [scanValue, scanValue, skipSpace_append h]

theorem scanItems_gap (h : Spaces gap) (fuel : Nat) (cs : List Char) :
    scanItems fuel (gap ++ cs) = scanItems fuel cs := by
  cases fuel with
  | zero => rfl
  | succ fuel => rw [scanItems, scanItems, scanValue_gap h]

theorem scanMembers_gap (h : Spaces gap) (fuel : Nat) (cs : List Char) :
    scanMembers fuel (gap ++ cs) = scanMembers fuel cs := by
  cases fuel with
  | zero => rfl
  | succ fuel => rw [scanMembers, scanMembers, skipSpace_append h]

theorem apart_cons {c : Char} (hdigit : c.isDigit = false) (hpoint : c ≠ '.') (he : c ≠ 'e')
    (hE : c ≠ 'E') (rest : List Char) : Apart (c :: rest) := by
  rintro d hd
  cases hd
  exact ⟨hdigit, hpoint, he, hE⟩

theorem apart_gap (h : Spaces gap) {rest : List Char} (hrest : Apart rest) : Apart (gap ++ rest) := by
  cases gap with
  | nil => exact hrest
  | cons c gap =>
    have hspace : isSpace c = true := h c List.mem_cons_self
    simp only [isSpace, Bool.or_eq_true, beq_iff_eq] at hspace
    rcases hspace with ((rfl | rfl) | rfl) | rfl <;>
      exact apart_cons rfl (by decide) (by decide) (by decide) _

/-! ### Beginnings -/

/-- No value begins with a space or a closing bracket. -/
theorem Written.head {j : Json} {cs : List Char} (h : Written j cs) :
    ∃ c rest, cs = c :: rest ∧ isSpace c = false ∧ c ≠ ']' := by
  cases h with
  | null => exact ⟨'n', _, rfl, rfl, by decide⟩
  | bool b => cases b <;> exact ⟨_, _, rfl, rfl, by decide⟩
  | @number n _ =>
    obtain ⟨c, rest, h, hc⟩ := text_head (n := n) true
    refine ⟨c, rest, h, ?_⟩
    rcases hc with hc | rfl
    · have hne {d : Char} (hd : d.isDigit = false) : c ≠ d := Text.ne_of_isDigit hc hd
      simp [isSpace, hne]
    · exact ⟨rfl, by decide⟩
  | string s => exact ⟨'"', _, rfl, rfl, by decide⟩
  | empty _ => exact ⟨'[', _, rfl, rfl, by decide⟩
  | array _ _ => exact ⟨'[', _, rfl, rfl, by decide⟩
  | bare _ => exact ⟨'\x7b', _, rfl, rfl, by decide⟩
  | object _ _ => exact ⟨'\x7b', _, rfl, rfl, by decide⟩

theorem WrittenItems.head {items : List Json} {cs : List Char} (h : WrittenItems items cs) :
    ∃ gap c rest, Spaces gap ∧ cs = gap ++ c :: rest ∧ isSpace c = false ∧ c ≠ ']' := by
  cases h with
  | @last _ before _ hbefore hitem =>
    obtain ⟨c, rest, rfl, hspace, hclose⟩ := hitem.head
    exact ⟨before, c, rest, hbefore, rfl, hspace, hclose⟩
  | @more _ _ before _ after rest hbefore hitem _ _ =>
    obtain ⟨c, first, rfl, hspace, hclose⟩ := hitem.head
    exact ⟨before, c, first ++ after ++ ',' :: rest, hbefore, by simp, hspace, hclose⟩

theorem WrittenMembers.head {members : List (Option String × Json)} {cs : List Char}
    (h : WrittenMembers members cs) : ∃ gap rest, Spaces gap ∧ cs = gap ++ '"' :: rest := by
  cases h with
  | @last key value before middle gap cs hbefore =>
    refine ⟨before, quoteBody (some key) ++ '"' :: (middle ++ ':' :: (gap ++ cs)), hbefore, ?_⟩
    simp only [List.append_assoc, List.cons_append, quote_append]
  | @more key value members before middle gap cs after rest hbefore =>
    refine ⟨before, quoteBody (some key) ++ '"' :: (middle ++ ':' :: (gap ++ (cs ++ (after
      ++ ',' :: rest)))), hbefore, ?_⟩
    simp only [List.append_assoc, List.cons_append, quote_append]

/-! ### Steps of the scanner -/

theorem scanValue_empty (h : Spaces gap) (fuel : Nat) (rest : List Char) :
    scanValue (fuel + 1) ('[' :: (gap ++ ']' :: rest)) = some (array [], rest) := by
  rw [scanValue, skipSpace_cons rfl]
  simp only [skipSpace_gap h (c := ']') rfl]

theorem scanValue_array (h : Spaces gap) {fuel : Nat} {c : Char} {cs : List Char}
    (hspace : isSpace c = false) (hclose : c ≠ ']') :
    scanValue (fuel + 1) ('[' :: (gap ++ c :: cs)) =
      (scanItems fuel (gap ++ c :: cs)).map fun (items, rest) => (array items, rest) := by
  rw [scanValue, skipSpace_cons rfl, scanItems_gap h]
  simp only [skipSpace_gap h hspace]
  split
  · rename_i heq
    exact absurd (List.cons.inj heq).1 hclose
  · rfl

theorem scanValue_bare (h : Spaces gap) (fuel : Nat) (rest : List Char) :
    scanValue (fuel + 1) ('\x7b' :: (gap ++ '\x7d' :: rest)) = some (object [], rest) := by
  rw [scanValue, skipSpace_cons rfl]
  simp only [skipSpace_gap h (c := '\x7d') rfl]

theorem scanValue_object (h : Spaces gap) (fuel : Nat) (cs : List Char) :
    scanValue (fuel + 1) ('\x7b' :: (gap ++ '"' :: cs)) =
      (scanMembers fuel (gap ++ '"' :: cs)).map fun (members, rest) => (object members, rest) := by
  rw [scanValue, skipSpace_cons rfl, scanMembers_gap h]
  simp only [skipSpace_gap h (c := '"') rfl]
  rfl

theorem scanItems_last (h : Spaces gap) {fuel : Nat} {cs rest : List Char} {item : Json}
    (hvalue : scanValue fuel cs = some (item, gap ++ ']' :: rest)) :
    scanItems (fuel + 1) cs = some ([item], rest) := by
  rw [scanItems, hvalue]
  simp only [skipSpace_gap h (c := ']') rfl]

theorem scanItems_more (h : Spaces gap) {fuel : Nat} {cs rest : List Char} {item : Json}
    (hvalue : scanValue fuel cs = some (item, gap ++ ',' :: rest)) : scanItems (fuel + 1) cs =
      (scanItems fuel rest).map fun (items, rest) => (item :: items, rest) := by
  rw [scanItems, hvalue]
  simp only [skipSpace_gap h (c := ',') rfl]

theorem scanMembers_last {middle : List Char} (hmiddle : Spaces middle) (h : Spaces gap) {fuel : Nat}
    {cs rest : List Char} {key : String} {value : Json}
    (hvalue : scanValue fuel cs = some (value, gap ++ '\x7d' :: rest)) :
    scanMembers (fuel + 1) (quote (some key) ++ (middle ++ ':' :: cs)) =
      some ([(some key, value)], rest) := by
  rw [quote_append, scanMembers, skipSpace_cons rfl]
  simp only [scanString_quote, skipSpace_gap hmiddle (c := ':') rfl, hvalue,
    skipSpace_gap h (c := '\x7d') rfl]
  simp [ofScanned]

theorem scanMembers_more {middle : List Char} (hmiddle : Spaces middle) (h : Spaces gap) {fuel : Nat}
    {cs rest : List Char} {key : String} {value : Json}
    (hvalue : scanValue fuel cs = some (value, gap ++ ',' :: rest)) :
    scanMembers (fuel + 1) (quote (some key) ++ (middle ++ ':' :: cs)) =
      (scanMembers fuel rest).map fun (members, rest) => ((some key, value) :: members, rest) := by
  rw [quote_append, scanMembers, skipSpace_cons rfl]
  simp only [scanString_quote, skipSpace_gap hmiddle (c := ':') rfl, hvalue,
    skipSpace_gap h (c := ',') rfl]
  simp [ofScanned]

/-! ### Whole values -/

-- Two units of fuel for every character: one for the value, one for the list that it stands in.

mutual

/-- A value is scanned back from each of its texts. -/
theorem scanValue_written : ∀ (fuel : Nat) {j : Json} {cs rest : List Char}, Written j cs →
    Apart rest → 2 * cs.length ≤ fuel → scanValue fuel (cs ++ rest) = some (j, rest)
  | 0, j, cs, rest, h, _, hfuel => by
    obtain ⟨c, cs, rfl, -⟩ := h.head
    rw [List.length_cons] at hfuel
    omega
  | fuel + 1, j, cs, rest, h, hrest, hfuel => by
    cases h with
    | null =>
      rw [scanValue]
      rfl
    | bool b =>
      rw [scanValue]
      cases b <;> rfl
    | @number n hn =>
      have h := scanNumber_append hn hrest
      obtain ⟨c, cs, htext, hc⟩ := text_head (n := n) true
      rw [htext, List.cons_append] at h ⊢
      rw [scanValue_number hc, h]
    | string s => exact scanValue_string fuel s rest
    | empty hgap =>
      rw [List.cons_append, List.append_assoc]
      exact scanValue_empty hgap fuel rest
    | @array items cs gap hitems hgap =>
      simp only [List.length_cons, List.length_append] at hfuel
      have h := scanItems_written fuel rest hitems hgap (by omega)
      obtain ⟨before, c, first, hbefore, rfl, hspace, hclose⟩ := hitems.head
      simp only [List.cons_append, List.append_assoc, List.nil_append] at h ⊢
      rw [scanValue_array hbefore hspace hclose, h]
      rfl
    | bare hgap =>
      rw [List.cons_append, List.append_assoc]
      exact scanValue_bare hgap fuel rest
    | @object members cs gap hmembers hgap =>
      simp only [List.length_cons, List.length_append] at hfuel
      have h := scanMembers_written fuel rest hmembers hgap (by omega)
      obtain ⟨before, first, hbefore, rfl⟩ := hmembers.head
      simp only [List.cons_append, List.append_assoc, List.nil_append] at h ⊢
      rw [scanValue_object hbefore, h]
      rfl

theorem scanItems_written : ∀ (fuel : Nat) (rest : List Char) {items : List Json} {cs gap : List Char},
    WrittenItems items cs → Spaces gap → 2 * cs.length + 1 ≤ fuel →
      scanItems fuel (cs ++ (gap ++ ']' :: rest)) = some (items, rest)
  | fuel + 1, rest, items, cs, gap, h, hgap, hfuel => by
    cases h with
    | @last item before cs hbefore hitem =>
      rw [List.length_append] at hfuel
      rw [List.append_assoc, scanItems_gap hbefore]
      exact scanItems_last hgap (scanValue_written fuel hitem
        (apart_gap hgap (apart_cons rfl (by decide) (by decide) (by decide) rest)) (by omega))
    | @more item items before cs after behind hbefore hitem hafter hitems =>
      simp only [List.length_append, List.length_cons] at hfuel
      have h := scanItems_written fuel rest hitems hgap (by omega)
      have hvalue := scanValue_written fuel hitem (apart_gap hafter (apart_cons rfl (by decide)
        (by decide) (by decide) (c := ',') (behind ++ (gap ++ ']' :: rest)))) (by omega)
      simp only [List.append_assoc, List.cons_append]
      rw [scanItems_gap hbefore, scanItems_more hafter hvalue, h]
      rfl

theorem scanMembers_written : ∀ (fuel : Nat) (rest : List Char)
    {members : List (Option String × Json)} {cs gap : List Char}, WrittenMembers members cs →
      Spaces gap → 2 * cs.length + 1 ≤ fuel →
      scanMembers fuel (cs ++ (gap ++ '\x7d' :: rest)) = some (members, rest)
  | fuel + 1, rest, members, cs, gap, h, hgap, hfuel => by
    cases h with
    | @last key value before middle front cs hbefore hmiddle hfront hvalue =>
      simp only [List.length_append, List.length_cons] at hfuel
      have hscan := scanValue_written fuel hvalue (apart_gap hgap (apart_cons rfl (by decide)
        (by decide) (by decide) (c := '\x7d') rest)) (by omega)
      rw [← scanValue_gap hfront] at hscan
      simp only [List.append_assoc, List.cons_append]
      rw [scanMembers_gap hbefore, scanMembers_last hmiddle hgap hscan]
    | @more key value members before middle front cs after behind hbefore hmiddle hfront hvalue hafter
        hmembers =>
      simp only [List.length_append, List.length_cons] at hfuel
      have h := scanMembers_written fuel rest hmembers hgap (by omega)
      have hscan := scanValue_written fuel hvalue (apart_gap hafter (apart_cons rfl (by decide)
        (by decide) (by decide) (c := ',') (behind ++ (gap ++ '\x7d' :: rest)))) (by omega)
      rw [← scanValue_gap hfront] at hscan
      simp only [List.append_assoc, List.cons_append]
      rw [scanMembers_gap hbefore, scanMembers_more hmiddle hafter hscan, h]
      rfl

end

/-- A text of a value, with white space around it, is read as that value. -/
theorem parse?_written {j : Json} {before cs after : List Char} (hbefore : Spaces before)
    (h : Written j cs) (hafter : Spaces after) :
    parse? (String.ofList (before ++ cs ++ after)) = some j := by
  have hend : Apart [] := nofun
  have hscan := scanValue_written (2 * (before ++ cs ++ after).length + 2) h
    (apart_gap hafter hend) (by simp only [List.length_append]; omega)
  rw [← scanValue_gap hbefore, List.append_nil, ← List.append_assoc] at hscan
  unfold parse?
  rw [String.toList_ofList, hscan]
  have hblank : skipSpace after = [] := by
    rw [← List.append_nil after, skipSpace_append hafter]
    rfl
  exact if_pos hblank

/-! ### Printers -/

mutual

/-- What is printed on one line is a text of the value. -/
theorem compact_written : ∀ {j : Json}, Formed j → Written j j.compact
  | _, .null => .null
  | _, .bool b => .bool b
  | _, .number hn => .number hn
  | _, .string s => .string s
  | .array [], _ => .empty spaces_nil
  | .array (item :: items), .array hitems => by
    have h := Written.array (compactItems_written (List.cons_ne_nil item items) hitems) spaces_nil
    rwa [List.append_nil] at h
  | .object [], _ => .bare spaces_nil
  | .object (m :: members), .object hkeys hvalues => by
    have h := Written.object (compactMembers_written (List.cons_ne_nil m members) hkeys hvalues)
      spaces_nil
    rwa [List.append_nil] at h

theorem compactItems_written : ∀ {items : List Json}, items ≠ [] → (∀ item ∈ items, Formed item) →
    WrittenItems items (compactItems items)
  | [], hne, _ => absurd rfl hne
  | [item], _, hitems => .last spaces_nil (compact_written (hitems item List.mem_cons_self))
  | item :: next :: items, _, hitems => by
    obtain ⟨hitem, hitems⟩ := List.forall_mem_cons.1 hitems
    have h := WrittenItems.more spaces_nil (compact_written hitem) spaces_nil
      (compactItems_written (List.cons_ne_nil next items) hitems)
    rwa [List.append_nil, List.nil_append] at h

theorem compactMembers_written : ∀ {members : List (Option String × Json)}, members ≠ [] →
    (∀ m ∈ members, m.1 ≠ none) → (∀ m ∈ members, Formed m.2) →
    WrittenMembers members (compactMembers members)
  | [], hne, _, _ => absurd rfl hne
  | (none, _) :: _, _, hkeys, _ => absurd rfl (hkeys _ List.mem_cons_self)
  | [(some key, value)], _, _, hvalues => by
    have h := WrittenMembers.last key spaces_nil spaces_nil spaces_nil
      (compact_written (hvalues (some key, value) List.mem_cons_self))
    rwa [List.append_nil, List.nil_append, List.nil_append] at h
  | (some key, value) :: next :: members, _, hkeys, hvalues => by
    obtain ⟨hvalue, hvalues⟩ := List.forall_mem_cons.1 hvalues
    have h := WrittenMembers.more key spaces_nil spaces_nil spaces_nil
      (compact_written hvalue) spaces_nil (compactMembers_written (List.cons_ne_nil next members)
        (List.forall_mem_cons.1 hkeys).2 hvalues)
    simpa [compactMembers] using h

end

theorem spaces_blank : Spaces [' '] := List.forall_mem_singleton.2 rfl

theorem spaces_newLine (depth : Nat) : Spaces (newLine depth) := by
  intro c hc
  rcases List.mem_cons.1 hc with rfl | hc
  · rfl
  · rw [List.eq_of_mem_replicate hc]
    rfl

mutual

/-- What is printed indented is a text of the value. -/
theorem prettyAt_written : ∀ {j : Json}, Formed j → ∀ depth, Written j (j.prettyAt depth)
  | _, .null, _ => .null
  | _, .bool b, _ => .bool b
  | _, .number hn, _ => .number hn
  | _, .string s, _ => .string s
  | .array [], _, _ => .empty spaces_nil
  | .array (item :: items), .array hitems, depth =>
    .array (prettyItems_written (List.cons_ne_nil item items) hitems (depth + 1))
      (spaces_newLine depth)
  | .object [], _, _ => .bare spaces_nil
  | .object (m :: members), .object hkeys hvalues, depth =>
    .object (prettyMembers_written (List.cons_ne_nil m members) hkeys hvalues (depth + 1))
      (spaces_newLine depth)

theorem prettyItems_written : ∀ {items : List Json}, items ≠ [] → (∀ item ∈ items, Formed item) →
    ∀ depth, WrittenItems items (prettyItems depth items)
  | [], hne, _, _ => absurd rfl hne
  | [item], _, hitems, depth =>
    .last (spaces_newLine depth) (prettyAt_written (hitems item List.mem_cons_self) depth)
  | item :: next :: items, _, hitems, depth => by
    obtain ⟨hitem, hitems⟩ := List.forall_mem_cons.1 hitems
    have h := WrittenItems.more (spaces_newLine depth) (prettyAt_written hitem depth) spaces_nil
      (prettyItems_written (List.cons_ne_nil next items) hitems depth)
    rwa [List.append_nil] at h

theorem prettyMembers_written : ∀ {members : List (Option String × Json)}, members ≠ [] →
    (∀ m ∈ members, m.1 ≠ none) → (∀ m ∈ members, Formed m.2) →
    ∀ depth, WrittenMembers members (prettyMembers depth members)
  | [], hne, _, _, _ => absurd rfl hne
  | (none, _) :: _, _, hkeys, _, _ => absurd rfl (hkeys _ List.mem_cons_self)
  | [(some key, value)], _, _, hvalues, depth => by
    have h := WrittenMembers.last key (spaces_newLine depth) spaces_nil spaces_blank
      (prettyAt_written (hvalues (some key, value) List.mem_cons_self) depth)
    rwa [List.append_nil] at h
  | (some key, value) :: next :: members, _, hkeys, hvalues, depth => by
    obtain ⟨hvalue, hvalues⟩ := List.forall_mem_cons.1 hvalues
    have h := WrittenMembers.more key (spaces_newLine depth) spaces_nil spaces_blank
      (prettyAt_written hvalue depth) spaces_nil
      (prettyMembers_written (List.cons_ne_nil next members) (List.forall_mem_cons.1 hkeys).2 hvalues
        depth)
    simpa [prettyMembers] using h

end

/-- The one-line text of a value is read back as that value. -/
theorem parse?_line {j : Json} (hj : Formed j) : parse? j.line = some j := by
  have h := parse?_written spaces_nil (compact_written hj) spaces_nil
  rwa [List.append_nil, List.nil_append] at h

/-- The indented text of a value is read back as that value. -/
theorem parse?_pretty {j : Json} (hj : Formed j) : parse? j.pretty = some j := by
  have h := parse?_written spaces_nil (prettyAt_written hj 0) spaces_nil
  rwa [List.append_nil, List.nil_append] at h

end Json

end Inversion

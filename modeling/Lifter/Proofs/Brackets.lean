import Mathlib.Data.List.Basic
import Mathlib.Logic.ExistsUnique

/-!
# Bracketed lines

Three lines delimit a conditional: one opens it, one divides its branches and one closes it. For the
layout of a page only the number of leading tabs of a line matters and whether it is one of these,
which is the **mark** of the line.

* `Mark.ofLine`: the mark of a line, read from its text alone.
* `Block`: pages put together from statements and conditionals.
* `Delimiters.Fits`, `Nested`: what a conditional looks like on a page, and a page on which every
  line stands as deep as its text is nested.
* **`Block.bracketed`**: on a page put together so, every delimiter belongs to exactly one
  conditional, and every line stands at its depth.
-/

namespace Lifter

/-! ## Marks -/

/-- What a line is. -/
inductive LineKind where
  | statement
  | opener
  | divider
  | closer
  deriving DecidableEq

/-- What a line is, from its text after the leading tabs. -/
def LineKind.ofBare (bare : List Char) : LineKind :=
  if bare = "\x7d".toList then .closer
  else if bare = "\x7d else \x7b".toList then .divider
  else if "if (".toList.isPrefixOf bare && ") \x7b".toList.isSuffixOf bare then .opener
  else .statement

/-- What matters of a line for the layout. -/
structure Mark where
  kind : LineKind
  /-- The number of leading tabs. -/
  tabs : Nat
  deriving DecidableEq

namespace Mark

/-- The mark of a line. -/
def ofLine (line : String) : Mark where
  kind := .ofBare (line.toList.dropWhile (· == '\t'))
  tabs := (line.toList.takeWhile (· == '\t')).length

/-- The same line, one level deeper. -/
def deeper (m : Mark) : Mark := { m with tabs := m.tabs + 1 }

@[simp] theorem ofLine_tab (line : String) : ofLine ("\t" ++ line) = (ofLine line).deeper := by
  simp [ofLine, deeper, String.toList_append]

/-- A first character that starts no delimiter and is no tab makes a statement. -/
theorem ofLine_statement {line : String} {c : Char} (h : line.toList.head? = some c)
    (hc : c ≠ '\t' ∧ c ≠ 'i' ∧ c ≠ '\x7d') : ofLine line = ⟨.statement, 0⟩ := by
  obtain ⟨htab, hi, hbrace⟩ := hc
  obtain ⟨text, hline⟩ := List.head?_eq_some_iff.mp h
  simp [ofLine, hline, htab, LineKind.ofBare, hbrace, Ne.symm hi]

theorem ofLine_opener (test : String) : ofLine ("if (" ++ test ++ ") \x7b") = ⟨.opener, 0⟩ := by
  have hsuffix : [')', ' ', '\x7b'] <:+
      'i' :: 'f' :: ' ' :: '(' :: (test.toList ++ [')', ' ', '\x7b']) :=
    List.suffix_append ('i' :: 'f' :: ' ' :: '(' :: test.toList) _
  simp [ofLine, LineKind.ofBare, String.toList_append, hsuffix]

theorem ofLine_divider : ofLine "\x7d else \x7b" = ⟨.divider, 0⟩ := by decide

theorem ofLine_closer : ofLine "\x7d" = ⟨.closer, 0⟩ := by decide

end Mark

/-! ## Pages -/

/-- The three lines of a conditional: their positions and how deep they stand. -/
structure Delimiters where
  tabs : Nat
  opener : Nat
  divider : Nat
  closer : Nat

namespace Delimiters

/-- Where the lines stand. -/
def positions (t : Delimiters) : List Nat := [t.opener, t.divider, t.closer]

/-- The three lines are on a page in this order, and what is between them stands deeper. -/
structure Fits (t : Delimiters) (marks : List Mark) : Prop where
  opener : marks[t.opener]? = some ⟨.opener, t.tabs⟩
  divider : marks[t.divider]? = some ⟨.divider, t.tabs⟩
  closer : marks[t.closer]? = some ⟨.closer, t.tabs⟩
  opener_lt : t.opener < t.divider
  divider_lt : t.divider < t.closer
  deeper : ∀ {n m}, t.opener < n → n < t.closer → n ≠ t.divider → marks[n]? = some m →
    t.tabs < m.tabs

/-- The same lines further down. -/
def shift (t : Delimiters) (k : Nat) : Delimiters :=
  ⟨t.tabs, t.opener + k, t.divider + k, t.closer + k⟩

end Delimiters

/-- Every line of a page stands as deep as the conditionals that are open there, of which there are
none at the end; the second and the third line of a conditional stand as deep as its first. -/
def Nested : (depth : Nat) → List Mark → Prop
  | depth, [] => depth = 0
  | depth, ⟨.statement, tabs⟩ :: rest => tabs = depth ∧ Nested depth rest
  | depth, ⟨.opener, tabs⟩ :: rest => tabs = depth ∧ Nested (depth + 1) rest
  | depth, ⟨.divider, tabs⟩ :: rest => tabs + 1 = depth ∧ Nested depth rest
  | depth, ⟨.closer, tabs⟩ :: rest => tabs + 1 = depth ∧ Nested (depth - 1) rest

/-- Every line stands at its depth, and every delimiter belongs to exactly one conditional. -/
structure Bracketed (marks : List Mark) : Prop where
  nested : Nested 0 marks
  matched : ∀ {n m}, marks[n]? = some m → m.kind ≠ .statement →
    ∃! t : Delimiters, t.Fits marks ∧ n ∈ t.positions

/-- Pages put together from statements and conditionals at a given depth. -/
inductive Block : (depth : Nat) → List Mark → Prop
  | nil {d : Nat} : Block d []
  | statement {d : Nat} {rest : List Mark} : Block d rest → Block d (⟨.statement, d⟩ :: rest)
  | conditional {d : Nat} {consequent alternate rest : List Mark} :
    Block (d + 1) consequent → Block (d + 1) alternate → Block d rest →
      Block d (⟨.opener, d⟩ :: (consequent ++ ⟨.divider, d⟩ :: (alternate ++ ⟨.closer, d⟩ :: rest)))

/-! ## One conditional for each delimiter -/

namespace Delimiters

variable {t t' : Delimiters} {marks : List Mark} {n : Nat}

theorem mem_positions : n ∈ t.positions ↔ n = t.opener ∨ n = t.divider ∨ n = t.closer := by
  simp [positions]

theorem mem_positions_shift {k : Nat} (h : n ∈ t.positions) : n + k ∈ (t.shift k).positions := by
  simp only [mem_positions, shift] at h ⊢
  omega

theorem getElem?_middle {before after : List Mark} (h : n < marks.length) :
    (before ++ (marks ++ after))[n + before.length]? = marks[n]? := by
  rw [List.getElem?_append_right (by omega), Nat.add_sub_cancel, List.getElem?_append_left h]

/-- What is on a part of a page is on the page. -/
theorem Fits.shift (h : t.Fits marks) (before after : List Mark) :
    (t.shift before.length).Fits (before ++ (marks ++ after)) := by
  have hlt := h.opener_lt
  have hlt' := h.divider_lt
  obtain ⟨hcloser, -⟩ := List.getElem?_eq_some_iff.mp h.closer
  refine ⟨?_, ?_, ?_, ?_, ?_, fun {n m} hn hn' hne hm => ?_⟩
  · exact (getElem?_middle (by omega)).trans h.opener
  · exact (getElem?_middle (by omega)).trans h.divider
  · exact (getElem?_middle hcloser).trans h.closer
  · exact Nat.add_lt_add_right h.opener_lt _
  · exact Nat.add_lt_add_right h.divider_lt _
  · simp only [Delimiters.shift] at hn hn' hne
    obtain ⟨n, rfl⟩ := Nat.exists_eq_add_of_le' (show before.length ≤ n by omega)
    rw [getElem?_middle (by omega)] at hm
    exact h.deeper (by omega) (by omega) (by omega) hm

theorem Fits.exists_mark (h : t.Fits marks) (hn : n ∈ t.positions) :
    ∃ m, marks[n]? = some m ∧ m.tabs = t.tabs := by
  rcases mem_positions.mp hn with rfl | rfl | rfl
  exacts [⟨_, h.opener, rfl⟩, ⟨_, h.divider, rfl⟩, ⟨_, h.closer, rfl⟩]

/-- The lines of equally deep conditionals do not stand inside each other. -/
theorem Fits.not_inside (h : t.Fits marks) (h' : t'.Fits marks) (htabs : t.tabs = t'.tabs)
    (hn : n ∈ t'.positions) : n ≤ t.opener ∨ n = t.divider ∨ t.closer ≤ n := by
  obtain ⟨m, hm, hsame⟩ := h'.exists_mark hn
  by_contra hin
  have hdeeper := h.deeper (by omega) (by omega) (by omega) hm
  omega

/-- A line belongs to one conditional at most. -/
theorem Fits.unique (h : t.Fits marks) (h' : t'.Fits marks) (hn : n ∈ t.positions)
    (hn' : n ∈ t'.positions) : t = t' := by
  have htabs : t.tabs = t'.tabs := by
    obtain ⟨m, hm, htabs⟩ := h.exists_mark hn
    obtain ⟨m', hm', htabs'⟩ := h'.exists_mark hn'
    rw [hm] at hm'
    cases hm'
    exact htabs.symm.trans htabs'
  -- the kind of the common line says which of the three it is
  have hcommon : t.opener = t'.opener ∨ t.divider = t'.divider ∨ t.closer = t'.closer := by
    rcases mem_positions.mp hn with rfl | rfl | rfl <;>
      rcases mem_positions.mp hn' with he | he | he <;>
      grind [Fits]
  have hin : ∀ n ∈ t'.positions, n ≤ t.opener ∨ n = t.divider ∨ t.closer ≤ n :=
    fun n => h.not_inside h' htabs
  have hin' : ∀ n ∈ t.positions, n ≤ t'.opener ∨ n = t'.divider ∨ t'.closer ≤ n :=
    fun n => h'.not_inside h htabs.symm
  obtain ⟨-, -, -, hlt₁, hlt₂, -⟩ := h
  obtain ⟨-, -, -, hlt₁', hlt₂', -⟩ := h'
  obtain ⟨tabs, opener, divider, closer⟩ := t
  obtain ⟨tabs', opener', divider', closer'⟩ := t'
  simp only [positions, List.forall_mem_cons] at hin hin'
  simp only [mk.injEq] at *
  omega

end Delimiters

/-! ## Reading a block -/

namespace Block

variable {d : Nat} {marks rest : List Mark}

theorem le_tabs (h : Block d marks) {m : Mark} (hm : m ∈ marks) : d ≤ m.tabs := by
  induction h with
  | nil => simp at hm
  | statement _ ih =>
    rcases List.mem_cons.mp hm with rfl | hm
    · exact Nat.le_refl _
    · exact ih hm
  | conditional _ _ _ ihc iha ih =>
    simp only [List.mem_cons, List.mem_append] at hm
    rcases hm with rfl | hm | rfl | hm | rfl | hm
    · exact Nat.le_refl _
    · exact Nat.le_of_succ_le (ihc hm)
    · exact Nat.le_refl _
    · exact Nat.le_of_succ_le (iha hm)
    · exact Nat.le_refl _
    · exact ih hm

theorem deeper (h : Block d marks) : Block (d + 1) (marks.map Mark.deeper) := by
  induction h with
  | nil => exact .nil
  | statement _ ih => exact .statement ih
  | conditional _ _ _ ihc iha ih =>
    simp only [List.map_cons, List.map_append]
    exact .conditional ihc iha ih

theorem statements (hmarks : ∀ m ∈ marks, m = ⟨.statement, d⟩) (h : Block d rest) :
    Block d (marks ++ rest) := by
  induction marks with
  | nil => exact h
  | cons m marks ih =>
    obtain ⟨hm, hrest⟩ := List.forall_mem_cons.mp hmarks
    exact hm ▸ .statement (ih hrest)

theorem nested_append (h : Block d marks) (hrest : Nested d rest) : Nested d (marks ++ rest) := by
  induction h generalizing rest with
  | nil => exact hrest
  | statement _ ih => exact ⟨rfl, ih hrest⟩
  | conditional _ _ _ ihc iha ih =>
    simp only [List.cons_append, List.append_assoc]
    refine ⟨rfl, ihc ⟨rfl, iha ⟨rfl, ?_⟩⟩⟩
    exact ih hrest

theorem getElem?_append_cons_cases {xs ys : List Mark} {y m : Mark} {n : Nat}
    (h : (xs ++ y :: ys)[n]? = some m) :
    xs[n]? = some m ∨ (n = xs.length ∧ m = y) ∨ ∃ k, n = k + (xs.length + 1) ∧ ys[k]? = some m := by
  rcases Nat.lt_trichotomy n xs.length with hlt | rfl | hgt
  · exact .inl ((List.getElem?_append_left hlt).symm.trans h)
  · exact .inr (.inl ⟨rfl, by simpa using h.symm⟩)
  · obtain ⟨k, rfl⟩ := Nat.exists_eq_add_of_le' hgt
    refine .inr (.inr ⟨k, rfl, ?_⟩)
    rw [List.getElem?_append_right (by omega), show k + (xs.length + 1) - xs.length = k + 1 by omega]
      at h
    exact h

/-- The lines of a conditional that is put on a page. -/
theorem fits_conditional {consequent alternate : List Mark} (hc : Block (d + 1) consequent)
    (ha : Block (d + 1) alternate) (rest : List Mark) :
    Delimiters.Fits ⟨d, 0, consequent.length + 1, consequent.length + alternate.length + 2⟩
      (⟨.opener, d⟩ :: (consequent ++ ⟨.divider, d⟩ :: (alternate ++ ⟨.closer, d⟩ :: rest))) where
  opener := rfl
  divider := by simp
  closer := by
    rw [List.getElem?_cons_succ, List.getElem?_append_right (by omega),
      show consequent.length + alternate.length + 1 - consequent.length = alternate.length + 1 by
        omega]
    simp
  opener_lt := Nat.succ_pos _
  divider_lt := by dsimp only; omega
  deeper {n m} hpos hlt hne hm := by
    dsimp only at hpos hlt hne ⊢
    obtain ⟨n, rfl⟩ := Nat.exists_eq_add_of_le' hpos
    rw [List.getElem?_cons_succ] at hm
    rcases getElem?_append_cons_cases hm with hin | ⟨rfl, -⟩ | ⟨k, rfl, hin⟩
    · exact hc.le_tabs (List.mem_of_getElem? hin)
    · exact absurd rfl hne
    · rw [List.getElem?_append_left (by omega)] at hin
      exact ha.le_tabs (List.mem_of_getElem? hin)

theorem exists_fits (h : Block d marks) {n : Nat} {m : Mark} (hm : marks[n]? = some m)
    (hkind : m.kind ≠ .statement) : ∃ t : Delimiters, t.Fits marks ∧ n ∈ t.positions := by
  induction h generalizing n with
  | nil => simp at hm
  | @statement d rest _ ih =>
    cases n with
    | zero => cases hm; exact absurd rfl hkind
    | succ n =>
      obtain ⟨t, ht, hn⟩ := ih hm
      have hshift := ht.shift [⟨.statement, d⟩] []
      rw [List.append_nil] at hshift
      exact ⟨_, hshift, Delimiters.mem_positions_shift hn⟩
  | @conditional d c a rest hc ha _ ihc iha ih =>
    have houter := fits_conditional hc ha rest
    cases n with
    | zero => exact ⟨_, houter, by simp [Delimiters.positions]⟩
    | succ n =>
      rcases getElem?_append_cons_cases hm with hin | ⟨rfl, -⟩ | ⟨k, rfl, hin⟩
      · obtain ⟨t, ht, hn⟩ := ihc hin
        exact ⟨_, ht.shift [⟨.opener, d⟩] _, Delimiters.mem_positions_shift hn⟩
      · exact ⟨_, houter, by simp [Delimiters.positions]⟩
      rcases getElem?_append_cons_cases hin with hin' | ⟨rfl, -⟩ | ⟨l, rfl, hin'⟩
      · obtain ⟨t, ht, hn⟩ := iha hin'
        have hshift := ht.shift (⟨.opener, d⟩ :: (c ++ [⟨.divider, d⟩])) (⟨.closer, d⟩ :: rest)
        have hmem := Delimiters.mem_positions_shift (k := c.length + 2) hn
        exact ⟨t.shift (c.length + 2), by simpa using hshift, hmem⟩
      · refine ⟨_, houter, Delimiters.mem_positions.mpr ?_⟩
        dsimp only
        omega
      · obtain ⟨t, ht, hn⟩ := ih hin'
        have hshift := ht.shift (⟨.opener, d⟩ :: (c ++ ⟨.divider, d⟩ :: (a ++ [⟨.closer, d⟩]))) []
        have hmem := Delimiters.mem_positions_shift (k := c.length + a.length + 3) hn
        refine ⟨t.shift (c.length + a.length + 3), ?_, ?_⟩
        · simpa [Nat.add_assoc] using hshift
        · convert hmem using 1
          omega

/-- **A page put together from statements and conditionals is bracketed.** -/
theorem bracketed (h : Block 0 marks) : Bracketed marks where
  nested := by
    have hend : Nested 0 [] := rfl
    simpa using h.nested_append hend
  matched hm hkind := by
    obtain ⟨t, ht, hn⟩ := h.exists_fits hm hkind
    exact ⟨t, ⟨ht, hn⟩, fun t' ht' => ht'.1.unique ht ht'.2 hn⟩

end Block

end Lifter

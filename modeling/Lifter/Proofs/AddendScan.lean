import Lifter.Secret
import Lifter.StatementTree

/-!
# Scanning for addends

The search for a secret runs over characters and knows nothing of statements. Yet it can be followed
piece by piece: most pieces of pseudocode leave it outside literals and give it nothing, whatever
comes after them. Only a plus sign looks ahead, at the digits after it.

* `scan`: the codes found in a text, with `scan_cons`, `scan_plus` and `scan_literal` for its first
  characters.
* `LiteralBody`, `literalBody_escape`: bodies of literals, as escaping makes them.
* `Reads`: a text gives certain codes, whatever follows; `Reads.append`, `reads_literal`,
  **`reads_plus_numeral`**.
* `ReadLines`: lines give certain codes, however far they are indented;
  **`scan_functionText`**.
-/

namespace Lifter

/-! ## The first characters of a text -/

/-- The codes that are found in a text. -/
def scan (text : List Char) : List Nat := (outsideLiterals text).flatMap addends

theorem recoverSecret_eq_scan (pseudocode : String) :
    recoverSecret pseudocode =
      String.ofList ((scan pseudocode.toList).filterMap Text.charOfCode?) :=
  rfl

/-- The part of a text before its first literal is what any characters read before are put in front
of. It has all the digits that the text starts with. -/
theorem exists_segment (text : List Char) : ∃ segment others,
    (∀ current, outsideFrom .outside current text = (current.reverse ++ segment) :: others) ∧
      segment.takeWhile Char.isDigit = text.takeWhile Char.isDigit := by
  induction text with
  | nil => exact ⟨[], [], fun current => by simp [outsideFrom], rfl⟩
  | cons c rest ih =>
    by_cases hc : c = '"'
    · subst hc
      exact ⟨[], outsideFrom .inside [] rest, fun current => by simp [outsideFrom], by simp⟩
    · obtain ⟨segment, others, hsplit, hdigits⟩ := ih
      refine ⟨c :: segment, others, fun current => ?_, ?_⟩
      · rw [outsideFrom, if_neg hc, hsplit]
        simp
      · rw [List.takeWhile_cons, List.takeWhile_cons, hdigits]

variable {c : Char} {rest : List Char}

/-- Most characters are passed over. -/
theorem scan_cons (hquote : c ≠ '"') (hplus : c ≠ '+') : scan (c :: rest) = scan rest := by
  obtain ⟨segment, others, hsplit, -⟩ := exists_segment rest
  have haddends : addends (c :: segment) = addends segment :=
    addends.eq_3 c segment fun _ hc _ => hplus hc
  simp only [scan, outsideLiterals, outsideFrom, if_neg hquote, hsplit, List.reverse_cons,
    List.reverse_nil, List.nil_append, List.cons_append, List.flatMap_cons, haddends]

theorem leadingNumber?_congr {s t : List Char}
    (h : s.takeWhile Char.isDigit = t.takeWhile Char.isDigit) :
    leadingNumber? s = leadingNumber? t := by
  simp only [leadingNumber?, Text.spanDigits, h]

/-- A plus sign and a space give the number that follows, if there is one. -/
theorem scan_plus : scan ('+' :: ' ' :: rest) = (leadingNumber? rest).toList ++ scan rest := by
  obtain ⟨segment, others, hsplit, hdigits⟩ := exists_segment rest
  have haddends : addends ('+' :: ' ' :: segment) =
      (leadingNumber? rest).toList ++ addends segment := by
    rw [addends, leadingNumber?_congr hdigits]
    cases leadingNumber? rest <;> rfl
  simp only [scan, outsideLiterals, outsideFrom, Char.reduceEq, if_false, hsplit, List.reverse_cons,
    List.reverse_nil, List.nil_append, List.cons_append, List.flatMap_cons, haddends,
    List.append_assoc]

/-! ## Literals -/

/-- Bodies of literals on one line: plain characters, and backslashes with a character each. -/
inductive LiteralBody : List Char → Prop
  | nil : LiteralBody []
  | plain {c : Char} {body : List Char} : c ≠ '\\' → c ≠ '"' → c ≠ '\n' → LiteralBody body →
      LiteralBody (c :: body)
  | escape {c : Char} {body : List Char} : c ≠ '\n' → LiteralBody body →
      LiteralBody ('\\' :: c :: body)

theorem LiteralBody.append {body body' : List Char} (h : LiteralBody body)
    (h' : LiteralBody body') : LiteralBody (body ++ body') := by
  induction h with
  | nil => exact h'
  | plain hbackslash hquote hnewline _ ih => exact .plain hbackslash hquote hnewline ih
  | escape hnewline _ ih => exact .escape hnewline ih

/-- The body of a literal leaves a scan inside. -/
theorem LiteralBody.outsideFrom_append {body : List Char} (h : LiteralBody body) :
    outsideFrom .inside [] (body ++ rest) = outsideFrom .inside [] rest := by
  induction h with
  | nil => rfl
  | plain hbackslash hquote _ _ ih =>
    simp only [List.cons_append, outsideFrom, if_neg hbackslash, if_neg hquote]
    exact ih
  | escape _ _ ih =>
    simp only [List.cons_append, outsideFrom, if_true]
    exact ih

theorem digitChar_ne : ∀ d < 16,
    Nat.digitChar d ≠ '\\' ∧ Nat.digitChar d ≠ '"' ∧ Nat.digitChar d ≠ '\n' := by
  decide

theorem literalBody_twoHexDigits {n : Nat} (h : n < 256) : LiteralBody (Text.twoHexDigits n) := by
  obtain ⟨hhigh₁, hhigh₂, hhigh₃⟩ := digitChar_ne (n / 16) (by omega)
  obtain ⟨hlow₁, hlow₂, hlow₃⟩ := digitChar_ne (n % 16) (by omega)
  exact .plain hhigh₁ hhigh₂ hhigh₃ (.plain hlow₁ hlow₂ hlow₃ .nil)

/-- A character in the body of a literal is written as it is, or as a backslash, another character
and perhaps digits. -/
theorem literalBody_escapeChar (c : Char) : LiteralBody (Text.escapeChar c) := by
  unfold Text.escapeChar
  split
  · exact .escape (by decide) .nil
  split
  · exact .escape (by decide) .nil
  rename_i hbackslash hquote
  split
  · exact .escape (by decide) .nil
  rename_i hnewline
  iterate 2
    split
    · exact .escape (by decide) .nil
  split
  · rename_i hcontrol
    refine .escape (by decide) (literalBody_twoHexDigits ?_)
    simp only [Bool.or_eq_true, decide_eq_true_eq, beq_iff_eq] at hcontrol
    omega
  · exact .plain (by simpa using hbackslash) (by simpa using hquote) (by simpa using hnewline) .nil

theorem literalBody_escape (text : List Char) : LiteralBody (text.flatMap Text.escapeChar) := by
  induction text with
  | nil => exact .nil
  | cons c text ih =>
    rw [List.flatMap_cons]
    exact (literalBody_escapeChar c).append ih

/-- **A literal gives nothing**, whatever text it stands for. -/
theorem scan_literal (text : String) : scan ((Text.literal text).toList ++ rest) = scan rest := by
  have hlist : (Text.literal text).toList ++ rest =
      '"' :: (text.toList.flatMap Text.escapeChar ++ '"' :: rest) := by
    simp [Text.literal, Text.escape]
  rw [hlist]
  simp only [scan, outsideLiterals, outsideFrom, Char.reduceEq, if_true, if_false,
    (literalBody_escape text.toList).outsideFrom_append, List.reverse_nil, List.flatMap_cons,
    addends, List.nil_append]

/-! ## Pieces of pseudocode -/

/-- A text gives certain codes, whatever follows it. -/
def Reads (text : String) (codes : List Nat) : Prop :=
  ∀ rest, scan (text.toList ++ rest) = codes ++ scan rest

variable {s t : String} {ms ns : List Nat}

theorem Reads.append (hs : Reads s ms) (ht : Reads t ns) : Reads (s ++ t) (ms ++ ns) := by
  intro rest
  rw [String.toList_append, List.append_assoc, hs, ht, List.append_assoc]

/-- A text before which nothing is found. -/
theorem Reads.after (ht : Reads t ns) (hs : Reads s []) : Reads (s ++ t) ns := hs.append ht

/-- A text after which nothing is found. -/
theorem Reads.before (hs : Reads s ms) (ht : Reads t []) : Reads (s ++ t) ms := by
  simpa using hs.append ht

/-- A text with neither quotes nor plus signs. -/
def isPlain (s : String) : Bool := s.toList.all fun c => c != '"' && c != '+'

theorem isPlain_iff : isPlain s = true ↔ ∀ c ∈ s.toList, c ≠ '"' ∧ c ≠ '+' := by
  simp [isPlain]

theorem reads_of_isPlain (h : isPlain s = true) : Reads s [] := by
  intro rest
  replace h := isPlain_iff.mp h
  generalize s.toList = text at h
  induction text with
  | nil => rfl
  | cons c text ih =>
    obtain ⟨hquote, hplus⟩ := h c List.mem_cons_self
    rw [List.cons_append, scan_cons hquote hplus]
    exact ih fun x hx => h x (List.mem_cons_of_mem _ hx)

theorem reads_literal (text : String) : Reads (Text.literal text) [] := fun _ => scan_literal text

theorem reads_decimal (n : Nat) : Reads (Text.decimal n) [] := by
  refine reads_of_isPlain (isPlain_iff.mpr fun c hc => ?_)
  have hdigit := Text.isDigit_of_mem_decimal hc
  constructor <;> rintro rfl <;> revert hdigit <;> decide

theorem reads_signedDecimal (n : Int) : Reads (Text.signedDecimal n) [] := by
  cases n with
  | ofNat n => exact reads_decimal n
  | negSucc n => exact (reads_decimal (n + 1)).after (reads_of_isPlain (by decide))

/-- A text that starts with some character other than a digit. -/
def FirstNonDigit (s : String) : Prop := ∃ c text, s.toList = c :: text ∧ c.isDigit = false

theorem FirstNonDigit.append (h : FirstNonDigit s) (t : String) : FirstNonDigit (s ++ t) := by
  obtain ⟨c, text, hs, hdigit⟩ := h
  exact ⟨c, text ++ t.toList, by simp [hs], hdigit⟩

/-- A plus sign before such a text gives nothing. -/
theorem Reads.plus (ht : Reads t ns) (h : FirstNonDigit t) : Reads ("+ " ++ t) ns := by
  intro rest
  obtain ⟨c, text, htext, hdigit⟩ := h
  have hnone : leadingNumber? (t.toList ++ rest) = none := by
    simp [leadingNumber?, Text.spanDigits, htext, hdigit, Text.readNatural?]
  have hlist : ("+ " ++ t).toList ++ rest = '+' :: ' ' :: (t.toList ++ rest) := by simp
  rw [hlist, scan_plus, hnone, ht]
  rfl

/-- **A plus sign before a numeral** gives its number, if it has one that fits. -/
theorem reads_plus_numeral (n : Int) : Reads ("+ " ++ Text.signedDecimal n ++ ")")
    (leadingNumber? (Text.signedDecimal n).toList).toList := by
  intro rest
  have hlist : ("+ " ++ Text.signedDecimal n ++ ")").toList ++ rest =
      '+' :: ' ' :: ((Text.signedDecimal n).toList ++ ')' :: rest) := by
    simp
  have hnumber : leadingNumber? ((Text.signedDecimal n).toList ++ ')' :: rest) =
      leadingNumber? (Text.signedDecimal n).toList := by
    refine leadingNumber?_congr ?_
    rw [List.takeWhile_append]
    split
    · rename_i hall
      rw [List.takeWhile_cons_of_neg (by decide), List.append_nil]
      exact ((List.takeWhile_sublist _).eq_of_length hall).symm
    · rfl
  rw [hlist, scan_plus, hnumber, reads_signedDecimal, scan_cons (by decide) (by decide)]
  rfl

/-! ## Lines -/

/-- Lines give certain codes, however far they are indented. -/
def ReadLines (lines : List String) (codes : List Nat) : Prop :=
  ∀ margin, Reads margin [] →
    Reads (String.join (lines.map fun line => margin ++ line ++ "\n")) codes

variable {lines lines' : List String}

theorem readLines_nil : ReadLines [] [] := fun _ _ _ => by simp

theorem ReadLines.cons (hs : Reads s ms) (h : ReadLines lines ns) :
    ReadLines (s :: lines) (ms ++ ns) := by
  intro margin hmargin
  rw [List.map_cons, String.join_cons]
  exact ((hs.after hmargin).before (reads_of_isPlain (by decide))).append (h margin hmargin)

theorem ReadLines.append (h : ReadLines lines ms) (h' : ReadLines lines' ns) :
    ReadLines (lines ++ lines') (ms ++ ns) := by
  intro margin hmargin
  rw [List.map_append, String.join_append]
  exact (h margin hmargin).append (h' margin hmargin)

theorem ReadLines.indent (h : ReadLines lines ns) : ReadLines (StatementTree.indent lines) ns := by
  intro margin hmargin
  have hdeeper := h (margin ++ "\t") (hmargin.before (reads_of_isPlain (by decide)))
  simpa only [StatementTree.indent, List.map_map, Function.comp_def, String.append_assoc]
    using hdeeper

theorem ReadLines.conditional {test : String} {ls : List Nat} (htest : Reads test ls)
    (h : ReadLines lines ms) (h' : ReadLines lines' ns) :
    ReadLines (StatementTree.conditionalLines test lines lines') (ls ++ (ms ++ ns)) := by
  have hopen : Reads ("if (" ++ test ++ ") \x7b") ls :=
    (htest.after (reads_of_isPlain (by decide))).before (reads_of_isPlain (by decide))
  have hclose : ReadLines ["\x7d"] [] := .cons (reads_of_isPlain (by decide)) readLines_nil
  have helse : ReadLines ("\x7d else \x7b" :: StatementTree.indent lines' ++ ["\x7d"]) ns := by
    simpa using (ReadLines.cons (reads_of_isPlain (by decide)) h'.indent).append hclose
  have hall := ReadLines.cons hopen (h.indent.append helse)
  simpa [StatementTree.conditionalLines] using hall

/-- **A complete function** gives the codes of its lines. -/
theorem scan_functionText (h : ReadLines lines ns) : scan (functionText lines).toList = ns := by
  have htext : Reads (functionText lines) ns :=
    ((h "\t" (reads_of_isPlain (by decide))).after (reads_of_isPlain (by decide))).before
      (reads_of_isPlain (by decide))
  have hend := htext []
  rwa [List.append_nil, show scan [] = [] from rfl, List.append_nil] at hend

end Lifter

import Mathlib.Data.List.Chain
import Mathlib.Data.List.TakeWhile
import Lifter.Statement
import Lifter.Text.Character

/-!
# What a literal denotes

A literal is written one character at a time, and it is read by a rule that looks ahead: a
character given by code takes all the hexadecimal digits that follow, and does not stop after two.
So a text is read back from its literal exactly if in it no character that is written by code stands
before a hexadecimal digit. Where one does, the digits after it are lost in its code, and fewer
characters are read than were written.

* `readBody?`, `readLiteral?`, `printedText?`: how C reads a literal, and a line that prints one.
* `Text.escapeChar_cases`: the three ways to write a character.
* `readBody?_of_not_coded`, `readBody?_of_coded`: how what was written is read.
* `Unmerged`: no character written by code stands before a hexadecimal digit.
* `Unmerged.readBody?_eq`, `length_of_readBody?`: when a text is read back, and when it is not.
* **`literal_denotes_iff`**: which texts their literals denote.
-/

namespace Lifter

/-! ## Reading -/

/-- Whether a character is a hexadecimal digit, of either case. -/
def isHexDigit (c : Char) : Bool := (Text.hexValue? c).isSome

/-- The character whose code is given by hexadecimal digits. The code has to fit into a byte. -/
def charOfHexadecimal? (digits : List Char) : Option Char :=
  ((Text.readHexadecimal? digits).filter (· < 256)).bind Text.charOfCode?

/-- The character that a backslash and a letter stand for, or a backslash and a mark. -/
def simpleEscape? : Char → Option Char
  | '\\' => some '\\'
  | '"' => some '"'
  | 'n' => some '\n'
  | 't' => some '\t'
  | 'r' => some '\r'
  | _ => none

/-- Read the body of a literal up to the quote that closes it. Gives the text that the body stands
for, and what follows the quote. The code after `\x` is as long as there are hexadecimal digits. -/
def readBody? (source : List Char) : Option (List Char × List Char) :=
  match source with
  | [] => none
  | c :: rest =>
    if c = '"' then some ([], rest)
    else if c = '\n' then none
    else if c = '\\' then
      match rest with
      | [] => none
      | d :: rest =>
        if d = 'x' then
          (charOfHexadecimal? (rest.takeWhile isHexDigit)).bind fun c =>
            (readBody? (rest.dropWhile isHexDigit)).map (Prod.map (c :: ·) id)
        else (simpleEscape? d).bind fun c => (readBody? rest).map (Prod.map (c :: ·) id)
    else (readBody? rest).map (Prod.map (c :: ·) id)
termination_by source.length
decreasing_by
  · have := (List.dropWhile_suffix (l := rest) isHexDigit).length_le
    simp only [List.length_cons]
    omega
  all_goals simp only [List.length_cons]; omega

/-- Read a literal. Gives the text that it stands for, and what follows it. -/
def readLiteral? : List Char → Option (List Char × List Char)
  | '"' :: rest => readBody? rest
  | _ => none

/-- The text that a line `puts("...");` prints. -/
def printedText? (line : List Char) : Option (List Char) :=
  match line with
  | 'p' :: 'u' :: 't' :: 's' :: '(' :: rest =>
    (readLiteral? rest).bind fun (text, rest) => if rest = [')', ';'] then some text else none
  | _ => none

variable {c d : Char} {rest : List Char}

theorem readBody?_quote : readBody? ('"' :: rest) = some ([], rest) := by
  rw [readBody?.eq_def]
  rfl

theorem readBody?_plain (hbackslash : c ≠ '\\') (hquote : c ≠ '"') (hnewline : c ≠ '\n') :
    readBody? (c :: rest) = (readBody? rest).map (Prod.map (c :: ·) id) := by
  rw [readBody?.eq_def]
  simp only [if_neg hquote, if_neg hnewline, if_neg hbackslash]

theorem readBody?_simple (h : simpleEscape? d = some c) :
    readBody? ('\\' :: d :: rest) = (readBody? rest).map (Prod.map (c :: ·) id) := by
  have hx : d ≠ 'x' := by
    rintro rfl
    cases h
  rw [readBody?]
  simp [hx, h]

theorem readBody?_hexadecimal : readBody? ('\\' :: 'x' :: rest) =
    (charOfHexadecimal? (rest.takeWhile isHexDigit)).bind fun c =>
      (readBody? (rest.dropWhile isHexDigit)).map (Prod.map (c :: ·) id) := by
  rw [readBody?]
  simp

/-! ## Digits and codes -/

theorem hexValue?_digitChar : ∀ n < 16, Text.hexValue? (Nat.digitChar n) = some n := by
  decide

theorem toNat_of_isHexDigit (h : isHexDigit c = true) : 0x30 ≤ c.toNat ∧ c.toNat ≤ 0x66 := by
  obtain ⟨n, hn⟩ := Option.isSome_iff_exists.mp h
  unfold Text.hexValue? at hn
  split at hn
  · rename_i hdigit
    have hlow : 0x30 ≤ c.toNat := of_decide_eq_true (Bool.and_eq_true_iff.mp hdigit).1
    have hhigh : c.toNat ≤ 0x39 := of_decide_eq_true (Bool.and_eq_true_iff.mp hdigit).2
    omega
  split at hn
  · rename_i hlower
    have hlow : 0x61 ≤ c.toNat := hlower.1
    have hhigh : c.toNat ≤ 0x66 := hlower.2
    omega
  split at hn
  · rename_i hupper
    have hlow : 0x41 ≤ c.toNat := hupper.1
    have hhigh : c.toNat ≤ 0x46 := hupper.2
    omega
  · cases hn

theorem isHexDigit_digitChar {n : Nat} (h : n < 16) : isHexDigit (Nat.digitChar n) = true := by
  rw [isHexDigit, hexValue?_digitChar n h]
  rfl

theorem all_twoHexDigits {n : Nat} (h : n < 256) :
    ∀ d ∈ Text.twoHexDigits n, isHexDigit d = true := by
  have hhigh : isHexDigit (Nat.digitChar (n / 16)) = true := isHexDigit_digitChar (by omega)
  have hlow : isHexDigit (Nat.digitChar (n % 16)) = true := isHexDigit_digitChar (by omega)
  simp [Text.twoHexDigits, hhigh, hlow]

/-- Two digits are read back if no others follow. -/
theorem charOfHexadecimal?_twoHexDigits (h : c.toNat < 256) :
    charOfHexadecimal? (Text.twoHexDigits c.toNat) = some c := by
  have hread : Text.readHexadecimal? (Text.twoHexDigits c.toNat) = some c.toNat := by
    have hhigh := hexValue?_digitChar (c.toNat / 16) (by omega)
    have hlow := hexValue?_digitChar (c.toNat % 16) (by omega)
    simp [Text.readHexadecimal?, Text.twoHexDigits, hhigh, hlow]
    omega
  simp [charOfHexadecimal?, hread, Option.filter, h]

/-! ## Escapes -/

namespace Text

/-- The controls that have no escape of their own and are written by code. -/
def isCoded (c : Char) : Bool :=
  (c.toNat < 0x20 || c.toNat == 0x7F) && c != '\n' && c != '\t' && c != '\r'

theorem isCoded_iff : isCoded c = true ↔
    (c.toNat < 0x20 ∨ c.toNat = 0x7F) ∧ c ≠ '\n' ∧ c ≠ '\t' ∧ c ≠ '\r' := by
  simp [isCoded, and_assoc]

theorem toNat_lt_of_isCoded (h : isCoded c = true) : c.toNat < 256 := by
  have hcontrol := (isCoded_iff.mp h).1
  omega

/-- **The three ways to write a character**: by code, by an escape of its own, and as it is. -/
theorem escapeChar_cases (c : Char) :
    isCoded c = true ∧ escapeChar c = '\\' :: 'x' :: twoHexDigits c.toNat ∨
    isCoded c = false ∧ (∃ d, escapeChar c = ['\\', d] ∧ simpleEscape? d = some c) ∨
    isCoded c = false ∧ escapeChar c = [c] ∧ c ≠ '\\' ∧ c ≠ '"' ∧ c ≠ '\n' := by
  by_cases hspecial : c ∈ ['\\', '"', '\n', '\t', '\r']
  · refine .inr (.inl ?_)
    simp only [List.mem_cons, List.not_mem_nil, or_false] at hspecial
    rcases hspecial with rfl | rfl | rfl | rfl | rfl
    · exact ⟨rfl, '\\', rfl, rfl⟩
    · exact ⟨rfl, '"', rfl, rfl⟩
    · exact ⟨rfl, 'n', rfl, rfl⟩
    · exact ⟨rfl, 't', rfl, rfl⟩
    · exact ⟨rfl, 'r', rfl, rfl⟩
  · simp only [List.mem_cons, List.not_mem_nil, or_false, not_or] at hspecial
    obtain ⟨hbackslash, hquote, hnewline, htab, hreturn⟩ := hspecial
    by_cases hcontrol : c.toNat < 0x20 ∨ c.toNat = 0x7F
    · exact .inl ⟨isCoded_iff.mpr ⟨hcontrol, hnewline, htab, hreturn⟩, by
        simp [escapeChar, hbackslash, hquote, hnewline, htab, hreturn, hcontrol]⟩
    · have hcoded : isCoded c = false := by
        rw [Bool.eq_false_iff]
        exact fun h => hcontrol (isCoded_iff.mp h).1
      refine .inr (.inr ⟨hcoded, ?_, hbackslash, hquote, hnewline⟩)
      simp [escapeChar, hbackslash, hquote, hnewline, htab, hreturn, hcontrol]

theorem not_isHexDigit_of_isCoded (h : isCoded c = true) : isHexDigit c = false := by
  rw [Bool.eq_false_iff]
  intro hhex
  have hbounds := toNat_of_isHexDigit hhex
  have hcontrol := (isCoded_iff.mp h).1
  omega

theorem not_isHexDigit_of_simpleEscape? (h : simpleEscape? d = some c) : isHexDigit c = false := by
  unfold simpleEscape? at h
  split at h <;> cases h <;> decide

/-- What is written for a character starts with a hexadecimal digit only if the character is one,
and then it is just this digit. -/
theorem exists_escapeChar_eq_cons (c : Char) : ∃ first more, escapeChar c = first :: more ∧
    isHexDigit first = isHexDigit c ∧ (isHexDigit c = true → first = c ∧ more = []) := by
  have hbackslash : isHexDigit '\\' = false := by decide
  rcases escapeChar_cases c with ⟨hcoded, hescape⟩ | ⟨-, d, hescape, hd⟩ | ⟨-, hescape, -⟩
  · have hc := not_isHexDigit_of_isCoded hcoded
    exact ⟨_, _, hescape, by rw [hbackslash, hc], by simp [hc]⟩
  · have hc := not_isHexDigit_of_simpleEscape? hd
    exact ⟨_, _, hescape, by rw [hbackslash, hc], by simp [hc]⟩
  · exact ⟨c, [], hescape, rfl, fun _ => ⟨rfl, rfl⟩⟩

end Text

/-! ## Reading what was written -/

/-- The body of the literal for a text, the quote that closes it, and what follows. -/
def bodyBefore (text rest : List Char) : List Char := text.flatMap Text.escapeChar ++ '"' :: rest

variable {text : List Char}

theorem bodyBefore_cons (c : Char) (text rest : List Char) :
    bodyBefore (c :: text) rest = Text.escapeChar c ++ bodyBefore text rest := by
  simp [bodyBefore]

/-- The hexadecimal digits at the front of a body are those at the front of the text. -/
theorem span_bodyBefore (text rest : List Char) :
    (bodyBefore text rest).takeWhile isHexDigit = text.takeWhile isHexDigit ∧
      (bodyBefore text rest).dropWhile isHexDigit =
        bodyBefore (text.dropWhile isHexDigit) rest := by
  induction text with
  | nil =>
    have hquote : isHexDigit '"' = false := by decide
    simp [bodyBefore, hquote]
  | cons c text ih =>
    obtain ⟨first, more, hescape, hfirst, hdigit⟩ := Text.exists_escapeChar_eq_cons c
    rw [bodyBefore_cons, hescape]
    cases hc : isHexDigit c with
    | true =>
      obtain ⟨rfl, rfl⟩ := hdigit hc
      simp [hc, ih]
    | false =>
      rw [hc] at hfirst
      simp [hfirst, hc, bodyBefore_cons, hescape]

theorem readBody?_of_not_coded (h : Text.isCoded c = false) :
    readBody? (bodyBefore (c :: text) rest) =
      (readBody? (bodyBefore text rest)).map (Prod.map (c :: ·) id) := by
  rw [bodyBefore_cons]
  rcases Text.escapeChar_cases c with ⟨hcoded, -⟩ | ⟨-, d, hescape, hd⟩ | ⟨-, hescape, hplain⟩
  · rw [h] at hcoded
    cases hcoded
  · rw [hescape]
    exact readBody?_simple hd
  · rw [hescape]
    exact readBody?_plain hplain.1 hplain.2.1 hplain.2.2

/-- **A character written by code** takes the hexadecimal digits after it into its code. -/
theorem readBody?_of_coded (h : Text.isCoded c = true) :
    readBody? (bodyBefore (c :: text) rest) =
      (charOfHexadecimal? (Text.twoHexDigits c.toNat ++ text.takeWhile isHexDigit)).bind fun d =>
        (readBody? (bodyBefore (text.dropWhile isHexDigit) rest)).map (Prod.map (d :: ·) id) := by
  have hdigits := all_twoHexDigits (Text.toNat_lt_of_isCoded h)
  obtain ⟨htake, hdrop⟩ := span_bodyBefore text rest
  rw [bodyBefore_cons]
  rcases Text.escapeChar_cases c with ⟨-, hescape⟩ | ⟨hcoded, -⟩ | ⟨hcoded, -⟩
  · rw [hescape, List.cons_append, List.cons_append, readBody?_hexadecimal,
      List.takeWhile_append_of_pos hdigits, List.dropWhile_append_of_pos hdigits, htake, hdrop]
  · rw [h] at hcoded
    cases hcoded
  · rw [h] at hcoded
    cases hcoded

/-- No character that is written by code stands before a hexadecimal digit. -/
def Unmerged (text : List Char) : Prop :=
  text.IsChain fun c d => Text.isCoded c = true → isHexDigit d = false

theorem unmerged_cons_iff : Unmerged (c :: text) ↔
    (Text.isCoded c = true → text.dropWhile isHexDigit = text) ∧ Unmerged text := by
  have hfirst : (∀ d ∈ text.head?, isHexDigit d = false) ↔ text.dropWhile isHexDigit = text := by
    rw [List.dropWhile_eq_self_iff]
    cases text <;> simp
  rw [Unmerged, List.isChain_cons, ← hfirst]
  exact and_congr_left' ⟨fun h hc d hd => h d hd hc, fun h d hd hc => h hc d hd⟩

/-- An unmerged text is read back. -/
theorem Unmerged.readBody?_eq (h : Unmerged text) (rest : List Char) :
    readBody? (bodyBefore text rest) = some (text, rest) := by
  induction text with
  | nil => exact readBody?_quote
  | cons c text ih =>
    obtain ⟨hc, htext⟩ := unmerged_cons_iff.mp h
    cases hcoded : Text.isCoded c with
    | false =>
      rw [readBody?_of_not_coded hcoded, ih htext]
      rfl
    | true =>
      have hdrop := hc hcoded
      have htake : text.takeWhile isHexDigit = [] := by
        have hsplit := List.takeWhile_append_dropWhile (p := isHexDigit) (l := text)
        simpa [hdrop] using hsplit
      have hsmall := Text.toNat_lt_of_isCoded hcoded
      rw [readBody?_of_coded hcoded, htake, List.append_nil, charOfHexadecimal?_twoHexDigits hsmall,
        hdrop, ih htext]
      rfl

/-- **No more characters are read than were written**, and fewer if digits are taken into codes. -/
theorem length_of_readBody? {read after : List Char}
    (h : readBody? (bodyBefore text rest) = some (read, after)) :
    read.length ≤ text.length ∧ (read.length = text.length → Unmerged text) := by
  induction hlength : text.length using Nat.strongRecOn generalizing text read with
  | _ n ih =>
    cases text with
    | nil =>
      rw [show bodyBefore [] rest = '"' :: rest from rfl, readBody?_quote] at h
      cases h
      exact ⟨Nat.zero_le _, fun _ => .nil⟩
    | cons c text =>
      rw [List.length_cons] at hlength
      subst hlength
      cases hcoded : Text.isCoded c with
      | false =>
        rw [readBody?_of_not_coded hcoded] at h
        obtain ⟨⟨others, _⟩, hothers, hread⟩ := Option.map_eq_some_iff.mp h
        cases hread
        obtain ⟨hle, hunmerged⟩ := ih text.length (Nat.lt_succ_self _) hothers rfl
        refine ⟨Nat.succ_le_succ hle, fun heq => ?_⟩
        exact unmerged_cons_iff.mpr ⟨by simp [hcoded], hunmerged (Nat.succ.inj heq)⟩
      | true =>
        rw [readBody?_of_coded hcoded] at h
        obtain ⟨d, -, h⟩ := Option.bind_eq_some_iff.mp h
        obtain ⟨⟨others, _⟩, hothers, hread⟩ := Option.map_eq_some_iff.mp h
        cases hread
        have hsuffix := List.dropWhile_suffix (l := text) isHexDigit
        have hshorter := hsuffix.length_le
        obtain ⟨hle, hunmerged⟩ := ih _ (Nat.lt_succ_of_le hshorter) hothers rfl
        refine ⟨Nat.succ_le_succ (hle.trans hshorter), fun heq => ?_⟩
        -- as many characters were read as written only if no digit was dropped
        rw [List.length_cons] at heq
        have hdrop : text.dropWhile isHexDigit = text := hsuffix.eq_of_length (by omega)
        rw [hdrop] at hunmerged
        exact unmerged_cons_iff.mpr ⟨fun _ => hdrop, hunmerged (Nat.succ.inj heq)⟩

/-- **Which texts are read back.** -/
theorem readBody?_bodyBefore_iff :
    readBody? (bodyBefore text rest) = some (text, rest) ↔ Unmerged text :=
  ⟨fun h => (length_of_readBody? h).2 rfl, fun h => h.readBody?_eq rest⟩

theorem toList_literal_append (s : String) (rest : List Char) :
    (Text.literal s).toList ++ rest = '"' :: bodyBefore s.toList rest := by
  simp [Text.literal, Text.escape, bodyBefore]

/-- **A literal denotes the text that it was written for** exactly if in this text no character that
is written by code stands before a hexadecimal digit. The same holds of what a line prints. -/
theorem literal_denotes_iff (s : String) :
    (∀ rest, readLiteral? ((Text.literal s).toList ++ rest) = some (s.toList, rest) ↔
      Unmerged s.toList) ∧
    (printedText? (Statement.print (.concrete s)).text.toList = some s.toList ↔
      Unmerged s.toList) := by
  have hiff : ∀ rest, readLiteral? ((Text.literal s).toList ++ rest) = some (s.toList, rest) ↔
      Unmerged s.toList := by
    intro rest
    rw [toList_literal_append]
    exact readBody?_bodyBefore_iff
  have hline : (Statement.print (.concrete s)).text.toList =
      'p' :: 'u' :: 't' :: 's' :: '(' :: ((Text.literal s).toList ++ [')', ';']) := by
    simp [Statement.text, Value.operand]
  refine ⟨hiff, ?_⟩
  rw [hline, ← hiff [')', ';'], printedText?, Option.bind_eq_some_iff]
  constructor
  · rintro ⟨⟨text, rest⟩, hread, hprinted⟩
    obtain ⟨rfl, htext⟩ := Option.ite_none_right_eq_some.mp hprinted
    rw [hread, Option.some.inj htext]
  · intro hread
    exact ⟨_, hread, if_pos rfl⟩

/-- A control and the digit one are written, and one character is read. -/
theorem digit_lost_after_control :
    Text.literal "\x011" = "\"\\x011\"" ∧
      readLiteral? (Text.literal "\x011").toList = some ("\x11".toList, []) ∧
      (Statement.print (.concrete "\x011")).text = "puts(\"\\x011\");" ∧
      printedText? (Statement.print (.concrete "\x011")).text.toList ≠ some "\x011".toList := by
  refine ⟨by decide +kernel, by decide +kernel, by decide +kernel, by decide +kernel⟩

end Lifter

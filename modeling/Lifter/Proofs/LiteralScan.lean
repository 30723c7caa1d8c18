import Lifter.Proofs.Legible

/-!
# Texts that close their literals

A scan for string literals is a machine with three states, which reads a text character by
character. A line of pseudocode is **sealed** if this machine comes out of it as it went in, outside
all literals, and if it is one line.

* `LiteralState.next`, `LiteralState.after`: the machine.
* `outsideFrom_append`: the parts outside literals are found by this machine.
* `Sealed`, `Sealed.append`: sealed texts, and texts put together from them.
* **`sealed_literal`**: the literal for a text is sealed, whatever the text.
* **`recoverSecret_around_literal`**: what stands before a literal and what stands after it are
  searched apart.
-/

namespace Lifter

namespace LiteralState

/-- The state after a character. -/
def next : LiteralState → Char → LiteralState
  | outside, c => if c = '"' then inside else outside
  | escaped, _ => inside
  | inside, c => if c = '\\' then escaped else if c = '"' then outside else inside

/-- The state after a text. -/
def after (state : LiteralState) (text : List Char) : LiteralState := text.foldl next state

@[simp] theorem after_nil (state : LiteralState) : state.after [] = state := rfl

@[simp] theorem after_cons (state : LiteralState) (c : Char) (text : List Char) :
    state.after (c :: text) = (state.next c).after text := rfl

@[simp] theorem after_append (state : LiteralState) (text rest : List Char) :
    state.after (text ++ rest) = (state.after text).after rest := List.foldl_append

end LiteralState

open LiteralState

/-- A scan of one text after another goes on from the state that the first one leaves. What it has
found by then does not depend on the second text. -/
theorem outsideFrom_append (state : LiteralState) (current text : List Char) :
    ∃ parts last, ∀ rest, outsideFrom state current (text ++ rest) =
      parts ++ outsideFrom (state.after text) last rest := by
  induction text generalizing state current with
  | nil => exact ⟨[], current, fun _ => rfl⟩
  | cons c text ih =>
    cases state with
    | outside =>
      by_cases hc : c = '"'
      · obtain ⟨parts, last, h⟩ := ih .inside []
        exact ⟨current.reverse :: parts, last, fun rest => by simp [outsideFrom, next, hc, h]⟩
      · obtain ⟨parts, last, h⟩ := ih .outside (c :: current)
        exact ⟨parts, last, fun rest => by simp [outsideFrom, next, hc, h]⟩
    | escaped => exact ih .inside []
    | inside =>
      obtain ⟨parts, last, h⟩ := ih (LiteralState.inside.next c) []
      refine ⟨parts, last, fun rest => ?_⟩
      rw [after_cons, ← h rest]
      simp only [List.cons_append, outsideFrom, next]
      split_ifs <;> rfl

/-- A text on one line that closes every literal it opens. -/
def Sealed (s : String) : Prop := '\n' ∉ s.toList ∧ LiteralState.outside.after s.toList = .outside

instance (s : String) : Decidable (Sealed s) := inferInstanceAs (Decidable (_ ∧ _))

variable {s t : String}

theorem Sealed.append (hs : Sealed s) (ht : Sealed t) : Sealed (s ++ t) := by
  refine ⟨?_, ?_⟩
  · simp only [String.toList_append, List.mem_append, not_or]
    exact ⟨hs.1, ht.1⟩
  · rw [String.toList_append, after_append, hs.2, ht.2]

/-- A sealed text between two others. -/
theorem Sealed.between (h : Sealed s) (before after : String)
    (hbefore : Sealed before := by decide) (hafter : Sealed after := by decide) :
    Sealed (before ++ s ++ after) :=
  (hbefore.append h).append hafter

/-- A text without quotes on one line. -/
theorem sealed_of_plain (h : ∀ c ∈ s.toList, c ≠ '"' ∧ c ≠ '\n') : Sealed s := by
  refine ⟨fun hmem => (h _ hmem).2 rfl, ?_⟩
  generalize s.toList = text at h
  induction text with
  | nil => rfl
  | cons c text ih =>
    obtain ⟨hc, htext⟩ := List.forall_mem_cons.mp h
    rw [after_cons, next, if_neg hc.1]
    exact ih htext

theorem sealed_decimal (n : Nat) : Sealed (Text.decimal n) := by
  refine sealed_of_plain fun c hc => ?_
  have hdigit := Text.isDigit_of_mem_decimal hc
  constructor <;> rintro rfl <;> revert hdigit <;> decide

theorem sealed_signedDecimal (n : Int) : Sealed (Text.signedDecimal n) := by
  cases n with
  | ofNat n => exact sealed_decimal n
  | negSucc n => exact Sealed.append (s := "-") (by decide) (sealed_decimal (n + 1))

theorem sealed_identifier {name : String} (h : isIdentifier name = true) : Sealed name := by
  refine sealed_of_plain fun c hc => ?_
  have hchar := isIdentifierChar_of_mem h hc
  constructor <;> rintro rfl <;> revert hchar <;> decide

/-! ## Literals -/

theorem LiteralBody.not_mem_newline {body : List Char} (h : LiteralBody body) : '\n' ∉ body := by
  induction h with
  | nil => simp
  | plain _ _ hnewline _ ih => simp [ih, hnewline.symm]
  | escape hnewline _ ih => simp [ih, hnewline.symm]

/-- The body of a literal leaves the machine inside. -/
theorem LiteralBody.after {body : List Char} (h : LiteralBody body) :
    LiteralState.inside.after body = .inside := by
  induction h with
  | nil => rfl
  | plain hbackslash hquote _ _ ih => rwa [after_cons, next, if_neg hbackslash, if_neg hquote]
  | escape _ _ ih => rwa [after_cons, after_cons]

/-- **A literal is sealed**, whatever text it stands for. -/
theorem sealed_literal (text : String) : Sealed (Text.literal text) := by
  have hlist : (Text.literal text).toList =
      '"' :: (text.toList.flatMap Text.escapeChar ++ ['"']) := by
    simp [Text.literal, Text.escape]
  have hbody := literalBody_escape text.toList
  refine ⟨?_, ?_⟩
  · rw [hlist]
    simp [hbody.not_mem_newline]
  · rw [hlist, after_cons, after_append]
    exact congrArg (LiteralState.after · ['"']) hbody.after

/-! ## Texts around a literal -/

/-- A quote outside literals ends the part before it. -/
theorem outsideLiterals_append_quote {before : List Char} (h : outside.after before = .outside)
    (rest : List Char) : outsideLiterals (before ++ '"' :: rest) =
      outsideLiterals before ++ outsideFrom .inside [] rest := by
  obtain ⟨parts, last, hscan⟩ := outsideFrom_append .outside [] before
  rw [h] at hscan
  have hbefore : outsideLiterals before = parts ++ [last.reverse] := by
    have hend := hscan []
    rwa [List.append_nil] at hend
  rw [hbefore, outsideLiterals, hscan, outsideFrom, if_pos rfl, List.append_cons]

/-- The quote after the body of a literal ends the literal, and no quote in the body does. -/
theorem outsideFrom_escape (text : String) (rest : List Char) :
    outsideFrom .inside [] ((Text.escape text).toList ++ '"' :: rest) = outsideLiterals rest := by
  rw [Text.escape, String.toList_ofList, (literalBody_escape text.toList).outsideFrom_append]
  rfl

/-- **A literal separates what is searched**, whatever text it stands for: the parts outside
literals are those before it and those after it, and so are the characters of a secret. -/
theorem recoverSecret_around_literal {before : String}
    (h : LiteralState.outside.after before.toList = .outside) (text after : String) :
    outsideLiterals (before ++ "\"" ++ Text.escape text ++ "\"" ++ after).toList =
        outsideLiterals before.toList ++ outsideLiterals after.toList ∧
      recoverSecret (before ++ "\"" ++ Text.escape text ++ "\"" ++ after) =
        recoverSecret before ++ recoverSecret after := by
  have hlist : (before ++ "\"" ++ Text.escape text ++ "\"" ++ after).toList =
      before.toList ++ '"' :: ((Text.escape text).toList ++ '"' :: after.toList) := by
    simp
  have hparts : outsideLiterals (before ++ "\"" ++ Text.escape text ++ "\"" ++ after).toList =
      outsideLiterals before.toList ++ outsideLiterals after.toList := by
    rw [hlist, outsideLiterals_append_quote h, outsideFrom_escape]
  refine ⟨hparts, ?_⟩
  rw [recoverSecret, hparts, List.flatMap_append, List.filterMap_append, String.ofList_append]
  rfl

/-- The text in the literal ends in a backslash, and has a quote and an addend in it. -/
theorem recoverSecret_around_addend :
    Text.escape "\" + 65\\" = "\\\" + 65\\\\" ∧
      recoverSecret ("puts((flag + 104), " ++ "\"" ++ Text.escape "\" + 65\\" ++ "\"" ++
        ", (flag + 105));") = "hi" := by
  have hstate : LiteralState.outside.after "puts((flag + 104), ".toList = .outside := by decide
  refine ⟨by decide, ?_⟩
  rw [(recoverSecret_around_literal hstate "\" + 65\\" ", (flag + 105));").2]
  decide +kernel

end Lifter

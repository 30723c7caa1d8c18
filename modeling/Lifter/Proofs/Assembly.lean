import Lifter.Instruction.Listing
import Lifter.Proofs.Encoding
import Lifter.Proofs.Readability

/-!
# Listings are assembled again

A listing tells the bytes that it was made from. The address of a line ends at the tab, its mnemonic
at the first space after it, and its operands are words between commas. So every line is read back
as its instruction, and the encodings of the instructions are the bytes.

* `Text.fields`, `Instruction.ofLine?`, `assemble`: reading a listing.
* `Operand.Readable`, `Instruction.readable_of_encode?`: operands that are told from their text, as
  are those of every instruction that has an encoding.
* `Placed.ofLine?_line`: every line is read back.
* `Text.Lines`, `Text.Lines.unique`: the lines of a text, which it has in one way only.
* `transferMnemonics`, `Instruction.transfersControl_iff`: the instructions that transfer control.
* `assemble_listing`, **`listing_determines_bytes`**: no two byte sequences have the same listing.
-/

namespace Lifter

/-! ## Words -/

/-- The words between commas. Spaces before a word are not part of it. -/
def Text.fields (cs : List Char) : List (List Char) :=
  ((cs.splitOn ',').map (·.dropWhile (· == ' '))).filter (!·.isEmpty)

/-- A non-empty run of letters, digits and underscores. -/
structure Text.Word (cs : List Char) : Prop where
  nonempty : cs ≠ []
  plain : cs.all isIdentifierChar = true

namespace Text

variable {cs : List Char} {mark : Char} {words : List (List Char)}

theorem Word.not_mem (h : Word cs) (hmark : isIdentifierChar mark = false := by decide) :
    mark ∉ cs :=
  fun hmem => ne_of_isIdentifierChar (List.all_eq_true.mp h.plain mark hmem) hmark rfl

theorem Word.dropWhile_spaces (h : Word cs) (k : Nat) :
    (List.replicate k ' ' ++ cs).dropWhile (· == ' ') = cs := by
  rw [List.dropWhile_append_of_pos (by simp)]
  cases cs with
  | nil => rfl
  | cons c cs =>
    apply List.dropWhile_cons_of_neg
    rw [beq_iff_eq]
    rintro rfl
    exact h.not_mem (by decide) List.mem_cons_self

theorem takeWhile_ne_mark (h : mark ∉ cs) (rest : List Char) :
    (cs ++ mark :: rest).takeWhile (· != mark) = cs := by
  have hne : ∀ c ∈ cs, (c != mark) = true := by
    intro c hc
    rw [bne_iff_ne]
    rintro rfl
    exact h hc
  rw [List.takeWhile_append_of_pos hne]
  simp

theorem dropWhile_ne_mark (h : mark ∉ cs) (rest : List Char) :
    (cs ++ mark :: rest).dropWhile (· != mark) = mark :: rest := by
  have hsplit := List.takeWhile_append_dropWhile (p := (· != mark)) (l := cs ++ mark :: rest)
  rw [takeWhile_ne_mark h] at hsplit
  exact List.append_cancel_left hsplit

/-- **Words are read back** from a text that puts commas between them, whatever space there is
before the first one. -/
theorem fields_intercalate (h : ∀ word ∈ words, Word word) (k : Nat) :
    fields (List.replicate k ' ' ++ [',', ' '].intercalate words) = words := by
  induction words generalizing k with
  | nil =>
    have hnot : ',' ∉ List.replicate k ' ' := by simp
    simp [fields, List.splitOn_eq_singleton hnot]
  | cons word words ih =>
    obtain ⟨hword, hwords⟩ := List.forall_mem_cons.mp h
    have hnot : ',' ∉ List.replicate k ' ' ++ word := by
      rw [List.mem_append, not_or]
      exact ⟨by simp, hword.not_mem⟩
    cases words with
    | nil =>
      rw [List.intercalate_singleton, fields, List.splitOn_eq_singleton hnot]
      simp [hword.dropWhile_spaces, hword.nonempty]
    | cons next words =>
      have hlater := ih hwords 1
      rw [fields] at hlater ⊢
      rw [List.intercalate_cons_cons, List.append_assoc, ← List.append_assoc,
        List.cons_append, List.splitOn_append_cons_self_of_not_mem hnot, List.map_cons,
        hword.dropWhile_spaces, List.filter_cons_of_pos (by simp [hword.nonempty])]
      exact congrArg (word :: ·) hlater

theorem not_mem_intercalate (h : ∀ word ∈ words, Word word) (hmark : mark ∉ [',', ' '])
    (hplain : isIdentifierChar mark = false := by decide) :
    mark ∉ [',', ' '].intercalate words := by
  induction words with
  | nil => simp
  | cons word words ih =>
    obtain ⟨hword, hwords⟩ := List.forall_mem_cons.mp h
    cases words with
    | nil =>
      rw [List.intercalate_singleton]
      exact hword.not_mem hplain
    | cons next words =>
      rw [List.intercalate_cons_cons, List.mem_append, List.mem_append, not_or, not_or]
      exact ⟨⟨hword.not_mem hplain, hmark⟩, ih hwords⟩

theorem isIdentifierChar_digitChar {d : Nat} (h : d < 16) :
    isIdentifierChar (Nat.digitChar d) = true := by
  revert d
  decide

theorem isIdentifierChar_of_mem_hexDigits {n : Nat} {c : Char} (h : c ∈ hexDigits n) :
    isIdentifierChar c = true := by
  induction n using Nat.strong_induction_on with
  | _ n ih =>
    rw [hexDigits, Nat.toDigits_eq_if (by decide)] at h
    split at h
    · rename_i hlt
      obtain rfl := List.mem_singleton.mp h
      exact isIdentifierChar_digitChar hlt
    · rcases List.mem_append.mp h with h | h
      · exact ih (n / 16) (by omega) h
      · obtain rfl := List.mem_singleton.mp h
        exact isIdentifierChar_digitChar (Nat.mod_lt n (by decide))

theorem word_hexadecimal (n : Nat) : Word (hexadecimal n).toList where
  nonempty := by simp [hexadecimal]
  plain := by
    rw [hexadecimal, String.toList_append, List.all_append, Bool.and_eq_true]
    refine ⟨rfl, List.all_eq_true.mpr fun c hc => ?_⟩
    rw [String.toList_ofList] at hc
    exact isIdentifierChar_of_mem_hexDigits hc

end Text

/-! ## Instructions -/

/-- The operand with a written form: a register if this is the name of one, and else a literal. -/
def Operand.ofText (text : String) : Operand :=
  match Register.all.find? (·.name == text) with
  | some r => .register r
  | none => .literal text

/-- The instruction with a mnemonic and operands in listing order. -/
def Instruction.ofParts? : String → List Operand → Option Instruction
  | "rel_jmp", [.register offset] => some (.jump offset)
  | "if_eq_rel_jmp", [.register offset, .register left, .register right] =>
    some (.branch .equal offset left right)
  | "if_neq_rel_jmp", [.register offset, .register left, .register right] =>
    some (.branch .notEqual offset left right)
  | "if_lt_rel_jmp", [.register left, .register right, .register offset] =>
    some (.branch .less offset left right)
  | "clear", [.register target] => some (.clear target)
  | "write_last_char_code", [.register target, .register source] => some (.lastCode target source)
  | "write_char", [.register target, .register source] => some (.character target source)
  | "concat_strings", [.register target, .register left, .register right] =>
    some (.concat target left right)
  | "set", [.register target, .literal literal] => some (.set target literal)
  | "add", [.register target, .register left, .register right] => some (.add target left right)
  | "append", [.register target, .literal literal] => some (.append target literal)
  | "pop_last_char", [.register target] => some (.dropLast target)
  | "invert_sign", [.register target] => some (.negate target)
  | "print", [.register source] => some (.print source)
  | "read_str", [.register target] => some (.read target)
  | "ret", [] => some .ret
  | _, _ => none

/-- The instruction that a line of a listing shows. -/
def Instruction.ofLine? (line : List Char) : Option Instruction :=
  let columns := (line.dropWhile (· != '\t')).tail
  let words := Text.fields (columns.dropWhile (· != ' '))
  ofParts? (String.ofList (columns.takeWhile (· != ' ')))
    (words.map fun word => Operand.ofText (String.ofList word))

/-- An operand that can be told from its written form. -/
structure Operand.Readable (o : Operand) : Prop where
  word : Text.Word o.text.toList
  ofText_text : ofText o.text = o

theorem Operand.readable_register (r : Register) : (register r).Readable where
  word := by
    refine ⟨by simp [text, Register.name], ?_⟩
    rw [text, Register.name, String.toList_append, List.all_append, Bool.and_eq_true]
    exact ⟨rfl, List.all_eq_true.mpr fun _ => isIdentifierChar_of_mem_decimal⟩
  ofText_text := by
    obtain ⟨i⟩ := r
    fin_cases i <;> rfl

theorem Operand.readable_setLiteral : (literal setLiteral).Readable :=
  ⟨⟨by decide, rfl⟩, rfl⟩

theorem Operand.readable_appendLiteral : (literal appendLiteral).Readable :=
  ⟨⟨by decide, rfl⟩, rfl⟩

namespace Instruction

variable {instruction : Instruction} {code : List UInt8}

theorem ofParts?_mnemonic_operands (instruction : Instruction) :
    ofParts? instruction.mnemonic instruction.operands = some instruction := by
  cases instruction with
  | branch condition => cases condition <;> rfl
  | _ => rfl

theorem word_mnemonic (instruction : Instruction) : Text.Word instruction.mnemonic.toList := by
  cases instruction with
  | branch condition =>
    cases condition <;> dsimp only [mnemonic] <;> exact ⟨by decide, rfl⟩
  | _ =>
    dsimp only [mnemonic]
    exact ⟨by decide, rfl⟩

theorem length_mnemonic_lt (instruction : Instruction) :
    instruction.mnemonic.length < operandColumn := by
  cases instruction with
  | branch condition => cases condition <;> dsimp only [mnemonic] <;> decide
  | _ =>
    dsimp only [mnemonic]
    decide

theorem readable_of_encode? (h : instruction.encode? = some code) :
    ∀ o ∈ instruction.operands, o.Readable := by
  cases instruction with
  | set target literal =>
    simp only [encode?, Option.ite_none_right_eq_some] at h
    obtain ⟨rfl, -⟩ := h
    simp [operands, Operand.readable_register, Operand.readable_setLiteral]
  | append target literal =>
    simp only [encode?, Option.ite_none_right_eq_some] at h
    obtain ⟨rfl, -⟩ := h
    simp [operands, Operand.readable_register, Operand.readable_appendLiteral]
  | branch condition => cases condition <;> simp [operands, Operand.readable_register]
  | _ => simp [operands, Operand.readable_register]

end Instruction

/-! ## Lines -/

namespace Placed

variable {p : Placed}

/-- The columns of a line. Mnemonics are short enough to leave space before the operands. -/
theorem exists_toList_line (p : Placed) : ∃ k, p.line.toList =
    ((Text.hexadecimal p.address).toList ++ [':']) ++ '\t' ::
      (p.instruction.mnemonic.toList ++ ' ' :: (List.replicate k ' ' ++
        [',', ' '].intercalate (p.instruction.operands.map (·.text.toList)))) := by
  obtain ⟨k, hk⟩ : ∃ k, operandColumn - p.instruction.mnemonic.length = k + 1 :=
    Nat.exists_eq_add_one.mpr (Nat.sub_pos_of_lt p.instruction.length_mnemonic_lt)
  refine ⟨k, ?_⟩
  simp [line, hk, String.toList_intercalate, Function.comp_def, List.replicate_succ]

theorem line_ne_empty (p : Placed) : p.line ≠ "" := by
  intro h
  obtain ⟨k, hline⟩ := p.exists_toList_line
  rw [h] at hline
  simp at hline

theorem words_of_readable (h : ∀ o ∈ p.instruction.operands, o.Readable) :
    ∀ word ∈ p.instruction.operands.map (·.text.toList), Text.Word word := by
  intro word hword
  obtain ⟨o, ho, rfl⟩ := List.mem_map.mp hword
  exact (h o ho).word

theorem newline_not_mem_line (h : ∀ o ∈ p.instruction.operands, o.Readable) :
    '\n' ∉ p.line.toList := by
  obtain ⟨k, hline⟩ := p.exists_toList_line
  have haddress : '\n' ∉ (Text.hexadecimal p.address).toList := (Text.word_hexadecimal _).not_mem
  have hmnemonic : '\n' ∉ p.instruction.mnemonic.toList := p.instruction.word_mnemonic.not_mem
  have hoperands : '\n' ∉ [',', ' '].intercalate (p.instruction.operands.map (·.text.toList)) :=
    Text.not_mem_intercalate (words_of_readable h) (by decide)
  rw [hline]
  simp [haddress, hmnemonic, hoperands]

/-- **Every line is read back** as its instruction. -/
theorem ofLine?_line (h : ∀ o ∈ p.instruction.operands, o.Readable) :
    Instruction.ofLine? p.line.toList = some p.instruction := by
  obtain ⟨k, hline⟩ := p.exists_toList_line
  have htab : '\t' ∉ (Text.hexadecimal p.address).toList ++ [':'] := by
    rw [List.mem_append, not_or]
    exact ⟨(Text.word_hexadecimal _).not_mem, by decide⟩
  have hspace : ' ' ∉ p.instruction.mnemonic.toList := p.instruction.word_mnemonic.not_mem
  have hfields := Text.fields_intercalate (words_of_readable h) (k + 1)
  have hoperands : (p.instruction.operands.map (·.text.toList)).map
      (fun word => Operand.ofText (String.ofList word)) = p.instruction.operands := by
    rw [List.map_map]
    refine (List.map_congr_left fun o ho => ?_).trans (List.map_id _)
    rw [Function.comp_apply, String.ofList_toList]
    exact (h o ho).ofText_text
  rw [Instruction.ofLine?, hline, Text.dropWhile_ne_mark htab]
  dsimp only [List.tail_cons]
  rw [Text.takeWhile_ne_mark hspace, Text.dropWhile_ne_mark hspace, String.ofList_toList,
    ← List.cons_append, ← List.replicate_succ, hfields, hoperands]
  exact p.instruction.ofParts?_mnemonic_operands

end Placed

/-! ## Listings -/

/-- The lines of a text, each of which is closed by a line end. -/
structure Text.Lines (text : String) (lines : List String) : Prop where
  closed : text = String.join (lines.map (· ++ "\n"))
  single : ∀ line ∈ lines, '\n' ∉ line.toList

namespace Text.Lines

variable {text : String} {lines lines' : List String}

theorem splitOn_toList (h : Lines text lines) :
    text.toList.splitOn '\n' = lines.map String.toList ++ [[]] := by
  obtain ⟨rfl, hsingle⟩ := h
  induction lines with
  | nil => rfl
  | cons line lines ih =>
    obtain ⟨hline, hlines⟩ := List.forall_mem_cons.mp hsingle
    rw [List.map_cons, List.map_cons, List.cons_append, ← ih hlines,
      ← List.splitOn_append_cons_self_of_not_mem hline]
    simp

/-- A text has its lines in one way only. -/
theorem unique (h : Lines text lines) (h' : Lines text lines') : lines = lines' := by
  have heq := h.splitOn_toList.symm.trans h'.splitOn_toList
  exact List.map_injective_iff.mpr (fun _ _ => String.toList_inj.mp) (List.append_cancel_right heq)

end Text.Lines

/-- The bytes of the instructions that a listing shows. -/
def assemble (text : String) : List UInt8 :=
  (((text.toList.splitOn '\n').filterMap Instruction.ofLine?).filterMap
    Instruction.encode?).flatten

namespace Placed

variable {p : Placed} {line : String}

theorem mem_block (h : line ∈ p.block) : line = p.line ∨ line = "" := by
  unfold block at h
  split at h
  · simpa using h
  · exact .inl (List.mem_singleton.mp h)

theorem filter_block (p : Placed) : p.block.filter (· ≠ "") = [p.line] := by
  unfold block
  split <;> simp [p.line_ne_empty]

theorem filterMap_block (h : ∀ o ∈ p.instruction.operands, o.Readable) :
    p.block.filterMap (fun line => Instruction.ofLine? line.toList) = [p.instruction] := by
  have hempty : Instruction.ofLine? [] = none := rfl
  unfold block
  split <;> simp [ofLine?_line h, hempty]

end Placed

variable {codes : List (List UInt8)} {start : Nat} {program : List Placed}

theorem filter_listingLines (program : List Placed) :
    (listingLines program).filter (· ≠ "") = program.map Placed.line := by
  rw [listingLines, List.filter_flatMap, funext Placed.filter_block]
  exact List.map_eq_flatMap.symm

/-- Where the empty lines are, if `EndsBlock` tells the lines that one is to follow. -/
theorem getElem?_listingLines_eq_empty {EndsBlock : String → Prop} (hempty : ¬ EndsBlock "")
    (h : ∀ p ∈ program, EndsBlock p.line ↔ p.instruction.transfersControl = true) :
    (listingLines program)[0]? ≠ some "" ∧
      ∀ j, (listingLines program)[j + 1]? = some "" ↔
        ∃ line, (listingLines program)[j]? = some line ∧ EndsBlock line := by
  induction program with
  | nil => simp [listingLines]
  | cons p later ih =>
    -- only the lines of the first block and the one after it are new
    obtain ⟨hp, hlater⟩ := List.forall_mem_cons.mp h
    obtain ⟨hfirst, hnext⟩ := ih hlater
    have hlines : listingLines (p :: later) = p.block ++ listingLines later := rfl
    rw [hlines, Placed.block]
    split
    · rename_i htransfers
      refine ⟨by simp [p.line_ne_empty], fun j => ?_⟩
      match j with
      | 0 => simpa using hp.mpr htransfers
      | 1 => simpa [hempty] using hfirst
      | j + 2 => simpa using hnext j
    · rename_i hstays
      refine ⟨by simp [p.line_ne_empty], fun j => ?_⟩
      match j with
      | 0 => simpa [mt hp.mp hstays] using hfirst
      | j + 1 => simpa using hnext j

/-- The mnemonics of the instructions that transfer control: the jumps and the return. -/
def transferMnemonics : List String :=
  ["rel_jmp", "if_eq_rel_jmp", "if_neq_rel_jmp", "if_lt_rel_jmp", "ret"]

theorem Instruction.transfersControl_iff (instruction : Instruction) :
    instruction.transfersControl = true ↔ instruction.mnemonic ∈ transferMnemonics := by
  cases instruction with
  | branch condition => cases condition <;> simp [transfersControl, mnemonic, transferMnemonics]
  | _ => simp [transfersControl, mnemonic, transferMnemonics]

/-- The line of an instruction of a program that transfers control. -/
def TransferLine (program : List Placed) (line : String) : Prop :=
  ∃ p ∈ program, p.instruction.mnemonic ∈ transferMnemonics ∧ p.line = line

theorem not_transferLine_empty (program : List Placed) : ¬ TransferLine program "" :=
  fun ⟨p, _, _, hline⟩ => p.line_ne_empty hline

namespace Laid

theorem readable (h : Laid codes start program) {p : Placed} (hp : p ∈ program) :
    ∀ o ∈ p.instruction.operands, o.Readable := by
  have hmem : p.instruction.encode? ∈ codes.map some := by
    rw [← h.encoded]
    exact List.mem_map_of_mem hp
  obtain ⟨code, -, hcode⟩ := List.mem_map.mp hmem
  exact Instruction.readable_of_encode? hcode.symm

theorem lines_listing (h : Laid codes start program) :
    Text.Lines (listing program) (listingLines program) where
  closed := rfl
  single line hline := by
    obtain ⟨p, hp, hblock⟩ := List.mem_flatMap.mp hline
    rcases Placed.mem_block hblock with rfl | rfl
    · exact Placed.newline_not_mem_line (h.readable hp)
    · simp

/-- **A listing is assembled again** to the bytes of its program. -/
theorem assemble_listing (h : Laid codes start program) :
    assemble (listing program) = codes.flatten := by
  have hinstructions : ((listing program).toList.splitOn '\n').filterMap Instruction.ofLine? =
      program.map Placed.instruction := by
    rw [h.lines_listing.splitOn_toList, List.filterMap_append, List.filterMap_map, listingLines,
      List.filterMap_flatMap, List.map_eq_flatMap]
    exact (List.append_nil _).trans
      (List.flatMap_congr fun p hp => Placed.filterMap_block (h.readable hp))
  have hcodes : (program.map Placed.instruction).filterMap Instruction.encode? = codes := by
    calc (program.map Placed.instruction).filterMap Instruction.encode?
      _ = (program.map fun p => p.instruction.encode?).filterMap id := by
        rw [List.filterMap_map, List.filterMap_map]
        rfl
      _ = (codes.map some).filterMap id := by rw [h.encoded]
      _ = codes := by rw [List.filterMap_map, Function.id_comp, List.filterMap_some]
  rw [assemble, hinstructions, hcodes]

/-- Instructions with the same line are the same. -/
theorem instruction_eq_of_line_eq (h : Laid codes start program) {p q : Placed} (hp : p ∈ program)
    (hq : q ∈ program) (hline : p.line = q.line) : p.instruction = q.instruction := by
  have hread := Placed.ofLine?_line (h.readable hp)
  rw [hline, Placed.ofLine?_line (h.readable hq)] at hread
  exact (Option.some.inj hread).symm

theorem transferLine_iff (h : Laid codes start program) {q : Placed} (hq : q ∈ program) :
    TransferLine program q.line ↔ q.instruction.transfersControl = true := by
  rw [q.instruction.transfersControl_iff]
  constructor
  · rintro ⟨p, hp, htransfers, hline⟩
    rwa [← h.instruction_eq_of_line_eq hp hq hline]
  · intro htransfers
    exact ⟨q, hq, htransfers, rfl⟩

theorem empty_lines (h : Laid codes start program) : (listingLines program)[0]? ≠ some "" ∧
    ∀ j, (listingLines program)[j + 1]? = some "" ↔ ∃ p ∈ program,
      p.instruction.mnemonic ∈ transferMnemonics ∧ (listingLines program)[j]? = some p.line := by
  obtain ⟨hfirst, hnext⟩ := getElem?_listingLines_eq_empty (not_transferLine_empty program)
    fun _ => h.transferLine_iff
  refine ⟨hfirst, fun j => (hnext j).trans ?_⟩
  constructor
  · rintro ⟨_, hj, p, hp, htransfers, rfl⟩
    exact ⟨p, hp, htransfers, hj⟩
  · rintro ⟨p, hp, htransfers, hj⟩
    exact ⟨_, hj, p, hp, htransfers, rfl⟩

end Laid

/-- **Assembling a listing** gives the bytes that it was made from. -/
theorem assemble_listing {bytes : List UInt8} (h : decode bytes = .ok program) :
    assemble (listing program) = bytes := by
  obtain ⟨codes, hlaid, rfl⟩ := decodeFrom_eq_ok_iff_laid.mp h
  exact hlaid.assemble_listing

/-- **A listing tells its bytes.** No two byte sequences have the same listing. Its lines that are
not empty are those of the instructions in their order. An empty line follows every jump and every
return, and stands nowhere else. -/
theorem listing_determines_bytes :
    (∀ bytes bytes' program program', decode bytes = .ok program → decode bytes' = .ok program' →
      listing program = listing program' → bytes = bytes') ∧
    ∀ bytes program, decode bytes = .ok program → ∃ lines, Text.Lines (listing program) lines ∧
      lines.filter (· ≠ "") = program.map Placed.line ∧ lines[0]? ≠ some "" ∧
      ∀ j, lines[j + 1]? = some "" ↔ ∃ p ∈ program,
        p.instruction.mnemonic ∈ transferMnemonics ∧ lines[j]? = some p.line := by
  refine ⟨fun bytes bytes' program program' h h' hlisting => ?_, fun bytes program h => ?_⟩
  · rw [← assemble_listing h, hlisting, assemble_listing h']
  · obtain ⟨codes, hlaid, rfl⟩ := decodeFrom_eq_ok_iff_laid.mp h
    exact ⟨listingLines program, hlaid.lines_listing, filter_listingLines program,
      hlaid.empty_lines⟩

/-- Operands that change places change the listing. A jump on `<` lists its offset last, and an
empty line follows it, as one follows the return but none the addition. -/
theorem listing_operand_order :
    let program : List Placed := [⟨0, .fixedBranch .less⟩, ⟨1, .add ⟨3⟩ ⟨1⟩ ⟨2⟩⟩, ⟨5, .ret⟩]
    let lines : List String := ["0x0:\tif_lt_rel_jmp         reg6, reg7, reg5", "",
      "0x1:\tadd                   reg3, reg1, reg2", "0x5:\tret                   ", ""]
    listing [⟨0, .concat ⟨3⟩ ⟨1⟩ ⟨2⟩⟩] ≠ listing [⟨0, .concat ⟨3⟩ ⟨2⟩ ⟨1⟩⟩] ∧
    Text.Lines (listing program) lines ∧ lines.filter (· ≠ "") = program.map Placed.line ∧
      ∀ j, lines[j + 1]? = some "" ↔ ∃ p ∈ program,
        p.instruction.mnemonic ∈ transferMnemonics ∧ lines[j]? = some p.line := by
  intro program lines
  have hconcat (left right : Register) : decode [63, left.byte, right.byte, 3] =
      .ok [⟨0, .concat ⟨3⟩ left right⟩] :=
    decodeFrom_eq_ok_iff_laid.mpr ⟨[[63, left.byte, right.byte, 3]], Laid.cons rfl .nil, rfl⟩
  have hprogram : decode [43, 81, 1, 2, 3, 87] = .ok program := decodeFrom_eq_ok_iff_laid.mpr
    ⟨[[43], [81, 1, 2, 3], [87]], Laid.cons rfl (Laid.cons rfl (Laid.cons rfl .nil)), rfl⟩
  constructor
  · intro h
    have hbytes := listing_determines_bytes.1 _ _ _ _ (hconcat ⟨1⟩ ⟨2⟩) (hconcat ⟨2⟩ ⟨1⟩) h
    revert hbytes
    decide
  · have hlines : Text.Lines (listing program) lines := ⟨by decide +kernel, by decide +kernel⟩
    obtain ⟨lines', hlines', hfilter, -, hempty⟩ := listing_determines_bytes.2 _ _ hprogram
    obtain rfl := hlines'.unique hlines
    exact ⟨hlines, hfilter, hempty⟩

end Lifter

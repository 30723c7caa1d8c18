import Lifter.Proofs.Holdings
import Lifter.Proofs.LiteralScan
import Lifter.Proofs.Secret

/-!
# Lines that close their literals

A known text is written as a literal when it is printed or compared. In an expression it is written
as it stands, and an expression keeps the known texts that were joined to it. These are the only
holes in the pseudocode: a line in which every such text is sealed is sealed itself, whatever else
it holds.

* `Expression.addendTexts`: the known texts beside the plus signs of an expression.
* `Expression.Tame`, `complete_tame`: expressions with no other holes, and why there are no others.
* `StatementTree.Writes`: the lines of a tree, with the known texts in their expressions.
* **`sealed_of_decompile`**: a line is sealed, or a text that was joined in it is not.
-/

namespace Lifter

/-! ## Expressions -/

mutual

/-- The known texts on both sides of the plus signs of an expression. -/
def Expression.addendTexts : Expression → List String
  | .identifier _ => []
  | .buffer _ _ => []
  | .unary _ argument => argument.addendTexts
  | .binary operator left right =>
    (if operator = "+" then left.known?.toList ++ right.known?.toList else []) ++
      (left.addendTexts ++ right.addendTexts)
  | .member object property => object.addendTexts ++ property.addendTexts

/-- The known texts on both sides of the plus signs of a value. -/
def Value.addendTexts : Value → List String
  | .concrete _ => []
  | .symbolic expression => expression.addendTexts

end

/-- An expression whose written form is sealed if the known texts beside its plus signs are. -/
def Expression.Tame (e : Expression) : Prop := (∀ t ∈ e.addendTexts, Sealed t) → Sealed e.text

section

variable {v l r : Value}

theorem Value.Within.sealed_text (h : v.Within Expression.Tame)
    (hknown : ∀ t ∈ v.known?.toList, Sealed t) (hin : ∀ t ∈ v.addendTexts, Sealed t) :
    Sealed v.text := by
  cases v with
  | concrete text => exact hknown text (by simp [known?])
  | symbolic e => exact h hin

theorem Value.Within.sealed_operand (h : v.Within Expression.Tame)
    (hin : ∀ t ∈ v.addendTexts, Sealed t) : Sealed v.operand := by
  cases v with
  | concrete text => exact sealed_literal text
  | symbolic e => exact h hin

namespace Expression

variable {e : Expression}

theorem tame_sum (hl : l.Within Tame) (hr : r.Within Tame) : Tame (.binary "+" l r) := by
  intro hin
  simp only [addendTexts, if_true, List.forall_mem_append] at hin
  obtain ⟨⟨hknownl, hknownr⟩, hinl, hinr⟩ := hin
  have hleft := (hl.sealed_text hknownl hinl).between "(" " + "
  have hright := (hr.sealed_text hknownr hinr).between "" ")"
  simpa [text, String.append_assoc] using hleft.append hright

theorem Tame.member {property : Value} (h : e.Tame)
    (hproperty : (∀ t ∈ property.addendTexts, Sealed t) → Sealed property.text) :
    Tame (.member e property) := by
  intro hin
  simp only [addendTexts, List.forall_mem_append] at hin
  have hindex := (hproperty hin.2).between "[" "]"
  simpa [text, String.append_assoc] using (h hin.1).append hindex

theorem Tame.lastIndex (h : e.Tame) : e.lastIndex.Tame := by
  intro hin
  have hlength : Tame (.member e (.concrete "\"length\"")) := h.member fun _ => by decide
  have hin' : ∀ t ∈ (Expression.member e (.concrete "\"length\"")).addendTexts, Sealed t := by
    simpa [Expression.lastIndex, addendTexts, Value.addendTexts] using hin
  simpa [Expression.lastIndex, text, Value.text, String.append_assoc] using
    (hlength hin').between "(" " - 1)"

/-- **Joined texts are the only holes.** -/
theorem complete_tame {input : Input} (hname : isIdentifier input.name = true) :
    Complete input Tame where
  negate h hin := by
    have hargument := (h hin).between "(-" ")"
    simpa [text, Value.text, String.append_assoc] using hargument
  add hl hr _ := tame_sum hl.within hr.within
  code h := h.member fun _ => sealed_decimal _
  lastCode h := h.member h.lastIndex
  shorten h hin := h hin
  dropLast h := h.member fun _ => by decide
  buffer reads _ := sealed_identifier (isIdentifier_bufferName hname reads)
  join hl hr _ := tame_sum hl hr

end Expression

end

/-! ## Lines -/

/-- The known texts beside the plus signs in what a statement prints. -/
def Statement.addendTexts : Statement → List String
  | print value => value.addendTexts
  | _ => []

/-- The known texts beside the plus signs in a test. -/
def Comparison.addendTexts (test : Comparison) : List String :=
  test.left.addendTexts ++ test.right.addendTexts

/-- A statement or a delimiter of a tree is written on a line, however far it is indented. `texts`
are the known texts beside the plus signs on that line. -/
inductive StatementTree.Writes (tree : StatementTree Statement Comparison) :
    (line : String) → (texts : List String) → Prop
  | statement {id : NodeId} {statements : Array Statement} {next : Option NodeId} {st : Statement} :
    tree.node? id = some (.linear statements next) → st ∈ statements →
      Writes tree st.text st.addendTexts
  | test {id consequent alternate : NodeId} {test : Comparison} :
    tree.node? id = some (.conditional test consequent alternate) →
      Writes tree ("if (" ++ test.text ++ ") \x7b") test.addendTexts
  | divider : Writes tree "\x7d else \x7b" []
  | closer : Writes tree "\x7d" []
  | indented {line : String} {texts : List String} :
    Writes tree line texts → Writes tree ("\t" ++ line) texts

namespace StatementTree

variable {tree : StatementTree Statement Comparison} {input : Input} {line : String}

theorem exists_writes_indent {lines : List String} (h : ∀ l ∈ lines, ∃ texts, tree.Writes l texts) :
    ∀ l ∈ indent lines, ∃ texts, tree.Writes l texts := by
  intro l hl
  obtain ⟨bare, hbare, rfl⟩ := List.mem_map.mp hl
  obtain ⟨texts, hwrites⟩ := h bare hbare
  exact ⟨texts, hwrites.indented⟩

/-- Every line is written by a statement, a test or the rest of a conditional. -/
theorem exists_writes (depth : Nat) (id : NodeId) :
    ∀ line ∈ tree.linesWithin depth id, ∃ texts, tree.Writes line texts := by
  induction depth generalizing id with
  | zero => simp [linesWithin]
  | succ depth ih =>
    rw [linesWithin]
    split
    · simp
    · rename_i statements next hnode
      rw [List.forall_mem_append]
      constructor
      · intro line hline
        obtain ⟨st, hst, rfl⟩ := List.mem_map.mp hline
        exact ⟨_, .statement hnode (Array.mem_toList_iff.mp hst)⟩
      · cases next with
        | none => simp
        | some next => exact ih next
    · rename_i test consequent alternate hnode
      simp only [conditionalLines, List.cons_append, List.forall_mem_cons, List.forall_mem_append,
        List.append_assoc]
      exact ⟨⟨_, .test hnode⟩, exists_writes_indent (ih consequent), ⟨_, .divider⟩,
        exists_writes_indent (ih alternate), ⟨_, .closer⟩, by simp⟩

end StatementTree

theorem Statement.Holds.sealed_text {input : Input} {st : Statement}
    (hname : isIdentifier input.name = true) (h : st.Holds input Expression.Tame)
    (hin : ∀ t ∈ st.addendTexts, Sealed t) : Sealed st.text := by
  cases st with
  | print value => exact (Value.Within.sealed_operand h hin).between "puts(" ");"
  | declare name length =>
    obtain ⟨reads, rfl⟩ := h
    have hbuffer := sealed_identifier (isIdentifier_bufferName hname reads)
    exact ((hbuffer.between "char " "[").append (sealed_decimal length)).append (by decide)
  | scan name =>
    obtain ⟨reads, rfl⟩ := h
    exact (sealed_identifier (isIdentifier_bufferName hname reads)).between "scanf(\"%s\", " ");"
  | ret | unknownPath | explorationTruncated | endOfProgram => decide

theorem sealed_operator (condition : Condition) : Sealed condition.operator := by
  cases condition <;> decide

theorem Comparison.Holds.sealed_text {test : Comparison} (h : test.Holds Expression.Tame)
    (hin : ∀ t ∈ test.addendTexts, Sealed t) : Sealed test.text := by
  obtain ⟨hl, hr⟩ := List.forall_mem_append.mp hin
  have hoperator := (sealed_operator test.condition).between " " " "
  have htext : test.text =
      test.left.operand ++ (" " ++ test.condition.operator ++ " ") ++ test.right.operand := by
    simp only [text, comparisonText, String.append_assoc]
  rw [htext]
  exact ((h.1.sealed_operand hl).append hoperator).append (h.2.sealed_operand hr)

/-- A line is sealed if the known texts in its expressions are. -/
theorem StatementTree.Writes.isSealed {tree : StatementTree Statement Comparison} {input : Input}
    {line : String} {texts : List String} (h : tree.Writes line texts)
    (hname : isIdentifier input.name = true) (htree : tree.Every (Node.Holds input Expression.Tame))
    (hin : ∀ t ∈ texts, Sealed t) : Sealed line := by
  induction h with
  | statement hnode hst => exact (htree _ _ hnode _ hst).sealed_text hname hin
  | test hnode =>
    have htest : Comparison.Holds Expression.Tame _ := htree _ _ hnode
    exact (htest.sealed_text hin).between "if (" ") \x7b"
  | divider => decide
  | closer => decide
  | indented _ ih => exact Sealed.append (by decide) (ih hin)

/-! ## Decompilation -/

/-- **A line closes the literals it opens**, and is one line, unless a known text beside a plus sign
on that line does not. Such a text was joined there and not added, because it is not a numeral. -/
theorem sealed_of_decompile {layer : Layer} {config : Config} {bytes : List UInt8}
    {d : Decompilation} (hbuild : layer.build = .ok config) (hd : decompile bytes config = .ok d) :
    ∃ e, (config.explorer d.instructions).explore Explorer.roundLimit = .complete e ∧
      d.pseudocode = functionText e.lines ∧
      ∀ line ∈ e.lines, ∃ texts, e.tree.Writes line texts ∧
        (Sealed line ∨ ∃ text ∈ texts, ¬ Sealed text ∧ ∀ n, text ≠ Text.signedDecimal n) := by
  obtain ⟨e, hcomplete, hpseudocode⟩ := exists_complete_of_decompile hd
  have hname := isIdentifier_of_build hbuild
  have htree := (Explorer.holds_of_reachable (Expression.complete_tame hname)
    (.of_complete hcomplete)).2
  refine ⟨e, hcomplete, hpseudocode, fun line hline => ?_⟩
  obtain ⟨texts, hwrites⟩ := StatementTree.exists_writes _ _ line hline
  refine ⟨texts, hwrites, ?_⟩
  by_cases hin : ∀ t ∈ texts, Sealed t
  · exact .inl (hwrites.isSealed hname htree hin)
  · push Not at hin
    obtain ⟨text, hmem, hopen⟩ := hin
    refine .inr ⟨text, hmem, hopen, ?_⟩
    rintro n rfl
    exact hopen (sealed_signedDecimal n)

/-- A program that joins a double quote to its input and prints it, and then prints `+ 101`. It puts
together the numerals 34, 43 and 32 from elevens, tens and ones, and takes their characters. -/
def quoteJoiner : List UInt8 :=
  [86, 82, 1, 82, 1, 81, 1, 1, 2, 82, 3, 71, 63, 3, 7, 6, 81, 2, 6, 5, 81, 2, 1, 2, 81, 2, 3, 4,
    62, 4, 4, 63, 0, 4, 4, 85, 81, 2, 6, 2, 62, 2, 2, 62, 5, 5, 63, 2, 5, 4, 63, 4, 6, 4, 82, 4, 85,
    87]

theorem exists_complete_quoteJoiner :
    let config : Config := ⟨⟨1, "flag"⟩, none, true⟩
    ∃ d e, decompile quoteJoiner config = .ok d ∧
      (config.explorer d.instructions).explore Explorer.roundLimit = .complete e ∧
      d.pseudocode = functionText e.lines ∧
      e.lines = ["char flag[1];", "scanf(\"%s\", flag);", "puts((flag + \"));", "puts(\"+ 101\");",
        "return 0;"] := by
  intro config
  have hrun : (decompile quoteJoiner config).toOption.map (fun d =>
      ((config.explorer d.instructions).explore Explorer.roundLimit).explorer.lines) =
        some ["char flag[1];", "scanf(\"%s\", flag);", "puts((flag + \"));", "puts(\"+ 101\");",
          "return 0;"] := by
    decide +kernel
  obtain ⟨d, hmem, hlines⟩ := Option.map_eq_some_iff.mp hrun
  have hd := toOption_eq_some_iff.mp hmem
  obtain ⟨e, he, hpseudocode⟩ := exists_complete_of_decompile hd
  rw [he] at hlines
  exact ⟨d, e, hd, he, hpseudocode, hlines⟩

/-- The printed line is not sealed, because of the quote that was joined. -/
theorem unsealed_quoteJoiner :
    let config : Config := ⟨⟨1, "flag"⟩, none, true⟩
    ∃ d e, decompile quoteJoiner config = .ok d ∧
      (config.explorer d.instructions).explore Explorer.roundLimit = .complete e ∧
      ∃ texts, e.tree.Writes "puts((flag + \"));" texts ∧
        ∃ text ∈ texts, ¬ Sealed text ∧ ∀ n, text ≠ Text.signedDecimal n := by
  intro config
  obtain ⟨d, e, hd, he, -, hlines⟩ := exists_complete_quoteJoiner
  have hbuild : (Layer.mk (some 1) none none none).build = .ok config := rfl
  obtain ⟨e', he', -, hsealed⟩ := sealed_of_decompile hbuild hd
  obtain rfl : e = e' := by
    cases he.symm.trans he'
    rfl
  obtain ⟨texts, hwrites, hopen⟩ := hsealed "puts((flag + \"));" (by simp [hlines])
  exact ⟨d, e, hd, he, texts, hwrites, hopen.resolve_left (by decide)⟩

/-- A literal is opened on that line and never closed on it, and a secret is found in what is printed
next. -/
theorem open_literal_of_quoteJoiner :
    let config : Config := ⟨⟨1, "flag"⟩, none, true⟩
    (Layer.mk (some 1) none none none).build = .ok config ∧
    ∃ d e, decompile quoteJoiner config = .ok d ∧
      (config.explorer d.instructions).explore Explorer.roundLimit = .complete e ∧
      d.pseudocode = functionText e.lines ∧
      (∃ line ∈ e.lines, LiteralState.outside.after line.toList ≠ .outside) ∧
      recoverSecret d.pseudocode = "e" := by
  intro config
  obtain ⟨d, e, hd, he, hpseudocode, hlines⟩ := exists_complete_quoteJoiner
  refine ⟨rfl, d, e, hd, he, hpseudocode, ⟨"puts((flag + \"));", by simp [hlines], by decide⟩, ?_⟩
  rw [hpseudocode, hlines]
  decide +kernel

end Lifter

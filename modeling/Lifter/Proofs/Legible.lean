import Lifter.Config.Basic
import Lifter.Proofs.AddendScan
import Lifter.Proofs.Growth
import Lifter.Proofs.ValueClass

/-!
# The addends in pseudocode

A scan for addends finds numerals that stand after a plus sign. Seen from the expressions that are
written, these are the known texts on the right of a sum: **right addends**. That it finds those and
nothing else needs expressions whose parts cannot be mistaken for one another, and arithmetic and
operations on last characters build no others.

* `Expression.rightAddends`, `StatementTree.rightAddends`: right addends in the order in which they
  are written.
* `reads_identifier`, `isIdentifier_bufferName`: the names of buffers give a scan nothing.
* `Expression.Legible`, **`Expression.stable_legible`**: expressions in which a scan finds their
  right addends, and that operations on values build no others.
* `StatementTree.Legible`, **`StatementTree.Legible.readLines`**: the same for all lines of a tree.
-/

namespace Lifter

/-! ## Right addends -/

/-- The text of a value, if it is known. -/
def Value.known? : Value → Option String
  | concrete text => some text
  | symbolic _ => none

mutual

/-- The known texts that an expression adds on the right, in the order in which they are written. -/
def Expression.rightAddends : Expression → List String
  | .identifier _ => []
  | .buffer _ _ => []
  | .unary _ argument => argument.rightAddends
  | .binary operator left right =>
    left.rightAddends ++ (if operator = "+" then right.known?.toList else []) ++ right.rightAddends
  | .member object property => object.rightAddends ++ property.rightAddends

/-- The known texts that a value adds on the right. A known text adds nothing by itself. -/
def Value.rightAddends : Value → List String
  | .concrete _ => []
  | .symbolic expression => expression.rightAddends

end

/-- The right addends in what a statement prints. -/
def Statement.rightAddends : Statement → List String
  | print value => value.rightAddends
  | _ => []

/-- The right addends in the two sides of a test. -/
def Comparison.rightAddends (test : Comparison) : List String :=
  test.left.rightAddends ++ test.right.rightAddends

/-- The right addends in a node. -/
def Node.rightAddends : Node Statement Comparison → List String
  | linear statements _ => statements.toList.flatMap Statement.rightAddends
  | conditional test _ _ => test.rightAddends

/-- The right addends in the subtree at a node, in the order of its lines. -/
def StatementTree.rightAddends (tree : StatementTree Statement Comparison) (id : NodeId) :
    List String :=
  (tree.descend id).flatMap fun entry => entry.2.rightAddends

/-- The character whose code a numeral without sign gives. -/
def Text.codedChar? (numeral : String) : Option Char :=
  (Text.readNatural? numeral.toList).bind Text.charOfCode?

/-! ## Identifiers -/

theorem isIdentifier_iff {name : String} : isIdentifier name = true ↔
    ∃ c text, name.toList = c :: text ∧ (c = '_' ∨ c.isAlpha = true) ∧
      ∀ x ∈ text, isIdentifierChar x = true := by
  unfold isIdentifier
  cases name.toList <;> simp

theorem isDigit_of_isAlpha {c : Char} (h : c.isAlpha = true) : c.isDigit = false := by
  have hcase : c.isUpper = true ∨ c.isLower = true := Bool.or_eq_true_iff.mp h
  have hletter : 0x41 ≤ c.toNat := by
    rcases hcase with hupper | hlower
    · exact (of_decide_eq_true hupper).1
    · have hlow : 0x61 ≤ c.toNat := of_decide_eq_true (Bool.and_eq_true_iff.mp hlower).1
      omega
  rw [Bool.eq_false_iff]
  intro hdigit
  have hhigh : c.toNat ≤ 0x39 := of_decide_eq_true (Bool.and_eq_true_iff.mp hdigit).2
  omega

theorem firstNonDigit_identifier {name : String} (h : isIdentifier name = true) :
    FirstNonDigit name := by
  obtain ⟨c, text, hname, hc, -⟩ := isIdentifier_iff.mp h
  refine ⟨c, text, hname, ?_⟩
  rcases hc with rfl | hc
  · rfl
  · exact isDigit_of_isAlpha hc

theorem isIdentifierChar_of_mem {name : String} (h : isIdentifier name = true) {x : Char}
    (hx : x ∈ name.toList) : isIdentifierChar x = true := by
  obtain ⟨c, text, hname, hc, htext⟩ := isIdentifier_iff.mp h
  rw [hname] at hx
  rcases List.mem_cons.mp hx with rfl | hx
  · rcases hc with rfl | hc
    · rfl
    · simp [isIdentifierChar, Char.isAlphanum, hc]
  · exact htext x hx

theorem reads_identifier {name : String} (h : isIdentifier name = true) : Reads name [] := by
  refine reads_of_isPlain (isPlain_iff.mpr fun x hx => ?_)
  have hchar := isIdentifierChar_of_mem h hx
  constructor <;> rintro rfl <;> revert hchar <;> decide

/-- The buffers of a program are named by identifiers if the first one is. -/
theorem isIdentifier_bufferName {input : Input} (h : isIdentifier input.name = true) (reads : Nat) :
    isIdentifier (input.bufferName reads) = true := by
  unfold Input.bufferName
  split
  · exact h
  · obtain ⟨c, text, hname, hc, htext⟩ := isIdentifier_iff.mp h
    refine isIdentifier_iff.mpr
      ⟨c, text ++ '_' :: (Text.decimal reads).toList, by simp [hname], hc, fun x hx => ?_⟩
    rcases List.mem_append.mp hx with hx | hx
    · exact htext x hx
    · rcases List.mem_cons.mp hx with rfl | hx
      · rfl
      · simp [isIdentifierChar, Char.isAlphanum, Text.isDigit_of_mem_decimal hx]

/-! ## Legible expressions -/

/-- The codes among some numerals that a scan can find. -/
def codesOf (numerals : List String) : List Nat :=
  numerals.filterMap fun numeral => leadingNumber? numeral.toList

@[simp] theorem codesOf_append (l m : List String) : codesOf (l ++ m) = codesOf l ++ codesOf m := by
  simp [codesOf]

/-- An expression whose right addends are what a scan finds in its written form. -/
structure Expression.Legible (e : Expression) : Prop where
  reads : Reads e.text (codesOf e.rightAddends)
  first : FirstNonDigit e.text
  numerals : ∀ numeral ∈ e.rightAddends, ∃ n : Int, numeral = Text.signedDecimal n

namespace Expression

theorem legible_buffer {name : String} (h : isIdentifier name = true) (length : Option Nat) :
    (buffer name length).Legible where
  reads := reads_identifier h
  first := firstNonDigit_identifier h
  numerals := by simp [rightAddends]

theorem firstNonDigit_paren (s : String) : FirstNonDigit ("(" ++ s) :=
  FirstNonDigit.append ⟨'(', [], rfl, rfl⟩ s

variable {e : Expression} {l r : Value}

theorem Legible.negate (h : e.Legible) : (unary "-" (.symbolic e)).Legible where
  reads := (h.reads.after (reads_of_isPlain (by decide))).before (reads_of_isPlain (by decide))
  first := by
    simp only [text, String.append_assoc]
    exact firstNonDigit_paren _
  numerals := h.numerals

/-- A part of a legible expression, if nothing is added in the brackets. -/
theorem Legible.member (h : e.Legible) {property : Value} (hreads : Reads property.text [])
    (hnone : property.rightAddends = []) : (member e property).Legible where
  reads := by
    simp only [text, rightAddends, hnone, List.append_nil]
    exact ((h.reads.before (reads_of_isPlain (by decide))).before hreads).before
      (reads_of_isPlain (by decide))
  first := by
    simp only [text, String.append_assoc]
    exact h.first.append _
  numerals := by simpa [rightAddends, hnone] using h.numerals

/-- The generic form of a last code writes the object twice, and a literal between. -/
theorem Legible.lastCode (h : e.Legible) :
    (Expression.member e (.symbolic e.lastIndex)).Legible := by
  have haddends : (Expression.member e (.symbolic e.lastIndex)).rightAddends =
      e.rightAddends ++ e.rightAddends := by
    simp [rightAddends, lastIndex, Value.rightAddends]
  refine ⟨?_, ?_, ?_⟩
  · have hlength : Reads "\"length\"" [] := reads_literal "length"
    have hobject : Reads (e.text ++ "[" ++ "\"length\"" ++ "]") (codesOf e.rightAddends) :=
      ((h.reads.before (reads_of_isPlain (by decide))).before hlength).before
        (reads_of_isPlain (by decide))
    have hindex : Reads ("(" ++ (e.text ++ "[" ++ "\"length\"" ++ "]") ++
        (" " ++ "-" ++ " " ++ "1" ++ ")" ++ "]")) (codesOf e.rightAddends) :=
      (hobject.after (reads_of_isPlain (by decide))).before (reads_of_isPlain (by decide))
    have hwhole := (h.reads.before (t := "[") (reads_of_isPlain (by decide))).append hindex
    rw [haddends, codesOf_append]
    simpa only [text, lastIndex, Value.text, String.append_assoc] using hwhole
  · simp only [text, String.append_assoc]
    exact h.first.append _
  · intro numeral hmem
    rw [haddends, List.mem_append] at hmem
    exact h.numerals numeral (hmem.elim id id)

/-- An operand of a sum on the left. -/
theorem reads_summand (h : l.Summand Legible) : Reads l.text (codesOf l.rightAddends) := by
  rcases h with ⟨e, rfl, he⟩ | ⟨n, -, rfl⟩
  · exact he.reads
  · exact reads_signedDecimal n

/-- An operand of a sum on the right: only here a numeral is found. -/
theorem reads_plus_summand (h : r.Summand Legible) :
    Reads ("+ " ++ r.text ++ ")") (codesOf (r.known?.toList ++ r.rightAddends)) := by
  rcases h with ⟨e, rfl, he⟩ | ⟨n, -, rfl⟩
  · exact (he.reads.plus he.first).before (reads_of_isPlain (by decide))
  · have hcodes : codesOf ((Value.ofInt n).known?.toList ++ (Value.ofInt n).rightAddends) =
        (leadingNumber? (Text.signedDecimal n).toList).toList := by
      simp only [Value.ofInt, Value.known?, Value.rightAddends, Option.toList_some, codesOf,
        List.append_nil, List.filterMap_cons, List.filterMap_nil]
      cases leadingNumber? (Text.signedDecimal n).toList <;> rfl
    rw [hcodes]
    exact reads_plus_numeral n

theorem numerals_summand (h : l.Summand Legible) :
    ∀ numeral ∈ l.known?.toList ++ l.rightAddends, ∃ n : Int, numeral = Text.signedDecimal n := by
  rcases h with ⟨e, rfl, he⟩ | ⟨n, -, rfl⟩
  · exact he.numerals
  · intro numeral hmem
    exact ⟨n, List.mem_singleton.mp hmem⟩

theorem legible_add (hl : l.Summand Legible) (hr : r.Summand Legible) :
    (binary "+" l r).Legible := by
  have haddends : (binary "+" l r).rightAddends =
      l.rightAddends ++ (r.known?.toList ++ r.rightAddends) := by
    simp [rightAddends]
  have htext : (binary "+" l r).text = "(" ++ l.text ++ " " ++ ("+ " ++ r.text ++ ")") := by
    simp only [text, String.append_assoc]
    rfl
  refine ⟨?_, ?_, ?_⟩
  · rw [haddends, htext, codesOf_append]
    exact (((reads_summand hl).after (reads_of_isPlain (by decide))).before
      (reads_of_isPlain (by decide))).append (reads_plus_summand hr)
  · simp only [htext, String.append_assoc]
    exact firstNonDigit_paren _
  · intro numeral hmem
    rw [haddends, List.mem_append] at hmem
    rcases hmem with hmem | hmem
    · exact numerals_summand hl numeral (List.mem_append_right _ hmem)
    · exact numerals_summand hr numeral hmem

/-- **Legible expressions stay legible** under arithmetic and operations on last characters. -/
theorem stable_legible : Stable Legible where
  negate := Legible.negate
  add hl hr _ := legible_add hl hr
  code h := h.member (reads_decimal _) rfl
  lastCode := Legible.lastCode
  shorten h := ⟨h.reads, h.first, h.numerals⟩
  dropLast h := h.member (reads_of_isPlain (by decide)) rfl

end Expression

/-! ## Legible pseudocode -/

theorem Value.Within.reads_operand {v : Value} (h : v.Within Expression.Legible) :
    Reads v.operand (codesOf v.rightAddends) := by
  cases v with
  | concrete text => exact reads_literal text
  | symbolic e => exact h.reads

theorem Value.Within.numerals {v : Value} (h : v.Within Expression.Legible) :
    ∀ numeral ∈ v.rightAddends, ∃ n : Int, numeral = Text.signedDecimal n := by
  cases v with
  | concrete text => simp [rightAddends]
  | symbolic e => exact Expression.Legible.numerals h

/-- A statement that prints a legible value, or names its buffer by an identifier. -/
def Statement.Legible : Statement → Prop
  | print value => value.Within Expression.Legible
  | declare name _ => isIdentifier name = true
  | scan name => isIdentifier name = true
  | _ => True

theorem Statement.Legible.reads {st : Statement} (h : st.Legible) :
    Reads st.text (codesOf st.rightAddends) := by
  cases st with
  | print value =>
    exact (Value.Within.reads_operand h |>.after (reads_of_isPlain (by decide))).before
      (reads_of_isPlain (by decide))
  | declare name length =>
    have hname : Reads ("char " ++ name ++ "[") [] :=
      ((reads_identifier h).after (reads_of_isPlain (by decide))).before (reads_of_isPlain (by decide))
    exact (hname.append (reads_decimal length)).before (reads_of_isPlain (by decide))
  | scan name =>
    have hformat : Reads "scanf(\"%s\", " [] := by
      have hliteral := (reads_literal "%s").after (s := "scanf(") (reads_of_isPlain (by decide))
      exact hliteral.before (t := ", ") (reads_of_isPlain (by decide))
    exact ((reads_identifier h).after hformat).before (reads_of_isPlain (by decide))
  | ret => exact reads_of_isPlain (by decide)
  | unknownPath => exact reads_of_isPlain (by decide)
  | explorationTruncated => exact reads_of_isPlain (by decide)
  | endOfProgram => exact reads_of_isPlain (by decide)

/-- A test of two legible values. -/
def Comparison.Legible (test : Comparison) : Prop :=
  test.left.Within Expression.Legible ∧ test.right.Within Expression.Legible

theorem Comparison.Legible.reads {test : Comparison} (h : test.Legible) :
    Reads test.text (codesOf test.rightAddends) := by
  have hoperator : Reads test.condition.operator [] := by
    cases test.condition <;> exact reads_of_isPlain (by decide)
  rw [Comparison.rightAddends, codesOf_append]
  refine Reads.append ?_ h.2.reads_operand
  exact ((h.1.reads_operand.before (reads_of_isPlain (by decide))).before hoperator).before
    (reads_of_isPlain (by decide))

/-- A node with legible statements or a legible test. -/
def Node.Legible : Node Statement Comparison → Prop
  | linear statements _ => ∀ st ∈ statements, st.Legible
  | conditional test _ _ => test.Legible

theorem Node.Legible.numerals {node : Node Statement Comparison} (h : node.Legible) :
    ∀ numeral ∈ node.rightAddends, ∃ n : Int, numeral = Text.signedDecimal n := by
  intro numeral hmem
  cases node with
  | linear statements next =>
    obtain ⟨st, hst, hmem⟩ := List.mem_flatMap.mp hmem
    cases st with
    | print value => exact Value.Within.numerals (h _ (Array.mem_toList_iff.mp hst)) numeral hmem
    | _ => cases hmem
  | conditional test consequent alternate =>
    rcases List.mem_append.mp hmem with hmem | hmem
    · exact h.1.numerals numeral hmem
    · exact h.2.numerals numeral hmem

namespace StatementTree

variable {tree : StatementTree Statement Comparison}

/-- A tree of legible nodes. -/
def Legible (tree : StatementTree Statement Comparison) : Prop :=
  ∀ id node, tree.node? id = some node → node.Legible

theorem readLines_statements {statements : List Statement} (h : ∀ st ∈ statements, st.Legible) :
    ReadLines (statements.map Spelled.text)
      (codesOf (statements.flatMap Statement.rightAddends)) := by
  induction statements with
  | nil => exact readLines_nil
  | cons st rest ih =>
    rw [List.map_cons, List.flatMap_cons, codesOf_append]
    exact .cons (h st List.mem_cons_self).reads (ih fun st hst => h st (List.mem_cons_of_mem _ hst))

/-- **The lines of a legible tree** give the right addends of its nodes. -/
theorem Legible.readLines (h : tree.Legible) (depth : Nat) (id : NodeId) :
    ReadLines (tree.linesWithin depth id)
      (codesOf ((tree.descendWithin depth id).flatMap fun entry => entry.2.rightAddends)) := by
  -- lines and nodes are collected by the same recursion
  induction depth generalizing id with
  | zero => exact readLines_nil
  | succ depth ih =>
    unfold linesWithin descendWithin
    cases hnode : tree.node? id with
    | none => exact readLines_nil
    | some node =>
      have hlegible := h id node hnode
      cases node with
      | linear statements next =>
        have hown := readLines_statements fun st hst => hlegible st (Array.mem_toList_iff.mp hst)
        rw [List.flatMap_cons, codesOf_append]
        cases next with
        | none => exact hown.append readLines_nil
        | some next => exact hown.append (ih next)
      | conditional test consequent alternate =>
        rw [List.flatMap_cons, List.flatMap_append, codesOf_append, codesOf_append]
        exact .conditional (Comparison.Legible.reads hlegible) (ih consequent) (ih alternate)

theorem node?_of_mem_descendWithin {depth : Nat} {id : NodeId}
    {entry : NodeId × Node Statement Comparison} (h : entry ∈ tree.descendWithin depth id) :
    tree.node? entry.1 = some entry.2 := by
  induction depth generalizing id with
  | zero => cases h
  | succ depth ih =>
    unfold descendWithin at h
    cases hnode : tree.node? id with
    | none => simp [hnode] at h
    | some node =>
      simp only [hnode] at h
      rcases List.mem_cons.mp h with rfl | h
      · exact hnode
      · cases node with
        | linear statements next =>
          cases next with
          | none => cases h
          | some next => exact ih h
        | conditional test consequent alternate =>
          rcases List.mem_append.mp h with h | h
          · exact ih h
          · exact ih h

/-- In a legible tree only numerals are added on the right. -/
theorem Legible.numerals (h : tree.Legible) (id : NodeId) :
    ∀ numeral ∈ tree.rightAddends id, ∃ n : Int, numeral = Text.signedDecimal n := by
  intro numeral hmem
  obtain ⟨entry, hentry, hmem⟩ := List.mem_flatMap.mp hmem
  exact (h _ _ (node?_of_mem_descendWithin hentry)).numerals numeral hmem

/-! ### Making and filling nodes -/

theorem Legible.replace (h : tree.Legible) {node : Node Statement Comparison} (hnode : node.Legible)
    (id : NodeId) : (tree.replace id node).Legible :=
  Every.replace h hnode id

theorem Legible.add (h : tree.Legible) {node : Node Statement Comparison} (hnode : node.Legible) :
    (tree.add node).2.Legible :=
  Every.add h hnode

theorem Legible.graft (h : tree.Legible) {statements : Array Statement} {test : Comparison}
    (hstatements : ∀ st ∈ statements, st.Legible) (htest : test.Legible) (id : NodeId) :
    (tree.graft id statements test).Legible :=
  Every.graft h (by simp [Node.Legible]) (fun _ _ => htest) (fun _ => hstatements) id

theorem Legible.append (h : tree.Legible) {st : Statement} (hst : st.Legible) {id : NodeId}
    {tree' : StatementTree Statement Comparison} (happend : tree.append id st = .ok tree') :
    tree'.Legible := by
  unfold StatementTree.append at happend
  split at happend
  · rename_i statements next hnode
    cases happend
    have hpushed : Node.Legible (.linear (statements.push st) next) := by
      intro st' hst'
      rcases Array.mem_push.mp hst' with hst' | rfl
      · exact h id _ hnode st' hst'
      · exact hst
    exact h.replace hpushed id
  · cases happend

end StatementTree

end Lifter

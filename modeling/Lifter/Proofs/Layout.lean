import Lifter.Proofs.Brackets
import Lifter.Proofs.TreeShape

/-!
# Layout of statement trees

A statement tree is written as a list of lines, in which only tabs and braces tell where a branch
ends. Nothing is lost in this: a statement never looks like a delimiter and never starts with a tab,
so the first opener ends the statements of a node and the first line that is not indented ends a
branch.

* `Sketch`: the part of a statement tree below a node, without the names of nodes.
* `Growth.lines_sketch`, `Growth.Spans.sketch_eq`: a tree in which nodes fit together has an
  sketch, and its lines are those of the sketch.
* **`Growth.sketch_eq_of_lines`**: the sketch can be read from the lines.
* **`Growth.block_lines`**: the lines are a block.
* **`Explorer.lines_eq_iff_sketch`**: so it is with the trees of explorations.
-/

namespace Lifter

/-! ## Sketches -/

/-- The texts below a node of a statement tree, in their places. -/
inductive Sketch where
  /-- A linear node that nothing follows. -/
  | last (statements : List String)
  /-- A linear node with what follows it. -/
  | followed (statements : List String) (next : Sketch)
  | conditional (test : String) (consequent alternate : Sketch)
  deriving DecidableEq

/-- The lines of an sketch. -/
def Sketch.lines : Sketch → List String
  | last statements => statements
  | followed statements next => statements ++ next.lines
  | conditional test consequent alternate =>
    StatementTree.conditionalLines test consequent.lines alternate.lines

section

variable {σ τ : Type} [Spelled σ] [Spelled τ]

/-- The sketch of the subtree at a node; there is none if names do not fit together or a way down
is longer than `depth` nodes. -/
def StatementTree.sketchWithin (tree : StatementTree σ τ) : (depth : Nat) → NodeId → Option Sketch
  | 0, _ => none
  | depth + 1, id =>
    match tree.node? id with
    | none => none
    | some (.linear statements none) => some (.last (statements.toList.map Spelled.text))
    | some (.linear statements (some next)) =>
      (tree.sketchWithin depth next).map (.followed (statements.toList.map Spelled.text))
    | some (.conditional test consequent alternate) => do
      let consequent ← tree.sketchWithin depth consequent
      let alternate ← tree.sketchWithin depth alternate
      return .conditional (Spelled.text test) consequent alternate

/-- The sketch of the subtree at a node. -/
def StatementTree.sketch (tree : StatementTree σ τ) (id : NodeId) : Option Sketch :=
  tree.sketchWithin tree.size id

namespace Growth

variable {g g' : Growth σ τ} {tree : StatementTree σ τ} {root : NodeId}

/-- The sketch of a growth. -/
def sketch : Growth σ τ → Sketch
  | tip _ statements => .last (statements.toList.map Spelled.text)
  | fork _ statements _ test consequent alternate =>
    .followed (statements.toList.map Spelled.text)
      (.conditional (Spelled.text test) consequent.sketch alternate.sketch)

theorem lines_tip (id : NodeId) (statements : Array σ) :
    (tip id statements : Growth σ τ).lines = statements.toList.map Spelled.text := by
  simp [lines, linesWith]

theorem lines_fork (id : NodeId) (statements : Array σ) (joint : NodeId) (test : τ)
    (c a : Growth σ τ) : (fork id statements joint test c a).lines =
      statements.toList.map Spelled.text ++
        StatementTree.conditionalLines (Spelled.text test) c.lines a.lines := rfl

theorem lines_sketch (g : Growth σ τ) : g.sketch.lines = g.lines := by
  induction g with
  | tip i statements => rw [lines_tip]; rfl
  | fork i statements joint test c a ihc iha =>
    rw [lines_fork, ← ihc, ← iha]; rfl

theorem HeldBy.sketchWithin_root {depth : Nat} (h : g.HeldBy tree) (hd : g.ids.length ≤ depth) :
    tree.sketchWithin depth g.root = some g.sketch := by
  induction g generalizing depth with
  | tip i statements =>
    obtain ⟨depth, rfl⟩ := Nat.exists_eq_add_of_le' (show 1 ≤ depth from hd)
    have hi : tree.node? i = some (.linear statements none) := h
    simp only [root_tip, StatementTree.sketchWithin, hi, sketch]
  | fork i statements joint test c a ihc iha =>
    obtain ⟨hi, hj, hc, ha⟩ := h
    simp only [ids, List.length_cons, List.length_append] at hd
    obtain ⟨depth, rfl⟩ := Nat.exists_eq_add_of_le' (show 2 ≤ depth by omega)
    simp only [root_fork, StatementTree.sketchWithin, hi, hj]
    rw [ihc hc (by omega), iha ha (by omega)]
    rfl

theorem Spans.sketch_eq (h : g.Spans tree root) : tree.sketch root = some g.sketch := by
  rw [StatementTree.sketch, ← h.root_eq]
  exact h.held.sketchWithin_root (Nat.le_of_eq h.length_ids)

/-! ## Reading lines -/

/-- No statement starts with a tab or looks like a delimiter. -/
def PlainTexts (σ : Type) [Spelled σ] : Prop :=
  ∀ st : σ, Mark.ofLine (Spelled.text st) = ⟨.statement, 0⟩

theorem plainTexts_statement : PlainTexts Statement := by
  intro st
  cases st with
  | print value =>
    exact Mark.ofLine_statement (c := 'p') (by simp [Spelled.text, Statement.text]) (by decide)
  | declare name length =>
    exact Mark.ofLine_statement (c := 'c') (by simp [Spelled.text, Statement.text]) (by decide)
  | scan name =>
    exact Mark.ofLine_statement (c := 's') (by simp [Spelled.text, Statement.text]) (by decide)
  | ret | unknownPath | explorationTruncated | endOfProgram => decide

theorem indent_injective : Function.Injective StatementTree.indent := by
  refine List.map_injective_iff.mpr fun s t h => ?_
  exact String.append_right_inj _ |>.mp h

theorem tabs_indent {lines : List String} {line : String} (h : line ∈ StatementTree.indent lines) :
    (Mark.ofLine line).tabs ≠ 0 := by
  obtain ⟨bare, -, rfl⟩ := List.mem_map.mp h
  rw [Mark.ofLine_tab]
  exact Nat.succ_ne_zero _

/-- Two lists that start with lines of which `P` fails and go on with one of which it holds are
equal only part by part. -/
theorem append_cons_inj {P : String → Prop} {before before' after after' : List String}
    {line line' : String} (hb : ∀ l ∈ before, ¬ P l) (hb' : ∀ l ∈ before', ¬ P l) (hl : P line)
    (hl' : P line') (h : before ++ line :: after = before' ++ line' :: after') :
    before = before' ∧ line = line' ∧ after = after' := by
  induction before generalizing before' with
  | nil =>
    cases before' with
    | nil => exact ⟨rfl, List.cons.inj h⟩
    | cons l rest => exact absurd ((List.cons.inj h).1 ▸ hl) (hb' l List.mem_cons_self)
  | cons l rest ih =>
    obtain ⟨hb₀, hb₁⟩ := List.forall_mem_cons.mp hb
    cases before' with
    | nil => exact absurd ((List.cons.inj h).1 ▸ hl') hb₀
    | cons l' rest' =>
      obtain ⟨rfl, htail⟩ := List.cons.inj h
      obtain ⟨rfl, heq⟩ := ih hb₁ (List.forall_mem_cons.mp hb').2 htail
      exact ⟨rfl, heq⟩

/-- The lines of a conditional tell its test and its branches. -/
theorem conditionalLines_inj {test test' : String} {c c' a a' : List String}
    (h : StatementTree.conditionalLines test c a = StatementTree.conditionalLines test' c' a') :
    test = test' ∧ c = c' ∧ a = a' := by
  simp only [StatementTree.conditionalLines, List.cons_append, List.append_assoc] at h
  obtain ⟨hopener, hrest⟩ := List.cons.inj h
  -- the first line without a tab ends the consequent
  obtain ⟨hc, -, ha⟩ := append_cons_inj (P := fun line => (Mark.ofLine line).tabs = 0)
    (fun _ => tabs_indent) (fun _ => tabs_indent) (by decide) (by decide) hrest
  refine ⟨?_, indent_injective hc, indent_injective (List.append_cancel_right ha)⟩
  exact (String.append_right_inj _).mp ((String.append_left_inj _).mp hopener)

section

variable (hσ : PlainTexts σ)
include hσ

theorem not_opener_of_mem {statements : Array σ} :
    ∀ line ∈ statements.toList.map Spelled.text, ¬ (Mark.ofLine line).kind = .opener := by
  intro line h
  obtain ⟨st, -, rfl⟩ := List.mem_map.mp h
  rw [hσ st]
  nofun

theorem lines_tip_ne_fork {i i' joint : NodeId} {statements statements' : Array σ} {test : τ}
    {c a : Growth σ τ} :
    (tip i statements : Growth σ τ).lines ≠ (fork i' statements' joint test c a).lines := by
  rw [lines_tip, lines_fork]
  intro h
  have hmem : "if (" ++ Spelled.text test ++ ") \x7b" ∈ statements.toList.map Spelled.text := by
    rw [h]
    simp [StatementTree.conditionalLines]
  exact not_opener_of_mem hσ _ hmem (by rw [Mark.ofLine_opener])

/-- **The sketch of a growth can be read from its lines.** -/
theorem sketch_eq_of_lines (h : g.lines = g'.lines) : g.sketch = g'.sketch := by
  induction g generalizing g' with
  | tip i statements =>
    cases g' with
    | tip i' statements' =>
      rw [lines_tip, lines_tip] at h
      rw [sketch, sketch, h]
    | fork i' statements' joint' test' c' a' => exact absurd h (lines_tip_ne_fork hσ)
  | fork i statements joint test c a ihc iha =>
    cases g' with
    | tip i' statements' => exact absurd h.symm (lines_tip_ne_fork hσ)
    | fork i' statements' joint' test' c' a' =>
      rw [lines_fork, lines_fork] at h
      -- the first opener ends the statements
      obtain ⟨hs, -, -⟩ := append_cons_inj (not_opener_of_mem hσ) (not_opener_of_mem hσ)
        (by rw [Mark.ofLine_opener]) (by rw [Mark.ofLine_opener]) h
      rw [hs] at h
      obtain ⟨ht, hc, ha⟩ := conditionalLines_inj (List.append_cancel_left h)
      simp only [sketch, hs, ht, ihc hc, iha ha]

/-- **The lines of a growth are a block.** -/
theorem block_lines (g : Growth σ τ) : Block 0 (g.lines.map Mark.ofLine) := by
  have hplain (statements : Array σ) : ∀ m ∈ (statements.toList.map Spelled.text).map Mark.ofLine,
      m = ⟨.statement, 0⟩ := by
    intro m hm
    obtain ⟨line, hline, rfl⟩ := List.mem_map.mp hm
    obtain ⟨st, -, rfl⟩ := List.mem_map.mp hline
    exact hσ st
  have hindent (lines : List String) : (StatementTree.indent lines).map Mark.ofLine =
      (lines.map Mark.ofLine).map Mark.deeper := by
    simp [StatementTree.indent]
  induction g with
  | tip i statements =>
    rw [lines_tip, ← List.append_nil (List.map Mark.ofLine _)]
    exact .statements (hplain statements) .nil
  | fork i statements joint test c a ihc iha =>
    rw [lines_fork, List.map_append]
    refine .statements (hplain statements) ?_
    simp only [StatementTree.conditionalLines, List.map_cons, List.map_append, List.cons_append,
      List.append_assoc, Mark.ofLine_opener, Mark.ofLine_divider, Mark.ofLine_closer, hindent,
      List.map_nil]
    exact .conditional ihc.deeper iha.deeper .nil

end

end Growth

end

/-! ## Explorations -/

namespace Explorer

variable {program program' : Program} {input input' : Input} {budget budget' : Option Nat}
  {e e' : Explorer}

/-- **Nothing is lost in the lines of an exploration.** Whatever is explored, equal lines come from
trees that are equal but for the names of their nodes, and the lines are bracketed. -/
theorem lines_eq_iff_sketch (h : Reachable program input budget e)
    (h' : Reachable program' input' budget' e') :
    (e.lines = e'.lines ↔ e.tree.sketch e.root = e'.tree.sketch e'.root) ∧
    (∃ sketch, e.tree.sketch e.root = some sketch ∧ sketch.lines = e.lines) ∧
    Bracketed (e.lines.map Mark.ofLine) := by
  obtain ⟨g, hg⟩ := h.exists_grown
  obtain ⟨g', hg'⟩ := h'.exists_grown
  have hlines : e.lines = g.lines := hg.spans.lines_eq
  have hlines' : e'.lines = g'.lines := hg'.spans.lines_eq
  rw [hg.spans.sketch_eq, hg'.spans.sketch_eq, hlines, hlines', Option.some_inj]
  refine ⟨⟨Growth.sketch_eq_of_lines Growth.plainTexts_statement, fun heq => ?_⟩,
    ⟨_, rfl, g.lines_sketch⟩, (Growth.block_lines Growth.plainTexts_statement g).bracketed⟩
  rw [← g.lines_sketch, ← g'.lines_sketch, heq]

/-- A test in both branches of another one. In the second program the consequent comes to its test
one instruction later, so the nodes have other names there, but the lines are the same. -/
theorem sketch_eq_of_late_test :
    let first : List Placed := [⟨0, .set ⟨5⟩ "2"⟩, ⟨1, .set ⟨8⟩ "3"⟩,
      ⟨2, .branch .less ⟨5⟩ ⟨6⟩ ⟨7⟩⟩, ⟨3, .branch .equal ⟨8⟩ ⟨6⟩ ⟨7⟩⟩, ⟨4, .ret⟩]
    let early := first ++ [⟨5, .branch .equal ⟨8⟩ ⟨6⟩ ⟨7⟩⟩, ⟨7, .ret⟩, ⟨9, .ret⟩]
    let late := first ++
      [⟨5, .clear ⟨6⟩⟩, ⟨6, .branch .equal ⟨8⟩ ⟨6⟩ ⟨7⟩⟩, ⟨7, .ret⟩, ⟨10, .ret⟩]
    let e := ((initial (.ofList early) ⟨1, "flag"⟩ none).explore 8).explorer
    let e' := ((initial (.ofList late) ⟨1, "flag"⟩ none).explore 8).explorer
    e.tree.target? (.next ⟨1⟩) = some ⟨6⟩ ∧ e'.tree.target? (.next ⟨1⟩) = some ⟨9⟩ ∧
    e.tree.sketch e.root = e'.tree.sketch e'.root ∧ Bracketed (e.lines.map Mark.ofLine) := by
  intro first early late e e'
  have hearly : Reachable (.ofList early) ⟨1, "flag"⟩ none e := .explore 8 .initial
  have hlate : Reachable (.ofList late) ⟨1, "flag"⟩ none e' := .explore 8 .initial
  have h := lines_eq_iff_sketch hearly hlate
  exact ⟨by decide +kernel, by decide +kernel, h.1.mp (by decide +kernel), h.2.2⟩

end Explorer

end Lifter

import Lifter.Decompile
import Lifter.Proofs.Legible
import Lifter.Proofs.Schedule

/-!
# What a recovered secret is made of

The secret that is recovered from pseudocode is read off characters. Here it is traced back to what
the program computed: each of its characters is the code of a right addend in a test or in a printed
value, and none of these is missed. This holds as long as no step joins values into an expression,
since joining is written as a sum as well.

* `Path.legible_of_step`: what a step emits, tests and holds.
* `Explorer.Moment.Joining`: the next step joins values into an expression.
* `Explorer.Moment.Legible.step`, `Explorer.Moment.Legible.after`: legible moments of a run.
* **`Explorer.legible_of_complete`**: the tree of a complete exploration.
* **`recoverSecret_eq_rightAddends`**: the secret in the result of decompiling.
-/

namespace Lifter

/-! ## Legible runs -/

/-- A step that emits and tests what is legible, and leaves legible registers. -/
structure Step.Legible (step : Step) : Prop where
  emitted : ∀ st ∈ step.emitted, st.Legible
  registers : step.path.registers.Within Expression.Legible
  test : ∀ test target, step.outcome = .forked test target → test.Legible

namespace Path

variable {path : Path} {program : Program} {input : Input} {step : Step}

theorem legible_placeholder (error : PathError) : error.placeholder.Legible := by
  cases error <;> trivial

/-- **What a step emits and tests** is legible if the registers are. -/
theorem legible_of_run {instruction : Instruction}
    (hrun : run program input path instruction = .ok step)
    (hname : isIdentifier input.name = true)
    (h : path.registers.Within Expression.Legible)
    (hregisters : step.path.registers.Within Expression.Legible) : step.Legible := by
  have hwrite {result : Except EvalError Value} {target : Register}
      (hrun : (path.attempt result).map (path.write target) = .ok step) : step.Legible := by
    cases result with
    | error error => cases hrun
    | ok value =>
      cases hrun
      exact ⟨by simp [write], hregisters, by simp [write]⟩
  cases instruction with
  | jump offset => cases hrun
  | branch condition offset left right =>
    have hbranch : path.branch program condition offset left right = .ok step := hrun
    rcases branch_cases hbranch with ⟨error, -, rfl⟩ | ⟨position, rfl⟩
    · exact ⟨by simpa [stop] using legible_placeholder error, h, by simp [stop]⟩
    · refine ⟨by simp, h, ?_⟩
      rintro test target ⟨⟩
      exact ⟨h left, h right⟩
  | clear | set | append | concat | dropLast =>
    cases hrun
    exact ⟨by simp [write], hregisters, by simp [write]⟩
  | add | negate | character | lastCode => exact hwrite hrun
  | print source =>
    cases hrun
    exact ⟨by simpa [Statement.Legible] using h source, h, by simp⟩
  | read target =>
    cases hrun
    have hbuffer := isIdentifier_bufferName hname path.reads
    exact ⟨by simp [readInput, Statement.readInput, Statement.Legible, hbuffer], hregisters,
      by simp [readInput]⟩
  | ret =>
    cases hrun
    exact ⟨by simp [Statement.Legible], h, by simp⟩

theorem legible_of_step (hstep : path.step program input = .ok step)
    (hname : isIdentifier input.name = true) (h : path.registers.Within Expression.Legible)
    (hjoin : ∀ l r, path.joined? program = some (l, r) → ¬ l.Joins r) : step.Legible := by
  have hregisters : step.path.registers.Within Expression.Legible := by
    refine within_of_step Expression.stable_legible h (fun _ _ => ?_) (fun l r hlr hj => ?_) hstep
    · exact Expression.legible_buffer (isIdentifier_bufferName hname _) _
    · exact absurd hj (hjoin l r hlr)
  unfold Path.step at hstep
  split at hstep
  · cases hstep
    exact ⟨by simpa [stop] using legible_placeholder _, h, by simp [stop]⟩
  · exact legible_of_run hstep hname h hregisters

end Path

namespace Explorer

open Moment

variable {e e' : Explorer} {s : State} {m m' : Moment}

theorem legible_settle {statements : Array Statement} {step : Step} (h : e.tree.Legible)
    (hstatements : ∀ st ∈ statements, st.Legible) (hstep : step.Legible) :
    (e.settle s statements step).explorer.tree.Legible ∧
      ∀ t ∈ (e.settle s statements step).survivors ++ (e.settle s statements step).spawned,
        t.path.registers.Within Expression.Legible := by
  obtain ⟨hemitted, hregisters, htest⟩ := hstep
  have hfilled : Node.Legible (.linear (statements ++ step.emitted.toArray) none) := by
    intro st hst
    rcases Array.mem_append.mp hst with hst | hst
    · exact hstatements st hst
    · exact hemitted st (List.mem_toArray.mp hst)
  have hreplace := h.replace hfilled s.node
  obtain ⟨emitted, path, outcome⟩ := step
  cases outcome with
  | running => exact ⟨hreplace, by simpa [settle] using hregisters⟩
  | returned => exact ⟨hreplace, by simp [settle]⟩
  | stopped error => exact ⟨hreplace, by simp [settle]⟩
  | forked test target =>
    refine ⟨h.graft hfilled (htest test target rfl) s.node, ?_⟩
    simpa [settle, children] using hregisters

/-- The next step joins two values into an expression. -/
def Moment.Joining (m : Moment) : Prop :=
  ∃ s ∈ m.waiting.head?, m.explorer.exhausted = false ∧
    ∃ pair ∈ s.path.joined? m.explorer.program, pair.1.Joins pair.2

instance (l r : Value) : Decidable (l.Joins r) := inferInstanceAs (Decidable (_ = _))

instance (m : Moment) : Decidable m.Joining :=
  inferInstanceAs (Decidable (∃ s ∈ m.waiting.head?, _ ∧ ∃ pair ∈ s.path.joined? _, _))

/-- All that has been written and all that is held is legible. -/
structure Moment.Legible (m : Moment) : Prop where
  name : isIdentifier m.explorer.input.name = true
  tree : m.explorer.tree.Legible
  registers : ∀ s ∈ m.live, s.path.registers.Within Expression.Legible

/-- **A step keeps a run legible** unless it joins. -/
theorem Moment.Legible.step (hsound : m.Sound fun _ _ _ => True) (h : m.Legible)
    (hjoin : ¬ m.Joining) (hstep : m.step? = some (.ok m')) : m'.Legible := by
  obtain ⟨s, rest, statements, step, hw, hx, hnode, hrun, rfl⟩ := hsound.exists_settle hstep
  have hlive : m.live = s :: (rest ++ (m.survivors.toList ++ m.spawned.toList)) := by
    simp [Moment.live, hw]
  have hlegible : step.Legible := by
    refine Path.legible_of_step hrun h.name (h.registers s (by simp [hlive])) fun l r hlr hj => ?_
    exact hjoin ⟨s, by simp [hw], hx, (l, r), hlr, hj⟩
  obtain ⟨htree, hregisters⟩ := legible_settle (s := s) h.tree (h.tree s.node _ hnode) hlegible
  refine ⟨?_, ?_, fun t ht => ?_⟩
  · have hinput : (m.explorer.settle s statements step).explorer.input = m.explorer.input :=
      sameSetting_settle.input
    rw [explorer_turnOver, Moment.pass, hinput]
    exact h.name
  · rw [explorer_turnOver]
    exact htree
  · rw [live_turnOver] at ht
    have hperm := (m.explorer.settle s statements step).perm_live rest m.survivors m.spawned
    rcases List.mem_append.mp (hperm.mem_iff.mpr ht) with ht | ht
    · exact hregisters t ht
    · exact h.registers t (hlive ▸ List.mem_cons_of_mem _ ht)

theorem Moment.Legible.after (hsound : m.Sound fun _ _ _ => True) (h : m.Legible) {k : Nat}
    (hjoin : ∀ j m', m.after j = some m' → ¬ m'.Joining) (hk : m.after k = some m') :
    m'.Legible := by
  induction k generalizing m with
  | zero =>
    cases hk
    exact h
  | succ k ih =>
    rcases invariant_true.step hsound with hstep | ⟨next, hstep, hnext, -⟩ | ⟨fault, hstep⟩
    · simp [Moment.after, hstep] at hk
    · rw [after_of_step hstep] at hk
      refine ih hnext (h.step hsound (hjoin 0 m rfl) hstep) (fun j m' hj => ?_) hk
      -- what comes after the next moment comes one step later after this one
      exact hjoin (j + 1) m' ((after_of_step hstep j).trans hj)
    · simp [Moment.after, hstep] at hk

/-- A run that is over after `n` steps need only be looked at so far. -/
theorem not_joining_of_steps {n : Nat} (hend : (m.after n).isNone)
    (h : ∀ k < n, ∀ m' ∈ m.after k, ¬ m'.Joining) {k : Nat} (hk : m.after k = some m') :
    ¬ m'.Joining := by
  refine h k ?_ m' hk
  by_contra hle
  obtain ⟨later, hlater⟩ := exists_after_of_le hk (Nat.not_lt.mp hle)
  rw [hlater] at hend
  cases hend

theorem legible_of_truncate (h : e.tree.Legible) (hcut : e.truncate s = .ok e') :
    e'.tree.Legible := by
  obtain ⟨tree, happend, hcut⟩ := exists_of_bind_eq_ok hcut
  cases hcut
  exact h.append (Path.legible_placeholder .budgetExhausted) happend

theorem legible_of_truncateAll (h : e.tree.Legible) {live : List State}
    (hcut : e.truncateAll live = (e', .ok ())) : e'.tree.Legible := by
  induction live generalizing e with
  | nil =>
    cases hcut
    exact h
  | cons s rest ih =>
    simp only [truncateAll] at hcut
    split at hcut
    · cases hcut
    · exact ih (legible_of_truncate h ‹_›) hcut

/-- **A complete exploration is legible** if none of its steps joined. -/
theorem legible_of_complete {program : Program} {input : Input} {budget : Option Nat}
    {rounds : Nat} (hname : isIdentifier input.name = true)
    (hjoin : ∀ k m, (Moment.start (initial program input budget)).after k = some m → ¬ m.Joining)
    (hcomplete : (initial program input budget).explore rounds = .complete e) :
    e.tree.Legible := by
  have hholds : Holds (fun _ _ _ => True) (initial program input budget)
      (initial program input budget).active :=
    ⟨_, grown_initial program input budget, trivial⟩
  have hstart : (Moment.start (initial program input budget)).Legible := by
    refine ⟨hname, ?_, fun s hs => ?_⟩
    · have hempty : (StatementTree.empty : StatementTree Statement Comparison).Legible := by
        simp [StatementTree.Legible, StatementTree.empty, StatementTree.node?]
      have hroot : Node.Legible (.linear #[] none) := by simp [Node.Legible]
      exact hempty.add hroot
    · rw [live_start] at hs
      obtain rfl := List.mem_singleton.mp hs
      exact RegisterFile.within_initial
  obtain ⟨k, m, hk, -, hall⟩ := (complete_iff_halts invariant_true hholds).mp ⟨rounds, hcomplete⟩
  exact legible_of_truncateAll (hstart.after (invariant_true.start hholds) hjoin hk).tree hall

end Explorer

/-! ## What the secret is -/

/-- No character has a code that a scan would pass over as too large. -/
theorem codedChar?_signedDecimal (n : Int) : Text.codedChar? (Text.signedDecimal n) =
    (leadingNumber? (Text.signedDecimal n).toList).bind Text.charOfCode? := by
  cases n with
  | ofNat n =>
    have hdigits : (Text.decimal n).toList.takeWhile Char.isDigit = (Text.decimal n).toList := by
      rw [← List.append_nil (Text.decimal n).toList,
        List.takeWhile_append_of_pos fun _ => Text.isDigit_of_mem_decimal]
      rfl
    simp only [Text.codedChar?, Text.signedDecimal, leadingNumber?, Text.spanDigits, hdigits,
      Text.readNatural?_decimal]
    by_cases hn : n < bound32
    · simp [Option.filter, hn]
    · have hinvalid : ¬ n.isValidChar := by
        rintro (hsmall | ⟨-, hsmall⟩) <;> exact hn (Nat.lt_trans hsmall (by decide))
      simp [Option.filter, hn, Text.charOfCode?, hinvalid]
  | negSucc n => simp [Text.codedChar?, Text.signedDecimal, leadingNumber?, Text.spanDigits,
      Text.readNatural?]

theorem isIdentifier_of_build {layer : Layer} {config : Config} (h : layer.build = .ok config) :
    isIdentifier config.input.name = true := by
  unfold Layer.build at h
  split at h
  · cases h
  · dsimp only at h
    split at h
    · cases h
      assumption
    · cases h

theorem exists_complete_of_decompile {bytes : List UInt8} {config : Config} {d : Decompilation}
    (h : decompile bytes config = .ok d) :
    ∃ e, (config.explorer d.instructions).explore Explorer.roundLimit = .complete e ∧
      d.pseudocode = e.pseudocode := by
  unfold decompile decompileLogged at h
  split at h
  · cases h
  · dsimp only at h
    split at h
    · cases h
    · cases h
    · cases h
      exact ⟨_, ‹_›, rfl⟩

/-- **The secret is spelled by the right addends**. -/
theorem recoverSecret_eq_rightAddends {layer : Layer} {config : Config} {bytes : List UInt8}
    {d : Decompilation} (hbuild : layer.build = .ok config) (hd : decompile bytes config = .ok d)
    (hjoin : ∀ k m, (Explorer.Moment.start (config.explorer d.instructions)).after k = some m →
      ¬ m.Joining) :
    ∃ e, (config.explorer d.instructions).explore Explorer.roundLimit = .complete e ∧
      recoverSecret d.pseudocode =
        String.ofList ((e.tree.rightAddends e.root).filterMap Text.codedChar?) := by
  obtain ⟨e, hcomplete, hpseudocode⟩ := exists_complete_of_decompile hd
  have hlegible : e.tree.Legible :=
    Explorer.legible_of_complete (isIdentifier_of_build hbuild) hjoin hcomplete
  refine ⟨e, hcomplete, ?_⟩
  have hscan : scan e.pseudocode.toList = codesOf (e.tree.rightAddends e.root) :=
    scan_functionText (hlegible.readLines e.tree.size e.root)
  rw [hpseudocode, recoverSecret_eq_scan, hscan, codesOf, List.filterMap_filterMap]
  refine congrArg String.ofList (List.filterMap_congr fun numeral hmem => ?_)
  obtain ⟨n, rfl⟩ := hlegible.numerals e.root numeral hmem
  exact (codedChar?_signedDecimal n).symm

/-- A sum with addends on both sides is tested; then the generic last code of a sum is printed,
which writes the sum twice, in both branches. The numerals are put together by joining known texts. -/
theorem recoverSecret_of_checker :
    let bytes := [86, 61, 0, 1, 66, 82, 2, 82, 2, 82, 2, 81, 1, 2, 1, 61, 1, 4, 81, 2, 1, 6, 69, 42,
      85, 87]
    ∃ d, decompile bytes ⟨⟨1, "flag"⟩, none, true⟩ = .ok d ∧
      recoverSecret d.pseudocode = "ooooo" := by
  intro bytes
  let config : Config := ⟨⟨1, "flag"⟩, none, true⟩
  let instructions : List Placed := [⟨0, .read ⟨0⟩⟩, ⟨1, .lastCode ⟨1⟩ ⟨0⟩⟩, ⟨4, .set ⟨2⟩ "0"⟩,
    ⟨5, .append ⟨2⟩ "1"⟩, ⟨7, .append ⟨2⟩ "1"⟩, ⟨9, .append ⟨2⟩ "1"⟩, ⟨11, .add ⟨1⟩ ⟨1⟩ ⟨2⟩⟩,
    ⟨15, .lastCode ⟨4⟩ ⟨1⟩⟩, ⟨18, .add ⟨6⟩ ⟨2⟩ ⟨1⟩⟩, ⟨22, .set ⟨5⟩ "0"⟩,
    ⟨23, .branch .notEqual ⟨5⟩ ⟨6⟩ ⟨7⟩⟩, ⟨24, .print ⟨4⟩⟩, ⟨25, .ret⟩]
  let start := Explorer.Moment.start (config.explorer instructions)
  let last := ((config.explorer instructions).explore Explorer.roundLimit).explorer
  have hjoin : ∀ k < 16, ∀ m ∈ start.after k, ¬ m.Joining := by decide +kernel
  have hend : (start.after 16).isNone := by decide +kernel
  have haddends : last.tree.rightAddends last.root = ["111", "111", "111", "111", "111"] := by
    decide +kernel
  have hrun : (decompile bytes config).toOption.map Decompilation.instructions =
      some instructions := by
    decide +kernel
  obtain ⟨d, hmem, hinstructions⟩ := Option.map_eq_some_iff.mp hrun
  have hd : decompile bytes config = .ok d := by
    cases hdecompile : decompile bytes config with
    | error error => simp [hdecompile, Except.toOption] at hmem
    | ok d' => simpa [hdecompile, Except.toOption] using hmem
  have hbuild : (Layer.mk (some 1) none none none).build = .ok config := rfl
  obtain ⟨e, he, hsecret⟩ := recoverSecret_eq_rightAddends hbuild hd fun k m hk =>
    Explorer.not_joining_of_steps hend hjoin (hinstructions ▸ hk)
  have hlast : last = e := by
    rw [hinstructions] at he
    exact congrArg Explorer.Exploration.explorer he
  rw [← hlast, haddends] at hsecret
  exact ⟨d, hd, hsecret.trans (by decide +kernel)⟩

end Lifter

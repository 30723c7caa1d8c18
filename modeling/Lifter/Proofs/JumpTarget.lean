import Lifter.Proofs.Kinship
import Lifter.Proofs.Midround
import Lifter.Proofs.Numerals
import Lifter.Proofs.StepForm

/-!
# Where jumps lead

A conditional jump counts in bytes and from the byte after its opcode, the offset is a text, and the
program is a list in which an address may stand more than once, or nowhere. The target is the sum of
the three numbers as integers, as long as it is in range, and the jump goes to the last instruction
with that address.

* `Program.LastAt`, `Program.positionOf?_eq_some_iff`, `Program.positionOf?_eq_none_iff`: the
  position of an address.
* `Path.jumpTarget?_eq`: the target of a jump.
* `Explorer.Stops`, `Explorer.Splits`: a turn that ends a state early, and one that splits it.
* **`Explorer.jump_resolved`**: what a conditional jump does, for every content of its offset
  register.
-/

namespace Lifter

/-! ## Positions of addresses -/

namespace Program

theorem lastIndex?_eq_some_iff {test : Nat → Bool} {n i : Nat} :
    lastIndex? test n = some i ↔ i < n ∧ test i = true ∧ ∀ j, i < j → j < n → test j = false := by
  induction n with
  | zero => simp [lastIndex?]
  | succ n ih =>
    unfold lastIndex?
    by_cases hn : test n = true
    · rw [if_pos hn, Option.some.injEq]
      constructor
      · rintro rfl
        exact ⟨by omega, hn, fun j hj hlt => by omega⟩
      · rintro ⟨hlt, -, hlater⟩
        by_contra hne
        have hfalse := hlater n (by omega) (by omega)
        rw [hn] at hfalse
        cases hfalse
    · rw [if_neg hn, ih]
      constructor
      · rintro ⟨hlt, hi, hlater⟩
        refine ⟨by omega, hi, fun j hj hjn => ?_⟩
        by_cases he : j = n
        · rw [he]
          exact Bool.eq_false_iff.mpr hn
        · exact hlater j hj (by omega)
      · rintro ⟨hlt, hi, hlater⟩
        have hne : i ≠ n := fun he => hn (he ▸ hi)
        exact ⟨by omega, hi, fun j hj hjn => hlater j hj (by omega)⟩

theorem lastIndex?_eq_none_iff {test : Nat → Bool} {n : Nat} :
    lastIndex? test n = none ↔ ∀ j < n, test j = false := by
  induction n with
  | zero => simp [lastIndex?]
  | succ n ih =>
    unfold lastIndex?
    by_cases hn : test n = true
    · rw [if_pos hn]
      refine ⟨fun h => ?_, fun h => ?_⟩
      · cases h
      · have hfalse := h n (by omega)
        rw [hn] at hfalse
        cases hfalse
    · rw [if_neg hn, ih]
      constructor
      · intro h j hj
        by_cases he : j = n
        · rw [he]
          exact Bool.eq_false_iff.mpr hn
        · exact h j (by omega)
      · intro h j hj
        exact h j (by omega)

variable {program : Program} {target : Int} {position : Nat}

/-- The instruction at a position has an address that no later instruction has. -/
structure LastAt (program : Program) (address : Int) (position : Nat) : Prop where
  stands : ∃ p, program.get? position = some p ∧ (p.address : Int) = address
  later : ∀ j p, position < j → program.get? j = some p → (p.address : Int) ≠ address

theorem standsAt_eq_true_iff {address j : Nat} :
    program.standsAt address j = true ↔ ∃ p, program.get? j = some p ∧ p.address = address := by
  unfold standsAt
  cases program.get? j <;> simp

theorem get?_ofList (instructions : List Placed) (j : Nat) :
    (ofList instructions).get? j = instructions[j]? := by
  rw [ofList, get?, List.getElem?_toArray]

theorem lt_size_of_get? {j : Nat} {p : Placed} (h : program.get? j = some p) :
    j < program.size := by
  rw [get?, Array.getElem?_eq_some_iff] at h
  exact h.1

theorem standsAt_eq_false_iff {address j : Nat} :
    program.standsAt address j = false ↔
      ∀ p, program.get? j = some p → (p.address : Int) ≠ address := by
  rw [Bool.eq_false_iff, ne_eq, standsAt_eq_true_iff, not_exists]
  refine forall_congr' fun p => ?_
  rw [not_and, ne_eq, Int.natCast_inj]

/-- **The position of a jump target** is the last one at which it stands. -/
theorem positionOf?_eq_some_iff (h : target < bound63) :
    program.positionOf? target = some position ↔ program.LastAt target position := by
  unfold positionOf?
  by_cases h0 : 0 ≤ target
  · obtain ⟨address, rfl⟩ := Int.eq_ofNat_of_zero_le h0
    rw [if_pos ⟨h0, h⟩, lastIndex?_eq_some_iff, Int.toNat_natCast, standsAt_eq_true_iff]
    constructor
    · rintro ⟨-, ⟨p, hp, ha⟩, hlater⟩
      refine ⟨⟨p, hp, congrArg Nat.cast ha⟩, fun j q hj hq => ?_⟩
      exact standsAt_eq_false_iff.mp (hlater j hj (lt_size_of_get? hq)) q hq
    · rintro ⟨⟨p, hp, ha⟩, hlater⟩
      refine ⟨lt_size_of_get? hp, ⟨p, hp, Int.ofNat.inj ha⟩, fun j hj _ => ?_⟩
      exact standsAt_eq_false_iff.mpr fun q hq => hlater j q hj hq
  · rw [if_neg fun hand => h0 hand.1]
    constructor
    · rintro ⟨⟩
    · rintro ⟨⟨p, -, rfl⟩, -⟩
      exact absurd (Int.natCast_nonneg p.address) h0

/-- A jump target that stands nowhere has no position. -/
theorem positionOf?_eq_none_iff (h : target < bound63) :
    program.positionOf? target = none ↔
      ∀ j p, program.get? j = some p → (p.address : Int) ≠ target := by
  unfold positionOf?
  by_cases h0 : 0 ≤ target
  · obtain ⟨address, rfl⟩ := Int.eq_ofNat_of_zero_le h0
    rw [if_pos ⟨h0, h⟩, lastIndex?_eq_none_iff, Int.toNat_natCast]
    constructor
    · intro hnone j p hp
      exact standsAt_eq_false_iff.mp (hnone j (lt_size_of_get? hp)) p hp
    · intro hnone j _
      exact standsAt_eq_false_iff.mpr (hnone j)
  · rw [if_neg fun hand => h0 hand.1]
    refine ⟨fun _ j p _ ha => h0 ?_, fun _ => rfl⟩
    rw [← ha]
    exact Int.natCast_nonneg p.address

end Program

/-! ## Targets -/

theorem Integer.ofAddress_eq {address : Nat} (h : address < bound63) :
    Integer.ofAddress address = address := by
  unfold bound63 at h
  unfold Integer.ofAddress bound64
  rw [Int.bmod_eq_of_le] <;> omega

/-- **The target of a jump** is the sum of address and offset, counted from the byte after the
opcode, if it is in range. -/
theorem Path.jumpTarget?_eq {address : Nat} (h : address < bound63 - 1) (offset : Int) :
    jumpTarget? address offset = Integer.checked? (address + 1 + offset) := by
  have hbase : Integer.checked? (Integer.ofAddress address + 1) = some (address + 1 : Int) := by
    rw [Integer.ofAddress_eq (by omega)]
    refine Integer.checked?_eq_some_iff.mpr ⟨rfl, ?_⟩
    constructor <;> omega
  rw [jumpTarget?, hbase]
  rfl

theorem Value.integer_eq_ok {text : String} {n : Int} (hd : Integer.Denotes text n)
    (hr : Integer.InRange n) : Value.integer text = .ok n :=
  Value.integer_eq_ok_iff.mpr (Integer.read?_eq_some_iff.mpr ⟨hd, hr⟩)

theorem Value.integer_eq_error {text : String}
    (h : ∀ n, Integer.Denotes text n → ¬ Integer.InRange n) :
    Value.integer text = .error (.notAnInteger text) := by
  unfold Value.integer
  split
  · rename_i n hn
    obtain ⟨hd, hr⟩ := Integer.read?_eq_some_iff.mp hn
    exact absurd hr (h n hd)
  · rfl

namespace Path

variable {program : Program} {input : Input} {path : Path} {condition : Condition}
  {offset left right : Register} {address : Nat} {text : String} {n : Int}

theorem step_eq_branch
    (h : program.get? path.position = some ⟨address, .branch condition offset left right⟩) :
    path.step program input =
      branch ⟨path.position + 1, address, path.registers, path.reads⟩ program condition offset left
        right := by
  simp only [step, h]
  rfl

variable (hbound : path.address < bound63 - 1) (hv : path.registers.get offset = .concrete text)
  (hd : Integer.Denotes text n) (hr : Integer.InRange n)

include hbound hv hd hr

theorem branch_of_overflow (h : ¬ Integer.InRange (path.address + 1 + n)) :
    path.branch program condition offset left right =
      .error (.evaluation path.address .overflow) := by
  rw [branch_of_integer hv (Value.integer_eq_ok hd hr), jumpTarget?_eq hbound, Integer.checked?,
    if_neg h]

theorem branch_of_inRange (h : Integer.InRange (path.address + 1 + n)) :
    path.branch program condition offset left right =
      match program.positionOf? (path.address + 1 + n) with
      | none => .ok (path.stop (.missingJumpTarget (path.address + 1 + n)))
      | some position =>
        .ok ⟨[], path,
          .forked ⟨path.registers.get left, condition, path.registers.get right⟩ position⟩ := by
  rewrite [branch_of_integer hv (Value.integer_eq_ok hd hr), jumpTarget?_eq hbound,
    Integer.checked?, if_pos h]
  cases hposition : program.positionOf? (path.address + 1 + n) <;> simp only [hposition]

theorem branch_of_missing (h : Integer.InRange (path.address + 1 + n))
    (hmissing : ∀ j p, program.get? j = some p → (p.address : Int) ≠ path.address + 1 + n) :
    path.branch program condition offset left right =
      .ok (path.stop (.missingJumpTarget (path.address + 1 + n))) := by
  rw [branch_of_inRange hbound hv hd hr h, (Program.positionOf?_eq_none_iff h.2).mpr hmissing]

theorem exists_branch_of_found (h : Integer.InRange (path.address + 1 + n)) {j : Nat}
    {p : Placed} (hj : program.get? j = some p) (ha : (p.address : Int) = path.address + 1 + n) :
    ∃ position, program.LastAt (path.address + 1 + n) position ∧
      path.branch program condition offset left right = .ok ⟨[], path,
        .forked ⟨path.registers.get left, condition, path.registers.get right⟩ position⟩ := by
  rw [branch_of_inRange hbound hv hd hr h]
  cases hposition : program.positionOf? (path.address + 1 + n) with
  | none => exact absurd ha ((Program.positionOf?_eq_none_iff h.2).mp hposition j p hj)
  | some position => exact ⟨position, (Program.positionOf?_eq_some_iff h.2).mp hposition, rfl⟩

omit hv hd hr in
/-- A path is split only by a known offset, and goes on at the last instruction that stands at its
target. -/
theorem exists_lastAt_of_forked {step : Step} {test : Comparison} {position : Nat}
    (h : path.branch program condition offset left right = .ok step)
    (hforked : step.outcome = .forked test position) :
    ∃ text n, path.registers.get offset = .concrete text ∧ Integer.read? text = some n ∧
      program.LastAt (path.address + 1 + n) position := by
  cases hv : path.registers.get offset with
  | symbolic expression =>
    rw [branch_of_symbolic hv] at h
    cases h
    cases hforked
  | concrete text =>
    cases hread : Value.integer text with
    | error error =>
      rw [branch_of_error hv hread] at h
      cases h
    | ok n =>
      have hn := Value.integer_eq_ok_iff.mp hread
      obtain ⟨hd, hr⟩ := Integer.read?_eq_some_iff.mp hn
      by_cases hrange : Integer.InRange (path.address + 1 + n)
      · rw [branch_of_inRange hbound hv hd hr hrange] at h
        split at h
        · cases h
          cases hforked
        · rename_i target htarget
          cases h
          cases hforked
          exact ⟨text, n, rfl, hn, (Program.positionOf?_eq_some_iff hrange.2).mp htarget⟩
      · rw [branch_of_overflow hbound hv hd hr hrange] at h
        cases h

end Path

/-! ## Turns at a jump -/

namespace Explorer

variable {e : Explorer} {s : State} {statements : Array Statement} {now : Path}

/-- A turn that ends a state early: this is noted, the line for the error is written at the end of
the state's node, and nothing else is. -/
structure Stops (e : Explorer) (s : State) (now : Path) (error : PathError) (turn : Turn) :
    Prop where
  survivors : turn.survivors = []
  spawned : turn.spawned = []
  finished : turn.explorer.finished = e.finished.push { s with path := now, status := .errored }
  diagnostics : turn.explorer.diagnostics = e.diagnostics.push ⟨s.id, now.address, error⟩
  nextId : turn.explorer.nextId = e.nextId
  size : turn.explorer.tree.size = e.tree.size
  written : ∃ statements, e.tree.node? s.node = some (.linear statements none) ∧
    turn.explorer.tree.node? s.node = some (.linear (statements.push error.placeholder) none)
  line : error.placeholder.text = error.lastLine
  elsewhere : ∀ id, id ≠ s.node → turn.explorer.tree.node? id = e.tree.node? id

/-- A turn that splits a state: it has come to its end, and two states with all that it holds go on,
one at the target and one where it stands. -/
structure Splits (e : Explorer) (s : State) (now : Path) (target : Nat) (turn : Turn) : Prop where
  survivors : turn.survivors = []
  finished : turn.explorer.finished = e.finished.push { s with path := now, status := .terminated }
  diagnostics : turn.explorer.diagnostics = e.diagnostics
  nextId : turn.explorer.nextId = e.nextId + 2
  children : ∃ taken other : State, turn.spawned = [taken, other] ∧
    taken.id = ⟨e.nextId⟩ ∧ other.id = ⟨e.nextId + 1⟩ ∧
    taken.parent = some s.id ∧ other.parent = some s.id ∧
    taken.status = .active ∧ other.status = .active ∧
    taken.path = { now with position := target } ∧ other.path = now ∧
    turn.explorer.tree.BranchesTo s.node taken.node other.node

theorem exists_stops {error : PathError} (h : e.tree.node? s.node = some (.linear statements none))
    (hstep : s.path.step e.program e.input = .ok (now.stop error)) :
    ∃ turn, e.advance s = .ok turn ∧ Stops e s now error turn := by
  have hlt := StatementTree.index_lt_of_node? h
  rw [advance_eq h, hstep]
  refine ⟨_, rfl, rfl, rfl, rfl, rfl, rfl, StatementTree.size_replace .., ⟨statements, h, ?_⟩,
    error.text_placeholder, fun id hne => StatementTree.node?_replace_of_ne hne⟩
  exact StatementTree.node?_replace_self hlt

theorem exists_splits {test : Comparison} {target : Nat}
    (h : e.tree.node? s.node = some (.linear statements none))
    (hstep : s.path.step e.program e.input = .ok ⟨[], now, .forked test target⟩) :
    ∃ turn, e.advance s = .ok turn ∧ Splits e s now target turn := by
  have hlt := StatementTree.index_lt_of_node? h
  rw [advance_eq h, hstep]
  exact ⟨_, rfl, rfl, rfl, rfl, rfl, _, _, rfl, rfl, rfl, rfl, rfl, rfl, rfl, rfl, rfl,
    StatementTree.branchesTo_graft hlt⟩

variable {instructions : List Placed} {input : Input} {budget : Option Nat} {m : Moment}
  {rest : List State} {address : Nat} {condition : Condition} {offset left right : Register}

/-- **Jumps are resolved exactly.** Take a state at its turn before a conditional jump, with
anything in its registers. If the offset is symbolic, or the target is in range and no instruction
stands there, the state comes to an early end. If the offset denotes no integer or the target is out
of range, the exploration fails. Otherwise the state is split, and goes on at the last instruction
that stands at the target and at the one after the jump. -/
theorem jump_resolved (hbound : ∀ p ∈ instructions, p.address < bound63 - 1)
    (h : Reachable (.ofList instructions) input budget e) (hm : Underway e m)
    (hw : m.waiting = s :: rest)
    (hnext : instructions[s.path.position]? = some ⟨address, .branch condition offset left right⟩)
    (registers : RegisterFile) :
    let before : State := { s with path.registers := registers }
    let now : Path := ⟨s.path.position + 1, address, registers, s.path.reads⟩
    (∀ expression, registers.get offset = .symbolic expression →
      ∃ turn, m.explorer.advance before = .ok turn ∧
        Stops m.explorer before now (.unresolvableBranch expression) turn) ∧
    ∀ text, registers.get offset = .concrete text →
      ((∀ n, Integer.Denotes text n → ¬ Integer.InRange n) →
        m.explorer.advance before = .error (.fault (.evaluation address (.notAnInteger text)))) ∧
      ∀ n, Integer.Denotes text n → Integer.InRange n →
        (¬ Integer.InRange (address + 1 + n) →
          m.explorer.advance before = .error (.fault (.evaluation address .overflow))) ∧
        (Integer.InRange (address + 1 + n) →
          ((∃ p ∈ instructions, (p.address : Int) = address + 1 + n) →
            ∃ target turn, (Program.ofList instructions).LastAt (address + 1 + n) target ∧
              m.explorer.advance before = .ok turn ∧ Splits m.explorer before now target turn) ∧
          ((∀ p ∈ instructions, (p.address : Int) ≠ address + 1 + n) →
            ∃ turn, m.explorer.advance before = .ok turn ∧
              Stops m.explorer before now (.missingJumpTarget (address + 1 + n)) turn)) := by
  intro before now
  obtain ⟨hprogram, statements, hnode⟩ := hm.open_node h hw
  replace hnode : m.explorer.tree.node? before.node = some (.linear statements none) := hnode
  have hlist (j : Nat) : m.explorer.program.get? j = instructions[j]? := by
    rw [hprogram, Program.get?_ofList]
  have hget : m.explorer.program.get? before.path.position =
      some ⟨address, .branch condition offset left right⟩ := (hlist _).trans hnext
  have hstep : before.path.step m.explorer.program m.explorer.input =
      now.branch m.explorer.program condition offset left right := Path.step_eq_branch hget
  have haddress : now.address < bound63 - 1 := hbound _ (List.mem_of_getElem? hnext)
  have hfault {fault : Fault} (hbranch : now.branch m.explorer.program condition offset left right =
      .error fault) : m.explorer.advance before = .error (.fault fault) := by
    rw [advance_eq hnode, hstep, hbranch]
  refine ⟨fun expression hv => ?_, fun text hv => ⟨fun hnone => ?_, fun n hd hr => ⟨fun hover => ?_,
    fun hrange => ⟨?_, fun hmissing => ?_⟩⟩⟩⟩
  · exact exists_stops hnode (hstep.trans (Path.branch_of_symbolic hv))
  · exact hfault (Path.branch_of_error hv (Value.integer_eq_error hnone))
  · exact hfault (Path.branch_of_overflow haddress hv hd hr hover)
  · rintro ⟨p, hp, ha⟩
    obtain ⟨j, hj⟩ := List.mem_iff_getElem?.mp hp
    obtain ⟨target, hlast, hbranch⟩ :=
      Path.exists_branch_of_found haddress hv hd hr hrange ((hlist j).trans hj) ha
    obtain ⟨turn, hturn, hsplits⟩ := exists_splits hnode (hstep.trans hbranch)
    exact ⟨target, turn, hprogram ▸ hlast, hturn, hsplits⟩
  · refine exists_stops hnode (hstep.trans (Path.branch_of_missing haddress hv hd hr hrange ?_))
    intro j p hj
    exact hmissing p (List.mem_of_getElem? ((hlist j).symm.trans hj))

/-- An offset with a sign, a leading zero and white space around it, and a target at which three
instructions stand: the jump goes to the last of them. -/
theorem jump_to_repeated_address :
    let instructions : List Placed := [⟨0, .set ⟨5⟩ " +01 "⟩, ⟨1, .branch .less ⟨5⟩ ⟨6⟩ ⟨7⟩⟩,
      ⟨3, .jump ⟨5⟩⟩, ⟨3, .print ⟨5⟩⟩, ⟨3, .ret⟩]
    let e := (initial (.ofList instructions) ⟨1, "flag"⟩ none).round.1
    let registers := RegisterFile.initial.set ⟨5⟩ (.concrete " +01 ")
    let s : State := ⟨⟨0⟩, none, .active, ⟨0⟩, ⟨1, 0, registers, 0⟩⟩
    e.active = [s] ∧ ∃ target turn, (Program.ofList instructions).LastAt 3 target ∧
      (Moment.start e).explorer.advance s = .ok turn ∧
        Splits (Moment.start e).explorer s ⟨2, 1, registers, 0⟩ target turn := by
  intro instructions e registers s
  have hactive : e.active = [s] := rfl
  have hreachable : Reachable (.ofList instructions) ⟨1, "flag"⟩ none e := .round .initial
  have hd : Integer.Denotes " +01 " 1 :=
    ⟨[' '], ['+', '0', '1'], [' '], rfl, List.forall_mem_singleton.mpr rfl,
      List.forall_mem_singleton.mpr rfl, .plus ⟨by decide, by simp [Char.isDigit], rfl⟩⟩
  have hjump := jump_resolved (m := .start e) (s := s) (by decide) hreachable .start
    hactive rfl registers
  have htarget := ((hjump.2 " +01 " rfl).2 1 hd (by decide)).2 (by decide)
  exact ⟨hactive, htarget.1 ⟨⟨3, .ret⟩, by decide, by decide⟩⟩

end Explorer

end Lifter

import Lifter.Proofs.Depth
import Lifter.Proofs.Encoding
import Lifter.Proofs.JumpTarget
import Lifter.Proofs.Termination

/-!
# Programs that only jump forward

Without a budget an exploration may go on for ever, but only by going back. Jumps are counted in
bytes and progress in instructions; in a decoded program the two agree, since addresses increase from
one instruction to the next. So if no jump has a negative offset, every state that is active after a
round is further on than the one it comes from, and none is further on than the program is long.

* `Program.Ordered`, `Program.ordered_of_decode`: positions in the order of addresses.
* `Path.offset?`, `Path.JumpsForward`: the jump that a path has come to.
* `Path.lt_position_of_step`: a step goes on.
* `Explorer.ForwardOnly`: no jump that is run goes back.
* `Explorer.lt_position_of_round`: a round goes on.
* **`Explorer.forward_only_ends`**: after `k` rounds all active states have come to position `k`,
  and exploration is over after one round more than there are instructions.
-/

namespace Lifter

/-! ## Positions and addresses -/

namespace Program

/-- The instructions stand in the order of their addresses, and a jump can be counted from each. -/
structure Ordered (program : Program) : Prop where
  increasing : ∀ {i j p q}, program.get? i = some p → program.get? j = some q → i < j →
    p.address < q.address
  address_lt : ∀ {i p}, program.get? i = some p → p.address < bound63 - 1

variable {program : Program} {bytes : List UInt8} {instructions : List Placed}

theorem Ordered.lt_of_address_lt (h : program.Ordered) {i j : Nat} {p q : Placed}
    (hi : program.get? i = some p) (hj : program.get? j = some q) (hlt : p.address < q.address) :
    i < j := by
  by_contra hle
  rcases Nat.lt_or_eq_of_le (Nat.le_of_not_lt hle) with hji | rfl
  · have hback := h.increasing hj hi hji
    omega
  · cases hi.symm.trans hj
    omega

/-- **Decoded programs are in order**, if the bytes are as few as a buffer can hold. -/
theorem ordered_of_decode (h : decode bytes = .ok instructions) (hsize : bytes.length < bound63) :
    (ofList instructions).Ordered := by
  obtain ⟨codes, hlaid, rfl⟩ := decodeFrom_eq_ok_iff_laid.mp h
  refine ⟨fun {i j p q} hi hj hij => ?_, fun {i p} hi => ?_⟩
  · rw [get?_ofList] at hi hj
    obtain ⟨hilt, rfl⟩ := List.getElem?_eq_some_iff.mp hi
    obtain ⟨hjlt, rfl⟩ := List.getElem?_eq_some_iff.mp hj
    have hpairwise := List.pairwise_map.mp hlaid.pairwise_address
    exact List.pairwise_iff_getElem.mp hpairwise i j hilt hjlt hij
  · rw [get?_ofList] at hi
    have hlt := hlaid.address_lt (List.mem_of_getElem? hi)
    omega

end Program

/-! ## Steps -/

namespace Path

/-- The offset of the conditional jump that a path has come to, if it is known to be an integer. -/
def offset? (program : Program) (path : Path) : Option Int :=
  match path.next? program with
  | some (.branch _ offset _ _) =>
    match path.registers.get offset with
    | .concrete text => Integer.read? text
    | .symbolic _ => none
  | _ => none

/-- A path that has not come to a jump with a negative offset. -/
def JumpsForward (program : Program) (path : Path) : Prop := ∀ n ∈ path.offset? program, 0 ≤ n

instance (program : Program) (path : Path) : Decidable (path.JumpsForward program) :=
  inferInstanceAs (Decidable (∀ n ∈ path.offset? program, 0 ≤ n))

variable {program : Program} {input : Input} {path : Path} {step : Step} {instruction : Instruction}

theorem offset?_of_branch {address : Nat} {condition : Condition} {offset left right : Register}
    {text : String}
    (h : program.get? path.position = some ⟨address, .branch condition offset left right⟩)
    (hv : path.registers.get offset = .concrete text) :
    path.offset? program = Integer.read? text := by
  simp only [offset?, next?, h, Option.map_some, hv]

theorem position_of_attempt {result : Except EvalError Value} {register : Register}
    (h : (path.attempt result).map (path.write register) = .ok step) :
    step.path.position = path.position ∧ step.outcome = .running := by
  cases result with
  | error error => cases h
  | ok value =>
    cases h
    exact ⟨rfl, rfl⟩

/-- Only a conditional jump does not go on with the next instruction. -/
theorem position_of_run (h : run program input path instruction = .ok step) :
    step.path.position = path.position ∧ ∀ test target, step.outcome = .forked test target →
      ∃ condition offset left right, instruction = .branch condition offset left right ∧
        path.branch program condition offset left right = .ok step := by
  cases instruction with
  | jump offset => cases h
  | branch condition offset left right =>
    have hbranch : path.branch program condition offset left right = .ok step := h
    refine ⟨?_, fun _ _ _ => ⟨condition, offset, left, right, rfl, hbranch⟩⟩
    rcases branch_cases hbranch with ⟨error, -, rfl⟩ | ⟨position, rfl⟩
    · rfl
    · rfl
  | clear | set | append | concat | dropLast | print | read | ret =>
    cases h
    exact ⟨rfl, by rintro _ _ ⟨⟩⟩
  | add | negate | character | lastCode =>
    obtain ⟨hposition, hrunning⟩ := position_of_attempt h
    refine ⟨hposition, fun test target hforked => ?_⟩
    cases hrunning.symm.trans hforked

/-- A jump that does not go back leads to a later instruction. -/
theorem lt_target_of_forked (hordered : program.Ordered) (hforward : path.JumpsForward program)
    {address : Nat} (hget : program.get? path.position = some ⟨address, instruction⟩)
    (h : run program input { path with address, position := path.position + 1 } instruction =
      .ok step) {test : Comparison} {target : Nat} (hforked : step.outcome = .forked test target) :
    path.position < target := by
  obtain ⟨condition, offset, left, right, rfl, hbranch⟩ := (position_of_run h).2 test target hforked
  obtain ⟨text, n, hv, hn, hlast⟩ :=
    exists_lastAt_of_forked (hordered.address_lt hget) hbranch hforked
  have hnonneg : 0 ≤ n := hforward n ((offset?_of_branch hget hv).trans hn)
  obtain ⟨p, hp, ha⟩ := hlast.stands
  have hlt : address < p.address := by
    change (p.address : Int) = address + 1 + n at ha
    omega
  exact hordered.lt_of_address_lt hget hp hlt

/-- **A step goes on**, and there is an instruction to go on from. -/
theorem lt_position_of_step (hordered : program.Ordered) (hforward : path.JumpsForward program)
    (h : path.step program input = .ok step) :
    ∀ c ∈ step.situations, path.position < c.position ∧ path.position < program.size := by
  unfold Path.step at h
  split at h
  · cases h
    intro c hc
    cases hc
  · rename_i address instruction hget
    have hsize := Program.lt_size_of_get? hget
    have hnext : step.path.position = path.position + 1 := (position_of_run h).1
    have hother : path.position < step.path.situation.position := by
      change path.position < step.path.position
      omega
    unfold Step.situations
    split
    · simpa using ⟨hother, hsize⟩
    · simp
    · simp
    · rename_i test target hforked
      have htaken := lt_target_of_forked hordered hforward hget h hforked
      simpa using ⟨⟨htaken, hsize⟩, hother, hsize⟩

end Path

/-! ## Turns and rounds -/

namespace Explorer

open Moment

variable {program : Program} {input : Input} {budget : Option Nat} {e : Explorer} {m : Moment}
  {s : State} {rest : List State} {k n : Nat}

/-- No jump that is run has a negative offset, at whatever turn of whatever round. -/
def ForwardOnly (program : Program) (input : Input) (budget : Option Nat) : Prop :=
  ∀ e m s rest, Reachable program input budget e → Underway e m → m.waiting = s :: rest →
    m.explorer.exhausted = false → s.path.JumpsForward program

/-- The states that a turn leaves are further on than the state that had it. -/
theorem lt_position_of_visit (hordered : e.program.Ordered)
    (hforward : e.exhausted = false → s.path.JumpsForward e.program)
    {statements : Array Statement} (hnode : e.tree.node? s.node = some (.linear statements none))
    {turn : Turn} (h : e.visit s = .ok turn) :
    ∀ t ∈ turn.survivors ++ turn.spawned,
      s.path.position < t.path.position ∧ s.path.position < e.program.size := by
  cases hx : e.exhausted with
  | true =>
    rw [visit_of_exhausted hnode hx] at h
    cases h
    simp
  | false =>
    cases hstep : s.path.step e.program e.input with
    | error fault =>
      rw [visit_of_fault hnode hx hstep] at h
      cases h
    | ok step =>
      rw [visit_of_step hnode hx hstep] at h
      cases h
      intro t ht
      have hc : t.path.situation ∈ step.situations := by
        rw [← situations_settle e s statements step]
        exact List.mem_map_of_mem ht
      exact Path.lt_position_of_step hordered (hforward hx) hstep _ hc

theorem Reachable.afterRounds (h : Reachable program input budget e) (n : Nat) :
    Reachable program input budget (e.afterRounds n) := by
  induction n with
  | zero => exact h
  | succ n ih => exact ih.round

theorem more_of_not_over (h : ¬ (e.explore n).Over) :
    ∀ j < n, (e.afterRounds j).round.2 = .ok true := by
  refine more_of_unfinished fun m hm => ?_
  cases hexplore : e.explore m with
  | unfinished e' => exact ⟨e', rfl⟩
  | complete | failed =>
    have hover : (e.explore m).Over := by
      rw [hexplore]
      trivial
    rw [explore_eq_of_over hover hm] at h
    exact absurd hover h

theorem exists_active_of_more (h : ∃ g, Grown g e e.active) (hmore : e.round.2 = .ok true) :
    ∃ s, s ∈ e.round.1.active := by
  obtain ⟨g, hg⟩ := h
  rcases invariant_true.round ⟨g, hg, trivial⟩ with ⟨e', hround, -⟩ | ⟨e', fault, rest, hround, -⟩
  · rw [hround] at hmore ⊢
    cases hactive : e'.active with
    | nil => simp [hactive] at hmore
    | cons s rest => exact ⟨s, List.mem_cons_self⟩
  · rw [hround] at hmore
    cases hmore

section Forward

variable (hordered : program.Ordered) (hforward : ForwardOnly program input budget)
  (h : Reachable program input budget e)

include hordered hforward h

/-- What the turns of a round have left so far is further on than all states were before it. -/
theorem Underway.lt_position (hk : ∀ s ∈ e.active, k ≤ s.path.position) (hm : Underway e m) :
    ∀ t ∈ m.survivors.toList ++ m.spawned.toList, k < t.path.position ∧ k < program.size := by
  induction hm with
  | start => simp [Moment.start]
  | @turn m s rest turn hm hw hvisit ih =>
    obtain ⟨hprogram, statements, hnode⟩ := hm.open_node h hw
    have hjumps : m.explorer.exhausted = false → s.path.JumpsForward m.explorer.program :=
      fun hx => hprogram.symm ▸ hforward e m s rest h hm hw hx
    have hturn := lt_position_of_visit (hprogram.symm ▸ hordered) hjumps hnode hvisit
    have hs : k ≤ s.path.position := hk s (hm.suffix.subset (hw ▸ List.mem_cons_self))
    intro t ht
    have hcases : t ∈ m.survivors.toList ++ m.spawned.toList ∨
        t ∈ turn.survivors ++ turn.spawned := by
      simp only [Moment.pass, Array.toList_appendList, List.mem_append] at ht ⊢
      tauto
    rcases hcases with ht | ht
    · exact ih t ht
    · obtain ⟨hposition, hsize⟩ := hturn t ht
      rw [hprogram] at hsize
      omega

/-- **A round goes on.** -/
theorem lt_position_of_round (hk : ∀ s ∈ e.active, k ≤ s.path.position) {more : Bool}
    (hround : e.round.2 = .ok more) :
    ∀ t ∈ e.round.1.active, k < t.path.position ∧ k < program.size := by
  rcases (Underway.start (e := e)).exists_rest with
    ⟨m, hm, hw⟩ | ⟨m, s, rest, error, hm, hw, hvisit⟩
  · rcases hm.round_of_nil (invariant_setting program input budget) h.setting hw with
      ⟨-, e', -, hidle, heq⟩ | ⟨-, heq⟩
    · rw [heq]
      simp [hidle]
    · rw [heq]
      have hleft := hm.lt_position hordered hforward h hk
      simpa [live, hw] using hleft
  · rw [hm.round_of_error hw hvisit] at hround
    cases hround

/-- **The rounds of a run go on**, each by one position. -/
theorem le_position_afterRounds (hok : e.Succeeds k) :
    ∀ s ∈ (e.afterRounds k).active, k ≤ s.path.position ∧ k ≤ program.size := by
  induction k with
  | zero =>
    intro s _
    exact ⟨Nat.zero_le _, Nat.zero_le _⟩
  | succ k ih =>
    obtain ⟨more, hmore⟩ := hok k (Nat.lt_succ_self k)
    have hearlier : e.Succeeds k := fun j hj => hok j (Nat.lt_succ_of_lt hj)
    have hk : ∀ s ∈ (e.afterRounds k).active, k ≤ s.path.position :=
      fun s hs => (ih hearlier s hs).1
    exact lt_position_of_round hordered hforward (h.afterRounds k) hk hmore

/-- A state that is left after more rounds than there are instructions would be past the end. -/
theorem over_of_forward : (e.explore (program.size + 1)).Over := by
  by_contra hover
  have hmore := more_of_not_over hover
  obtain ⟨s, hs⟩ := exists_active_of_more (h.afterRounds program.size).exists_grown
    (hmore program.size (Nat.lt_succ_self _))
  obtain ⟨-, hle⟩ := le_position_afterRounds hordered hforward h
    (k := program.size + 1) (fun j hj => ⟨true, hmore j hj⟩) s hs
  omega

end Forward

theorem Reachable.exists_afterRounds (h : Reachable program input budget e) :
    ∃ k, e = (Explorer.initial program input budget).afterRounds k := by
  refine h.of_round (Q := fun e => ∃ k, e = (Explorer.initial program input budget).afterRounds k)
    ⟨0, rfl⟩ ?_
  rintro _ ⟨k, rfl⟩
  exact ⟨k + 1, rfl⟩

/-- Whether a program only jumps forward can be seen from the states that are active between its
rounds. -/
theorem forwardOnly_of_rounds (hidle : ((initial program input budget).afterRounds n).active = [])
    (h : ∀ k < n, ∀ s ∈ ((initial program input budget).afterRounds k).active,
      s.path.JumpsForward program) : ForwardOnly program input budget := by
  intro e m s rest hreachable hm hw _
  have hs : s ∈ e.active := hm.suffix.subset (hw ▸ List.mem_cons_self)
  obtain ⟨k, rfl⟩ := hreachable.exists_afterRounds
  rcases Nat.lt_or_ge k n with hlt | hge
  · exact h k hlt s hs
  · obtain ⟨d, rfl⟩ := Nat.exists_eq_add_of_le hge
    rw [afterRounds_add, afterRounds_of_idle hidle, hidle] at hs
    cases hs

/-- **Programs that only jump forward come to an end.** Take the program that some bytes decode to,
no more of them than a buffer can hold, and let no jump that is run have a negative offset. Wherever
exploration is taken up, all states that are active after `k` rounds without an error have come to
position `k`, and exploration is over, completed or failed, after one round more than there are
instructions, with or without a budget. -/
theorem forward_only_ends {bytes : List UInt8} {instructions : List Placed}
    (hdecode : decode bytes = .ok instructions) (hsize : bytes.length < bound63)
    (hforward : ForwardOnly (.ofList instructions) input budget)
    (h : Reachable (.ofList instructions) input budget e) :
    (∀ k, (∀ j < k, ∃ more, (e.afterRounds j).round.2 = .ok more) →
      ∀ s ∈ (e.afterRounds k).active, k ≤ s.path.position) ∧
    e.EndsWithin (instructions.length + 1) := by
  have hordered := Program.ordered_of_decode hdecode hsize
  refine ⟨fun k hok s hs => (le_position_afterRounds hordered hforward h hok s hs).1, ?_⟩
  have hover := over_of_forward hordered hforward h
  exact endsWithin_of_over h.exists_grown hover

/-- A jump over one instruction, in a program that does not return: the side that does not jump is
at the end of the program after five rounds, and runs past it in the sixth. -/
theorem ends_past_last_instruction :
    let instructions : List Placed := [⟨0, .set ⟨5⟩ "0"⟩, ⟨1, .append ⟨5⟩ "1"⟩,
      ⟨3, .branch .less ⟨5⟩ ⟨6⟩ ⟨7⟩⟩, ⟨4, .clear ⟨0⟩⟩, ⟨5, .clear ⟨0⟩⟩]
    let e := initial (.ofList instructions) ⟨1, "flag"⟩ none
    decode [69, 82, 5, 43, 44, 44] = .ok instructions ∧
      (e.afterRounds 5).active.map (·.path.position) = [5] ∧
      (∀ s ∈ (e.afterRounds 5).active, 5 ≤ s.path.position) ∧ e.EndsWithin 6 := by
  intro instructions e
  have hdecode : decode [69, 82, 5, 43, 44, 44] = .ok instructions :=
    decodeFrom_eq_ok_iff_laid.mpr ⟨[[69], [82, 5], [43], [44], [44]],
      .cons rfl (.cons rfl (.cons rfl (.cons rfl (.cons rfl .nil)))), rfl⟩
  have hidle : (e.afterRounds 6).active = [] := List.isEmpty_iff.mp (by decide +kernel)
  have hforward : ForwardOnly (.ofList instructions) ⟨1, "flag"⟩ none :=
    forwardOnly_of_rounds hidle (by decide +kernel)
  have hmore : ∀ j < 5, (e.afterRounds j).round.2.toOption = some true := by decide +kernel
  obtain ⟨hpositions, hends⟩ := forward_only_ends hdecode (by decide) hforward .initial
  refine ⟨hdecode, by decide +kernel, hpositions 5 fun j hj => ?_, hends⟩
  exact ⟨true, toOption_eq_some_iff.mp (hmore j hj)⟩

end Explorer

end Lifter

import Lifter.Proofs.Kinship
import Lifter.Proofs.Secret
import Lifter.Proofs.StepForm
import Lifter.Proofs.Ways

/-!
# Buffers in scope

A path numbers the buffers that it reads into, and the number is copied where the path splits; the
declarations of the buffers stand in the nodes of its ancestors. On every way down the tree these
come together: buffers are declared in the order of their numbers, each once, and whatever a state
holds, prints or tests speaks of buffers that were declared before, on the way to its node.

* `Value.bufferNames`: the buffers that a value speaks of.
* `declared`, `InOrder`: the buffers that statements declare; statements in which every buffer is
  declared before it is used.
* **`Path.InScope.of_step`**: an instruction keeps a path in scope of the statements before it.
* **`Explorer.scoped_of_reachable`**: scopes in every exploration.
-/

namespace Lifter

/-! ## The buffers of a value -/

mutual

/-- The buffers that an expression speaks of. -/
def Expression.bufferNames : Expression → List String
  | .identifier _ => []
  | .buffer name _ => [name]
  | .unary _ argument => argument.bufferNames
  | .binary _ left right => left.bufferNames ++ right.bufferNames
  | .member object property => object.bufferNames ++ property.bufferNames

/-- The buffers that a value speaks of. -/
def Value.bufferNames : Value → List String
  | .concrete _ => []
  | .symbolic expression => expression.bufferNames

end

/-- Expressions that speak of no other buffers than those named. -/
def Expression.Over (names : List String) (e : Expression) : Prop := e.bufferNames ⊆ names

variable {names : List String} {v l r : Value}

theorem Value.within_over_iff : v.Within (Expression.Over names) ↔ v.bufferNames ⊆ names := by
  cases v with
  | concrete text => simp [Within, bufferNames]
  | symbolic e => rfl

theorem Value.Summand.bufferNames_subset (h : v.Summand (Expression.Over names)) :
    v.bufferNames ⊆ names := by
  obtain ⟨e, rfl, he⟩ | ⟨n, -, rfl⟩ := h
  · exact he
  · exact List.nil_subset _

theorem Expression.stable_over (names : List String) : Stable (Over names) where
  negate h := h
  add hl hr _ := List.append_subset.mpr ⟨hl.bufferNames_subset, hr.bufferNames_subset⟩
  code h := List.append_subset.mpr ⟨h, List.nil_subset _⟩
  lastCode h := by simpa [Over, bufferNames, Value.bufferNames, lastIndex] using h
  shorten h := h
  dropLast h := List.append_subset.mpr ⟨h, List.nil_subset _⟩

/-- What an instruction joins speaks of the buffers that the registers speak of. -/
theorem Path.over_of_joined {path : Path} {program : Program}
    (h : path.registers.Within (Expression.Over names))
    (hjoined : path.joined? program = some (l, r)) :
    Expression.Over names (.binary "+" l r) := by
  obtain ⟨instruction, -, hjoined⟩ := Option.bind_eq_some_iff.mp hjoined
  refine List.append_subset.mpr ?_
  cases instruction with
  | concat target left right =>
    cases hjoined
    exact ⟨Value.within_over_iff.mp (h left), Value.within_over_iff.mp (h right)⟩
  | append target literal =>
    cases hjoined
    exact ⟨Value.within_over_iff.mp (h target), List.nil_subset _⟩
  | _ => cases hjoined

/-! ## Statements in order -/

/-- The buffer that a statement declares. -/
def Statement.declares? : Statement → Option String
  | declare name _ => some name
  | _ => none

/-- The buffers that a statement uses. -/
def Statement.uses : Statement → List String
  | print value => value.bufferNames
  | scan name => [name]
  | _ => []

/-- The buffers that are declared in some statements. -/
def declared (log : List Statement) : List String := log.filterMap Statement.declares?

/-- Buffers are declared in the order of their numbers, and before they are used. -/
structure InOrder (input : Input) (log : List Statement) : Prop where
  numbered : declared log = (List.range (declared log).length).map input.bufferName
  uses : ∀ (n : Nat) (st : Statement), log[n]? = some st → st.uses ⊆ declared (log.take n)

variable {input : Input} {log : List Statement} {st : Statement}

theorem declared_append (log more : List Statement) :
    declared (log ++ more) = declared log ++ declared more :=
  List.filterMap_append

theorem declared_snoc_of_none (log : List Statement) (h : st.declares? = none) :
    declared (log ++ [st]) = declared log := by
  simp [declared, h]

theorem declared_readInput (name : String) (length : Nat) :
    declared (Statement.readInput name length) = [name] := rfl

theorem declared_subset_append (log more : List Statement) :
    declared log ⊆ declared (log ++ more) := by
  rw [declared_append]
  exact List.subset_append_left _ _

/-- No two buffers of a path have the same name. -/
theorem Input.bufferName_injective (input : Input) : Function.Injective input.bufferName := by
  intro m n h
  have hlist (k : Nat) : (input.bufferName k).toList =
      input.name.toList ++ if k = 0 then [] else '_' :: (Text.decimal k).toList := by
    unfold Input.bufferName
    split <;> simp
  have hnumber := congrArg String.toList h
  rw [hlist, hlist, List.append_right_inj] at hnumber
  split at hnumber <;> split at hnumber
  · omega
  · cases hnumber
  · cases hnumber
  · -- numerals are read back
    have hread := congrArg Text.readNatural? (List.cons.inj hnumber).2
    rw [Text.readNatural?_decimal, Text.readNatural?_decimal] at hread
    exact Option.some.inj hread

namespace InOrder

theorem nil (input : Input) : InOrder input [] := ⟨rfl, by simp⟩

/-- One more statement. -/
theorem snoc (h : InOrder input log) (huses : st.uses ⊆ declared log)
    (hdeclares : ∀ name ∈ st.declares?, name = input.bufferName (declared log).length) :
    InOrder input (log ++ [st]) := by
  refine ⟨?_, fun n st' hn => ?_⟩
  · cases hst : st.declares? with
    | none =>
      rw [declared_snoc_of_none log hst]
      exact h.numbered
    | some name =>
      rw [declared_append]
      have hone : declared [st] = [name] := by simp [declared, hst]
      rw [hone, List.length_append, List.length_singleton, List.range_succ, List.map_append,
        ← h.numbered, hdeclares name hst]
      rfl
  · rcases Nat.lt_or_ge n log.length with hlt | hge
    · rw [List.getElem?_append_left hlt] at hn
      rw [List.take_append_of_le_length (Nat.le_of_lt hlt)]
      exact h.uses n st' hn
    · rw [List.getElem?_append_right hge, List.getElem?_singleton] at hn
      split at hn
      · cases hn
        rw [List.take_append_of_le_length (by omega), List.take_of_length_le hge]
        exact huses
      · cases hn

/-- Reading input into the next buffer. -/
theorem read (h : InOrder input log) :
    InOrder input
      (log ++ Statement.readInput (input.bufferName (declared log).length) input.length) := by
  have hdeclare : InOrder input
      (log ++ [.declare (input.bufferName (declared log).length) input.length]) :=
    h.snoc (List.nil_subset _) (by simp [Statement.declares?])
  rw [Statement.readInput, ← List.singleton_append, ← List.append_assoc]
  refine hdeclare.snoc ?_ (by simp [Statement.declares?])
  simp [Statement.uses, declared, Statement.declares?]

end InOrder

/-! ## Paths in scope -/

namespace Path

variable {path : Path} {program : Program} {step : Step}

/-- A path has read into the buffers that are declared in some statements, and its registers speak
of no others. -/
structure InScope (log : List Statement) (path : Path) : Prop where
  reads : (declared log).length = path.reads
  registers : ∀ r, (path.registers.get r).bufferNames ⊆ declared log

theorem InScope.within {more : List Statement} (h : path.InScope log) :
    path.registers.Within (Expression.Over (declared (log ++ more))) := fun r =>
  Value.within_over_iff.mpr (List.Subset.trans (h.registers r) (declared_subset_append log more))

theorem InScope.snoc (h : path.InScope log) (hdeclares : st.declares? = none) :
    path.InScope (log ++ [st]) := by
  have hsame := declared_snoc_of_none log hdeclares
  exact ⟨hsame ▸ h.reads, fun r => hsame ▸ h.registers r⟩

/-- What an instruction emits keeps the order of buffers, and their number. -/
theorem InScope.emitted (h : path.InScope log) (horder : InOrder input log)
    (hform : Form input path.registers path.reads step) :
    InOrder input (log ++ step.emitted) ∧
      (declared (log ++ step.emitted)).length = step.path.reads := by
  have hplain {st : Statement} {now : Path} (huses : st.uses ⊆ declared log)
      (hdeclares : st.declares? = none) (hreads : now.reads = path.reads) :
      InOrder input (log ++ [st]) ∧ (declared (log ++ [st])).length = now.reads := by
    refine ⟨horder.snoc huses (by simp [hdeclares]), ?_⟩
    rw [declared_snoc_of_none log hdeclares, hreads, ← h.reads]
  have hsilent {now : Path} (hreads : now.reads = path.reads) :
      InOrder input (log ++ []) ∧ (declared (log ++ [])).length = now.reads := by
    rw [List.append_nil]
    exact ⟨horder, h.reads.trans hreads.symm⟩
  cases hform with
  | @stop now error _ hreads => cases error <;> exact hplain (List.nil_subset _) rfl hreads
  | ret hreads => exact hplain (List.nil_subset _) rfl hreads
  | fork hreads => exact hsilent hreads
  | write hreads => exact hsilent hreads
  | print hreads => exact hplain (h.registers _) rfl hreads
  | read hreads =>
    rw [← h.reads] at hreads ⊢
    refine ⟨horder.read, ?_⟩
    rw [declared_append, declared_readInput, hreads, List.length_append, List.length_singleton]

/-- **An instruction keeps a path in scope** of the statements before it and those that it emits. -/
theorem InScope.of_step (h : path.InScope log) (horder : InOrder input log)
    (hstep : path.step program input = .ok step) : step.path.InScope (log ++ step.emitted) := by
  refine ⟨(h.emitted horder (form_of_step hstep)).2, fun r => Value.within_over_iff.mp ?_⟩
  refine within_of_step (Expression.stable_over _) h.within (fun target hread => ?_)
    (fun l r hjoined _ => over_of_joined h.within hjoined) hstep r
  -- the buffer that is read into is declared by this instruction
  refine List.cons_subset.mpr ⟨?_, List.nil_subset _⟩
  rw [emitted_of_read hread hstep, declared_append, declared_readInput, ← h.reads]
  exact List.mem_append_right _ (List.mem_singleton_self _)

/-- What a branch tests is in scope. -/
theorem InScope.tested (h : path.InScope log) {test : Comparison} {target : Nat}
    (hstep : path.step program input = .ok step) (hfork : step.outcome = .forked test target) :
    test.left.bufferNames ++ test.right.bufferNames ⊆ declared (log ++ step.emitted) := by
  refine List.Subset.trans ?_ (declared_subset_append log _)
  cases form_of_step hstep with
  | fork _ =>
    cases hfork
    exact List.append_subset.mpr ⟨h.registers _, h.registers _⟩
  | _ => cases hfork

end Path

/-! ## Scopes in an exploration -/

namespace Explorer

open StatementTree

variable {e e' : Explorer} {s : State} {rest live live' : List State} {id : NodeId}
  {g new : Growth Statement Comparison} {statements : Array Statement}

/-- Everything at a node is in scope of the statements on the way to it: those statements
themselves, a test, and the states at work there. -/
structure ScopedAt (e : Explorer) (live : List State) (id : NodeId) (log : List Statement) :
    Prop where
  order : InOrder e.input log
  tested : ∀ test consequent alternate,
    e.tree.node? id = some (.conditional test consequent alternate) →
      test.left.bufferNames ++ test.right.bufferNames ⊆ declared log
  states : ∀ s ∈ e.everyone live, s.node = id → s.path.InScope log

/-- Everything at all nodes is in scope. -/
def Scoping (g : Growth Statement Comparison) (e : Explorer) (live : List State) : Prop :=
  ∀ id log, (id, log) ∈ g.logs [] → ScopedAt e live id log

theorem Scoping.perm (h : Scoping g e live) (hp : live.Perm live') : Scoping g e live' := by
  intro id log hid
  have hscoped := h id log hid
  refine ⟨hscoped.order, hscoped.tested, fun t ht => hscoped.states t ?_⟩
  exact (hp.append_right _).mem_iff.mpr ht

/-- **What a turn of `s` has to show**: what it emits, and the states that go on or have come to an
end, are in scope as soon as `s` was before. -/
theorem Scoping.turn (h : Scoping g e (s :: rest)) (hg : Grown g e (s :: rest))
    (hnode : e.tree.node? s.node = some (.linear statements none)) (emitted : List Statement)
    (kept gone : List State)
    (hnew : ∀ past id log, (id, log) ∈ new.logs past →
      log = past ++ statements.toList ++ emitted ∧ (id = s.node ∨ e.tree.size ≤ id.index))
    (hsame : ∀ i : NodeId, i.index < e.tree.size → i ≠ s.node → e'.tree.node? i = e.tree.node? i)
    (hinput : e'.input = e.input) (hfinished : e'.finished.toList = e.finished.toList ++ gone)
    (hplace : ∀ t ∈ kept ++ gone, t.node = s.node ∨ e.tree.size ≤ t.node.index)
    (hstates : ∀ log, InOrder e.input log → s.path.InScope log →
      InOrder e.input (log ++ emitted) ∧ ∀ t ∈ kept ++ gone, t.path.InScope (log ++ emitted))
    (htested : ∀ log, s.path.InScope log → ∀ (id : NodeId) test consequent alternate,
      id = s.node ∨ e.tree.size ≤ id.index →
        e'.tree.node? id = some (.conditional test consequent alternate) →
          test.left.bufferNames ++ test.right.bufferNames ⊆ declared (log ++ emitted)) :
    Scoping (g.amend s.node new) e' (kept ++ rest) := by
  have heveryone {t : State} : t ∈ e'.everyone (kept ++ rest) ↔
      t ∈ kept ++ gone ∨ t ∈ rest ++ e.finished.toList := by
    simp only [everyone, hfinished, List.mem_append]
    tauto
  intro id log hid
  rcases hg.spans.held.mem_logs_amend hnode hid with ⟨hold, hne⟩ | ⟨past, hpast, hin⟩
  · -- another node: what was there has not changed
    have hscoped := h id log hold
    have hlt : id.index < e.tree.size := hg.spans.mem_ids.mp (Growth.mem_ids_of_mem_logs hold)
    refine ⟨hinput ▸ hscoped.order, fun test c a hc => ?_, fun t ht htid => ?_⟩
    · rw [hsame id hlt hne] at hc
      exact hscoped.tested test c a hc
    · rcases heveryone.mp ht with ht | ht
      · rcases hplace t ht with hs | hge
        · exact absurd (htid.symm.trans hs) hne
        · rw [htid] at hge
          exact absurd hlt (Nat.not_lt.mpr hge)
      · exact hscoped.states t (List.mem_cons_of_mem _ ht) htid
  · -- the node of `s`, or a new one: the way there is the way to `s` and what is emitted
    obtain ⟨rfl, hplaced⟩ := hnew past id log hin
    have hscoped := h s.node _ hpast
    have hs := hscoped.states s List.mem_cons_self rfl
    obtain ⟨horder, hstates⟩ := hstates _ hscoped.order hs
    refine ⟨hinput ▸ horder, fun test c a hc => htested _ hs id test c a hplaced hc,
      fun t ht htid => ?_⟩
    rcases heveryone.mp ht with ht | ht
    · exact hstates t ht
    · obtain ⟨hne, hlt⟩ := hg.elsewhere ht
      rw [htid] at hne hlt
      exact absurd hplaced (not_or.mpr ⟨hne, Nat.not_le.mpr hlt⟩)

theorem of_mem_logs_sprout {step : Step} {past log : List Statement}
    (h : (id, log) ∈ (e.sprout s statements step).logs past) :
    log = past ++ statements.toList ++ step.emitted ∧
      (id = s.node ∨ e.tree.size ≤ id.index) := by
  obtain ⟨emitted, path, outcome⟩ := step
  cases outcome with
  | forked test target =>
    simp only [sprout, Growth.split, Growth.logs, List.mem_cons, List.mem_append, Prod.mk.injEq,
      Array.toList_append, List.append_nil, List.not_mem_nil, or_false] at h
    rcases h with ⟨rfl, rfl⟩ | ⟨rfl, rfl⟩ | ⟨rfl, rfl⟩ | ⟨rfl, rfl⟩ <;> simp
  | _ =>
    simp only [sprout, Growth.logs, List.mem_singleton, Prod.mk.injEq] at h
    obtain ⟨rfl, rfl⟩ := h
    simp

/-- A turn that fills the node of `s`, which leaves one state in its place. -/
theorem Scoping.fill (h : Scoping g e (s :: rest)) (hg : Grown g e (s :: rest))
    (hnode : e.tree.node? s.node = some (.linear statements none)) (emitted : List Statement)
    (kept gone : List State) {t : State} {filled : Array Statement}
    (hfilled : filled.toList = statements.toList ++ emitted)
    (htree : e'.tree = e.tree.replace s.node (.linear filled none)) (hinput : e'.input = e.input)
    (hfinished : e'.finished.toList = e.finished.toList ++ gone) (hone : kept ++ gone = [t])
    (hplace : t.node = s.node)
    (hstate : ∀ log, InOrder e.input log → s.path.InScope log →
      InOrder e.input (log ++ emitted) ∧ t.path.InScope (log ++ emitted)) :
    Scoping (g.amend s.node (.tip s.node filled)) e' (kept ++ rest) := by
  refine h.turn hg hnode emitted kept gone (fun past id log hlog => ?_) (fun i _ hne => ?_) hinput
    hfinished ?_ (fun log horder hs => ?_) (fun log _ id test c a hid hc => ?_)
  · cases List.mem_singleton.mp hlog
    exact ⟨by rw [hfilled, List.append_assoc], Or.inl rfl⟩
  · rw [htree, node?_replace_of_ne hne]
  · simp [hone, hplace]
  · simpa [hone] using hstate log horder hs
  · -- the node of `s` stays linear, and no node is new
    rw [htree] at hc
    rcases hid with rfl | hge
    · cases (node?_replace_self (index_lt_of_node? hnode)).symm.trans hc
    · have hlt := index_lt_of_node? hc
      rw [size_replace] at hlt
      exact absurd hlt (Nat.not_lt.mpr hge)

theorem invariant_scoping : Invariant Scoping where
  perm hp h := h.perm hp
  active _ h id log hid := ⟨(h id log hid).order, (h id log hid).tested, (h id log hid).states⟩
  settle := by
    intro g e s rest statements step hg hnode _ hstep h
    have hlt := index_lt_of_node? hnode
    have hnow (log : List Statement) (horder : InOrder e.input log) (hs : s.path.InScope log) :=
      And.intro (hs.emitted horder (Path.form_of_step hstep)).1 (hs.of_step horder hstep)
    cases houtcome : step.outcome with
    | running =>
      simp only [settle, sprout, houtcome]
      exact h.fill hg hnode step.emitted [{ s with path := step.path }] [] (by simp) rfl rfl
        (List.append_nil _).symm rfl rfl hnow
    | returned =>
      simp only [settle, sprout, houtcome]
      exact h.fill hg hnode step.emitted [] [_] (by simp) rfl rfl (Array.toList_push ..) rfl rfl
        hnow
    | stopped error =>
      simp only [settle, sprout, houtcome]
      exact h.fill hg hnode step.emitted [] [_] (by simp) rfl rfl (Array.toList_push ..) rfl rfl
        hnow
    | forked test target =>
      have hmem (past : List Statement) (id : NodeId) (log : List Statement)
          (hlog : (id, log) ∈ (e.sprout s statements step).logs past) := of_mem_logs_sprout hlog
      simp only [settle, sprout, houtcome] at hmem ⊢
      refine h.turn hg hnode step.emitted (e.children s step.path target) [_] hmem
        (fun i hi hne => node?_graft_of_lt hi hne) rfl (Array.toList_push ..) (by simp [children])
        (fun log horder hs => ?_) (fun log hs i test' c a hi hc => ?_)
      · obtain ⟨horder', hpath⟩ := hnow log horder hs
        refine ⟨horder', ?_⟩
        simp only [children, List.mem_append, List.mem_cons, List.not_mem_nil, or_false]
        rintro t ((rfl | rfl) | rfl)
        · exact ⟨hpath.reads, hpath.registers⟩
        · exact hpath
        · exact hpath
      · rcases hi with rfl | hge
        · cases (node?_graft_self hlt).symm.trans hc
        · rcases node?_graft_cases hlt hge hc with ⟨-, hlinear⟩ | ⟨-, hjoint⟩
          · cases hlinear
          · cases hjoint
            exact hs.tested hstep houtcome
  cutOff := by
    intro g e s rest statements hg hnode _ h
    refine h.fill hg hnode [PathError.budgetExhausted.placeholder] [] [_] (Array.toList_push ..) rfl
      rfl (Array.toList_push ..) rfl rfl fun log horder hs => ?_
    exact ⟨horder.snoc (List.nil_subset _) (by simp [PathError.placeholder, Statement.declares?]),
      hs.snoc rfl⟩

theorem scoping_initial (program : Program) (input : Input) (budget : Option Nat) :
    Scoping (.tip ⟨0⟩ #[]) (.initial program input budget)
      (initial program input budget).active := by
  intro id log hid
  cases List.mem_singleton.mp hid
  refine ⟨InOrder.nil input, fun test c a hc => ?_, fun s hs _ => ?_⟩
  · cases hc
  · obtain rfl := List.mem_singleton.mp hs
    exact ⟨rfl, fun r => by simp [Path.initial, Value.empty, Value.bufferNames]⟩

/-- Buffers are fresh and used in scope, on every way down the tree. -/
structure Scoped (e : Explorer) (input : Input) : Prop where
  /-- Every node has one log. -/
  log : ∀ id : NodeId, id.index < e.tree.size → ∃! log, e.tree.Log e.root id log
  /-- The buffers declared on a way are the first ones, in order; their names are identifiers and no
  two are the same. -/
  fresh : ∀ id log, e.tree.Log e.root id log →
    declared log = (List.range (declared log).length).map input.bufferName ∧
      (∀ name ∈ declared log, isIdentifier name = true) ∧ (declared log).Nodup
  /-- What a statement prints or reads into has been declared before it. -/
  uses : ∀ id log, e.tree.Log e.root id log → ∀ (n : Nat) (st : Statement), log[n]? = some st →
    st.uses ⊆ declared (log.take n)
  tested : ∀ id log, e.tree.Log e.root id log → ∀ test consequent alternate,
    e.tree.node? id = some (.conditional test consequent alternate) →
      test.left.bufferNames ++ test.right.bufferNames ⊆ declared log
  reads : ∀ s ∈ e.active, ∀ log, e.tree.Log e.root s.node log →
    (declared log).length = s.path.reads
  registers : ∀ s ∈ e.active ++ e.finished.toList, ∀ log, e.tree.Log e.root s.node log →
    ∀ r, (s.path.registers.get r).bufferNames ⊆ declared log

theorem Scoping.scoped (h : Scoping g e live) (hg : Grown g e live)
    (hactive : live = e.active ∨ e.active = []) (hname : isIdentifier e.input.name = true) :
    Scoped e e.input := by
  have hscoped {id : NodeId} {log : List Statement} (hlog : e.tree.Log e.root id log) :
      ScopedAt e live id log := h id log (hg.spans.log_iff.mp hlog)
  have halive : ∀ s ∈ e.active ++ e.finished.toList, s ∈ e.everyone live := fun s hs => by
    rcases hactive with rfl | hnil
    · exact hs
    · rw [hnil] at hs
      exact List.mem_append_right _ hs
  refine ⟨fun id hid => ?_, fun id log hlog => ?_, fun id log hlog => (hscoped hlog).order.uses,
    fun id log hlog => (hscoped hlog).tested, fun s hs log hlog => ?_, fun s hs log hlog => ?_⟩
  · obtain ⟨log, hlog⟩ := Growth.exists_mem_logs [] (hg.spans.mem_ids.mpr hid)
    exact ⟨log, hg.spans.log_iff.mpr hlog, fun log' hlog' =>
      hg.spans.isTree.log_unique hlog' (hg.spans.log_iff.mpr hlog)⟩
  · have hnumbered := (hscoped hlog).order.numbered
    refine ⟨hnumbered, fun name hmem => ?_, ?_⟩
    · rw [hnumbered] at hmem
      obtain ⟨n, -, rfl⟩ := List.mem_map.mp hmem
      exact isIdentifier_bufferName hname n
    · rw [hnumbered]
      exact List.nodup_range.map (Input.bufferName_injective e.input)
  · exact ((hscoped hlog).states s (halive s (List.mem_append_left _ hs)) rfl).reads
  · exact ((hscoped hlog).states s (halive s hs) rfl).registers

/-- **Declared buffers are fresh and used only in scope**, in every exploration under a valid
configuration. -/
theorem scoped_of_reachable {layer : Layer} {config : Config} (hbuild : layer.build = .ok config)
    {program : Program} (h : Reachable program config.input config.stepBudget e) :
    Scoped e config.input := by
  have hinvariant :=
    (invariant_setting program config.input config.stepBudget).and invariant_scoping
  obtain ⟨live, ⟨g, hg, ⟨-, hinput, -⟩, hscoping⟩, hactive⟩ := hinvariant.of_reachable
    ⟨_, grown_initial program config.input config.stepBudget, ⟨rfl, rfl, rfl⟩,
      scoping_initial program config.input config.stepBudget⟩ h
  rw [← hinput]
  exact hscoping.scoped hg hactive (hinput ▸ isIdentifier_of_build hbuild)

/-- One read before a branch and one after it, in each of its two branches. -/
theorem scoped_after_two_reads :
    let e := (initial (.ofList [⟨0, .read ⟨0⟩⟩, ⟨1, .set ⟨5⟩ "0"⟩, ⟨2, .branch .less ⟨5⟩ ⟨0⟩ ⟨7⟩⟩,
      ⟨3, .read ⟨1⟩⟩, ⟨4, .concat ⟨2⟩ ⟨0⟩ ⟨1⟩⟩]) ⟨1, "flag"⟩ none).round.1.round.1.round.1.round.1
    Scoped e ⟨1, "flag"⟩ ∧ e.active.map (·.path.reads) = [2, 2] ∧
      ∀ s ∈ e.active, ∃ log, e.tree.Log e.root s.node log ∧ declared log = ["flag", "flag_1"] := by
  intro e
  have hbuild : Layer.build ⟨some 1, none, none, none⟩ = .ok ⟨⟨1, "flag"⟩, none, true⟩ := rfl
  have hscoped : Scoped e ⟨1, "flag"⟩ :=
    scoped_of_reachable hbuild (.round (.round (.round (.round .initial))))
  have hreads : e.active.map (·.path.reads) = [2, 2] := by decide +kernel
  have hnodes : ∀ s ∈ e.active, s.node.index < e.tree.size := by decide +kernel
  refine ⟨hscoped, hreads, fun s hs => ?_⟩
  obtain ⟨log, hlog, -⟩ := hscoped.log s.node (hnodes s hs)
  refine ⟨log, hlog, ?_⟩
  have htwo : s.path.reads = 2 := by
    have hmem := List.mem_map_of_mem (f := fun s : State => s.path.reads) hs
    simpa [hreads] using hmem
  rw [(hscoped.fresh s.node log hlog).1, hscoped.reads s hs log hlog, htwo]
  decide +kernel

end Explorer

end Lifter

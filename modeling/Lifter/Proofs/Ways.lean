import Lifter.Proofs.TreeShape

/-!
# Ways down a tree

What a path through the pseudocode does is spread over the nodes on a way from the root: the
statements of a branch follow those before the conditional. In a tree one way leads to each node, so
every node has a **log**, and a growth lists the logs of all nodes.

* `StatementTree.Log`: the statements on the way from the root to a node.
* `StatementTree.IsTree.log_unique`: there is one log for a node.
* `Growth.logs`, **`Growth.Spans.log_iff`**: the logs of a growth are those of its tree.
* **`Growth.HeldBy.mem_logs_amend`**: the logs after a tip has been replaced.
-/

namespace Lifter

/-- The statements of a node. -/
def Node.body {σ τ : Type} : Node σ τ → List σ
  | linear statements _ => statements.toList
  | conditional .. => []

namespace StatementTree

variable {σ τ : Type} {tree : StatementTree σ τ} {root id : NodeId} {log log' : List σ}

/-- The statements on a way from the root to a node, those of the node itself at the end. -/
inductive Log (tree : StatementTree σ τ) (root : NodeId) : NodeId → List σ → Prop
  | root {node : Node σ τ} : tree.node? root = some node → Log tree root root node.body
  | down {parent child : NodeId} {log : List σ} {node : Node σ τ} : Log tree root parent log →
      tree.Names parent child → tree.node? child = some node →
        Log tree root child (log ++ node.body)

theorem Log.index_lt (h : tree.Log root id log) : id.index < tree.size := by
  cases h with
  | root hnode => exact index_lt_of_node? hnode
  | down _ _ hnode => exact index_lt_of_node? hnode

/-- In a tree, only one way leads to a node. -/
theorem IsTree.log_unique (h : tree.IsTree root) (hlog : tree.Log root id log)
    (hlog' : tree.Log root id log') : log = log' := by
  induction hlog generalizing log' with
  | root hnode =>
    cases hlog' with
    | root hnode' => rw [Option.some.inj (hnode.symm.trans hnode')]
    | down _ hnames =>
      obtain ⟨field, -, htarget⟩ := hnames
      exact absurd htarget (h.root_unnamed field)
  | @down parent child log node hparent hnames hnode ih =>
    obtain ⟨field, rfl, htarget⟩ := hnames
    cases hlog' with
    | root => exact absurd htarget (h.root_unnamed field)
    | down hparent' hnames' hnode' =>
      obtain ⟨field', rfl, htarget'⟩ := hnames'
      have hne : child ≠ root := by
        rintro rfl
        exact h.root_unnamed field htarget
      obtain rfl : field = field' :=
        (h.named_once (index_lt_of_node? hnode) hne).unique htarget htarget'
      rw [ih hparent', Option.some.inj (hnode.symm.trans hnode')]

end StatementTree

namespace Growth

open StatementTree

variable {σ τ : Type} {g new : Growth σ τ} {tree : StatementTree σ τ} {root id i : NodeId}
  {before log : List σ}

/-- The nodes of a growth, each with the statements on the way to it, where the statements `before`
stand before the growth. -/
def logs (before : List σ) : Growth σ τ → List (NodeId × List σ)
  | tip id statements => [(id, before ++ statements.toList)]
  | fork id statements joint _ consequent alternate =>
    let now := before ++ statements.toList
    (id, now) :: (joint, now) :: (consequent.logs now ++ alternate.logs now)

theorem map_fst_logs (g : Growth σ τ) (before : List σ) : (g.logs before).map Prod.fst = g.ids := by
  induction g generalizing before with
  | tip i statements => rfl
  | fork i statements joint test c a ihc iha => simp [logs, ids, ihc, iha]

theorem mem_ids_of_mem_logs (h : (i, log) ∈ g.logs before) : i ∈ g.ids := by
  rw [← g.map_fst_logs before]
  exact List.mem_map_of_mem h

theorem exists_mem_logs (before : List σ) (h : i ∈ g.ids) : ∃ log, (i, log) ∈ g.logs before := by
  rw [← g.map_fst_logs before] at h
  obtain ⟨⟨_, log⟩, hlog, rfl⟩ := List.mem_map.mp h
  exact ⟨log, hlog⟩

/-- The ways down a growth are ways down the tree. -/
theorem HeldBy.log_of_mem_logs (h : g.HeldBy tree)
    (hroot : ∀ node, tree.node? g.root = some node → tree.Log root g.root (before ++ node.body))
    (hi : (i, log) ∈ g.logs before) : tree.Log root i log := by
  induction g generalizing before with
  | tip j statements =>
    cases List.mem_singleton.mp hi
    exact hroot _ h
  | fork j statements joint test c a ihc iha =>
    have hnext : tree.Names j joint := ⟨.next j, rfl, h.target_of_mem_links (by simp [links])⟩
    have hjc : tree.Names joint c.root :=
      ⟨.consequent joint, rfl, h.target_of_mem_links (by simp [links])⟩
    have hja : tree.Names joint a.root :=
      ⟨.alternate joint, rfl, h.target_of_mem_links (by simp [links])⟩
    obtain ⟨hj, hjoint, hc, ha⟩ := h
    have hnow : tree.Log root j (before ++ statements.toList) := hroot _ hj
    have hlog : tree.Log root joint (before ++ statements.toList) := by
      simpa [Node.body] using hnow.down hnext hjoint
    simp only [logs, List.mem_cons, List.mem_append, Prod.mk.injEq] at hi
    rcases hi with ⟨rfl, rfl⟩ | ⟨rfl, rfl⟩ | hi | hi
    · exact hnow
    · exact hlog
    · exact ihc hc (fun node hnode => hlog.down hjc hnode) hi
    · exact iha ha (fun node hnode => hlog.down hja hnode) hi

/-- **The ways down a tree are those down its growth.** -/
theorem Spans.log_iff (h : g.Spans tree root) : tree.Log root id log ↔ (id, log) ∈ g.logs [] := by
  have hlogs {i : NodeId} {log : List σ} (hi : (i, log) ∈ g.logs []) : tree.Log root i log := by
    refine h.held.log_of_mem_logs (fun node hnode => ?_) hi
    rw [h.root_eq] at hnode ⊢
    exact .root hnode
  refine ⟨fun hlog => ?_, hlogs⟩
  obtain ⟨log', hlog'⟩ := exists_mem_logs [] (h.mem_ids.mpr hlog.index_lt)
  rwa [h.isTree.log_unique hlog (hlogs hlog')]

/-- Ways down a growth in which a tip has been replaced: others are as they were, and those through
what is new start as the way to the tip did. -/
theorem HeldBy.mem_logs_amend (h : g.HeldBy tree) {statements : Array σ}
    (hid : tree.node? id = some (.linear statements none))
    (hi : (i, log) ∈ (g.amend id new).logs before) :
    ((i, log) ∈ g.logs before ∧ i ≠ id) ∨
      ∃ past, (id, past ++ statements.toList) ∈ g.logs before ∧ (i, log) ∈ new.logs past := by
  induction g generalizing before with
  | tip j statements' =>
    by_cases he : j = id
    · subst he
      have hj : tree.node? j = some (.linear statements' none) := h
      obtain ⟨rfl, -⟩ := Node.linear.inj (Option.some.inj (hj.symm.trans hid))
      rw [Growth.amend, if_pos rfl] at hi
      exact Or.inr ⟨before, List.mem_singleton_self _, hi⟩
    · rw [Growth.amend, if_neg he] at hi
      refine Or.inl ⟨hi, ?_⟩
      cases List.mem_singleton.mp hi
      exact he
  | fork j statements' joint test c a ihc iha =>
    obtain ⟨hj, hjoint, hc, ha⟩ := h
    simp only [Growth.amend, logs, List.mem_cons, List.mem_append, Prod.mk.injEq] at hi ⊢
    rcases hi with ⟨rfl, rfl⟩ | ⟨rfl, rfl⟩ | hi | hi
    · refine Or.inl ⟨by simp, ?_⟩
      rintro rfl
      cases hj.symm.trans hid
    · refine Or.inl ⟨by simp, ?_⟩
      rintro rfl
      cases hjoint.symm.trans hid
    · rcases ihc hc hi with ⟨hold, hne⟩ | ⟨past, hpast, hnew⟩
      · exact Or.inl ⟨by simp [hold], hne⟩
      · exact Or.inr ⟨past, by simp [hpast], hnew⟩
    · rcases iha ha hi with ⟨hold, hne⟩ | ⟨past, hpast, hnew⟩
      · exact Or.inl ⟨by simp [hold], hne⟩
      · exact Or.inr ⟨past, by simp [hpast], hnew⟩

end Growth

end Lifter

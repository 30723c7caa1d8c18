import Lifter.StatementTree
import Mathlib.Data.List.Nodup
import Mathlib.Data.List.Perm.Basic

/-!
# Statement trees as trees

A statement tree keeps its nodes by name, and nothing in its type makes the names fit together. A
**growth** is the same tree with every node in its place. Filling a tree and branching in it change
its growth at one tip and leave all else as it was, so what holds of a tree that is built step by
step is proved by recursion on its growth.

* `StatementTree.append_eq`, `StatementTree.appendAll_eq`, `StatementTree.continueWith_eq`: filling
  a linear node succeeds.
* `StatementTree.graft`: a linear node continued by a conditional with two new branches.
* `StatementTree.Every`: a property of all nodes, with what filling and branching do to it.
* `Growth`, `Growth.HeldBy`, `Growth.Spans`: a growth, the trees that hold its nodes, and the trees
  that have no others.
* **`Growth.Spans.extend`**, **`Growth.Spans.graft`**: the growth after a tip is filled or split.
* **`Growth.Spans.lines_eq`**: the lines of a tree are those of its growth.
-/

namespace Lifter

namespace StatementTree

variable {σ τ : Type} {tree : StatementTree σ τ} {id i : NodeId} {node : Node σ τ}

/-- The names of the nodes, in the order in which they were made. -/
def names (tree : StatementTree σ τ) : List NodeId := (List.range tree.size).map NodeId.mk

theorem mem_names : id ∈ tree.names ↔ id.index < tree.size := by
  simp only [names, List.mem_map, List.mem_range]
  exact ⟨by rintro ⟨n, hn, rfl⟩; exact hn, fun h => ⟨id.index, h, rfl⟩⟩

theorem nodup_names (tree : StatementTree σ τ) : tree.names.Nodup :=
  List.Nodup.map (fun _ _ h => congrArg NodeId.index h) List.nodup_range

theorem length_names (tree : StatementTree σ τ) : tree.names.length = tree.size := by
  simp [names]

theorem index_lt_of_node? (h : tree.node? id = some node) : id.index < tree.size :=
  (Array.getElem?_eq_some_iff.mp h).1

/-! ## Replacing a node -/

@[simp] theorem size_replace : (tree.replace id node).size = tree.size := by
  simp [replace, size]

theorem node?_replace_self (h : id.index < tree.size) :
    (tree.replace id node).node? id = some node := by
  have hlt : id.index < tree.nodes.size := h
  simp [replace, node?, hlt]

theorem node?_replace_of_ne (h : i ≠ id) : (tree.replace id node).node? i = tree.node? i := by
  have hne : id.index ≠ i.index := fun he => h (by cases i; cases id; simp_all)
  simp [replace, node?, Array.getElem?_setIfInBounds_ne hne]

theorem replace_replace (other : Node σ τ) :
    (tree.replace id node).replace id other = tree.replace id other := by
  simp [replace]

theorem replace_eq_self (h : tree.node? id = some node) : tree.replace id node = tree := by
  obtain ⟨nodes⟩ := tree
  obtain ⟨hlt, hget⟩ := Array.getElem?_eq_some_iff.mp h
  simp only [replace, mk.injEq]
  refine Array.ext (by simp) fun k hk _ => ?_
  by_cases he : id.index = k
  · subst he
    simpa using hget.symm
  · rw [Array.getElem_setIfInBounds_ne _ he]

/-! ## Filling a node -/

theorem append_eq {statements : Array σ} {next : Option NodeId}
    (h : tree.node? id = some (.linear statements next)) (statement : σ) :
    tree.append id statement = .ok (tree.replace id (.linear (statements.push statement) next)) := by
  simp only [append, h]

theorem appendAll_eq {statements : Array σ} {next : Option NodeId}
    (h : tree.node? id = some (.linear statements next)) (emitted : List σ) :
    tree.appendAll id emitted =
      .ok (tree.replace id (.linear (statements ++ emitted.toArray) next)) := by
  induction emitted generalizing tree statements with
  | nil => simp [appendAll, replace_eq_self h]
  | cons statement rest ih =>
    have hlt := index_lt_of_node? h
    simp only [appendAll, append_eq h]
    refine (ih (node?_replace_self hlt)).trans ?_
    rw [replace_replace]
    simp

theorem continueWith_eq {statements : Array σ}
    (h : tree.node? id = some (.linear statements none)) (target : NodeId) :
    tree.continueWith id target = .ok (tree.replace id (.linear statements (some target))) := by
  simp only [continueWith, h]

/-! ## Branching -/

/-- A tree after a linear node has got a continuation: a conditional whose two branches are new and
empty. -/
def graft (tree : StatementTree σ τ) (id : NodeId) (statements : Array σ) (test : τ) :
    StatementTree σ τ :=
  (tree.addLinear.2.addLinear.2.addConditional test ⟨tree.size⟩ ⟨tree.size + 1⟩).2.replace id
    (.linear statements (some ⟨tree.size + 2⟩))

@[simp] theorem size_add : (tree.add node).2.size = tree.size + 1 := by
  simp [add, size]

theorem node?_add_of_lt (h : i.index < tree.size) : (tree.add node).2.node? i = tree.node? i := by
  have hne : i.index ≠ tree.nodes.size := Nat.ne_of_lt h
  simp [add, node?, Array.getElem?_push, hne]

theorem node?_add_last : (tree.add node).2.node? ⟨tree.size⟩ = some node := by
  simp [add, node?, size]

theorem add_replace (h : id.index < tree.size) (other : Node σ τ) :
    ((tree.replace id node).add other).2 = (tree.add other).2.replace id node := by
  have hlt : id.index < tree.nodes.size := h
  simp only [add, replace, mk.injEq]
  refine Array.ext_getElem? fun k => ?_
  by_cases hk : k = tree.nodes.size
  · have hne : id.index ≠ k := by omega
    rw [Array.getElem?_setIfInBounds_ne hne, Array.getElem?_push, Array.getElem?_push,
      Array.size_setIfInBounds, if_pos hk, if_pos hk]
  · simp [Array.getElem?_push, Array.getElem?_setIfInBounds, hk, hlt, Nat.lt_succ_of_lt hlt]

/-- A name that is not yet given is a new one. -/
theorem ne_of_size_le (h : id.index < tree.size) {n : Nat} (hn : tree.size ≤ n) :
    (⟨n⟩ : NodeId) ≠ id := by
  rintro rfl
  exact absurd h (Nat.not_lt.mpr hn)

section Graft

variable {statements : Array σ} {test : τ}

@[simp] theorem size_graft : (tree.graft id statements test).size = tree.size + 3 := by
  simp [graft, addLinear, addConditional]

theorem node?_graft_self (h : id.index < tree.size) :
    (tree.graft id statements test).node? id = some (.linear statements (some ⟨tree.size + 2⟩)) :=
  node?_replace_self (by simp only [addLinear, addConditional, size_add]; omega)

theorem node?_graft_of_lt (h : i.index < tree.size) (hne : i ≠ id) :
    (tree.graft id statements test).node? i = tree.node? i := by
  rw [graft, node?_replace_of_ne hne, addConditional, node?_add_of_lt, addLinear, node?_add_of_lt,
    addLinear, node?_add_of_lt h]
  all_goals simp only [addLinear, size_add]; omega

theorem node?_graft_consequent (h : id.index < tree.size) :
    (tree.graft id statements test).node? ⟨tree.size⟩ = some (.linear #[] none) := by
  rw [graft, node?_replace_of_ne (ne_of_size_le h (Nat.le_refl _)), addConditional,
    node?_add_of_lt, addLinear, node?_add_of_lt, addLinear, node?_add_last]
  all_goals simp only [addLinear, size_add]; omega

theorem node?_graft_alternate (h : id.index < tree.size) :
    (tree.graft id statements test).node? ⟨tree.size + 1⟩ = some (.linear #[] none) := by
  have hsize : tree.addLinear.2.size = tree.size + 1 := by simp [addLinear]
  rw [graft, node?_replace_of_ne (ne_of_size_le h (Nat.le_add_right _ _)), addConditional,
    node?_add_of_lt, ← hsize]
  · exact node?_add_last
  · simp [addLinear]

theorem node?_graft_joint (h : id.index < tree.size) :
    (tree.graft id statements test).node? ⟨tree.size + 2⟩ =
      some (.conditional test ⟨tree.size⟩ ⟨tree.size + 1⟩) := by
  have hsize : tree.addLinear.2.addLinear.2.size = tree.size + 2 := by simp [addLinear]
  rw [graft, node?_replace_of_ne (ne_of_size_le h (Nat.le_add_right _ _)), ← hsize]
  exact node?_add_last

/-- The new nodes are the two branches and the joint. -/
theorem node?_graft_cases (h : id.index < tree.size) (hge : tree.size ≤ i.index)
    (hi : (tree.graft id statements test).node? i = some node) :
    ((i = ⟨tree.size⟩ ∨ i = ⟨tree.size + 1⟩) ∧ node = .linear #[] none) ∨
      i = ⟨tree.size + 2⟩ ∧ node = .conditional test ⟨tree.size⟩ ⟨tree.size + 1⟩ := by
  have hlt := index_lt_of_node? hi
  rw [size_graft] at hlt
  obtain ⟨n⟩ := i
  dsimp only at hge hlt
  obtain rfl | rfl | rfl : n = tree.size ∨ n = tree.size + 1 ∨ n = tree.size + 2 := by omega
  · exact Or.inl ⟨Or.inl rfl, Option.some.inj (hi.symm.trans (node?_graft_consequent h))⟩
  · exact Or.inl ⟨Or.inr rfl, Option.some.inj (hi.symm.trans (node?_graft_alternate h))⟩
  · exact Or.inr ⟨rfl, Option.some.inj (hi.symm.trans (node?_graft_joint h))⟩

/-- What the node held before does not matter. -/
theorem graft_replace (h : id.index < tree.size) :
    (tree.replace id node).graft id statements test = tree.graft id statements test := by
  have hlt : id.index < tree.addLinear.2.addLinear.2.size := by
    simp only [addLinear, size_add]; omega
  have hlt' : id.index < tree.addLinear.2.size := by simp only [addLinear, size_add]; omega
  unfold graft addLinear addConditional at *
  rw [size_replace, add_replace h, add_replace hlt', add_replace hlt, replace_replace]

end Graft

/-! ## What holds of every node -/

section Every

variable {P : Node σ τ → Prop} {statements : Array σ} {test : τ}

/-- All nodes of a tree have a property. -/
def Every (P : Node σ τ → Prop) (tree : StatementTree σ τ) : Prop :=
  ∀ id node, tree.node? id = some node → P node

theorem Every.replace (h : tree.Every P) (hnode : P node) (id : NodeId) :
    (tree.replace id node).Every P := by
  intro i n hn
  by_cases hi : i = id
  · subst hi
    have hlt : i.index < tree.size := by simpa using index_lt_of_node? hn
    obtain rfl : node = n := Option.some.inj ((node?_replace_self hlt).symm.trans hn)
    exact hnode
  · rw [node?_replace_of_ne hi] at hn
    exact h i n hn

theorem Every.add (h : tree.Every P) (hnode : P node) : (tree.add node).2.Every P := by
  intro i n hn
  have hlt : i.index < tree.size + 1 := by simpa using index_lt_of_node? hn
  rcases Nat.lt_succ_iff_lt_or_eq.mp hlt with hi | hi
  · rw [node?_add_of_lt hi] at hn
    exact h i n hn
  · obtain rfl : i = ⟨tree.size⟩ := congrArg NodeId.mk hi
    obtain rfl : node = n := Option.some.inj (node?_add_last.symm.trans hn)
    exact hnode

/-- Of the nodes that branching makes, the new branches are empty. -/
theorem Every.graft (h : tree.Every P) (hempty : P (.linear #[] none))
    (hjoint : ∀ consequent alternate, P (.conditional test consequent alternate))
    (hfilled : ∀ next, P (.linear statements next)) (id : NodeId) :
    (tree.graft id statements test).Every P :=
  (((h.add hempty).add hempty).add (hjoint _ _)).replace (hfilled _) id

end Every

end StatementTree

/-! ## Growths -/

/-- A statement tree with its nodes in place. -/
inductive Growth (σ τ : Type) where
  /-- A linear node that nothing follows yet. -/
  | tip (id : NodeId) (statements : Array σ)
  /-- A linear node followed by a conditional node, the joint, with its two branches. -/
  | fork (id : NodeId) (statements : Array σ) (joint : NodeId) (test : τ)
      (consequent alternate : Growth σ τ)

namespace Growth

variable {σ τ : Type}

/-- The name of the first node. -/
def root : Growth σ τ → NodeId
  | tip id _ => id
  | fork id .. => id

/-- The names of all nodes. -/
def ids : Growth σ τ → List NodeId
  | tip id _ => [id]
  | fork id _ joint _ consequent alternate => id :: joint :: (consequent.ids ++ alternate.ids)

/-- The names of the nodes that nothing follows. -/
def tips : Growth σ τ → List NodeId
  | tip id _ => [id]
  | fork _ _ _ _ consequent alternate => consequent.tips ++ alternate.tips

/-- The nodes of a growth stand in a tree, under their names. -/
def HeldBy (tree : StatementTree σ τ) : Growth σ τ → Prop
  | tip id statements => tree.node? id = some (.linear statements none)
  | fork id statements joint test consequent alternate =>
    tree.node? id = some (.linear statements (some joint)) ∧
      tree.node? joint = some (.conditional test consequent.root alternate.root) ∧
        consequent.HeldBy tree ∧ alternate.HeldBy tree

/-- A growth with another one in the place of a tip. -/
def amend : Growth σ τ → NodeId → Growth σ τ → Growth σ τ
  | tip i statements, id, new => if i = id then new else tip i statements
  | fork i statements joint test consequent alternate, id, new =>
    fork i statements joint test (consequent.amend id new) (alternate.amend id new)

/-- A linear node split in a tree of `size` nodes: the branches and then the joint are new. -/
def split (id : NodeId) (statements : Array σ) (test : τ) (size : Nat) : Growth σ τ :=
  fork id statements ⟨size + 2⟩ test (tip ⟨size⟩ #[]) (tip ⟨size + 1⟩ #[])

variable {g new : Growth σ τ} {tree tree' : StatementTree σ τ} {id i : NodeId}

@[simp] theorem root_tip {statements : Array σ} : (tip id statements : Growth σ τ).root = id := rfl

@[simp] theorem root_fork {statements : Array σ} {joint : NodeId} {test : τ} {c a : Growth σ τ} :
    (fork id statements joint test c a).root = id := rfl

theorem root_mem_ids (g : Growth σ τ) : g.root ∈ g.ids := by
  cases g <;> simp [root, ids]

theorem mem_ids_of_mem_tips (h : id ∈ g.tips) : id ∈ g.ids := by
  induction g with
  | tip i statements => exact h
  | fork i statements joint test c a ihc iha =>
    simp only [tips, List.mem_append] at h
    simp only [ids, List.mem_cons, List.mem_append]
    rcases h with h | h
    · exact Or.inr (Or.inr (Or.inl (ihc h)))
    · exact Or.inr (Or.inr (Or.inr (iha h)))

theorem HeldBy.tip_node (h : g.HeldBy tree) (hid : id ∈ g.tips) :
    ∃ statements, tree.node? id = some (.linear statements none) := by
  induction g with
  | tip i statements =>
    obtain rfl := List.mem_singleton.mp hid
    exact ⟨statements, h⟩
  | fork i statements joint test c a ihc iha =>
    obtain ⟨-, -, hc, ha⟩ := h
    rcases List.mem_append.mp hid with hid | hid
    · exact ihc hc hid
    · exact iha ha hid

/-! ### Changing a tip -/

theorem amend_of_not_mem (h : id ∉ g.tips) : g.amend id new = g := by
  induction g with
  | tip i statements =>
    have hne : i ≠ id := fun he => h (by simp [tips, he])
    simp [amend, hne]
  | fork i statements joint test c a ihc iha =>
    simp only [tips, List.mem_append, not_or] at h
    rw [amend, ihc h.1, iha h.2]

theorem root_amend (h : new.root = id) : (g.amend id new).root = g.root := by
  cases g with
  | tip i statements =>
    by_cases he : i = id
    · rw [amend, if_pos he]
      exact h.trans he.symm
    · rw [amend, if_neg he]
  | fork i statements joint test c a => rfl

theorem mem_tips_amend (h : id ∈ g.tips) :
    i ∈ (g.amend id new).tips ↔ (i ∈ g.tips ∧ i ≠ id) ∨ i ∈ new.tips := by
  induction g with
  | tip j statements =>
    obtain rfl := List.mem_singleton.mp h
    simp [amend, tips]
  | fork j statements joint test c a ihc iha =>
    simp only [amend, tips, List.mem_append]
    by_cases hc : id ∈ c.tips <;> by_cases ha : id ∈ a.tips
    · rw [ihc hc, iha ha]; grind
    · rw [ihc hc, amend_of_not_mem ha]
      have hne : i ∈ a.tips → i ≠ id := fun hi he => ha (he ▸ hi)
      grind
    · rw [iha ha, amend_of_not_mem hc]
      have hne : i ∈ c.tips → i ≠ id := fun hi he => hc (he ▸ hi)
      grind
    · exact absurd h (by simp [tips, hc, ha])

/-- A tip is replaced together with its name; the names that come with it are new. -/
theorem ids_amend {extra : List NodeId} (hn : g.ids.Nodup) (h : id ∈ g.tips)
    (hnew : new.ids.Perm (id :: extra)) : (g.amend id new).ids.Perm (g.ids ++ extra) := by
  induction g with
  | tip i statements =>
    obtain rfl := List.mem_singleton.mp h
    simpa [amend, ids] using hnew
  | fork i statements joint test c a ihc iha =>
    simp only [ids, List.nodup_cons, List.nodup_append] at hn
    obtain ⟨-, -, hnc, hna, hdisj⟩ := hn
    simp only [amend, ids, List.cons_append, List.append_assoc]
    refine List.Perm.cons _ (List.Perm.cons _ ?_)
    rcases List.mem_append.mp h with h | h
    · have ha : id ∉ a.tips := fun ha =>
        hdisj id (mem_ids_of_mem_tips h) id (mem_ids_of_mem_tips ha) rfl
      rw [amend_of_not_mem ha]
      refine ((ihc hnc h).append_right _).trans ?_
      rw [List.append_assoc]
      exact List.perm_append_comm.append_left _
    · have hc : id ∉ c.tips := fun hc =>
        hdisj id (mem_ids_of_mem_tips hc) id (mem_ids_of_mem_tips h) rfl
      rw [amend_of_not_mem hc]
      exact (iha hna h).append_left _

/-- The growth of a tree in which only one tip has changed. -/
theorem HeldBy.amend (hg : g.HeldBy tree) (hid : id ∈ g.tips)
    (hsame : ∀ i ∈ g.ids, i ≠ id → tree'.node? i = tree.node? i) (hnew : new.HeldBy tree')
    (hroot : new.root = id) : (g.amend id new).HeldBy tree' := by
  obtain ⟨statements', hnode⟩ := hg.tip_node hid
  clear hid
  induction g with
  | tip i statements =>
    by_cases he : i = id
    · simpa [Growth.amend, he] using hnew
    · simp only [Growth.amend, if_neg he, HeldBy]
      rw [hsame i (by simp [ids]) he]
      exact hg
  | fork i statements joint test c a ihc iha =>
    obtain ⟨hi, hj, hc, ha⟩ := hg
    -- a node that is followed by another, and a conditional node, are no tips
    have hine : i ≠ id := by rintro rfl; simp [hi] at hnode
    have hjne : joint ≠ id := by rintro rfl; simp [hj] at hnode
    simp only [Growth.amend, HeldBy, root_amend hroot]
    refine ⟨?_, ?_, ihc hc fun k hk => hsame k ?_, iha ha fun k hk => hsame k ?_⟩
    · rw [hsame i (by simp [ids]) hine, hi]
    · rw [hsame joint (by simp [ids]) hjne, hj]
    · simp [ids, hk]
    · simp [ids, hk]

/-! ### The growth of a whole tree -/

/-- A growth is all of a tree: it starts at the root and has each node of the tree once. -/
structure Spans (g : Growth σ τ) (tree : StatementTree σ τ) (root : NodeId) : Prop where
  held : g.HeldBy tree
  root_eq : g.root = root
  ids_perm : g.ids.Perm tree.names

namespace Spans

variable {root : NodeId}

theorem nodup (h : g.Spans tree root) : g.ids.Nodup :=
  h.ids_perm.nodup_iff.mpr tree.nodup_names

theorem mem_ids (h : g.Spans tree root) : id ∈ g.ids ↔ id.index < tree.size :=
  h.ids_perm.mem_iff.trans StatementTree.mem_names

theorem length_ids (h : g.Spans tree root) : g.ids.length = tree.size :=
  h.ids_perm.length_eq.trans tree.length_names

theorem index_lt_of_mem_tips (h : g.Spans tree root) (hid : id ∈ g.tips) : id.index < tree.size :=
  h.mem_ids.mp (mem_ids_of_mem_tips hid)

theorem not_mem_ids (h : g.Spans tree root) {n : Nat} (hn : tree.size ≤ n) :
    (⟨n⟩ : NodeId) ∉ g.ids := fun hm =>
  absurd (h.mem_ids.mp hm) (Nat.not_lt.mpr hn)

/-- **Filling a tip.** -/
theorem extend (h : g.Spans tree root) (hid : id ∈ g.tips) (statements : Array σ) :
    (g.amend id (.tip id statements)).Spans (tree.replace id (.linear statements none)) root where
  held := h.held.amend hid (fun _ _ hne => StatementTree.node?_replace_of_ne hne)
    (StatementTree.node?_replace_self (h.index_lt_of_mem_tips hid)) rfl
  root_eq := (root_amend root_tip).trans h.root_eq
  ids_perm := by
    have hids : (g.amend id (.tip id statements)).ids.Perm (g.ids ++ []) :=
      ids_amend h.nodup hid (List.Perm.refl _)
    rw [List.append_nil] at hids
    exact hids.trans (by simpa [StatementTree.names] using h.ids_perm)

/-- **Splitting a tip.** -/
theorem graft (h : g.Spans tree root) (hid : id ∈ g.tips) (statements : Array σ) (test : τ) :
    (g.amend id (.split id statements test tree.size)).Spans (tree.graft id statements test)
      root where
  held := by
    have hlt := h.index_lt_of_mem_tips hid
    refine h.held.amend hid (fun i hi hne => ?_) ?_ rfl
    · exact StatementTree.node?_graft_of_lt (h.mem_ids.mp hi) hne
    · exact ⟨StatementTree.node?_graft_self hlt, StatementTree.node?_graft_joint hlt,
        StatementTree.node?_graft_consequent hlt, StatementTree.node?_graft_alternate hlt⟩
  root_eq := (root_amend root_fork).trans h.root_eq
  ids_perm := by
    have hnames : (tree.graft id statements test).names =
        tree.names ++ [⟨tree.size⟩, ⟨tree.size + 1⟩, ⟨tree.size + 2⟩] := by
      simp [StatementTree.names, List.range_succ]
    -- the joint is made after its branches, and stands before them in the growth
    have hsplit : (split id statements test tree.size).ids.Perm
        (id :: [⟨tree.size⟩, ⟨tree.size + 1⟩, ⟨tree.size + 2⟩]) :=
      List.Perm.cons _ (List.perm_append_singleton _ [_, _]).symm
    rw [hnames]
    exact (ids_amend h.nodup hid hsplit).trans (h.ids_perm.append_right _)

end Spans

/-! ### Lines -/

section Lines

variable [Spelled σ] [Spelled τ]

/-- The lines of a growth, where more is still to come at the tips. -/
def linesWith (pending : NodeId → List String) : Growth σ τ → List String
  | tip id statements => statements.toList.map Spelled.text ++ pending id
  | fork _ statements _ test consequent alternate =>
    statements.toList.map Spelled.text ++
      StatementTree.conditionalLines (Spelled.text test) (consequent.linesWith pending)
        (alternate.linesWith pending)

/-- The lines of a growth as it is. -/
def lines (g : Growth σ τ) : List String := g.linesWith fun _ => []

/-- Going as deep as there are nodes is deep enough. -/
theorem HeldBy.linesWithin_root {depth : Nat} (h : g.HeldBy tree) (hd : g.ids.length ≤ depth) :
    tree.linesWithin depth g.root = g.lines := by
  induction g generalizing depth with
  | tip i statements =>
    obtain ⟨depth, rfl⟩ := Nat.exists_eq_add_of_le' (show 1 ≤ depth from hd)
    have hi : tree.node? i = some (.linear statements none) := h
    simp only [root_tip, StatementTree.linesWithin, hi, lines, linesWith]
  | fork i statements joint test c a ihc iha =>
    obtain ⟨hi, hj, hc, ha⟩ := h
    simp only [ids, List.length_cons, List.length_append] at hd
    obtain ⟨depth, rfl⟩ := Nat.exists_eq_add_of_le' (show 2 ≤ depth by omega)
    simp only [root_fork, StatementTree.linesWithin, hi, hj, lines, linesWith]
    rw [ihc hc (by omega), iha ha (by omega)]
    rfl

/-- **The lines of a tree are those of its growth.** -/
theorem Spans.lines_eq {root : NodeId} (h : g.Spans tree root) : tree.lines root = g.lines := by
  rw [StatementTree.lines, ← h.root_eq]
  exact h.held.linesWithin_root (Nat.le_of_eq h.length_ids)

/-- What is still to come may move from a tip into the growth that takes its place. -/
theorem linesWith_amend {pending pending' : NodeId → List String} {statements : Array σ}
    (h : g.HeldBy tree) (hnode : tree.node? id = some (.linear statements none))
    (hsame : ∀ i ∈ g.tips, i ≠ id → pending' i = pending i)
    (hnew : new.linesWith pending' = statements.toList.map Spelled.text ++ pending id) :
    (g.amend id new).linesWith pending' = g.linesWith pending := by
  induction g with
  | tip i statements' =>
    by_cases he : i = id
    · subst he
      have hs : statements' = statements := by
        have hi : tree.node? i = some (.linear statements' none) := h
        simpa [hi] using hnode
      rw [amend, if_pos rfl, hnew, linesWith, hs]
    · rw [amend, if_neg he, linesWith, linesWith, hsame i (by simp [tips]) he]
  | fork i statements' joint test c a ihc iha =>
    obtain ⟨-, -, hc, ha⟩ := h
    simp only [amend, linesWith]
    rw [ihc hc fun k hk => hsame k (by simp [tips, hk]),
      iha ha fun k hk => hsame k (by simp [tips, hk])]

end Lines

end Growth

end Lifter

import Lifter.Proofs.Round
import Mathlib.Logic.Relation
import Mathlib.Order.RelClasses

/-!
# The shape of statement trees

The nodes of a statement tree name one another, forward in a continuation and backward in the
branches of a conditional. In an exploration these names always form a tree. The growth of the tree
shows it: each of its links is one field of one node, and its nodes are those of the tree, once
each.

* `StatementTree.Field`, `StatementTree.target?`: where names are stored.
* `StatementTree.IsTree`: the names form a tree, in which linear and conditional nodes take turns.
* `Growth.links`: the fields of a growth with what they name.
* **`Growth.Spans.isTree`**: a tree with a growth is a tree.
* **`Explorer.isTree_of_reachable`**: so is that of every exploration, and filling it never fails.
-/

namespace Lifter

/-! ## Fields -/

namespace StatementTree

/-- A field of a node that can name another node. -/
inductive Field where
  | next (owner : NodeId)
  | consequent (owner : NodeId)
  | alternate (owner : NodeId)

/-- The node that a field belongs to. -/
def Field.owner : Field → NodeId
  | next owner | consequent owner | alternate owner => owner

variable {σ τ : Type}

/-- What a field names. -/
def target? (tree : StatementTree σ τ) (field : Field) : Option NodeId :=
  match field, tree.node? field.owner with
  | .next _, some (.linear _ next) => next
  | .consequent _, some (.conditional _ consequent _) => some consequent
  | .alternate _, some (.conditional _ _ alternate) => some alternate
  | _, _ => none

/-- A node names another one in one of its fields. -/
def Names (tree : StatementTree σ τ) (parent child : NodeId) : Prop :=
  ∃ field : Field, field.owner = parent ∧ tree.target? field = some child

/-- A linear node, whatever it holds. -/
def IsLinear (tree : StatementTree σ τ) (id : NodeId) : Prop :=
  ∃ statements next, tree.node? id = some (.linear statements next)

/-- A conditional node, whatever it tests. -/
def IsConditional (tree : StatementTree σ τ) (id : NodeId) : Prop :=
  ∃ test consequent alternate, tree.node? id = some (.conditional test consequent alternate)

/-- The nodes form a tree. Only nodes are named; the root is named by no field and every other node
by exactly one; every node is below the root, and none is below itself. The branches of a
conditional are linear, and a linear node is continued by a conditional. -/
structure IsTree (tree : StatementTree σ τ) (root : NodeId) : Prop where
  root_lt : root.index < tree.size
  target_lt : ∀ {field id}, tree.target? field = some id → id.index < tree.size
  root_unnamed : ∀ field, tree.target? field ≠ some root
  named_once : ∀ {id : NodeId}, id.index < tree.size → id ≠ root →
    ∃! field, tree.target? field = some id
  below_root : ∀ {id : NodeId}, id.index < tree.size → Relation.ReflTransGen tree.Names root id
  acyclic : ∀ id, ¬ Relation.TransGen tree.Names id id
  branches : ∀ {id test consequent alternate},
    tree.node? id = some (.conditional test consequent alternate) →
      tree.IsLinear consequent ∧ tree.IsLinear alternate
  continuation : ∀ {id statements target},
    tree.node? id = some (.linear statements (some target)) → tree.IsConditional target

theorem owner_lt_of_target? {tree : StatementTree σ τ} {field : Field} {id : NodeId}
    (h : tree.target? field = some id) : field.owner.index < tree.size := by
  cases hnode : tree.node? field.owner with
  | none => cases field <;> simp [target?, hnode] at h
  | some node => exact index_lt_of_node? hnode

end StatementTree

namespace Growth

open StatementTree

variable {σ τ : Type} {g : Growth σ τ} {tree : StatementTree σ τ} {root id : NodeId} {field : Field}

/-! ## Links -/

/-- The fields of a growth and what they name. -/
def links : Growth σ τ → List (Field × NodeId)
  | tip _ _ => []
  | fork id _ joint _ consequent alternate =>
    (.next id, joint) :: (.consequent joint, consequent.root) :: (.alternate joint, alternate.root)
      :: (consequent.links ++ alternate.links)

theorem HeldBy.target_of_mem_links (h : g.HeldBy tree) (hl : (field, id) ∈ g.links) :
    tree.target? field = some id := by
  induction g with
  | tip i statements => simp [links] at hl
  | fork i statements joint test c a ihc iha =>
    obtain ⟨hi, hj, hc, ha⟩ := h
    simp only [links, List.mem_cons, List.mem_append, Prod.mk.injEq] at hl
    rcases hl with ⟨rfl, rfl⟩ | ⟨rfl, rfl⟩ | ⟨rfl, rfl⟩ | hl | hl
    · simp [target?, Field.owner, hi]
    · simp [target?, Field.owner, hj]
    · simp [target?, Field.owner, hj]
    · exact ihc hc hl
    · exact iha ha hl

theorem HeldBy.mem_links_of_target (h : g.HeldBy tree) (ho : field.owner ∈ g.ids)
    (ht : tree.target? field = some id) : (field, id) ∈ g.links := by
  induction g with
  | tip i statements =>
    have hi : tree.node? field.owner = some (.linear statements none) := by
      rw [List.mem_singleton.mp ho]; exact h
    cases field <;> simp [target?, hi] at ht
  | fork i statements joint test c a ihc iha =>
    obtain ⟨hi, hj, hc, ha⟩ := h
    simp only [ids, List.mem_cons, List.mem_append] at ho
    simp only [links, List.mem_cons, List.mem_append, Prod.mk.injEq]
    rcases ho with ho | ho | ho | ho
    · rw [← ho] at hi
      cases field <;> simp [target?, hi] at ht
      simp_all [Field.owner]
    · rw [← ho] at hj
      cases field <;> simp [target?, hj] at ht <;> simp_all [Field.owner]
    · simp [ihc hc ho]
    · simp [iha ha ho]

/-- Every node is the root or what one link names. -/
theorem links_perm (g : Growth σ τ) : (g.root :: g.links.map Prod.snd).Perm g.ids := by
  induction g with
  | tip i statements => exact List.Perm.refl _
  | fork i statements joint test c a ihc iha =>
    simp only [links, ids, root_fork, List.map_cons, List.map_append]
    refine List.Perm.cons _ (List.Perm.cons _ ?_)
    exact (List.Perm.cons _ List.perm_middle.symm).trans (ihc.append iha)

theorem Spans.target_iff (h : g.Spans tree root) :
    tree.target? field = some id ↔ (field, id) ∈ g.links :=
  ⟨fun ht => h.held.mem_links_of_target (h.mem_ids.mpr (owner_lt_of_target? ht)) ht,
    h.held.target_of_mem_links⟩

/-! ## Ways down -/

theorem HeldBy.root_isLinear (h : g.HeldBy tree) : tree.IsLinear g.root := by
  cases g with
  | tip i statements => exact ⟨statements, none, h⟩
  | fork i statements joint test c a => exact ⟨statements, some joint, h.1⟩

theorem HeldBy.below_root (h : g.HeldBy tree) (hid : id ∈ g.ids) :
    Relation.ReflTransGen tree.Names g.root id := by
  induction g with
  | tip i statements => rw [List.mem_singleton.mp hid]; exact .refl
  | fork i statements joint test c a ihc iha =>
    have hj : tree.Names i joint := ⟨.next i, rfl, h.target_of_mem_links (by simp [links])⟩
    have hjc : tree.Names joint c.root :=
      ⟨.consequent joint, rfl, h.target_of_mem_links (by simp [links])⟩
    have hja : tree.Names joint a.root :=
      ⟨.alternate joint, rfl, h.target_of_mem_links (by simp [links])⟩
    obtain ⟨-, -, hc, ha⟩ := h
    simp only [ids, List.mem_cons, List.mem_append] at hid
    rcases hid with rfl | rfl | hid | hid
    · exact .refl
    · exact .single hj
    · exact (ihc hc hid).head hjc |>.head hj
    · exact (iha ha hid).head hja |>.head hj

/-- No way down from a node of a growth is endless. -/
theorem HeldBy.acc (h : g.HeldBy tree) (hid : id ∈ g.ids) :
    Acc (fun child parent => tree.Names parent child) id := by
  induction g generalizing id with
  | tip i statements =>
    rw [List.mem_singleton.mp hid]
    refine ⟨_, fun child ⟨field, ho, ht⟩ => ?_⟩
    have hl := h.mem_links_of_target (by simp [ids, ho]) ht
    simp [links] at hl
  | fork i statements joint test c a ihc iha =>
    obtain ⟨hi, hj, hc, ha⟩ := h
    have hjoint : Acc (fun child parent => tree.Names parent child) joint := by
      refine ⟨_, fun child ⟨field, ho, ht⟩ => ?_⟩
      rw [← ho] at hj
      cases field <;> simp [target?, hj] at ht
      · exact ht ▸ ihc hc c.root_mem_ids
      · exact ht ▸ iha ha a.root_mem_ids
    simp only [ids, List.mem_cons, List.mem_append] at hid
    rcases hid with rfl | rfl | hid | hid
    · refine ⟨_, fun child ⟨field, ho, ht⟩ => ?_⟩
      rw [← ho] at hi
      cases field <;> simp [target?, hi] at ht
      exact ht ▸ hjoint
    · exact hjoint
    · exact ihc hc hid
    · exact iha ha hid

theorem HeldBy.acyclic (h : g.HeldBy tree) (hid : id ∈ g.ids) :
    ¬ Relation.TransGen tree.Names id id := by
  have hacc := h.acc hid
  clear hid
  induction hacc with
  | intro id _ ih =>
    intro hcycle
    obtain ⟨child, hdown, hback⟩ := Relation.TransGen.head'_iff.mp hcycle
    exact ih child hdown (Relation.TransGen.tail' hback hdown)

theorem HeldBy.alternation (h : g.HeldBy tree) (hid : id ∈ g.ids) :
    (∀ {test consequent alternate},
      tree.node? id = some (.conditional test consequent alternate) →
        tree.IsLinear consequent ∧ tree.IsLinear alternate) ∧
    ∀ {statements target},
      tree.node? id = some (.linear statements (some target)) → tree.IsConditional target := by
  induction g with
  | tip i statements =>
    rw [List.mem_singleton.mp hid, show tree.node? i = some (.linear statements none) from h]
    exact ⟨by rintro _ _ _ ⟨⟩, by rintro _ _ ⟨⟩⟩
  | fork i statements joint test c a ihc iha =>
    obtain ⟨hi, hj, hc, ha⟩ := h
    simp only [ids, List.mem_cons, List.mem_append] at hid
    rcases hid with rfl | rfl | hid | hid
    · rw [hi]
      refine ⟨by rintro _ _ _ ⟨⟩, fun heq => ?_⟩
      cases heq
      exact ⟨test, _, _, hj⟩
    · rw [hj]
      refine ⟨fun heq => ?_, by rintro _ _ ⟨⟩⟩
      cases heq
      exact ⟨hc.root_isLinear, ha.root_isLinear⟩
    · exact ihc hc hid
    · exact iha ha hid

/-- Reading as deep as there are nodes reads everything below a node. -/
theorem HeldBy.linesWithin_eq [Spelled σ] [Spelled τ] {depth depth' : Nat} (h : g.HeldBy tree)
    (hid : id ∈ g.ids) (hd : g.ids.length ≤ depth) (hd' : g.ids.length ≤ depth') :
    tree.linesWithin depth id = tree.linesWithin depth' id := by
  induction g generalizing id depth depth' with
  | tip i statements =>
    rw [List.mem_singleton.mp hid]
    exact (h.linesWithin_root hd).trans (h.linesWithin_root hd').symm
  | fork i statements joint test c a ihc iha =>
    have hi := (h.linesWithin_root hd).trans (h.linesWithin_root hd').symm
    obtain ⟨-, hj, hc, ha⟩ := h
    simp only [ids, List.length_cons, List.length_append] at hd hd'
    simp only [ids, List.mem_cons, List.mem_append] at hid
    rcases hid with rfl | rfl | hid | hid
    · exact hi
    · obtain ⟨depth, rfl⟩ := Nat.exists_eq_add_of_le' (show 1 ≤ depth by omega)
      obtain ⟨depth', rfl⟩ := Nat.exists_eq_add_of_le' (show 1 ≤ depth' by omega)
      simp only [linesWithin, hj]
      rw [hc.linesWithin_root (show c.ids.length ≤ depth by omega),
        hc.linesWithin_root (show c.ids.length ≤ depth' by omega),
        ha.linesWithin_root (show a.ids.length ≤ depth by omega),
        ha.linesWithin_root (show a.ids.length ≤ depth' by omega)]
    · exact ihc hc hid (by omega) (by omega)
    · exact iha ha hid (by omega) (by omega)

theorem Spans.linesWithin_eq_lines [Spelled σ] [Spelled τ] {depth : Nat} (h : g.Spans tree root)
    (id : NodeId) (hd : tree.size ≤ depth) : tree.linesWithin depth id = tree.lines id := by
  by_cases hid : id ∈ g.ids
  · exact h.held.linesWithin_eq hid (h.length_ids ▸ hd) (h.length_ids ▸ Nat.le_refl _)
  · have hnode : tree.node? id = none := by
      refine Option.eq_none_iff_forall_ne_some.mpr fun node hn => hid ?_
      exact h.mem_ids.mpr (index_lt_of_node? hn)
    unfold StatementTree.lines
    cases depth <;> cases tree.size <;> simp [linesWithin, hnode]

/-- **A tree with a growth is a tree.** -/
theorem Spans.isTree (h : g.Spans tree root) : tree.IsTree root where
  root_lt := h.mem_ids.mp (h.root_eq ▸ g.root_mem_ids)
  target_lt ht := by
    have hmem := List.mem_cons_of_mem g.root (List.mem_map_of_mem (f := Prod.snd) (h.target_iff.mp ht))
    exact h.mem_ids.mp (g.links_perm.mem_iff.mp hmem)
  root_unnamed field ht := by
    have hnodup := g.links_perm.nodup_iff.mpr h.nodup
    rw [h.root_eq] at hnodup
    exact (List.nodup_cons.mp hnodup).1 (List.mem_map_of_mem (f := Prod.snd) (h.target_iff.mp ht))
  named_once {id} hlt hne := by
    have hnodup := (List.nodup_cons.mp (g.links_perm.nodup_iff.mpr h.nodup)).2
    have hmem := g.links_perm.mem_iff.mpr (h.mem_ids.mpr hlt)
    rw [h.root_eq, List.mem_cons] at hmem
    obtain ⟨⟨field, id'⟩, hl, rfl⟩ := List.mem_map.mp (hmem.resolve_left hne)
    refine ⟨field, h.target_iff.mpr hl, fun other ho => ?_⟩
    have heq := List.inj_on_of_nodup_map hnodup (h.target_iff.mp ho) hl rfl
    exact congrArg Prod.fst heq
  below_root hlt := h.root_eq ▸ h.held.below_root (h.mem_ids.mpr hlt)
  acyclic id hcycle := by
    have hlt : id.index < tree.size := by
      obtain ⟨child, ⟨field, rfl, ht⟩, -⟩ := Relation.TransGen.head'_iff.mp hcycle
      exact owner_lt_of_target? ht
    exact h.held.acyclic (h.mem_ids.mpr hlt) hcycle
  branches hnode := (h.held.alternation (h.mem_ids.mpr (index_lt_of_node? hnode))).1 hnode
  continuation hnode := (h.held.alternation (h.mem_ids.mpr (index_lt_of_node? hnode))).2 hnode

end Growth

/-! ## Explorations -/

namespace Explorer

variable {program : Program} {input : Input} {budget : Option Nat} {e : Explorer}

theorem exists_grown_of_round (h : ∃ g, Grown g e e.active) :
    ∃ g, Grown g e.round.1 e.round.1.active := by
  obtain ⟨g, hg⟩ := h
  rcases invariant_true.round ⟨g, hg, trivial⟩ with ⟨e', he, g', hg', -⟩ |
    ⟨e', fault, rest, he, hactive, ⟨g', hg', -⟩, -⟩
  · exact ⟨g', by rw [he]; exact hg'⟩
  · refine ⟨g', ?_⟩
    rw [he]
    exact (hactive ▸ hg'.sublist (List.nil_sublist rest))

theorem Reachable.exists_grown (h : Reachable program input budget e) : ∃ g, Grown g e e.active :=
  Reachable.of_round (Q := fun e => ∃ g, Grown g e e.active)
    ⟨_, grown_initial program input budget⟩ (fun _ => exists_grown_of_round) h

theorem round_ne_tree_error (h : ∃ g, Grown g e e.active) (error : TreeError) :
    e.round.2 ≠ .error (.tree error) := by
  obtain ⟨g, hg⟩ := h
  rcases invariant_true.round ⟨g, hg, trivial⟩ with ⟨e', he, -⟩ | ⟨e', fault, rest, he, -⟩
  all_goals rw [he]; rintro ⟨⟩

theorem explore_ne_tree_error (h : ∃ g, Grown g e e.active) (rounds : Nat) (e' : Explorer)
    (error : TreeError) : e.explore rounds ≠ .failed e' (.tree error) := by
  induction rounds generalizing e with
  | zero => rintro ⟨⟩
  | succ rounds ih =>
    have hround := round_ne_tree_error h error
    have hnext := exists_grown_of_round h
    unfold explore
    split <;> rename_i e'' he <;> rw [he] at hround hnext
    · rintro ⟨⟩
      exact hround rfl
    · exact ih hnext
    · rintro ⟨⟩

/-- **The statement tree of an exploration is a tree**, after any calls and also after failed ones:
reading it comes to an end, active states are at open nodes, no two states share a node, and no call
fails in the tree. -/
theorem isTree_of_reachable (h : Reachable program input budget e) :
    e.tree.IsTree e.root ∧
    (∀ id depth, e.tree.size ≤ depth → e.tree.linesWithin depth id = e.tree.lines id) ∧
    (∀ s ∈ e.active, ∃ statements, e.tree.node? s.node = some (.linear statements none)) ∧
    ((e.active ++ e.finished.toList).map State.node).Nodup ∧
    (∀ error, e.round.2 ≠ .error (.tree error)) ∧
    ∀ rounds e' error, e.explore rounds ≠ .failed e' (.tree error) := by
  have hgrown := h.exists_grown
  obtain ⟨g, hg⟩ := h.exists_grown
  exact ⟨hg.spans.isTree, fun id _ hd => hg.spans.linesWithin_eq_lines id hd,
    fun s hs => hg.open_node hs, hg.nodup, round_ne_tree_error hgrown,
    explore_ne_tree_error hgrown⟩

/-- One round before a branch, one at it, and one that fails in the first of the new states. -/
theorem isTree_after_failed_branch :
    let e := (initial (.ofList [⟨0, .set ⟨5⟩ "0"⟩, ⟨1, .branch .less ⟨5⟩ ⟨6⟩ ⟨7⟩⟩, ⟨2, .jump ⟨5⟩⟩])
      ⟨1, "flag"⟩ none).round.1.round.1.round.1
    e.tree.size = 4 ∧ e.active.length = 0 ∧ e.tree.IsTree e.root :=
  ⟨by decide +kernel, by decide +kernel, (isTree_of_reachable (.round (.round (.round .initial)))).1⟩

end Explorer

end Lifter

import Lifter.Proofs.Schedule

/-!
# Who descends from whom

States come into being in pairs, when another state ends at a branch. No state is lost on the way
through the lists of a round: the states that are alive and those that have come to an end are
numbered without gaps, and a state's parent, its branch in the tree and the order of the numbers all
tell the same story.

* `StatementTree.BranchesTo`: a linear node that is followed by a conditional.
* `Kin`, `Kinship`: what stays with a state for its whole life, and how it fits together;
  **`Kinship.born`** adds the two states of a fork.
* `Explorer.Census`, `Explorer.Tally`: invariants of the states alive and of their number.
* `Explorer.Moment.Ordered`: within a round, states are alive in the order of their numbers.
* **`Explorer.accounted_after_rounds`**: all of it after any number of rounds.
-/

namespace Lifter

/-! ## Branches in a tree -/

namespace StatementTree

variable {σ τ : Type} {tree : StatementTree σ τ} {id i c a : NodeId} {node : Node σ τ}
  {statements : Array σ}

/-- A linear node followed by a conditional with the two given branches. -/
def BranchesTo (tree : StatementTree σ τ) (id consequent alternate : NodeId) : Prop :=
  ∃ statements joint test, tree.node? id = some (.linear statements (some joint)) ∧
    tree.node? joint = some (.conditional test consequent alternate)

/-- Changing a node that nothing follows yet keeps all branches. -/
theorem BranchesTo.of_node?_eq {tree' : StatementTree σ τ} (h : tree.BranchesTo i c a)
    (hopen : tree.node? id = some (.linear statements none))
    (hsame : ∀ j, j ≠ id → j.index < tree.size → tree'.node? j = tree.node? j) :
    tree'.BranchesTo i c a := by
  obtain ⟨statements', joint, test, hi, hjoint⟩ := h
  have hine : i ≠ id := by rintro rfl; simp [hi] at hopen
  have hjne : joint ≠ id := by rintro rfl; simp [hjoint] at hopen
  refine ⟨statements', joint, test, ?_, ?_⟩
  · rw [hsame i hine (index_lt_of_node? hi), hi]
  · rw [hsame joint hjne (index_lt_of_node? hjoint), hjoint]

theorem BranchesTo.replace (h : tree.BranchesTo i c a)
    (hopen : tree.node? id = some (.linear statements none)) :
    (tree.replace id node).BranchesTo i c a :=
  h.of_node?_eq hopen fun _ hne _ => node?_replace_of_ne hne

theorem BranchesTo.graft {test : τ} {statements' : Array σ} (h : tree.BranchesTo i c a)
    (hopen : tree.node? id = some (.linear statements none)) :
    (tree.graft id statements' test).BranchesTo i c a :=
  h.of_node?_eq hopen fun _ hne hlt => node?_graft_of_lt hlt hne

theorem branchesTo_graft {test : τ} (h : id.index < tree.size) :
    (tree.graft id statements test).BranchesTo id ⟨tree.size⟩ ⟨tree.size + 1⟩ :=
  ⟨statements, _, test, node?_graft_self h, node?_graft_joint h⟩

end StatementTree

/-! ## Kinship -/

/-- What stays with a state for its whole life. -/
structure Kin where
  id : StateId
  parent : Option StateId
  node : NodeId

def State.kin (s : State) : Kin := ⟨s.id, s.parent, s.node⟩

/-- Among its kin a state has no children, or two: one in the consequent of its branch and, with the
next number, one in the alternate. -/
def Kin.Paired (tree : StatementTree Statement Comparison) (kin : List Kin) (k : Kin) : Prop :=
  (∀ j ∈ kin, j.parent ≠ some k.id) ∨
  ∃ c ∈ kin, ∃ a ∈ kin, c.parent = some k.id ∧ a.parent = some k.id ∧
    a.id.index = c.id.index + 1 ∧ (∀ j ∈ kin, j.parent = some k.id → j = c ∨ j = a) ∧
      tree.BranchesTo k.node c.node a.node

/-- States numbered below `count` without gaps. All but the first have a parent with a smaller
number, and those with children have two of them, in the branches that follow their node. -/
structure Kinship (tree : StatementTree Statement Comparison) (count : Nat) (kin : List Kin) :
    Prop where
  ids : (kin.map (·.id.index)).Perm (List.range count)
  first : ∀ k ∈ kin, k.parent = none ↔ k.id.index = 0
  parents : ∀ k ∈ kin, ∀ p, k.parent = some p → p.index < k.id.index
  children : ∀ k ∈ kin, k.Paired tree kin

namespace Kinship

variable {tree tree' : StatementTree Statement Comparison} {count : Nat} {kin kin' : List Kin}
  {k j : Kin}

theorem index_lt (h : Kinship tree count kin) (hk : k ∈ kin) : k.id.index < count :=
  List.mem_range.mp (h.ids.mem_iff.mp (List.mem_map_of_mem (f := fun k : Kin => k.id.index) hk))

theorem eq_of_id_eq (h : Kinship tree count kin) (hk : k ∈ kin) (hj : j ∈ kin) (he : k.id = j.id) :
    k = j :=
  List.inj_on_of_nodup_map (h.ids.nodup_iff.mpr List.nodup_range) hk hj
    (congrArg StateId.index he)

theorem perm (h : Kinship tree count kin) (hp : kin.Perm kin') : Kinship tree count kin' where
  ids := (hp.symm.map _).trans h.ids
  first k hk := h.first k (hp.mem_iff.mpr hk)
  parents k hk := h.parents k (hp.mem_iff.mpr hk)
  children k hk := by
    simpa only [Kin.Paired, hp.mem_iff] using h.children k (hp.mem_iff.mpr hk)

theorem of_branchesTo (h : Kinship tree count kin)
    (hkeep : ∀ i c a, tree.BranchesTo i c a → tree'.BranchesTo i c a) :
    Kinship tree' count kin where
  ids := h.ids
  first := h.first
  parents := h.parents
  children k hk := by
    rcases h.children k hk with hnone | ⟨c, hc, a, ha, hcp, hap, hnext, honly, hbranches⟩
    · exact Or.inl hnone
    · exact Or.inr ⟨c, hc, a, ha, hcp, hap, hnext, honly, hkeep _ _ _ hbranches⟩

/-- The two states that a fork gives, at the nodes `c` and `a`. -/
def newborns (count : Nat) (parent : StateId) (c a : NodeId) : List Kin :=
  [⟨⟨count⟩, parent, c⟩, ⟨⟨count + 1⟩, parent, a⟩]

theorem of_mem_newborns {parent : StateId} {c a : NodeId} (h : j ∈ newborns count parent c a) :
    j.parent = some parent ∧ count ≤ j.id.index := by
  simp only [newborns, List.mem_cons, List.not_mem_nil, or_false] at h
  rcases h with rfl | rfl
  · exact ⟨rfl, Nat.le_refl count⟩
  · exact ⟨rfl, Nat.le_succ count⟩

section Born

variable {c a : NodeId}

/-- Only states that were there before are parents. -/
theorem parent_lt (h : Kinship tree count kin) (hk : k ∈ kin) {p : StateId}
    (hj : j ∈ kin ++ newborns count k.id c a) (hp : j.parent = some p) : p.index < count := by
  rcases List.mem_append.mp hj with hj | hj
  · exact Nat.lt_trans (h.parents j hj p hp) (h.index_lt hj)
  · obtain rfl : k.id = p := Option.some.inj ((of_mem_newborns hj).1.symm.trans hp)
    exact h.index_lt hk

/-- The children of another state are those it had before. -/
theorem paired_of_ne (h : Kinship tree count kin) {i : Kin} (hi : i ∈ kin) (hne : i.id ≠ k.id) :
    i.Paired tree (kin ++ newborns count k.id c a) := by
  have hold : ∀ j ∈ kin ++ newborns count k.id c a, j.parent = some i.id → j ∈ kin := by
    intro j hj hp
    refine (List.mem_append.mp hj).resolve_right fun hj => hne ?_
    exact Option.some.inj (hp.symm.trans (of_mem_newborns hj).1)
  rcases h.children i hi with hnone | ⟨c', hc, a', ha, hcp, hap, hnext, honly, hbranches⟩
  · exact Or.inl fun j hj hp => hnone j (hold j hj hp) hp
  · exact Or.inr ⟨c', List.mem_append_left _ hc, a', List.mem_append_left _ ha, hcp, hap, hnext,
      fun j hj hp => honly j (hold j hj hp) hp, hbranches⟩

/-- **Two states are born** to one that has no children yet, in the branches that now follow its
node. -/
theorem born (h : Kinship tree count kin) (hk : k ∈ kin) (hnone : ∀ j ∈ kin, j.parent ≠ some k.id)
    (hbranches : tree.BranchesTo k.node c a) :
    Kinship tree (count + 2) (kin ++ newborns count k.id c a) := by
  have hlt := h.index_lt hk
  refine ⟨?_, fun j hj => ?_, fun j hj p hp => ?_, fun i hi => ?_⟩
  · rw [List.map_append, List.range_succ, List.range_succ, List.append_assoc]
    exact h.ids.append_right _
  · rcases List.mem_append.mp hj with hj | hj
    · exact h.first j hj
    · obtain ⟨hparent, hle⟩ := of_mem_newborns hj
      simp only [hparent, reduceCtorEq, false_iff]
      omega
  · rcases List.mem_append.mp hj with hold | hnew
    · exact h.parents j hold p hp
    · exact Nat.lt_of_lt_of_le (h.parent_lt hk hj hp) (of_mem_newborns hnew).2
  · rcases List.mem_append.mp hi with hi | hi
    · by_cases he : i.id = k.id
      · obtain rfl := h.eq_of_id_eq hi hk he
        refine Or.inr ⟨⟨⟨count⟩, i.id, c⟩, by simp [newborns], ⟨⟨count + 1⟩, i.id, a⟩,
          by simp [newborns], rfl, rfl, rfl, fun j hj hp => ?_, hbranches⟩
        have hnew := (List.mem_append.mp hj).resolve_left fun hj => hnone j hj hp
        simpa [newborns] using hnew
      · exact h.paired_of_ne hi he
    · -- a newborn has a number that no parent has
      refine Or.inl fun j hj hp => ?_
      have := h.parent_lt hk hj hp
      have := (of_mem_newborns hi).2
      omega

end Born

end Kinship

/-- Whether an event is a fork. -/
def Event.isFork : Event → Bool
  | forked .. => true
  | _ => false

namespace Explorer

variable {e e' : Explorer} {s s' : State} {rest live live' : List State}

/-! ## The states of an exploration -/

/-- The states that are alive and those that have come to an end. -/
def everyone (e : Explorer) (live : List State) : List State := live ++ e.finished.toList

/-- A state that comes to an end stays in the family. -/
theorem perm_everyone (hkin : s'.kin = s.kin) (hfinished : e'.finished = e.finished.push s') :
    ((e.everyone (s :: rest)).map State.kin).Perm ((e'.everyone rest).map State.kin) := by
  simp only [everyone, hfinished, Array.toList_push, List.cons_append, List.map_cons,
    List.map_append, ← hkin, ← List.append_assoc]
  exact (List.perm_append_singleton _ _).symm

/-- Every state stands after its parent, which has ended by a fork. -/
def ParentsFirst (states : Array State) : Prop :=
  ∀ (n : Nat) (s : State), states[n]? = some s → ∀ p, s.parent = some p →
    ∃ m < n, ∃ t, states[m]? = some t ∧ t.id = p ∧ t.status = .terminated

theorem ParentsFirst.push {states : Array State} (h : ParentsFirst states)
    (hs : ∀ p, s.parent = some p → ∃ t ∈ states, t.id = p ∧ t.status = .terminated) :
    ParentsFirst (states.push s) := by
  intro n t ht p hp
  have hkeep : ∀ {m : Nat} {u : State}, states[m]? = some u → (states.push s)[m]? = some u := by
    intro m u hm
    have hne : m ≠ states.size := Nat.ne_of_lt (Array.getElem?_eq_some_iff.mp hm).1
    rw [Array.getElem?_push, if_neg hne, hm]
  rw [Array.getElem?_push] at ht
  by_cases hn : n = states.size
  · rw [if_pos hn] at ht
    cases ht
    obtain ⟨u, hu, hfound⟩ := hs p hp
    obtain ⟨m, hm⟩ := Array.mem_iff_getElem?.mp hu
    exact ⟨m, hn ▸ (Array.getElem?_eq_some_iff.mp hm).1, u, hkeep hm, hfound⟩
  · rw [if_neg hn] at ht
    obtain ⟨m, hm, u, hu, hfound⟩ := h n t ht p hp
    exact ⟨m, hm, u, hkeep hu, hfound⟩

/-- The states alive are active and those that have come to an end are not. A parent has come to an
end at a fork, before any of its children. -/
structure Census (e : Explorer) (live : List State) : Prop where
  kin : Kinship e.tree e.nextId ((e.everyone live).map State.kin)
  alive : ∀ s ∈ live, s.status = .active
  ended : ∀ s ∈ e.finished, s.status ≠ .active
  parents : ∀ s ∈ e.everyone live, ∀ p, s.parent = some p →
    ∃ t ∈ e.finished, t.id = p ∧ t.status = .terminated
  order : ParentsFirst e.finished

namespace Census

theorem perm (h : Census e live) (hp : live.Perm live') : Census e live' where
  kin := h.kin.perm ((hp.append_right _).map _)
  alive s hs := h.alive s (hp.mem_iff.mpr hs)
  ended := h.ended
  parents s hs := h.parents s ((hp.append_right _).mem_iff.mpr hs)
  order := h.order

theorem ids (h : Census e live) :
    ((e.everyone live).map (·.id.index)).Perm (List.range e.nextId) := by
  have hids := h.kin.ids
  rw [List.map_map] at hids
  exact hids

/-- A state that is alive has no children yet. -/
theorem childless (h : Census e (s :: rest)) :
    ∀ j ∈ (e.everyone (s :: rest)).map State.kin, j.parent ≠ some s.id := by
  intro j hj hp
  obtain ⟨t, ht, rfl⟩ := List.mem_map.mp hj
  obtain ⟨u, hu, hid, -⟩ := h.parents t ht s.id hp
  -- the parent would be listed twice: among those alive and among those that are not
  have hnodup := h.ids.nodup_iff.mpr List.nodup_range
  refine (List.nodup_cons.mp hnodup).1 (List.mem_map.mpr ⟨u, ?_, congrArg StateId.index hid⟩)
  exact List.mem_append_right _ (Array.mem_toList_iff.mpr hu)

/-- **A state lives on** after its turn. -/
theorem stay (h : Census e (s :: rest)) (hkin : s'.kin = s.kin) (hstatus : s'.status = s.status)
    (htree : ∀ i c a, e.tree.BranchesTo i c a → e'.tree.BranchesTo i c a)
    (hfinished : e'.finished = e.finished) (hnext : e'.nextId = e.nextId) :
    Census e' (s' :: rest) := by
  have hparent : s'.parent = s.parent := congrArg Kin.parent hkin
  have hsame :
      (e'.everyone (s' :: rest)).map State.kin = (e.everyone (s :: rest)).map State.kin := by
    simp only [everyone, hfinished, List.cons_append, List.map_cons, hkin]
  refine ⟨?_, fun t ht => ?_, ?_, fun t ht => ?_, ?_⟩
  · rw [hsame, hnext]
    exact h.kin.of_branchesTo htree
  · rcases List.mem_cons.mp ht with rfl | ht
    · exact hstatus.trans (h.alive s List.mem_cons_self)
    · exact h.alive t (List.mem_cons_of_mem _ ht)
  · rw [hfinished]
    exact h.ended
  · rw [hfinished]
    simp only [everyone, hfinished, List.cons_append] at ht
    rcases List.mem_cons.mp ht with rfl | ht
    · rw [hparent]
      exact h.parents s List.mem_cons_self
    · exact h.parents t (List.mem_cons_of_mem _ ht)
  · rw [hfinished]
    exact h.order

/-- **A state comes to an end** in its turn. -/
theorem leave (h : Census e (s :: rest)) (hkin : s'.kin = s.kin) (hstatus : s'.status ≠ .active)
    (htree : ∀ i c a, e.tree.BranchesTo i c a → e'.tree.BranchesTo i c a)
    (hfinished : e'.finished = e.finished.push s') (hnext : e'.nextId = e.nextId) :
    Census e' rest := by
  have hparent : s'.parent = s.parent := congrArg Kin.parent hkin
  have hperm : ((e.everyone (s :: rest)).map State.kin).Perm ((e'.everyone rest).map State.kin) :=
    perm_everyone hkin hfinished
  have hparents : ∀ p, s'.parent = some p →
      ∃ t ∈ e.finished, t.id = p ∧ t.status = .terminated := by
    rw [hparent]
    exact h.parents s List.mem_cons_self
  refine ⟨?_, fun t ht => ?_, fun t ht => ?_, fun t ht p hp => ?_, ?_⟩
  · rw [hnext]
    exact (h.kin.of_branchesTo htree).perm hperm
  · exact h.alive t (List.mem_cons_of_mem _ ht)
  · rw [hfinished, Array.mem_push] at ht
    rcases ht with ht | rfl
    · exact h.ended t ht
    · exact hstatus
  · have hearlier : ∃ t ∈ e.finished, t.id = p ∧ t.status = .terminated := by
      simp only [everyone, hfinished, Array.toList_push, List.mem_append, List.mem_singleton] at ht
      rcases ht with ht | ht | rfl
      · exact h.parents t (List.mem_append_left _ (List.mem_cons_of_mem _ ht)) p hp
      · exact h.parents t (List.mem_append_right _ ht) p hp
      · exact hparents p hp
    obtain ⟨u, hu, hfound⟩ := hearlier
    exact ⟨u, hfinished ▸ Array.mem_push_of_mem _ hu, hfound⟩
  · rw [hfinished]
    exact h.order.push hparents

/-- **Two states are born** to one that has just come to an end at a fork. -/
theorem born (h : Census e rest) (hs : s ∈ e.finished) (hstatus : s.status = .terminated)
    (hnone : ∀ j ∈ (e.everyone rest).map State.kin, j.parent ≠ some s.id) {c a : State}
    (hbranches : e.tree.BranchesTo s.node c.node a.node)
    (hc : c.kin = ⟨⟨e.nextId⟩, s.id, c.node⟩) (ha : a.kin = ⟨⟨e.nextId + 1⟩, s.id, a.node⟩)
    (halive : c.status = .active ∧ a.status = .active) (htree : e'.tree = e.tree)
    (hfinished : e'.finished = e.finished) (hnext : e'.nextId = e.nextId + 2) :
    Census e' (c :: a :: rest) := by
  have hmem : s.kin ∈ (e.everyone rest).map State.kin :=
    List.mem_map_of_mem (List.mem_append_right _ (Array.mem_toList_iff.mpr hs))
  have hperm : ((e.everyone rest).map State.kin ++ [c.kin, a.kin]).Perm
      ((e'.everyone (c :: a :: rest)).map State.kin) := by
    simp only [everyone, hfinished, List.cons_append, List.map_cons]
    exact List.perm_append_comm
  refine ⟨?_, fun t ht => ?_, ?_, fun t ht p hp => ?_, ?_⟩
  · rw [htree, hnext]
    refine Kinship.perm ?_ hperm
    rw [hc, ha]
    exact h.kin.born hmem hnone hbranches
  · rcases List.mem_cons.mp ht with rfl | ht
    · exact halive.1
    · rcases List.mem_cons.mp ht with rfl | ht
      · exact halive.2
      · exact h.alive t ht
  · rw [hfinished]
    exact h.ended
  · rw [hfinished]
    simp only [everyone, hfinished, List.cons_append] at ht
    have hchild {t : State} (hparent : t.kin.parent = some s.id) (hp : t.parent = some p) :
        ∃ u ∈ e.finished, u.id = p ∧ u.status = .terminated :=
      ⟨s, hs, Option.some.inj (hparent.symm.trans hp), hstatus⟩
    rcases List.mem_cons.mp ht with rfl | ht
    · exact hchild (by rw [hc]) hp
    · rcases List.mem_cons.mp ht with rfl | ht
      · exact hchild (by rw [ha]) hp
      · exact h.parents t ht p hp
  · rw [hfinished]
    exact h.order

end Census

theorem invariant_census : Invariant fun _ e live => Census e live where
  perm hp h := h.perm hp
  active _ h := ⟨h.kin, h.alive, h.ended, h.parents, h.order⟩
  settle := by
    intro g e s rest statements step hg hnode _ _ h
    have htree (i c a : NodeId) (node : Node Statement Comparison) (hb : e.tree.BranchesTo i c a) :
        (e.tree.replace s.node node).BranchesTo i c a := hb.replace hnode
    obtain ⟨emitted, path, outcome⟩ := step
    cases outcome with
    | running => exact h.stay rfl rfl (fun i c a => htree i c a _) rfl rfl
    | returned => exact h.leave (by rfl) (by simp) (fun i c a => htree i c a _) rfl rfl
    | stopped error => exact h.leave (by rfl) (by simp) (fun i c a => htree i c a _) rfl rfl
    | forked test target =>
      -- first the parent comes to an end, then the children are born
      let ended : State := { s with path, status := .terminated }
      let after := (e.settle s statements ⟨emitted, path, .forked test target⟩).explorer
      let left : Explorer := { after with nextId := e.nextId }
      have hlt := StatementTree.index_lt_of_node? hnode
      have hkin : ended.kin = s.kin := rfl
      have hfinished : left.finished = e.finished.push ended := rfl
      have hleft : Census left rest :=
        h.leave hkin (by simp [ended]) (fun i c a hb => hb.graft hnode) hfinished rfl
      have hnone : ∀ j ∈ (left.everyone rest).map State.kin, j.parent ≠ some s.id := fun j hj =>
        h.childless j ((perm_everyone hkin hfinished).mem_iff.mpr hj)
      exact hleft.born (s := ended) (Array.mem_push_self ..) rfl hnone
        (StatementTree.branchesTo_graft hlt) rfl rfl ⟨rfl, rfl⟩ rfl rfl rfl
  cutOff := by
    intro g e s rest statements hg hnode _ h
    exact h.leave (by rfl) (by simp) (fun i c a hb => hb.replace hnode) rfl rfl

/-! ## How many there are -/

/-- The number of forks so far. -/
def forks (e : Explorer) : Nat := e.events.countP Event.isFork

/-- Every fork gives two states and three nodes. -/
structure Tally (e : Explorer) : Prop where
  nextId : e.nextId = 1 + 2 * e.forks
  size : e.tree.size = 1 + 3 * e.forks

theorem invariant_tally : Invariant fun _ e _ => Tally e where
  perm _ h := h
  active _ h := ⟨h.nextId, h.size⟩
  settle := by
    intro g e s rest statements step _ _ _ _ ⟨hnext, hsize⟩
    obtain ⟨emitted, path, outcome⟩ := step
    unfold forks at hnext hsize
    cases outcome <;> constructor <;>
      simp only [settle, finish, record, forks, Array.countP_push, Event.isFork,
        StatementTree.size_replace, StatementTree.size_graft, hnext, hsize, Bool.false_eq_true,
        if_true, if_false] <;> omega
  cutOff := by
    intro g e s rest statements _ _ _ ⟨hnext, hsize⟩
    unfold forks at hnext hsize
    constructor <;> simp [cutOff, record, forks, Event.isFork, hnext, hsize]

/-! ## In the order of their numbers -/

/-- The states alive in the middle of a round, in the order in which the next round would find
them, are in the order of their numbers. -/
def Moment.Ordered (m : Moment) : Prop :=
  ((m.survivors.toList ++ m.waiting ++ m.spawned.toList).map (·.id.index)).Pairwise (· < ·)

theorem Moment.Ordered.turnOver {m : Moment} (h : m.Ordered) : m.turnOver.Ordered := by
  obtain ⟨e, waiting, survivors, spawned⟩ := m
  cases waiting with
  | nil => simpa [Ordered, Moment.turnOver, Moment.live] using h
  | cons s rest => exact h

theorem ordered_start_iff :
    (Moment.start e).Ordered ↔ (e.active.map (·.id.index)).Pairwise (· < ·) := by
  simp [Moment.Ordered, Moment.start]

variable {m m' : Moment}

/-- **A step keeps the order.** -/
theorem Moment.Ordered.step (hsound : m.Sound fun _ e live => Census e live) (h : m.Ordered)
    (hstep : m.step? = some (.ok m')) : m'.Ordered := by
  obtain ⟨s, rest, statements, step, hw, -, -, -, rfl⟩ := hsound.exists_settle hstep
  obtain ⟨g, -, hcensus⟩ := hsound.holds
  refine Moment.Ordered.turnOver ?_
  unfold Moment.Ordered at h ⊢
  rw [hw] at h
  -- without `s`, and with the states that are born, if any, at the end
  have hleave : ((m.survivors.toList ++ rest ++ m.spawned.toList).map (·.id.index)).Pairwise
      (· < ·) := by
    refine h.sublist (List.Sublist.map _ ?_)
    exact ((List.sublist_cons_self s rest).append_left _).append_right _
  obtain ⟨emitted, path, outcome⟩ := step
  cases outcome with
  | running => simpa [Moment.pass, Explorer.settle] using h
  | returned => simpa [Moment.pass, Explorer.settle] using hleave
  | stopped error => simpa [Moment.pass, Explorer.settle] using hleave
  | forked test target =>
    have hbelow : ∀ i ∈ (m.survivors.toList ++ rest ++ m.spawned.toList).map (·.id.index),
        i < m.explorer.nextId := by
      intro i hi
      have hmem : i ∈ (m.explorer.everyone m.live).map (·.id.index) := by
        simp only [everyone, Moment.live, hw, List.map_append, List.map_cons, List.mem_append,
          List.mem_cons] at hi ⊢
        tauto
      exact List.mem_range.mp (hcensus.ids.mem_iff.mp hmem)
    have hborn : (((m.survivors.toList ++ rest ++ m.spawned.toList).map (·.id.index)) ++
        [m.explorer.nextId, m.explorer.nextId + 1]).Pairwise (· < ·) := by
      refine List.pairwise_append.mpr ⟨hleave, by simp, fun i hi j hj => ?_⟩
      have := hbelow i hi
      simp only [List.mem_cons, List.not_mem_nil, or_false] at hj
      omega
    simpa [Moment.pass, Explorer.settle, children] using hborn

theorem Moment.Ordered.after (hsound : m.Sound fun _ e live => Census e live) (h : m.Ordered)
    {k : Nat} (hk : m.after k = some m') : m'.Ordered := by
  induction k generalizing m with
  | zero =>
    cases hk
    exact h
  | succ k ih =>
    rcases invariant_census.step hsound with hstep | ⟨next, hstep, hnext, -⟩ | ⟨fault, hstep⟩
    · simp [Moment.after, hstep] at hk
    · rw [Moment.after_of_step hstep] at hk
      exact ih hnext (h.step hsound hstep) hk
    · simp [Moment.after, hstep] at hk

/-- **A round keeps the order** of the active states. -/
theorem increasing_of_round (h : Holds (fun _ e live => Census e live) e e.active)
    (hactive : (e.active.map (·.id.index)).Pairwise (· < ·)) {more : Bool}
    (hround : e.round = (e', .ok more)) : (e'.active.map (·.id.index)).Pairwise (· < ·) := by
  rcases invariant_census.round h with ⟨e'', hok, -⟩ | ⟨e'', fault, rest, herror, -⟩
  · obtain ⟨rfl, hmore⟩ := Prod.mk.inj (hok.symm.trans hround)
    cases hnil : e''.active with
    | nil => simp
    | cons s rest =>
      obtain rfl : more = true := by simpa [hnil] using hmore.symm
      have hsound := invariant_census.start h
      obtain ⟨k, m, hk, hcloses, -⟩ := Moment.exists_after_closes (m := .start e) invariant_census
        (by rwa [Moment.turnOver_start])
      rw [Moment.turnOver_start] at hk
      rw [← Moment.round_eq_restOfRound, hround] at hcloses
      obtain rfl : m = .start e'' := hcloses
      rw [← hnil]
      exact ordered_start_iff.mp ((ordered_start_iff.mpr hactive).after hsound hk)
  · cases herror.symm.trans hround

/-! ## The account after a number of rounds -/

/-- The states of an exploration between two rounds, all accounted for. -/
structure Accounted (e : Explorer) : Prop where
  /-- Those active and those that have come to an end are numbered without gaps. -/
  ids : ((e.active ++ e.finished.toList).map (·.id.index)).Perm (List.range e.nextId)
  increasing : (e.active.map (·.id.index)).Pairwise (· < ·)
  active : ∀ s ∈ e.active, s.status = .active
  ended : ∀ s ∈ e.finished, s.status ≠ .active
  first : ∀ s ∈ e.active ++ e.finished.toList, s.parent = none ↔ s.id.index = 0
  /-- A parent is older than its child, and it has come to an end by a fork. -/
  parents : ∀ s ∈ e.active ++ e.finished.toList, ∀ p, s.parent = some p →
    p.index < s.id.index ∧ ∃ t ∈ e.finished, t.id = p ∧ t.status = .terminated
  /-- It has come to an end before its child. -/
  order : ∀ (n : Nat) (s : State), e.finished[n]? = some s → ∀ p, s.parent = some p →
    ∃ m < n, ∃ t, e.finished[m]? = some t ∧ t.id = p ∧ t.status = .terminated
  /-- A state has no children, or two: one in the consequent of its branch and, with the next
  number, one in the alternate. -/
  children : ∀ s ∈ e.active ++ e.finished.toList,
    (∀ t ∈ e.active ++ e.finished.toList, t.parent ≠ some s.id) ∨
    ∃ c ∈ e.active ++ e.finished.toList, ∃ a ∈ e.active ++ e.finished.toList,
      c.parent = some s.id ∧ a.parent = some s.id ∧ a.id.index = c.id.index + 1 ∧
        (∀ t ∈ e.active ++ e.finished.toList, t.parent = some s.id → t = c ∨ t = a) ∧
          e.tree.BranchesTo s.node c.node a.node
  size : e.tree.size = 1 + 3 * e.forks
  nextId : e.nextId = 1 + 2 * e.forks

theorem Census.eq_of_id_eq (h : Census e live) (hs : s ∈ e.everyone live)
    (hs' : s' ∈ e.everyone live) (he : s.id = s'.id) : s = s' :=
  List.inj_on_of_nodup_map (h.ids.nodup_iff.mpr List.nodup_range) hs hs'
    (congrArg StateId.index he)

/-- A state has no children, or two, in the branches that follow its node. -/
theorem Census.children (h : Census e live) (hs : s ∈ e.everyone live) :
    (∀ t ∈ e.everyone live, t.parent ≠ some s.id) ∨
    ∃ c ∈ e.everyone live, ∃ a ∈ e.everyone live,
      c.parent = some s.id ∧ a.parent = some s.id ∧ a.id.index = c.id.index + 1 ∧
        (∀ t ∈ e.everyone live, t.parent = some s.id → t = c ∨ t = a) ∧
          e.tree.BranchesTo s.node c.node a.node := by
  rcases h.kin.children s.kin (List.mem_map_of_mem hs) with
    hnone | ⟨_, hc, _, ha, hcp, hap, hnext, honly, hbranches⟩
  · exact Or.inl fun t ht => hnone t.kin (List.mem_map_of_mem ht)
  · obtain ⟨c, hmemc, rfl⟩ := List.mem_map.mp hc
    obtain ⟨a, hmema, rfl⟩ := List.mem_map.mp ha
    refine Or.inr ⟨c, hmemc, a, hmema, hcp, hap, hnext, fun t ht hp => ?_, hbranches⟩
    rcases honly t.kin (List.mem_map_of_mem ht) hp with hkin | hkin
    · exact Or.inl (h.eq_of_id_eq ht hmemc (congrArg Kin.id hkin))
    · exact Or.inr (h.eq_of_id_eq ht hmema (congrArg Kin.id hkin))

theorem Census.accounted (h : Census e e.active) (htally : Tally e)
    (hincreasing : (e.active.map (·.id.index)).Pairwise (· < ·)) : Accounted e where
  ids := h.ids
  increasing := hincreasing
  active := h.alive
  ended := h.ended
  first s hs := h.kin.first s.kin (List.mem_map_of_mem hs)
  parents s hs p hp := ⟨h.kin.parents s.kin (List.mem_map_of_mem hs) p hp, h.parents s hs p hp⟩
  order := h.order
  children _ hs := h.children hs
  size := htally.size
  nextId := htally.nextId

theorem census_initial (program : Program) (input : Input) (budget : Option Nat) :
    Census (.initial program input budget) (initial program input budget).active where
  kin := by
    refine ⟨List.Perm.refl _, ?_, ?_, ?_⟩ <;> simp [initial, everyone, State.kin, Kin.Paired]
  alive := by simp [initial]
  ended := by simp [initial]
  parents := by simp [initial, everyone]
  order := by simp [initial, ParentsFirst]

/-- An exploration between two rounds, with all its invariants. -/
def Regular (e : Explorer) : Prop :=
  Holds (fun _ e live => Census e live ∧ Tally e) e e.active ∧
    (e.active.map (·.id.index)).Pairwise (· < ·)

theorem regular_initial (program : Program) (input : Input) (budget : Option Nat) :
    Regular (.initial program input budget) :=
  ⟨⟨_, grown_initial program input budget, census_initial program input budget, rfl, rfl⟩,
    List.pairwise_singleton ..⟩

theorem Regular.round (h : Regular e) {more : Bool} (hround : e.round.2 = .ok more) :
    Regular e.round.1 := by
  obtain ⟨hholds, hincreasing⟩ := h
  have hcensus : Holds (fun _ e live => Census e live) e e.active :=
    hholds.imp fun _ h => ⟨h.1, h.2.1⟩
  have hnext : e.round = (e.round.1, .ok more) := Prod.ext rfl hround
  refine ⟨?_, increasing_of_round hcensus hincreasing hnext⟩
  rcases (invariant_census.and invariant_tally).round hholds with
    ⟨e', hok, hholds'⟩ | ⟨e', fault, rest, herror, -⟩
  · rw [hok]
    exact hholds'
  · rw [herror] at hround
    cases hround

theorem regular_afterRounds (h : Regular e) {n : Nat}
    (hok : ∀ k < n, ∃ more, (e.afterRounds k).round.2 = .ok more) : Regular (e.afterRounds n) := by
  induction n with
  | zero => exact h
  | succ n ih =>
    obtain ⟨more, hmore⟩ := hok n (Nat.lt_succ_self n)
    exact (ih fun k hk => hok k (Nat.lt_succ_of_lt hk)).round hmore

/-- **No state is lost, duplicated or misattributed** by rounds that succeed. -/
theorem accounted_after_rounds (program : Program) (input : Input) (budget : Option Nat) (n : Nat)
    (h : ∀ k < n, ∃ more, ((initial program input budget).afterRounds k).round.2 = .ok more) :
    Accounted ((initial program input budget).afterRounds n) := by
  obtain ⟨⟨g, -, hcensus, htally⟩, hincreasing⟩ :=
    regular_afterRounds (regular_initial program input budget) h
  exact hcensus.accounted htally hincreasing

/-- A fork in the second round, and one in each of its branches in the third. -/
theorem accounted_after_three_forks :
    let e := (initial (.ofList [⟨0, .set ⟨5⟩ "0"⟩, ⟨1, .branch .less ⟨5⟩ ⟨6⟩ ⟨7⟩⟩,
      ⟨2, .branch .equal ⟨5⟩ ⟨6⟩ ⟨7⟩⟩, ⟨3, .ret⟩]) ⟨1, "flag"⟩ (some 5)).afterRounds 3
    e.active.length = 4 ∧ e.finished.size = 3 ∧ e.forks = 3 ∧ Accounted e := by
  refine ⟨by decide +kernel, by decide +kernel, by decide +kernel,
    accounted_after_rounds _ _ _ 3 fun k hk => ?_⟩
  match k, hk with
  | 0, _ => exact ⟨_, rfl⟩
  | 1, _ => exact ⟨_, rfl⟩
  | 2, _ => exact ⟨_, rfl⟩

end Explorer

end Lifter

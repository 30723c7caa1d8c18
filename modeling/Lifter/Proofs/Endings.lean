import Lifter.Proofs.Kinship
import Lifter.Proofs.StepForm
import Mathlib.Data.List.Forall2

/-!
# How paths end

A path ends in one of four lines, its terminator, or it splits and leaves the last word to its two
branches. Status, diagnostics and pseudocode each tell how a path has ended, and they are written at
different moments; here they are shown to agree. The invariant says of every state what its node
looks like: open as long as the state is alive, closed by the terminator that its status and its
diagnostic ask for, or followed by a conditional.

* `Statement.Ends`: a statement whose line is a terminator.
* `StatementTree.OpenAt`, `StatementTree.EndsWith`, `StatementTree.RunsOn`: the three looks of a
  node.
* `Explorer.Chronicle`: the invariant, with `Explorer.Chronicle.turn` for a turn of any kind.
* `Explorer.Chronicle.leaf`: in a complete exploration every leaf ends in one terminator.
* **`Explorer.concluded_after_rounds`**: how every path has ended after any number of rounds.
-/

namespace Lifter

/-! ## Terminators -/

/-- The lines that end a path. -/
def terminators : List String :=
  ["return 0;", "// unknown path", "// end of program", "// exploration truncated"]

namespace Statement

/-- The statement is written as a terminator. -/
def Ends (st : Statement) : Prop := st.text ∈ terminators

theorem ends_ret : ret.Ends := by
  simp [Ends, terminators, text]

theorem ends_placeholder (error : PathError) : error.placeholder.Ends := by
  cases error <;> simp [Ends, terminators, text, PathError.placeholder]

/-- Terminators are told from other lines by their first character. -/
theorem Ends.head? {st : Statement} (h : st.Ends) :
    st.text.toList.head? = some 'r' ∨ st.text.toList.head? = some '/' := by
  simp only [Ends, terminators, List.mem_cons, List.not_mem_nil, or_false] at h
  rcases h with h | h | h | h <;> simp [h]

theorem not_ends_print (value : Value) : ¬ (print value).Ends := fun h => by
  simpa [text] using h.head?

theorem not_ends_declare (name : String) (length : Nat) : ¬ (declare name length).Ends :=
  fun h => by simpa [text] using h.head?

theorem not_ends_scan (name : String) : ¬ (scan name).Ends := fun h => by
  simpa [text] using h.head?

end Statement

/-- A path that goes on emits no terminator. -/
theorem Path.Form.not_ends {input : Input} {registers : RegisterFile} {reads : Nat} {now : Path}
    {emitted : List Statement} (h : Form input registers reads ⟨emitted, now, .running⟩) :
    ∀ st ∈ emitted, ¬ st.Ends := by
  cases h with
  | write => simp
  | print => simpa using Statement.not_ends_print _
  | read =>
    intro st hst
    rcases List.mem_cons.mp hst with rfl | hst
    · exact Statement.not_ends_declare _ _
    · rw [List.mem_singleton.mp hst]
      exact Statement.not_ends_scan _

namespace StatementTree

variable {tree : StatementTree Statement Comparison} {id : NodeId} {last : Statement}

/-- A node without terminator that nothing follows. -/
def OpenAt (tree : StatementTree Statement Comparison) (id : NodeId) : Prop :=
  ∃ statements, tree.node? id = some (.linear statements none) ∧ ∀ st ∈ statements, ¬ st.Ends

/-- A node that ends in the terminator `last`, written as `line`, which is its only one; nothing
follows it. -/
def EndsWith (tree : StatementTree Statement Comparison) (id : NodeId) (last : Statement)
    (line : String) : Prop :=
  ∃ body : Array Statement, tree.node? id = some (.linear (body.push last) none) ∧
    last.text = line ∧ last.Ends ∧ ∀ st ∈ body, ¬ st.Ends

/-- A node without terminator that another node follows. -/
def RunsOn (tree : StatementTree Statement Comparison) (id : NodeId) : Prop :=
  ∃ statements next, tree.node? id = some (.linear statements (some next)) ∧
    ∀ st ∈ statements, ¬ st.Ends

theorem endsWith_replace {statements : Array Statement} (hlt : id.index < tree.size)
    (hlast : last.Ends) (hquiet : ∀ st ∈ statements, ¬ st.Ends) :
    (tree.replace id (.linear (statements ++ #[last]) none)).EndsWith id last last.text :=
  ⟨statements, by rw [node?_replace_self hlt, Array.append_singleton], rfl, hlast, hquiet⟩

/-- A node in which a path has come to an early end ends in the line for the error. -/
theorem endsWith_replace_placeholder {statements : Array Statement} (hlt : id.index < tree.size)
    (error : PathError) (hquiet : ∀ st ∈ statements, ¬ st.Ends) :
    (tree.replace id (.linear (statements ++ #[error.placeholder]) none)).EndsWith id
      error.placeholder error.lastLine := by
  rw [← error.text_placeholder]
  exact endsWith_replace hlt (Statement.ends_placeholder error) hquiet

end StatementTree

namespace Explorer

open StatementTree

variable {e e' : Explorer} {s : State} {rest live live' : List State}
  {g : Growth Statement Comparison}

/-! ## The chronicle of an exploration -/

/-- A state that has ended early and the diagnostic of it: they name the same state and the same
address, and the state's node ends in the line for the error. -/
structure Diagnosed (tree : StatementTree Statement Comparison) (s : State) (d : Diagnostic) :
    Prop where
  state : d.state = s.id
  address : d.address = s.path.address
  ending : tree.EndsWith s.node d.error.placeholder d.error.lastLine

/-- The states among some that have ended early. -/
def early (states : List State) : List State := states.filter (·.status == .errored)

/-- What the nodes of all states look like. Those that have ended early have one diagnostic each, in
the order in which they have ended. -/
structure Chronicle (e : Explorer) (live : List State) : Prop where
  alive : ∀ s ∈ live, e.tree.OpenAt s.node
  terminated : ∀ s ∈ e.finished, s.status = .terminated →
    e.tree.EndsWith s.node .ret "return 0;" ∨
      e.tree.RunsOn s.node ∧ ∃ t ∈ e.everyone live, t.parent = some s.id
  diagnosed : List.Forall₂ (Diagnosed e.tree) (early e.finished.toList) e.diagnostics.toList
  /-- Where nothing follows yet, a state is or was at work. -/
  owned : ∀ i statements, e.tree.node? i = some (.linear statements none) →
    ∃ t ∈ e.everyone live, t.node = i

namespace Chronicle

theorem perm (h : Chronicle e live) (hp : live.Perm live') : Chronicle e live' := by
  have heveryone {t : State} : t ∈ e.everyone live → t ∈ e.everyone live' :=
    (hp.append_right _).mem_iff.mp
  refine ⟨fun s hs => h.alive s (hp.mem_iff.mpr hs), fun s hs ht => ?_, h.diagnosed,
    fun i statements hi => ?_⟩
  · rcases h.terminated s hs ht with hret | ⟨hruns, t, ht, hparent⟩
    · exact Or.inl hret
    · exact Or.inr ⟨hruns, t, heveryone ht, hparent⟩
  · obtain ⟨t, ht, hnode⟩ := h.owned i statements hi
    exact ⟨t, heveryone ht, hnode⟩

theorem quiet (h : Chronicle e (s :: rest)) {statements : Array Statement}
    (hnode : e.tree.node? s.node = some (.linear statements none)) :
    ∀ st ∈ statements, ¬ st.Ends := by
  obtain ⟨statements', hnode', hquiet⟩ := h.alive s List.mem_cons_self
  obtain ⟨rfl, -⟩ := Node.linear.inj (Option.some.inj (hnode'.symm.trans hnode))
  exact hquiet

/-- **What a turn of `s` has to show**: other nodes are as they were; the states `kept` go on in
open nodes, one of them or of `gone` in the place of `s`; and those in `gone` have ended as their
status and the new diagnostics say. -/
theorem turn (h : Chronicle e (s :: rest)) (hg : Grown g e (s :: rest)) (kept gone : List State)
    (diagnoses : List Diagnostic)
    (hsame : ∀ i : NodeId, i.index < e.tree.size → i ≠ s.node → e'.tree.node? i = e.tree.node? i)
    (hfinished : e'.finished.toList = e.finished.toList ++ gone)
    (hdiagnostics : e'.diagnostics.toList = e.diagnostics.toList ++ diagnoses)
    (hheir : ∃ t ∈ kept ++ gone, t.node = s.node ∧ t.parent = s.parent)
    (hkept : ∀ t ∈ kept, e'.tree.OpenAt t.node)
    (hgone : ∀ t ∈ gone, t.status = .terminated →
      e'.tree.EndsWith t.node .ret "return 0;" ∨
        e'.tree.RunsOn t.node ∧ ∃ u ∈ kept, u.parent = some t.id)
    (hearly : List.Forall₂ (Diagnosed e'.tree) (early gone) diagnoses)
    (hnew : ∀ (i : NodeId) statements, e.tree.size ≤ i.index →
      e'.tree.node? i = some (.linear statements none) → ∃ t ∈ kept, t.node = i) :
    Chronicle e' (kept ++ rest) := by
  have hother {t : State} (ht : t ∈ rest ++ e.finished.toList) :
      e'.tree.node? t.node = e.tree.node? t.node :=
    hsame t.node (hg.elsewhere ht).2 (hg.elsewhere ht).1
  have hfinishedMem {t : State} : t ∈ e'.finished ↔ t ∈ e.finished ∨ t ∈ gone := by
    rw [← Array.mem_toList_iff, hfinished, List.mem_append, Array.mem_toList_iff]
  have hstay {t : State} (ht : t ∈ rest ++ e.finished.toList) : t ∈ e'.everyone (kept ++ rest) := by
    simp only [everyone, hfinished, List.mem_append] at ht ⊢
    tauto
  have hheir' : ∃ t ∈ e'.everyone (kept ++ rest), t.node = s.node ∧ t.parent = s.parent := by
    obtain ⟨t, ht, hnode⟩ := hheir
    refine ⟨t, ?_, hnode⟩
    simp only [everyone, hfinished, List.mem_append] at ht ⊢
    tauto
  refine { alive := ?alive, terminated := ?terminated, diagnosed := ?diagnosed, owned := ?owned }
  case alive =>
    intro t ht
    rcases List.mem_append.mp ht with ht | ht
    · exact hkept t ht
    · have hopen := h.alive t (List.mem_cons_of_mem _ ht)
      rwa [OpenAt, ← hother (List.mem_append_left _ ht)] at hopen
  case terminated =>
    intro t ht hstatus
    rcases hfinishedMem.mp ht with ht | ht
    · have hnode := hother (List.mem_append_right rest (Array.mem_toList_iff.mpr ht))
      have hold := h.terminated t ht hstatus
      rw [EndsWith, RunsOn, ← hnode] at hold
      rcases hold with hret | ⟨hruns, u, hu, hparent⟩
      · exact Or.inl hret
      · -- if the child was `s`, its heir is the child now
        refine Or.inr ⟨hruns, ?_⟩
        rcases List.mem_cons.mp hu with rfl | hu
        · obtain ⟨v, hv, -, hvparent⟩ := hheir'
          exact ⟨v, hv, hvparent.trans hparent⟩
        · exact ⟨u, hstay hu, hparent⟩
    · rcases hgone t ht hstatus with hret | ⟨hruns, u, hu, hparent⟩
      · exact Or.inl hret
      · exact Or.inr ⟨hruns, u, List.mem_append_left _ (List.mem_append_left _ hu), hparent⟩
  case diagnosed =>
    rw [hfinished, hdiagnostics, early, List.filter_append]
    refine List.rel_append ?_ hearly
    have hold := (List.forall₂_and_left (p := (· ∈ e.finished.toList)) _ _).mpr
      ⟨fun t ht => (List.mem_filter.mp ht).1, h.diagnosed⟩
    refine hold.imp fun t d htd => ?_
    obtain ⟨ht, hstate, haddress, hending⟩ := htd
    rw [EndsWith, ← hother (List.mem_append_right rest ht)] at hending
    exact ⟨hstate, haddress, hending⟩
  case owned =>
    intro i statements hi
    by_cases hown : i = s.node
    · obtain ⟨t, ht, hnode, -⟩ := hheir'
      exact ⟨t, ht, hnode.trans hown.symm⟩
    · rcases Nat.lt_or_ge i.index e.tree.size with hlt | hge
      · rw [hsame i hlt hown] at hi
        obtain ⟨t, ht, hnode⟩ := h.owned i statements hi
        rcases List.mem_cons.mp ht with rfl | ht
        · exact absurd hnode.symm hown
        · exact ⟨t, hstay ht, hnode⟩
      · obtain ⟨t, ht, hnode⟩ := hnew i statements hge hi
        exact ⟨t, List.mem_append_left _ (List.mem_append_left _ ht), hnode⟩

/-- A state comes to an end in its node, which nothing follows. -/
theorem close (h : Chronicle e (s :: rest)) (hg : Grown g e (s :: rest)) {ended : State}
    {diagnoses : List Diagnostic}
    (hsame : ∀ i : NodeId, i ≠ s.node → e'.tree.node? i = e.tree.node? i)
    (hsize : e'.tree.size = e.tree.size) (hfinished : e'.finished = e.finished.push ended)
    (hkin : ended.kin = s.kin)
    (hdiagnostics : e'.diagnostics.toList = e.diagnostics.toList ++ diagnoses)
    (hends : ended.status = .terminated → e'.tree.EndsWith s.node .ret "return 0;")
    (hearly : List.Forall₂ (Diagnosed e'.tree) (early [ended]) diagnoses) :
    Chronicle e' rest := by
  obtain ⟨-, hparent, hnode⟩ := Kin.mk.inj hkin
  refine h.turn hg [] [ended] diagnoses (fun i _ => hsame i) (by simp [hfinished]) hdiagnostics
    ⟨ended, List.mem_singleton_self _, hnode, hparent⟩ (by simp) (fun t ht hstatus => ?_) hearly
    (fun i statements hge hi => ?_)
  · obtain rfl := List.mem_singleton.mp ht
    exact Or.inl (hnode ▸ hends hstatus)
  · have := index_lt_of_node? hi
    omega

end Chronicle

theorem invariant_chronicle : Invariant fun _ e live => Chronicle e live where
  perm hp h := h.perm hp
  active _ h := ⟨h.alive, h.terminated, h.diagnosed, h.owned⟩
  settle := by
    intro g e s rest statements step hg hnode _ hstep h
    have hform := Path.form_of_step hstep
    have hlt := index_lt_of_node? hnode
    have hquiet : ∀ st ∈ statements, ¬ st.Ends := h.quiet hnode
    obtain ⟨emitted, path, outcome⟩ := step
    cases outcome with
    | running =>
      refine h.turn hg [{ s with path }] [] [] (fun i hi hne => node?_settle_of_ne hi hne)
        (by simp [settle]) (by simp [settle]) ⟨_, List.mem_singleton_self _, rfl, rfl⟩
        (fun t ht => ?_) (by simp) .nil (fun i statements hge hi => ?_)
      · obtain rfl := List.mem_singleton.mp ht
        refine ⟨_, node?_replace_self hlt, fun st hst => ?_⟩
        rcases Array.mem_append.mp hst with hst | hst
        · exact hquiet st hst
        · exact hform.not_ends st (by simpa using hst)
      · have hi' := index_lt_of_node? hi
        simp only [settle, size_replace] at hi'
        omega
    | returned =>
      obtain rfl : emitted = [.ret] := by cases hform; rfl
      refine h.close hg (fun i hne => node?_replace_of_ne hne) size_replace rfl rfl
        (List.append_nil _).symm (fun _ => ?_) .nil
      exact endsWith_replace hlt Statement.ends_ret hquiet
    | stopped error =>
      obtain rfl : emitted = [error.placeholder] := by cases hform; rfl
      refine h.close hg (fun i hne => node?_replace_of_ne hne) size_replace rfl rfl
        (Array.toList_push ..) (by simp) (.cons ⟨rfl, rfl, ?_⟩ .nil)
      exact endsWith_replace_placeholder hlt error hquiet
    | forked test target =>
      obtain rfl : emitted = [] := by cases hform; rfl
      refine h.turn hg (e.children s path target) [{ s with path, status := .terminated }] []
        (fun i hi hne => node?_settle_of_ne hi hne) (Array.toList_push ..) (List.append_nil _).symm
        ⟨_, List.mem_append_right _ (List.mem_singleton_self _), rfl, rfl⟩
        (fun t ht => ?_) (fun t ht _ => ?_) .nil (fun i statements' hge hi => ?_)
      · simp only [children, List.mem_cons, List.not_mem_nil, or_false] at ht
        rcases ht with rfl | rfl
        · exact ⟨#[], node?_graft_consequent hlt, by simp⟩
        · exact ⟨#[], node?_graft_alternate hlt, by simp⟩
      · obtain rfl := List.mem_singleton.mp ht
        refine Or.inr ⟨⟨_, _, node?_graft_self hlt, ?_⟩, _, List.mem_cons_self, rfl⟩
        simpa using hquiet
      · rcases node?_graft_cases hlt hge hi with ⟨rfl | rfl, -⟩ | ⟨-, hjoint⟩
        · exact ⟨_, List.mem_cons_self, rfl⟩
        · exact ⟨_, List.mem_cons_of_mem _ (List.mem_singleton_self _), rfl⟩
        · cases hjoint
  cutOff := by
    intro g e s rest statements hg hnode _ h
    refine h.close hg (fun i hne => node?_replace_of_ne hne) size_replace rfl rfl
      (Array.toList_push ..) (by simp) (.cons ⟨rfl, rfl, ?_⟩ .nil)
    exact endsWith_replace_placeholder (index_lt_of_node? hnode) .budgetExhausted (h.quiet hnode)

theorem chronicle_initial (program : Program) (input : Input) (budget : Option Nat) :
    Chronicle (.initial program input budget) (initial program input budget).active where
  alive s hs := by
    obtain rfl := List.mem_singleton.mp hs
    exact ⟨#[], rfl, by simp⟩
  terminated := by simp [initial]
  diagnosed := .nil
  owned i statements hi := by
    refine ⟨_, List.mem_cons_self, ?_⟩
    have hlt : i.index < 1 := index_lt_of_node? hi
    obtain ⟨n⟩ := i
    exact congrArg NodeId.mk (Nat.lt_one_iff.mp hlt).symm

/-! ## One diagnostic each -/

variable {tree : StatementTree Statement Comparison} {states : List State}
  {diagnoses : List Diagnostic}

theorem Diagnosed.filter_cons_of_ne {t : State} {d : Diagnostic} (h : Diagnosed tree t d)
    (hne : t.id ≠ s.id) :
    (d :: diagnoses).filter (·.state == s.id) = diagnoses.filter (·.state == s.id) := by
  rw [List.filter_cons, if_neg fun he => hne ?_]
  rw [← h.state, beq_iff_eq.mp he]

theorem filter_diagnoses_of_not_mem (h : List.Forall₂ (Diagnosed tree) states diagnoses)
    (hs : s.id ∉ states.map State.id) : diagnoses.filter (·.state == s.id) = [] := by
  induction h with
  | nil => rfl
  | cons htd _ ih =>
    rw [List.map_cons, List.mem_cons, not_or] at hs
    rw [htd.filter_cons_of_ne (Ne.symm hs.1), ih hs.2]

theorem filter_diagnoses_of_head {d : Diagnostic} (h : Diagnosed tree s d)
    (hrest : List.Forall₂ (Diagnosed tree) states diagnoses) (hs : s.id ∉ states.map State.id) :
    (d :: diagnoses).filter (·.state == s.id) = [d] := by
  rw [List.filter_cons, if_pos (beq_iff_eq.mpr h.state), filter_diagnoses_of_not_mem hrest hs]

/-- Looking for the diagnostics of a state that has ended early finds the one it has. -/
theorem exists_filter_diagnoses (h : List.Forall₂ (Diagnosed tree) states diagnoses)
    (hnodup : (states.map State.id).Nodup) (hs : s ∈ states) :
    ∃ d, diagnoses.filter (·.state == s.id) = [d] ∧ Diagnosed tree s d := by
  induction h with
  | nil => cases hs
  | @cons t d states diagnoses htd hrest ih =>
    obtain ⟨hnew, hnodup⟩ := List.nodup_cons.mp hnodup
    rcases List.mem_cons.mp hs with rfl | hs
    · exact ⟨d, filter_diagnoses_of_head htd hrest hnew, htd⟩
    · rw [htd.filter_cons_of_ne (ne_of_mem_of_not_mem (List.mem_map_of_mem hs) hnew).symm]
      exact ih hnodup hs

/-! ## How paths have ended -/

/-- How the paths of an exploration have ended, between two rounds. -/
structure Concluded (e : Explorer) : Prop where
  active : ∀ s ∈ e.active, e.tree.OpenAt s.node
  ended : ∀ s ∈ e.finished, s.status = .errored ∨ s.status = .terminated
  /-- A state that has ended early has one diagnostic, and its node ends in the line for the error
  in that. -/
  errored : ∀ s ∈ e.finished, s.status = .errored →
    ∃ d, e.diagnostics.toList.filter (·.state == s.id) = [d] ∧
      e.tree.EndsWith s.node d.error.placeholder d.error.lastLine
  /-- Any other state has returned, or it goes on in its two children: the older one in the
  consequent and the younger one in the alternate of the conditional that follows its node. -/
  terminated : ∀ s ∈ e.finished, s.status = .terminated →
    e.tree.EndsWith s.node .ret "return 0;" ∨
      e.tree.RunsOn s.node ∧ ∃ c ∈ e.active ++ e.finished.toList,
        ∃ a ∈ e.active ++ e.finished.toList, a.id.index = c.id.index + 1 ∧
          (∀ t ∈ e.active ++ e.finished.toList, t.parent = some s.id ↔ t = c ∨ t = a) ∧
            e.tree.BranchesTo s.node c.node a.node

theorem Census.nodup_ids (h : Census e live) : ((early e.finished.toList).map State.id).Nodup := by
  have hids : ((e.everyone live).map State.id).Nodup := by
    refine List.Nodup.of_map StateId.index ?_
    rw [List.map_map]
    exact h.ids.nodup_iff.mpr List.nodup_range
  refine hids.sublist (List.Sublist.map _ ?_)
  exact List.filter_sublist.trans (List.sublist_append_right ..)

namespace Chronicle

theorem exists_diagnosed (h : Chronicle e live) (hcensus : Census e live) (hs : s ∈ e.finished)
    (hstatus : s.status = .errored) :
    ∃ d, e.diagnostics.toList.filter (·.state == s.id) = [d] ∧ Diagnosed e.tree s d := by
  refine exists_filter_diagnoses h.diagnosed hcensus.nodup_ids (List.mem_filter.mpr ⟨?_, ?_⟩)
  · exact Array.mem_toList_iff.mpr hs
  · exact beq_iff_eq.mpr hstatus

theorem concluded (h : Chronicle e e.active) (hcensus : Census e e.active) : Concluded e where
  active := h.alive
  ended s hs := by
    have hne := hcensus.ended s hs
    cases hstatus : s.status with
    | active => exact absurd hstatus hne
    | terminated => exact Or.inr rfl
    | errored => exact Or.inl rfl
  errored s hs hstatus := by
    obtain ⟨d, hd, hdiagnosed⟩ := h.exists_diagnosed hcensus hs hstatus
    exact ⟨d, hd, hdiagnosed.ending⟩
  terminated s hs hstatus := by
    rcases h.terminated s hs hstatus with hret | ⟨hruns, t, ht, hparent⟩
    · exact Or.inl hret
    · have hmem : s ∈ e.everyone e.active := List.mem_append_right _ (Array.mem_toList_iff.mpr hs)
      rcases hcensus.children hmem with hnone | ⟨c, hc, a, ha, hcp, hap, hnext, honly, hbranches⟩
      · exact absurd hparent (hnone t ht)
      · refine Or.inr ⟨hruns, c, hc, a, ha, hnext, fun u hu => ⟨honly u hu, ?_⟩, hbranches⟩
        rintro (rfl | rfl)
        · exact hcp
        · exact hap

/-- **Where no state is alive, every leaf ends in its only terminator.** -/
theorem leaf (h : Chronicle e []) (hcensus : Census e []) {id : NodeId}
    {statements : Array Statement} (hid : e.tree.node? id = some (.linear statements none)) :
    ∃ last line, e.tree.EndsWith id last line := by
  obtain ⟨s, hs, rfl⟩ := h.owned id statements hid
  have hfinished : s ∈ e.finished := Array.mem_toList_iff.mp hs
  cases hstatus : s.status with
  | active => exact absurd hstatus (hcensus.ended s hfinished)
  | terminated =>
    rcases h.terminated s hfinished hstatus with hret | ⟨⟨_, _, hruns, _⟩, _⟩
    · exact ⟨_, _, hret⟩
    · cases hruns.symm.trans hid
  | errored =>
    obtain ⟨d, -, hdiagnosed⟩ := h.exists_diagnosed hcensus hfinished hstatus
    exact ⟨_, _, hdiagnosed.ending⟩

end Chronicle

/-- **Every path ends in exactly one terminator, or in a fork,** and its status, its diagnostic and
its node agree on which; after a complete exploration, every leaf ends in one. -/
theorem concluded_after_rounds (program : Program) (input : Input) (budget : Option Nat) (n : Nat)
    (h : ∀ k < n, ∃ more, ((initial program input budget).afterRounds k).round.2 = .ok more) :
    Concluded ((initial program input budget).afterRounds n) ∧
    ∀ rounds e', ((initial program input budget).afterRounds n).explore rounds = .complete e' →
      ∀ id statements, e'.tree.node? id = some (.linear statements none) →
        ∃ last line, e'.tree.EndsWith id last line := by
  have hinvariant := invariant_census.and invariant_chronicle
  have hholds := hinvariant.afterRounds ⟨_, grown_initial program input budget,
    census_initial program input budget, chronicle_initial program input budget⟩ h
  refine ⟨?_, fun rounds e' hcomplete id statements hid => ?_⟩
  · obtain ⟨g, -, hcensus, hchronicle⟩ := hholds
    exact hchronicle.concluded hcensus
  · obtain ⟨g, -, hcensus, hchronicle⟩ := hinvariant.complete hholds hcomplete
    exact hchronicle.leaf hcensus hid

/-- A fork in the second round; then one of its branches returns, and no step is left for the other
one. -/
theorem concluded_after_fork :
    let e := (initial (.ofList [⟨0, .set ⟨5⟩ "0"⟩, ⟨1, .branch .less ⟨5⟩ ⟨6⟩ ⟨7⟩⟩, ⟨2, .ret⟩])
      ⟨1, "flag"⟩ (some 3)).afterRounds 2
    e.active.length = 2 ∧ Concluded e ∧ ∃ e', e.explore 1 = .complete e' ∧
      e'.finished.toList.map State.status = [.terminated, .terminated, .errored] ∧
        ∀ id statements, e'.tree.node? id = some (.linear statements none) →
          ∃ last line, e'.tree.EndsWith id last line := by
  intro e
  have hconcluded := concluded_after_rounds (.ofList [⟨0, .set ⟨5⟩ "0"⟩,
    ⟨1, .branch .less ⟨5⟩ ⟨6⟩ ⟨7⟩⟩, ⟨2, .ret⟩]) ⟨1, "flag"⟩ (some 3) 2 fun k hk => by
    match k, hk with
    | 0, _ => exact ⟨_, rfl⟩
    | 1, _ => exact ⟨_, rfl⟩
  have hcomplete : e.explore 1 = .complete e.round.1 := rfl
  exact ⟨by decide +kernel, hconcluded.1, e.round.1, hcomplete, by decide +kernel,
    hconcluded.2 1 _ hcomplete⟩

end Explorer

end Lifter

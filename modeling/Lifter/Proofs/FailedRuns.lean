import Lifter.Command.Run
import Lifter.Files.Tree
import Lifter.Proofs.Termination

/-!
# Runs that fail change no files

A run reads and decompiles before it writes. If anything is wrong with the configuration or the
bytecode, it ends with the files as they were, whatever it has been asked to write. How arguments
and configuration files are written down does not matter for this: it holds of every request, and
with every way to read a configuration file.

* `configLayer`, `Explores`: what the configuration file of a run says, and runs that get as far as
  exploring.
* `Fault`: what can be wrong with a run before it writes.
* `prepare_cases`: the part of a run that reads, and when it fails.
* `Refused`, `run_of_fault`: how a run ends that is at fault.
* **`carryOut_of_fault`**: runs and command lines that are at fault fail and change no files.
-/

namespace Lifter

/-! ## Faults -/

theorem Explorer.not_failed_of_complete {e e' e'' : Explorer} {cause : ExecutionError}
    {rounds limit : Nat} (h : e.explore limit = .complete e') :
    e.explore rounds ≠ .failed e'' cause := by
  intro hfailed
  -- the one of the two that is over with fewer rounds is also the other
  rcases Nat.le_total limit rounds with hle | hle
  · have heq := explore_eq_of_over (by rw [h]; trivial) hle
    rw [h, hfailed] at heq
    cases heq
  · have heq := explore_eq_of_over (by rw [hfailed]; trivial) hle
    rw [h, hfailed] at heq
    cases heq

namespace Command

variable {ofFile : LayerReader} {args : Arguments} {tree : FileTree} {failure : Failure}

/-- What the configuration file of a run says, which is nothing if there is none. -/
def configLayer (ofFile : LayerReader) (args : Arguments) (tree : FileTree) :
    Except ConfigError Layer :=
  match args.config with
  | none => .ok {}
  | some path =>
    match tree.read path with
    | .error cause => .error (.unreadable path cause)
    | .ok contents => ofFile path contents

/-- A run that gets as far as exploring a program. -/
structure Explores (ofFile : LayerReader) (args : Arguments) (tree : FileTree) (config : Config)
    (program : List Placed) : Prop where
  built : ∃ fromFile, configLayer ofFile args tree = .ok fromFile ∧
    (fromFile.merge (layer args)).build = .ok config
  decoded : ∃ contents, tree.read args.bytecode = .ok contents ∧
    Lifter.decode contents.toList = .ok program

/-- What can be wrong with a run before it writes. There may be several faults, as what is wrong
with the bytecode does not depend on the configuration. -/
inductive Fault (ofFile : LayerReader) (args : Arguments) (tree : FileTree) : Failure → Prop
  /-- The configuration file cannot be read, or is no configuration. -/
  | load {cause : ConfigError} :
    configLayer ofFile args tree = .error cause → Fault ofFile args tree (.config cause)
  /-- The file and the command line together are no complete configuration. -/
  | build {fromFile : Layer} {cause : ConfigError} :
    configLayer ofFile args tree = .ok fromFile →
      (fromFile.merge (layer args)).build = .error cause → Fault ofFile args tree (.config cause)
  /-- The bytecode cannot be read. -/
  | read {cause : FileError} :
    tree.read args.bytecode = .error cause →
      Fault ofFile args tree (.file "read" args.bytecode cause)
  /-- The bytecode is no program. -/
  | decode {contents : ByteArray} {cause : DecodeError} :
    tree.read args.bytecode = .ok contents → Lifter.decode contents.toList = .error cause →
      Fault ofFile args tree (.decompile (.decode cause))
  /-- Exploration fails in some round. -/
  | explore {config : Config} {program : List Placed} {rounds : Nat} {e : Explorer}
      {cause : ExecutionError} :
    Explores ofFile args tree config program →
      (config.explorer program).explore rounds = .failed e cause →
      Fault ofFile args tree (.decompile (.execution cause))
  /-- Exploration takes more rounds than can be counted. -/
  | endless {config : Config} {program : List Placed} {e : Explorer} :
    Explores ofFile args tree config program →
      (config.explorer program).explore Explorer.roundLimit = .unfinished e →
      Fault ofFile args tree (.decompile .endless)

theorem Explores.unique {config config' : Config} {program program' : List Placed}
    (h : Explores ofFile args tree config program)
    (h' : Explores ofFile args tree config' program') :
    config = config' ∧ program = program' := by
  obtain ⟨⟨fromFile, hlayer, hbuild⟩, contents, hread, hdecode⟩ := h
  obtain ⟨⟨fromFile', hlayer', hbuild'⟩, contents', hread', hdecode'⟩ := h'
  obtain rfl := Except.ok.inj (hlayer.symm.trans hlayer')
  obtain rfl := Except.ok.inj (hread.symm.trans hread')
  exact ⟨Except.ok.inj (hbuild.symm.trans hbuild'), Except.ok.inj (hdecode.symm.trans hdecode')⟩

/-- Nothing is at fault if exploration completes. -/
theorem not_fault_of_complete {config : Config} {program : List Placed} {e : Explorer}
    (h : Explores ofFile args tree config program)
    (hcomplete : (config.explorer program).explore Explorer.roundLimit = .complete e) :
    ¬ Fault ofFile args tree failure := by
  intro hfault
  obtain ⟨fromFile, hlayer, hbuild⟩ := h.built
  obtain ⟨contents, hread, hdecode⟩ := h.decoded
  cases hfault with
  | load hload => cases hload.symm.trans hlayer
  | build hload hincomplete =>
    obtain rfl := Except.ok.inj (hload.symm.trans hlayer)
    cases hincomplete.symm.trans hbuild
  | read hmissing => cases hmissing.symm.trans hread
  | decode hcontents hbad =>
    obtain rfl := Except.ok.inj (hcontents.symm.trans hread)
    cases hbad.symm.trans hdecode
  | explore h' hfailed =>
    obtain ⟨rfl, rfl⟩ := h.unique h'
    exact Explorer.not_failed_of_complete hcomplete hfailed
  | endless h' hunfinished =>
    obtain ⟨rfl, rfl⟩ := h.unique h'
    cases hunfinished.symm.trans hcomplete

/-! ## Reading -/

theorem run_bind_of_run {α β : Type} {x : StateM FileTree α} {f : α → StateM FileTree β}
    {tree tree' : FileTree} {a : α} (h : x.run tree = (a, tree')) :
    (x >>= f).run tree = (f a).run tree' := by
  rw [StateT.run_bind, h]
  rfl

theorem readFile_run (path : String) (tree : FileTree) :
    (FileAccess.readFile path : StateM FileTree _).run tree = (tree.read path, tree) := rfl

theorem readLayer_run (ofFile : LayerReader) (args : Arguments) (tree : FileTree) :
    (readLayer ofFile args : StateM FileTree _).run tree =
      (configLayer ofFile args tree, tree) := by
  unfold readLayer configLayer
  cases args.config with
  | none => rfl
  | some path =>
    dsimp only
    rw [run_bind_of_run (readFile_run path tree)]
    cases tree.read path <;> rfl

theorem readConfig_run (ofFile : LayerReader) (args : Arguments) (tree : FileTree) :
    (readConfig ofFile args : StateM FileTree _).run tree =
      ((configLayer ofFile args tree).bind fun fromFile => (fromFile.merge (layer args)).build,
        tree) := by
  rw [readConfig, run_bind_of_run (readLayer_run ofFile args tree)]
  cases configLayer ofFile args tree <;> rfl

/-- **The part of a run that reads** leaves the files as they are. It fails if and only if something
is at fault. -/
theorem prepare_cases (ofFile : LayerReader) (args : Arguments) (tree : FileTree) :
    ∃ log result, (prepare ofFile args : StateM FileTree _).run tree = ((log, result), tree) ∧
      match result with
      | .error failure => Fault ofFile args tree failure
      | .ok _ => ∀ failure, ¬ Fault ofFile args tree failure := by
  -- the stages in their order: each either fails with its own fault or leads to the next
  rw [prepare, run_bind_of_run (readConfig_run ofFile args tree)]
  cases hlayer : configLayer ofFile args tree with
  | error cause => exact ⟨_, _, rfl, .load hlayer⟩
  | ok fromFile =>
    rw [Except.bind]
    cases hconfig : (fromFile.merge (layer args)).build with
    | error cause => exact ⟨_, _, rfl, .build hlayer hconfig⟩
    | ok config =>
      dsimp only
      rw [run_bind_of_run (readFile_run args.bytecode tree)]
      cases hread : tree.read args.bytecode with
      | error cause => exact ⟨_, _, rfl, .read hread⟩
      | ok contents =>
        refine ⟨_, _, rfl, ?_⟩
        unfold decompileLogged
        cases hdecode : Lifter.decode contents.toList with
        | error cause => exact .decode hread hdecode
        | ok program =>
          have hexplores : Explores ofFile args tree config program :=
            ⟨⟨fromFile, hlayer, hconfig⟩, contents, hread, hdecode⟩
          dsimp only
          cases hexplore : (config.explorer program).explore Explorer.roundLimit with
          | failed e cause => exact .explore hexplores hexplore
          | unfinished e => exact .endless hexplores hexplore
          | complete e => exact fun failure => not_fault_of_complete hexplores hexplore

/-! ## Running -/

/-- The end of a run that is at fault: it exits with code `1`, prints nothing and reports one of its
faults last. -/
structure Refused (ofFile : LayerReader) (args : Arguments) (tree : FileTree) (exit : Exit) :
    Prop where
  code : exit.code = 1
  output : exit.output = ""
  reported : ∃ log failure, Fault ofFile args tree failure ∧
    exit.log = log ++ [⟨.error, failure.message, []⟩]

theorem run_of_fault (h : Fault ofFile args tree failure) : ∃ exit,
    Refused ofFile args tree exit ∧
      (run ofFile args : StateM FileTree _).run tree = (exit, tree) := by
  obtain ⟨log, result, hprepare, hresult⟩ := prepare_cases ofFile args tree
  cases result with
  | ok results => exact absurd h (hresult failure)
  | error reported =>
    refine ⟨failed args log reported, ⟨rfl, rfl, _, reported, hresult, rfl⟩, ?_⟩
    rw [run, run_bind_of_run hprepare]
    rfl

theorem carryOut_run {texts : List String} {exit : Exit} {tree' : FileTree}
    (hparse : Arguments.parse texts = .ok args)
    (hrun : (run Layer.ofFile args : StateM FileTree _).run tree = (exit, tree')) :
    (carryOut texts : StateM FileTree _).run tree = (.ok exit, tree') := by
  rw [carryOut, hparse]
  dsimp only
  rw [run_bind_of_run hrun]
  rfl

/-- **A run that is at fault changes no files,** whatever it was asked to write and where, and
however its configuration file is read. It exits with code `1`, prints nothing and reports one of
its faults. The same holds of every command line that asks for such a run. -/
theorem carryOut_of_fault :
    (∀ ofFile args tree failure, Fault ofFile args tree failure → ∃ exit,
      Refused ofFile args tree exit ∧
        (run ofFile args : StateM FileTree _).run tree = (exit, tree)) ∧
    ∀ texts args tree failure, Arguments.parse texts = .ok args →
      Fault Layer.ofFile args tree failure → ∃ exit, Refused Layer.ofFile args tree exit ∧
        (carryOut texts : StateM FileTree _).run tree = (.ok exit, tree) := by
  refine ⟨fun ofFile args tree failure => run_of_fault, fun texts args tree failure hparse h => ?_⟩
  obtain ⟨exit, hrefused, hrun⟩ := run_of_fault h
  exact ⟨exit, hrefused, carryOut_run hparse hrun⟩

/-- Nothing is written if the configuration file is refused, nothing without the length of the
input, and nothing for a program that changes the sign of an empty text. -/
theorem carryOut_negate_empty :
    let tree := FileTree.ofFiles [("a.bin", ⟨#[84, 0]⟩)]
    (∃ exit, exit.code = 1 ∧ exit.output = "" ∧
      (run (fun path _ => .error (.malformed path)) { bytecode := "a.bin", config := "a.bin" } :
        StateM FileTree _).run tree = (exit, tree)) ∧
    (∃ exit, exit.code = 1 ∧ exit.output = "" ∧
      (carryOut ["a.bin", "--out-dir=out", "--report=r.json", "--recover-secret"] :
        StateM FileTree _).run tree = (.ok exit, tree)) ∧
    ∃ exit, exit.code = 1 ∧ exit.output = "" ∧
      (carryOut ["a.bin", "--out-dir=out", "--report=r.json", "--input-length", "1"] :
        StateM FileTree _).run tree = (.ok exit, tree) := by
  intro tree
  refine ⟨?_, ?_, ?_⟩
  · have hfault : Fault (fun path _ => .error (.malformed path))
        { bytecode := "a.bin", config := "a.bin" } tree (.config (.malformed "a.bin")) := .load rfl
    obtain ⟨exit, hrefused, hrun⟩ := carryOut_of_fault.1 _ _ _ _ hfault
    exact ⟨exit, hrefused.code, hrefused.output, hrun⟩
  · have hfault : Fault Layer.ofFile
        { bytecode := "a.bin", outDir := "out", report := "r.json", recoverSecret := true } tree
        (.config .missingInputLength) := .build rfl rfl
    obtain ⟨exit, hrefused, hrun⟩ := carryOut_of_fault.2
      ["a.bin", "--out-dir=out", "--report=r.json", "--recover-secret"] _ _ _ rfl hfault
    exact ⟨exit, hrefused.code, hrefused.output, hrun⟩
  · have hdecode : Lifter.decode (ByteArray.mk #[84, 0]).toList = .ok [⟨0, .negate ⟨0⟩⟩] := by cbv
    have hexplores : Explores Layer.ofFile
        { bytecode := "a.bin", outDir := "out", report := "r.json", inputLength := some 1 } tree
        ⟨⟨1, "flag"⟩, none, true⟩ [⟨0, .negate ⟨0⟩⟩] :=
      ⟨⟨{}, rfl, rfl⟩, ⟨#[84, 0]⟩, rfl, hdecode⟩
    obtain ⟨e, cause, hfailed⟩ : ∃ e cause, (Config.explorer ⟨⟨1, "flag"⟩, none, true⟩
        [⟨0, .negate ⟨0⟩⟩]).explore 1 = .failed e cause := ⟨_, _, rfl⟩
    obtain ⟨exit, hrefused, hrun⟩ := carryOut_of_fault.2
      ["a.bin", "--out-dir=out", "--report=r.json", "--input-length", "1"] _ _ _ rfl
      (.explore hexplores hfailed)
    exact ⟨exit, hrefused.code, hrefused.output, hrun⟩

end Command

end Lifter

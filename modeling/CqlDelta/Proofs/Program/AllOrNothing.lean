import CqlDelta.Proofs.Program.Commands

/-!
# All or nothing

A run either fails, says why, and leaves everything as it was, or hands over the whole text that its
command line asks for, on the standard output or as the one file that changes (`RunOf`). A question
is answered on the standard output (`runs_deliver_all_or_nothing`). The work on a comparison has
stages, and what a run reports is the failure of the first stage that has one
(`messageOf?_plannedFor`).
-/

namespace CqlDelta
namespace Program

open Cql Json Plan

/-! ## Stages -/

/-- What can fail in a run on a comparison. -/
inductive Stage where
  | comparison
  | model
  | typeNames
  | planning
  | writing
deriving DecidableEq, Repr

namespace Stage

/-- The stages up to the plan, in the order in which they have their turn. -/
def beforeWriting : List Stage :=
  [.comparison, .model, .typeNames, .planning]

/-- All stages, in the order in which they have their turn. -/
def inOrder : List Stage :=
  beforeWriting ++ [.writing]

end Stage

/-- The message of a failure, if there is one. -/
def messageOf? {α : Type} : Except Failure α → Option String
  | .ok _ => none
  | .error failure => some failure.message

/-- The message with which a stage fails, if it does. A model file is not looked at if a version is
given. Planning can only fail once everything is read, and writing only if there is an output
path. -/
def Stage.failure?
    (disk : Disk)
    (invocation : Invocation)
    (diff : String) :
    Stage → Option String
  | .comparison => messageOf? (loadFile disk.read Delta.readNode diff)
  | .model =>
      match invocation.version, invocation.model with
      | none, some path => messageOf? (loadFile disk.read readVersions path)
      | _, _ => none
  | .typeNames =>
      match invocation.typeNames with
      | some path => messageOf? (loadFile disk.read Delta.readTypeNames path)
      | none => none
  | .planning =>
      match outcomeOf disk.read invocation diff with
      | .ok outcome =>
          match outcome.result with
          | .error fault => some (Failure.key fault).message
          | .ok _ => none
      | .error _ => none
  | .writing =>
      match invocation.output with
      | some path =>
          match disk.target path with
          | .error fault => some fault.message
          | .ok _ => none
      | none => none

section Stages

variable {disk : Disk} {invocation : Invocation} {diff : String}

theorem messageOf?_contextOf :
    messageOf? (contextOf disk.read invocation) = Stage.model.failure? disk invocation diff := by
  rw [contextOf, Stage.failure?]
  cases invocation.version with
  | some version => rfl
  | none =>
      cases invocation.model with
      | none => rfl
      | some path => cases hload : loadFile disk.read readVersions path <;> simp [hload] <;> rfl

theorem messageOf?_typeNamesOf :
    messageOf? (typeNamesOf disk.read invocation) =
      Stage.typeNames.failure? disk invocation diff := by
  rw [typeNamesOf, Stage.failure?]
  cases invocation.typeNames <;> rfl

/-- There is no plan exactly for the reason of the first stage that fails. -/
theorem messageOf?_plannedFor :
    messageOf? (plannedFor disk.read invocation diff) =
      Stage.beforeWriting.findSome? (Stage.failure? disk invocation diff) := by
  have hmodel : messageOf? (contextOf disk.read invocation) =
      Stage.model.failure? disk invocation diff := messageOf?_contextOf
  have hnames : messageOf? (typeNamesOf disk.read invocation) =
      Stage.typeNames.failure? disk invocation diff := messageOf?_typeNamesOf
  simp only [Stage.beforeWriting, List.findSome?_cons, List.findSome?_nil, ← hmodel, ← hnames]
  simp only [Stage.failure?, plannedFor, outcomeOf]
  cases loadFile disk.read Delta.readNode diff with
  | error failure => rfl
  | ok document =>
      cases contextOf disk.read invocation with
      | error failure => rfl
      | ok context =>
          cases typeNamesOf disk.read invocation with
          | error failure => rfl
          | ok names =>
              simp only [ok_bind, messageOf?, pure, Except.pure]
              cases (compile invocation.options names context document).result <;> rfl

end Stages

/-! ## What is handed over -/

/-- The text that a command line asks for. -/
inductive AsksFor (files : FileReader) (invocation : Invocation) : String → Prop
  | script {diff : String} {statements : List Statement}
      (command : invocation.command = .script diff)
      (planned : plannedFor files invocation diff = .ok statements) :
      AsksFor files invocation (renderScript statements)
  | plan {diff : String} {statements : List Statement}
      (command : invocation.command = .plan diff)
      (planned : plannedFor files invocation diff = .ok statements) :
      AsksFor files invocation ((planValue statements).indented ++ "\n")
  | verdict {old new : String}
      (command : invocation.command = .checkTypes old new) :
      AsksFor files invocation (verdict old new)

theorem asksFor_of_work
    {files : FileReader}
    {invocation : Invocation}
    {text : String}
    (h : (workOf files invocation).result = .ok text) :
    AsksFor files invocation text := by
  cases hcommand : invocation.command with
  | script diff =>
      rw [result_script files hcommand] at h
      obtain ⟨statements, hplanned, rfl⟩ := map_eq_ok_iff.mp h
      exact .script hcommand hplanned
  | plan diff =>
      rw [result_plan files hcommand] at h
      obtain ⟨statements, hplanned, rfl⟩ := map_eq_ok_iff.mp h
      exact .plan hcommand hplanned
  | checkTypes old new =>
      rw [workOf, hcommand] at h
      obtain rfl := Except.ok.inj h
      exact .verdict hcommand

/-- A text is delivered whole: on the standard output while no file changes, or in the file at the
output path, which is the only one that changes, while nothing is on the standard output. -/
def Delivered (disk : Disk) (output : Option String) (text : String) (run : Report × Disk) : Prop :=
  match output with
  | none => run.1.output = text ∧ run.2 = disk
  | some path =>
      run.1.output = "" ∧ run.2.read path = .ok text ∧
        ∃ steps, disk.target path = .ok steps ∧ disk.DiffersOnlyAt steps text.toUTF8 run.2

theorem Emits.delivered
    {disk : Disk}
    {output : Option String}
    {text : String}
    {run : Report × Disk}
    (h : Emits disk output text run) :
    Delivered disk output text run := by
  obtain ⟨-, -, handed⟩ := h
  cases output with
  | none => exact handed
  | some path =>
      obtain ⟨hsilent, steps, htarget, hdisk⟩ := handed
      have hwrite : disk.write path text = .ok run.2 :=
        Disk.write_eq_ok_iff.mpr ⟨steps, htarget, hdisk⟩
      exact ⟨hsilent, Disk.read_of_write hwrite, Disk.differsOnlyAt_of_write hwrite⟩

/-! ## Runs -/

/-- A run that comes to nothing says why, hands over nothing and leaves the disk as it was. -/
structure ComesToNothing (disk : Disk) (message : String) (run : Report × Disk) : Prop where
  code : run.1.code = 1
  message : run.1.failure = some message
  silent : run.1.output = ""
  untouched : run.2 = disk

/-- How a run on a command line ends: its work fails, its text cannot be written, or the text is
handed over. -/
inductive RunOf (disk : Disk) (invocation : Invocation) (run : Report × Disk) : Prop
  | failed {failure : Failure}
      (work : (workOf disk.read invocation).result = .error failure)
      (ends : ComesToNothing disk failure.message run)
  | refused {path text : String} {fault : DiskFault}
      (work : (workOf disk.read invocation).result = .ok text)
      (output : invocation.output = some path)
      (target : disk.target path = .error fault)
      (ends : ComesToNothing disk fault.message run)
  | handedOver {text : String}
      (work : (workOf disk.read invocation).result = .ok text)
      (writable : Writable disk invocation.output)
      (ends : Emits disk invocation.output text run)

section Runs

variable {disk : Disk} {keyspace : Option String} {arguments : List String} {manual : Manual}
  {invocation : Invocation}

theorem runOn_refused
    {path text : String}
    {fault : DiskFault}
    (harguments : Invocation.ofArguments? keyspace arguments = some invocation)
    (hwork : (workOf disk.read invocation).result = .ok text)
    (houtput : invocation.output = some path)
    (htarget : disk.target path = .error fault) :
    ComesToNothing disk fault.message (runOn disk keyspace arguments manual) := by
  rw [ofArguments?_eq_some_iff] at harguments
  have hwrite : disk.write path text = .error fault := by
    rw [Disk.write, htarget]
    rfl
  simp only [runOn, harguments, Work.toWrite?, Work.report, houtput, hwork, hwrite]
  exact ⟨rfl, rfl, rfl, rfl⟩

theorem runOf_runOn
    (harguments : Invocation.ofArguments? keyspace arguments = some invocation) :
    RunOf disk invocation (runOn disk keyspace arguments manual) := by
  cases hwork : (workOf disk.read invocation).result with
  | error failure =>
      obtain ⟨code, message, silent, untouched⟩ := runOn_fails harguments hwork
      exact .failed hwork ⟨code, message, silent, untouched⟩
  | ok text =>
      cases houtput : invocation.output with
      | none =>
          have hwritable : Writable disk invocation.output := by simp [Writable, houtput]
          exact .handedOver hwork hwritable (runOn_emits harguments hwork hwritable)
      | some path =>
          cases htarget : disk.target path with
          | error fault =>
              exact .refused hwork houtput htarget
                (runOn_refused harguments hwork houtput htarget)
          | ok steps =>
              have hwritable : Writable disk invocation.output := by
                simp [Writable, houtput, htarget]
              exact .handedOver hwork hwritable (runOn_emits harguments hwork hwritable)

theorem failure_writing_of_writable
    (h : Writable disk invocation.output)
    (diff : String) :
    Stage.writing.failure? disk invocation diff = none := by
  rw [Stage.failure?]
  cases houtput : invocation.output with
  | none => rfl
  | some path =>
      obtain ⟨steps, htarget⟩ := h path houtput
      simp [htarget]

/-- The comparison that a command is about. -/
def Command.comparison? : Command → Option String
  | .script diff => some diff
  | .plan diff => some diff
  | .checkTypes _ _ => none

/-- The work on a comparison fails as its plan does. -/
theorem messageOf?_workOf
    {diff : String}
    (h : invocation.command.comparison? = some diff) :
    messageOf? (workOf disk.read invocation).result =
      messageOf? (plannedFor disk.read invocation diff) := by
  cases hcommand : invocation.command with
  | script other =>
      obtain rfl : other = diff := by simpa [hcommand, Command.comparison?] using h
      rw [result_script _ hcommand]
      cases plannedFor disk.read invocation other <;> rfl
  | plan other =>
      obtain rfl : other = diff := by simpa [hcommand, Command.comparison?] using h
      rw [result_plan _ hcommand]
      cases plannedFor disk.read invocation other <;> rfl
  | checkTypes old new => simp [hcommand, Command.comparison?] at h

/-- A run on a comparison reports the failure of the first stage that has one. -/
theorem RunOf.failure_eq
    {run : Report × Disk}
    {diff : String}
    (h : RunOf disk invocation run)
    (hdiff : invocation.command.comparison? = some diff) :
    run.1.failure = Stage.inOrder.findSome? (Stage.failure? disk invocation diff) := by
  rw [Stage.inOrder, List.findSome?_append, ← messageOf?_plannedFor, ← messageOf?_workOf hdiff]
  cases h with
  | failed work ends => rw [ends.message, work]; rfl
  | refused work output target ends =>
      simp [ends.message, work, messageOf?, Stage.failure?, output, target]
  | handedOver work writable ends =>
      simp [ends.quiet, work, messageOf?, failure_writing_of_writable writable]

theorem runOn_stopped
    {stop : Stop}
    (h : Invocation.ofArguments keyspace arguments = .error stop) :
    runOn disk keyspace arguments manual = (stop.report manual, disk) := by
  simp only [runOn, h]

/-- A run that does not end with zero has written nothing to the standard output and left the disk
as it was. A run that ends with zero has delivered a whole text: the answer to a question, on the
standard output, or the text that its command line asks for. A run on a comparison ends with zero if
and only if it reports no failure, and what it reports is the failure of the first stage that has
one. -/
theorem runs_deliver_all_or_nothing
    (disk : Disk)
    (keyspace : Option String)
    (arguments : List String)
    (manual : Manual) :
    let run := runOn disk keyspace arguments manual
    (run.1.code ≠ 0 → run.1.output = "" ∧ run.2 = disk) ∧
    (run.1.code = 0 →
      (∃ question,
        Invocation.ofArguments keyspace arguments = .error (.asks question) ∧
          Delivered disk none (manual question) run) ∨
      ∃ invocation text,
        Invocation.ofArguments? keyspace arguments = some invocation ∧
          AsksFor disk.read invocation text ∧ Delivered disk invocation.output text run) ∧
    (∀ invocation diff,
      Invocation.ofArguments? keyspace arguments = some invocation →
        invocation.command.comparison? = some diff →
          run.1.failure = Stage.inOrder.findSome? (Stage.failure? disk invocation diff) ∧
            (run.1.code = 0 ↔ run.1.failure = none)) := by
  intro run
  cases harguments : Invocation.ofArguments keyspace arguments with
  | error stop =>
      have hrun : run = (stop.report manual, disk) := runOn_stopped harguments
      have hnone : Invocation.ofArguments? keyspace arguments = none := by
        rw [Invocation.ofArguments?, harguments]
        rfl
      rw [hrun, hnone]
      cases stop with
      | wrongUsage => exact ⟨fun _ => ⟨rfl, rfl⟩, by simp [Stop.report], by simp⟩
      | asks question =>
          exact ⟨fun hcode => absurd rfl hcode, fun _ => .inl ⟨question, rfl, rfl, rfl⟩, by simp⟩
  | ok invocation =>
      rw [← ofArguments?_eq_some_iff] at harguments
      have hrunOf : RunOf disk invocation run := runOf_runOn harguments
      refine ⟨?nothing, ?all, ?first⟩
      case nothing =>
        intro hcode
        cases hrunOf with
        | failed work ends => exact ⟨ends.silent, ends.untouched⟩
        | refused work output target ends => exact ⟨ends.silent, ends.untouched⟩
        | handedOver work writable ends => exact absurd ends.code hcode
      case all =>
        intro hcode
        cases hrunOf with
        | failed work ends => simp [ends.code] at hcode
        | refused work output target ends => simp [ends.code] at hcode
        | handedOver work writable ends =>
            exact .inr ⟨invocation, _, harguments, asksFor_of_work work, ends.delivered⟩
      case first =>
        intro other diff heq hdiff
        obtain rfl := Option.some.inj (harguments.symm.trans heq)
        refine ⟨hrunOf.failure_eq hdiff, ?_⟩
        cases hrunOf with
        | failed work ends => simp [ends.code, ends.message]
        | refused work output target ends => simp [ends.code, ends.message]
        | handedOver work writable ends => simp [ends.code, ends.quiet]

/-- A plan whose model file is missing, whose names of types are in a directory and whose output path
leads nowhere. -/
def failingArguments : List String :=
  ["--model-data", "gone.json", "plan", "diff.json", "--udt-registry", ".", "-o", "none/plan.json"]

/-- The command line that is read from them. -/
def failingInvocation : Invocation :=
  { invocationOf (.plan "diff.json") with
    typeNames := some ".", model := some "gone.json", output := some "none/plan.json" }

/-- A script that goes into the file of its comparison. -/
def overwritingArguments : List String :=
  ["script", "diff.json", "--output=diff.json"]

/-- The command line that is read from them. -/
def overwritingInvocation : Invocation :=
  { invocationOf (.script "diff.json") with output := some "diff.json" }

/-- A command line that asks for help on a command, with an output path in front. -/
def askingArguments : List String :=
  ["-o", "plan.json", "plan", "--help"]

/-- The missing model file is the first that stops the plan. -/
theorem findSome?_failure?_failing :
    Stage.inOrder.findSome? (Stage.failure? droppingDisk failingInvocation "diff.json") =
      some "IO error: No such file or directory (os error 2)" := by
  have hcomparison :
      Stage.comparison.failure? droppingDisk failingInvocation "diff.json" = none := by
    rw [Stage.failure?, loadFile_droppingDisk]
    rfl
  have hmodel : Stage.model.failure? droppingDisk failingInvocation "diff.json" =
      some "IO error: No such file or directory (os error 2)" := by
    have hread : droppingDisk.read "gone.json" = .error .notFound := rfl
    show messageOf? (loadFile droppingDisk.read readVersions "gone.json") = some _
    rw [loadFile, hread]
    rfl
  simp only [Stage.inOrder, Stage.beforeWriting, List.cons_append, List.findSome?_cons,
    hcomparison, hmodel]

theorem plannedFor_overwriting :
    plannedFor droppingDisk.read overwritingInvocation "diff.json" = .ok [.dropKeyspace "old"] := by
  rw [plannedFor, outcomeOf, loadFile_droppingDisk]
  rfl

/-- Nothing stops the script. -/
theorem findSome?_failure?_overwriting :
    Stage.inOrder.findSome? (Stage.failure? droppingDisk overwritingInvocation "diff.json") =
      none := by
  have hwriting : Stage.writing.failure? droppingDisk overwritingInvocation "diff.json" = none := by
    have htarget : droppingDisk.target "diff.json" = .ok ["diff.json".toList] := rfl
    simp only [Stage.failure?, overwritingInvocation, htarget]
  simp only [Stage.inOrder, List.findSome?_append, List.findSome?_cons, ← messageOf?_plannedFor,
    plannedFor_overwriting, messageOf?, hwriting, List.findSome?_nil, Option.or_none]

theorem text_of_overwriting
    {text : String}
    (h : AsksFor droppingDisk.read overwritingInvocation text) :
    text = "DROP KEYSPACE old;\n\n" := by
  cases h with
  | script command planned =>
      obtain rfl := Command.script.inj command
      obtain rfl := Except.ok.inj (plannedFor_overwriting.symm.trans planned)
      rfl
  | plan command planned => simp [overwritingInvocation, invocationOf] at command
  | verdict command => simp [overwritingInvocation, invocationOf] at command

theorem missing_model_stops_plan_and_script_replaces_comparison :
    let manual := programManual none
    ∃ failing overwriting asking : Report × Disk,
      runOn droppingDisk none failingArguments manual = failing ∧
        runOn droppingDisk none overwritingArguments manual = overwriting ∧
        runOn droppingDisk none askingArguments manual = asking ∧
        failing.1.code ≠ 0 ∧ failing.1.output = "" ∧ failing.2 = droppingDisk ∧
        failing.1.failure = some "IO error: No such file or directory (os error 2)" ∧
        overwriting.1.code = 0 ∧ overwriting.1.output = "" ∧
        overwriting.2.read "diff.json" = .ok "DROP KEYSPACE old;\n\n" ∧
        asking.1.code = 0 ∧ asking.1.output = manual (.help (.command .plan)) ∧
        asking.2 = droppingDisk := by
  intro manual
  have hfailing : Invocation.ofArguments? none failingArguments = some failingInvocation := by
    decide +kernel
  have hoverwriting :
      Invocation.ofArguments? none overwritingArguments = some overwritingInvocation := by
    decide +kernel
  have hasking : Invocation.ofArguments none askingArguments =
      .error (.asks (.help (.command .plan))) := by
    with_unfolding_all rfl
  obtain ⟨hnothing, -, hreports⟩ :=
    runs_deliver_all_or_nothing droppingDisk none failingArguments manual
  obtain ⟨-, hall, hquiet⟩ :=
    runs_deliver_all_or_nothing droppingDisk none overwritingArguments manual
  obtain ⟨-, hanswer, -⟩ :=
    runs_deliver_all_or_nothing droppingDisk none askingArguments manual
  obtain ⟨hfirst, hfailed⟩ := hreports failingInvocation "diff.json" hfailing rfl
  obtain ⟨hlast, hended⟩ := hquiet overwritingInvocation "diff.json" hoverwriting rfl
  have hanswered : (runOn droppingDisk none askingArguments manual).1.code = 0 := by
    rw [runOn_stopped hasking]
    rfl
  -- The runs are kept as they are: only what the theorem says of them is used from here on.
  refine ⟨_, _, _, rfl, rfl, rfl, ?_⟩
  generalize runOn droppingDisk none failingArguments manual = failing at hnothing hfirst hfailed ⊢
  generalize runOn droppingDisk none overwritingArguments manual = overwriting
    at hall hlast hended ⊢
  generalize runOn droppingDisk none askingArguments manual = asking at hanswer hanswered ⊢
  have hfailure := hfirst.trans findSome?_failure?_failing
  have hcode : failing.1.code ≠ 0 := by simp [hfailed, hfailure]
  have hzero : overwriting.1.code = 0 := hended.mpr (hlast.trans findSome?_failure?_overwriting)
  have hscript : overwriting.1.output = "" ∧
      overwriting.2.read "diff.json" = .ok "DROP KEYSPACE old;\n\n" := by
    rcases hall hzero with ⟨question, hstop, -⟩ | ⟨invocation, text, harguments, hasks, hdelivered⟩
    · rw [ofArguments?_eq_some_iff, hstop] at hoverwriting
      simp at hoverwriting
    · obtain rfl := Option.some.inj (hoverwriting.symm.trans harguments)
      obtain ⟨hsilent, hread, -⟩ := hdelivered
      exact ⟨hsilent, text_of_overwriting hasks ▸ hread⟩
  have hhelp : asking.1.output = manual (.help (.command .plan)) ∧ asking.2 = droppingDisk := by
    rcases hanswer hanswered with ⟨question, hstop, hdelivered⟩ | ⟨invocation, text, hrun, -⟩
    · obtain rfl := Stop.asks.inj (Except.error.inj (hasking.symm.trans hstop))
      exact hdelivered
    · rw [ofArguments?_eq_some_iff, hasking] at hrun
      simp at hrun
  exact ⟨hcode, (hnothing hcode).1, (hnothing hcode).2, hfailure, hzero, hscript.1, hscript.2,
    hanswered, hhelp.1, hhelp.2⟩

end Runs

end Program
end CqlDelta

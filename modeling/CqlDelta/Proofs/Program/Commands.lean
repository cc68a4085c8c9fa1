import CqlDelta.Program.Run
import CqlDelta.Proofs.Cql.WrittenStatements
import CqlDelta.Proofs.Json.Layouts
import CqlDelta.Proofs.Program.WrittenFiles

/-!
# Plans and scripts of the same comparison

Both commands on a comparison make the same plan and differ in what they do with it
(`result_planWork`). A run either fails, and hands over nothing, or emits its text (`runOn_fails`,
`runOn_emits`). Hence the plan that one command emits, read back and rendered, is the script that
the other one emits (`plan_and_script_agree`).
-/

namespace CqlDelta
namespace Program

open Cql Json Plan

/-! ## The work -/

/-- The statements that a command line asks for, or why there are none. -/
def plannedFor
    (files : FileReader)
    (invocation : Invocation)
    (diff : String) :
    Except Failure (List Statement) := do
  let outcome ← outcomeOf files invocation diff
  match outcome.result with
  | .error fault => .error (.key fault)
  | .ok statements => .ok statements

/-- What is done with the statements has no part in whether there are any. -/
theorem result_planWork
    (files : FileReader)
    (invocation : Invocation)
    (diff : String)
    (finish : List Statement → List LogLine × String) :
    (planWork files invocation diff finish).result =
      (plannedFor files invocation diff).map fun statements => (finish statements).2 := by
  rw [planWork, plannedFor]
  cases outcomeOf files invocation diff with
  | error failure => rfl
  | ok outcome =>
      simp only [ok_bind]
      cases outcome.result <;> rfl

theorem result_plan
    (files : FileReader)
    {invocation : Invocation}
    {diff : String}
    (h : invocation.command = .plan diff) :
    (workOf files invocation).result =
      (plannedFor files invocation diff).map fun statements => (finishPlan statements).2 := by
  rw [workOf, h]
  exact result_planWork files invocation diff finishPlan

theorem result_script
    (files : FileReader)
    {invocation : Invocation}
    {diff : String}
    (h : invocation.command = .script diff) :
    (workOf files invocation).result =
      (plannedFor files invocation diff).map fun statements => (finishScript statements).2 := by
  rw [workOf, h]
  exact result_planWork files invocation diff finishScript

/-- Two command lines ask for the plan and for the script of the same comparison, and bring the same
options, model, version and names. -/
structure AskTheSame (diff : String) (planning scripting : Invocation) : Prop where
  plans : planning.command = .plan diff
  scripts : scripting.command = .script diff
  options : planning.options = scripting.options
  typeNames : planning.typeNames = scripting.typeNames
  model : planning.model = scripting.model
  version : planning.version = scripting.version

theorem AskTheSame.plannedFor_eq
    {diff : String}
    {planning scripting : Invocation}
    (h : AskTheSame diff planning scripting)
    (files : FileReader) :
    plannedFor files planning diff = plannedFor files scripting diff := by
  have hcontext : contextOf files planning = contextOf files scripting := by
    rw [contextOf, contextOf, h.version, h.model]
  have hnames : typeNamesOf files planning = typeNamesOf files scripting := by
    rw [typeNamesOf, typeNamesOf, h.typeNames]
  rw [plannedFor, plannedFor, outcomeOf, outcomeOf, hcontext, hnames, h.options]

/-! ## Runs -/

/-- A text can be written where an output path asks for it. -/
def Writable (disk : Disk) (output : Option String) : Prop :=
  ∀ path ∈ output, ∃ steps, disk.target path = .ok steps

/-- A run that fails says why, hands over nothing and leaves the disk as it was. -/
structure Fails (disk : Disk) (failure : Failure) (run : Report × Disk) : Prop where
  code : run.1.code = 1
  message : run.1.failure = some failure.message
  silent : run.1.output = ""
  untouched : run.2 = disk

/-- What a run leaves if it hands over a text: on the standard output, or as the bytes of the file
at its output path. -/
def HandsOver (disk : Disk) (output : Option String) (text : String) (run : Report × Disk) : Prop :=
  match output with
  | none => run.1.output = text ∧ run.2 = disk
  | some path =>
      run.1.output = "" ∧
        ∃ steps, disk.target path = .ok steps ∧ run.2 = disk.put steps (.file text.toUTF8)

/-- A run that succeeds with a text. -/
structure Emits (disk : Disk) (output : Option String) (text : String) (run : Report × Disk) :
    Prop where
  code : run.1.code = 0
  quiet : run.1.failure = none
  handed : HandsOver disk output text run

variable {disk : Disk} {keyspace : Option String} {arguments : List String} {manual : Manual}
  {invocation : Invocation}

/-- A command line that is run is read without a stop. -/
theorem ofArguments?_eq_some_iff :
    Invocation.ofArguments? keyspace arguments = some invocation ↔
      Invocation.ofArguments keyspace arguments = .ok invocation := by
  rw [Invocation.ofArguments?]
  cases Invocation.ofArguments keyspace arguments <;> simp [Except.toOption]

theorem runOn_fails
    {failure : Failure}
    (harguments : Invocation.ofArguments? keyspace arguments = some invocation)
    (hwork : (workOf disk.read invocation).result = .error failure) :
    Fails disk failure (runOn disk keyspace arguments manual) := by
  rw [ofArguments?_eq_some_iff] at harguments
  have hwrite : (workOf disk.read invocation).toWrite? invocation = none := by
    rw [Work.toWrite?, hwork]
    cases invocation.output <;> rfl
  have hreport : (workOf disk.read invocation).report invocation none =
      .failed invocation (workOf disk.read invocation).log failure.message := by
    rw [Work.report, hwork]
  simp only [runOn, harguments, hwrite, hreport]
  exact ⟨rfl, rfl, rfl, rfl⟩

theorem runOn_emits
    {text : String}
    (harguments : Invocation.ofArguments? keyspace arguments = some invocation)
    (hwork : (workOf disk.read invocation).result = .ok text)
    (hwritable : Writable disk invocation.output) :
    Emits disk invocation.output text (runOn disk keyspace arguments manual) := by
  rw [ofArguments?_eq_some_iff] at harguments
  cases houtput : invocation.output with
  | none =>
      simp only [runOn, harguments, Work.toWrite?, Work.report, houtput, hwork]
      exact ⟨rfl, rfl, rfl, rfl⟩
  | some path =>
      obtain ⟨steps, hsteps⟩ := hwritable path houtput
      have hwritten : disk.write path text = .ok (disk.put steps (.file text.toUTF8)) := by
        rw [Disk.write, hsteps]
        rfl
      simp only [runOn, harguments, Work.toWrite?, Work.report, houtput, hwork, hwritten]
      exact ⟨rfl, rfl, rfl, steps, hsteps, rfl⟩

/-! ## Agreement -/

/-- The text of a plan is read back as the plan. -/
theorem read_finishPlan
    (statements : List Statement) :
    (Document.ofText (finishPlan statements).2).read planRecord.read = .ok statements := by
  rw [finishPlan, ofText_indented, read_eq_ok_iff]
  exact ⟨read_planValue statements, rfl⟩

/-- Of two command lines that ask for the plan and for the script of the same comparison, either
both fail for the same reason, or both succeed; then the emitted plan is read back as statements,
and the text of these, each followed by a blank line, is the emitted script. -/
theorem plan_and_script_agree
    (disk : Disk)
    (keyspace : Option String)
    (manual : Manual)
    {diff : String}
    {planArguments scriptArguments : List String}
    {planning scripting : Invocation}
    (hplanning : Invocation.ofArguments? keyspace planArguments = some planning)
    (hscripting : Invocation.ofArguments? keyspace scriptArguments = some scripting)
    (hsame : AskTheSame diff planning scripting)
    (hplan : Writable disk planning.output)
    (hscript : Writable disk scripting.output) :
    (∃ failure,
      Fails disk failure (runOn disk keyspace planArguments manual) ∧
        Fails disk failure (runOn disk keyspace scriptArguments manual)) ∨
    (∃ json script statements,
      Emits disk planning.output json (runOn disk keyspace planArguments manual) ∧
        Emits disk scripting.output script (runOn disk keyspace scriptArguments manual) ∧
          (Document.ofText json).read planRecord.read = .ok statements ∧
            renderScript statements = script) := by
  have hplanWork := result_plan disk.read hsame.plans
  have hscriptWork := result_script disk.read hsame.scripts
  rw [hsame.plannedFor_eq] at hplanWork
  cases hplanned : plannedFor disk.read scripting diff with
  | error failure =>
      rw [hplanned] at hplanWork hscriptWork
      exact .inl
        ⟨failure, runOn_fails hplanning hplanWork, runOn_fails hscripting hscriptWork⟩
  | ok statements =>
      rw [hplanned] at hplanWork hscriptWork
      exact .inr
        ⟨_, _, statements, runOn_emits hplanning hplanWork hplan,
          runOn_emits hscripting hscriptWork hscript, read_finishPlan statements, rfl⟩

/-- A keyspace that is dropped, as JSON. -/
def droppingValue : Value :=
  let named := Value.object [("properties", .object [("old", .object [("role", .list [])])])]
  .object [("containers", .object [("deleted", .object [("items", named)])])]

/-- A keyspace that is dropped. -/
def droppingNode : Delta.Node :=
  { containers := some
      { deleted := some
          { items := some (.one { properties := some [("old", { element := some {} })] }) } } }

/-- A disk that holds nothing but the comparison. -/
def droppingDisk : Disk :=
  { entries := [(["diff.json".toList], .file droppingValue.compact.toUTF8)] }

/-- A command line on the comparison. -/
def invocationOf (command : Command) : Invocation :=
  { options := {}, typeNames := none, model := none, version := none, output := none,
    verbose := false, command := command }

theorem loadFile_droppingDisk :
    loadFile droppingDisk.read Delta.readNode "diff.json" = .ok droppingNode := by
  have hfile (text : String) :
      Disk.read { entries := [(["diff.json".toList], .file text.toUTF8)] } "diff.json" =
        .ok text := by
    have hbytes :
        Disk.bytesAt { entries := [(["diff.json".toList], .file text.toUTF8)] } "diff.json" =
          .ok text.toUTF8 := rfl
    rw [Disk.read, hbytes, ok_bind, fromUTF8?_toUTF8]
  have hread :
      (Document.ofText droppingValue.compact).read Delta.readNode = .ok droppingNode := by
    rw [ofText_compact, read_eq_ok_iff]
    exact ⟨rfl, rfl⟩
  rw [loadFile, droppingDisk, hfile]
  simp only [hread]

theorem plannedFor_droppingDisk
    (command : Command) :
    plannedFor droppingDisk.read (invocationOf command) "diff.json" =
      .ok [.dropKeyspace "old"] := by
  rw [plannedFor, outcomeOf, loadFile_droppingDisk]
  rfl

theorem plan_and_script_of_dropped_keyspace :
    let planned := runOn droppingDisk none ["plan", "diff.json"]
    let scripted := runOn droppingDisk none ["script", "diff.json"]
    scripted.1.output = "DROP KEYSPACE old;\n\n" ∧
      ∃ statements, (Document.ofText planned.1.output).read planRecord.read = .ok statements ∧
        renderScript statements = scripted.1.output := by
  intro planned scripted
  have hplanning : Invocation.ofArguments? none ["plan", "diff.json"] =
      some (invocationOf (.plan "diff.json")) := rfl
  have hscripting : Invocation.ofArguments? none ["script", "diff.json"] =
      some (invocationOf (.script "diff.json")) := rfl
  have hwork : (workOf droppingDisk.read (invocationOf (.script "diff.json"))).result =
      .ok "DROP KEYSPACE old;\n\n" := by
    rw [result_script _ rfl, plannedFor_droppingDisk]
    rfl
  have hwritable (command : Command) :
      Writable droppingDisk (invocationOf command).output := by
    simp [Writable, invocationOf]
  have hemits : Emits droppingDisk none "DROP KEYSPACE old;\n\n" scripted :=
    runOn_emits hscripting hwork (hwritable _)
  have houtput : scripted.1.output = "DROP KEYSPACE old;\n\n" := hemits.handed.1
  rcases plan_and_script_agree droppingDisk none (programManual none) hplanning hscripting
      ⟨rfl, rfl, rfl, rfl, rfl, rfl⟩ (hwritable _) (hwritable _) with
    ⟨failure, -, hfails⟩ | ⟨json, script, statements, hplanned, hscripted, hread, hrender⟩
  · have hcode := hfails.code.symm.trans hemits.code
    simp at hcode
  · have hjson : planned.1.output = json := hplanned.handed.1
    have hscript : scripted.1.output = script := hscripted.handed.1
    exact ⟨houtput, statements, by rw [hjson, hread], by rw [hscript, hrender]⟩

end Program
end CqlDelta

import CqlDelta.Plan.Scope

/-!
# Command lines

A command line names a command with its operands; options may stand before and behind the name. An
option behind the name goes before the same option in front of it, and at either place it may be
given once. A value stands behind its option or, with an equals sign, in the same argument; only the
latter may start with a dash.

Instead of being run a command line may ask for help or for the version, with an option or with the
word `help` in place of a command. Arguments are read from the left, and the first that asks or that
is wrong decides. Anything else is a wrong usage, of which nothing more is said.
-/

namespace CqlDelta
namespace Program

/-- An option that takes a value. -/
inductive Setting where
  | defaultKeyspace
  | legacyBelow
  | typeNames
  | model
  | version
  | output
deriving DecidableEq, Repr

/-- The long names of the options that take a value. -/
def settingNames : Listing Setting :=
  [ ("default-keyspace", .defaultKeyspace), ("legacy-below", .legacyBelow),
    ("udt-registry", .typeNames), ("model-data", .model), ("db-version", .version),
    ("output", .output) ]

/-- The options that are given at one place. -/
structure Given where
  defaultKeyspace : Option String := none
  legacyBelow : Option UInt32 := none
  typeNames : Option String := none
  model : Option String := none
  version : Option String := none
  output : Option String := none
  verbose : Bool := false
deriving DecidableEq, Repr

/-- A run of decimal digits as a number. -/
def digitsValue? (cs : List Char) : Option Nat :=
  if cs.isEmpty || !cs.all Char.isDigit then none else some (Nat.ofDigitChars 10 cs 0)

/-- A number of 32 bits, with or without a sign. -/
def word32? (text : String) : Option UInt32 := do
  let n ←
    match text.toList with
    | '+' :: digits => digitsValue? digits
    | '-' :: digits => (digitsValue? digits).filter (· == 0)
    | digits => digitsValue? digits
  if n < UInt32.size then some n.toUInt32 else none

/-- Sets an option that is not set yet. -/
def fill? {α : Type} (old : Option α) (new : α) : Option (Option α) :=
  match old with
  | none => some (some new)
  | some _ => none

/-- The text of a path, which is not empty. -/
def path? (text : String) : Option String :=
  if text.isEmpty then none else some text

namespace Given

/-- Gives a value to an option. -/
def set? (given : Given) (setting : Setting) (value : String) : Option Given := do
  match setting with
  | .defaultKeyspace =>
      return { given with defaultKeyspace := ← fill? given.defaultKeyspace value }
  | .legacyBelow => return { given with legacyBelow := ← fill? given.legacyBelow (← word32? value) }
  | .typeNames => return { given with typeNames := ← fill? given.typeNames (← path? value) }
  | .model => return { given with model := ← fill? given.model (← path? value) }
  | .version => return { given with version := ← fill? given.version value }
  | .output => return { given with output := ← fill? given.output (← path? value) }

/-- Asks for more output, once. -/
def setVerbose? (given : Given) : Option Given :=
  if given.verbose then none else some { given with verbose := true }

/-- What is given at two places. The inner one goes first. -/
def withFallback (inner outer : Given) : Given :=
  { defaultKeyspace := inner.defaultKeyspace <|> outer.defaultKeyspace
    legacyBelow := inner.legacyBelow <|> outer.legacyBelow
    typeNames := inner.typeNames <|> outer.typeNames
    model := inner.model <|> outer.model
    version := inner.version <|> outer.version
    output := inner.output <|> outer.output
    verbose := inner.verbose || outer.verbose }

end Given

/-- The names of the commands. -/
inductive CommandName where
  | script
  | plan
  | checkTypes
deriving DecidableEq, Repr

/-- The commands by their names. -/
def commandNames : Listing CommandName :=
  [("script", .script), ("plan", .plan), ("check-types", .checkTypes)]

/-- Whether a command takes an operand behind earlier ones. A comparison is a path. -/
def CommandName.takes (name : CommandName) (earlier : List String) (operand : String) : Bool :=
  match name with
  | .script => earlier.isEmpty && (path? operand).isSome
  | .plan => earlier.isEmpty && (path? operand).isSome
  | .checkTypes => earlier.length < 2

/-! ## Questions -/

/-- What help is about: the program, one of its commands, or the word that asks for help. -/
inductive Topic where
  | program
  | command (name : CommandName)
  | help
deriving DecidableEq, Repr

/-- What a command line asks for instead of a run. -/
inductive Question where
  | help (topic : Topic)
  | version
deriving DecidableEq, Repr

/-- What questions are answered with. -/
abbrev Manual := Question → String

/-- Why a command line is not run. -/
inductive Stop where
  | wrongUsage
  | asks (question : Question)
deriving DecidableEq, Repr

/-- Takes something to be there; else the usage is wrong. -/
def orWrongUsage {α : Type} : Option α → Except Stop α
  | some value => .ok value
  | none => .error .wrongUsage

/-- What the word `help` asks for, by the words behind it. -/
def helpOn : List String → Stop
  | [] => .asks (.help .program)
  | [word] =>
      if word = "help" then .asks (.help .help)
      else
        match Listing.get? word commandNames with
        | some name => .asks (.help (.command name))
        | none => .wrongUsage
  | _ => .wrongUsage

/-! ## Reading -/

/-- What is read of a command line so far. -/
structure Reading where
  /-- The options in front of the command. -/
  outer : Given := {}
  /-- A value that stands behind its option in front of the command. It is looked at when the next
  option comes there, or else in the end. -/
  pending : Option (Setting × String) := none
  command : Option CommandName := none
  /-- The options behind the command. -/
  inner : Given := {}
  operands : List String := []
  /-- The option whose value comes next. -/
  awaiting : Option Setting := none
  /-- Whether all that follows are operands. -/
  closed : Bool := false

namespace Reading

/-- All options in front of the command. -/
def front? (reading : Reading) : Option Given :=
  match reading.pending with
  | none => some reading.outer
  | some (setting, value) => reading.outer.set? setting value

/-- Looks at a pending value, unless the command has come. -/
def settle (reading : Reading) : Except Stop Reading :=
  match reading.command with
  | some _ => .ok reading
  | none => do
      let outer ← orWrongUsage reading.front?
      return { reading with outer := outer, pending := none }

/-- Changes the options at the current place. -/
def modify (reading : Reading) (change : Given → Option Given) : Except Stop Reading :=
  match reading.command with
  | none => do return { reading with outer := ← orWrongUsage (change reading.outer) }
  | some _ => do return { reading with inner := ← orWrongUsage (change reading.inner) }

/-- Reads the value of an option from an argument of its own. -/
def value (reading : Reading) (setting : Setting) (text : String) : Except Stop Reading :=
  let reading := { reading with awaiting := none }
  match reading.command with
  | none => .ok { reading with pending := some (setting, text) }
  | some _ => reading.modify fun given => given.set? setting text

/-- Reads the name of the command or an operand. -/
def operand (reading : Reading) (text : String) : Except Stop Reading :=
  match reading.command with
  | none => do
      return { reading with command := some (← orWrongUsage (Listing.get? text commandNames)) }
  | some name =>
      if name.takes reading.operands text then
        .ok { reading with operands := reading.operands ++ [text] }
      else
        .error .wrongUsage

/-- The question for help at the current place. -/
def help (reading : Reading) : Stop :=
  .asks (.help ((reading.command.map Topic.command).getD .program))

/-- The question for the version, which is not asked behind a command. -/
def version (reading : Reading) : Stop :=
  match reading.command with
  | none => .asks .version
  | some _ => .wrongUsage

/-- Reads a long option, from behind its dashes. -/
def long (reading : Reading) (text : List Char) : Except Stop Reading :=
  let name := String.ofList (text.takeWhile (· ≠ '='))
  match text.dropWhile (· ≠ '=') with
  | [] =>
      match name with
      | "help" => .error reading.help
      | "version" => .error reading.version
      | "verbose" => reading.modify Given.setVerbose?
      | _ => do
          let setting ← orWrongUsage (Listing.get? name settingNames)
          return { reading with awaiting := some setting }
  | _ :: value => do
      let setting ← orWrongUsage (Listing.get? name settingNames)
      reading.modify fun given => given.set? setting (String.ofList value)

/-- Reads short options, from behind their dash. -/
def short (reading : Reading) : List Char → Except Stop Reading
  | [] => .ok reading
  | 'h' :: _ => .error reading.help
  | 'V' :: _ => .error reading.version
  | 'v' :: more => do short (← reading.modify Given.setVerbose?) more
  | ['o'] => .ok { reading with awaiting := some .output }
  | 'o' :: '=' :: value => reading.modify fun given => given.set? .output (String.ofList value)
  | 'o' :: value => reading.modify fun given => given.set? .output (String.ofList value)
  | _ => .error .wrongUsage

/-- Whether an argument has the form of an option. -/
def isOption (argument : String) : Bool :=
  argument.startsWith "-" && argument != "-"

/-- Reads an argument. -/
def argument (reading : Reading) (text : String) : Except Stop Reading :=
  match reading.awaiting with
  | some setting =>
      if isOption text then .error .wrongUsage else reading.value setting text
  | none =>
      if reading.closed then reading.operand text
      else
        match text.toList with
        | ['-', '-'] => do
            let _ ← orWrongUsage reading.command
            return { reading with closed := true }
        | '-' :: '-' :: option => do (← reading.settle).long option
        | '-' :: c :: more => do (← reading.settle).short (c :: more)
        | _ => reading.operand text

/-- Whether the name of a command may come next. -/
def expectsCommand (reading : Reading) : Bool :=
  reading.command.isNone && reading.awaiting.isNone

/-- Reads arguments one after another. In place of a command the word `help` asks about all that
follows. -/
def arguments (reading : Reading) : List String → Except Stop Reading
  | [] => .ok reading
  | text :: more =>
      if reading.expectsCommand && text = "help" then .error (helpOn more)
      else do arguments (← reading.argument text) more

end Reading

/-- A command with its operands. -/
inductive Command where
  | script (diff : String)
  | plan (diff : String)
  | checkTypes (old new : String)
deriving DecidableEq, Repr

/-- A complete command line. -/
structure Invocation where
  options : Plan.Options
  typeNames : Option String
  model : Option String
  version : Option String
  output : Option String
  verbose : Bool
  command : Command
deriving DecidableEq, Repr

/-- A command out of its name and operands. -/
def Command.of? (name : CommandName) (operands : List String) : Option Command :=
  match name, operands with
  | .script, [diff] => some (.script diff)
  | .plan, [diff] => some (.plan diff)
  | .checkTypes, [old, new] => some (.checkTypes old new)
  | _, _ => none

/-- The variable that stands in for the default keyspace. -/
def keyspaceVariable : String := "CQL_MIGRATE_DEFAULT_KEYSPACE"

/-- What is read of a whole command line. The environment may bring the default keyspace. -/
def Reading.finish (reading : Reading) (keyspace : Option String) : Option Invocation :=
  match reading.awaiting with
  | some _ => none
  | none => do
      let command ← Command.of? (← reading.command) reading.operands
      let given := reading.inner.withFallback (← reading.front?)
      let defaults : Plan.Options := {}
      return {
        options :=
          { defaultKeyspace := (given.defaultKeyspace <|> keyspace).getD defaults.defaultKeyspace
            legacyBelow := given.legacyBelow.getD defaults.legacyBelow }
        typeNames := given.typeNames
        model := given.model
        version := given.version
        output := given.output
        verbose := given.verbose
        command := command }

namespace Invocation

/-- Reads a command line, as far as nothing stops it. -/
def ofArguments
    (keyspace : Option String)
    (arguments : List String) :
    Except Stop Invocation := do
  let reading ← Reading.arguments {} arguments
  orWrongUsage (reading.finish keyspace)

/-- Reads a command line that is run. -/
def ofArguments? (keyspace : Option String) (arguments : List String) : Option Invocation :=
  (ofArguments keyspace arguments).toOption

end Invocation

end Program
end CqlDelta

import CqlDelta.Program.Arguments

/-!
# The manual

What a question is answered with: the version, or a page about the program, one of its commands or
the word `help`. A page says what its topic is for and how it is used, and lists what may be given.
-/

namespace CqlDelta
namespace Program

/-- How the topic of a page is used. -/
def usageLine : Topic → String
  | .program => "Usage: cql-migrate [OPTIONS] <COMMAND>"
  | .command .script => "Usage: cql-migrate script [OPTIONS] <DIFF>"
  | .command .plan => "Usage: cql-migrate plan [OPTIONS] <DIFF>"
  | .command .checkTypes => "Usage: cql-migrate check-types [OPTIONS] <OLD> <NEW>"
  | .help => "Usage: cql-migrate help [COMMAND]..."

/-- What the topic of a page is for. -/
def purpose : Topic → String
  | .program => "Incremental CQL migration scripts from keyspace schema diffs"
  | .command .script => "Compile a diff document into a CQL script"
  | .command .plan => "Show the planned statements as JSON without rendering them"
  | .command .checkTypes => "Check whether a column type can be altered in place"
  | .help => "Print this message or the help of the given subcommand(s)"

/-- The list of the commands. -/
def commandsPart : List String :=
  [ "Commands:",
    "  script       " ++ purpose (.command .script),
    "  plan         " ++ purpose (.command .plan),
    "  check-types  " ++ purpose (.command .checkTypes),
    "  help         " ++ purpose .help ]

/-- An option, with what it is for below it. -/
def optionLines (name use : String) : List String :=
  [name, "          " ++ use]

/-- The options that may be given with every command. The value of the variable that stands in for
the default keyspace is shown. -/
def commonOptions (keyspace : Option String) : List String :=
  let defaults : Plan.Options := {}
  let value := keyspace.getD ""
  let standIn := s!"[env: {keyspaceVariable}={value}]"
  optionLines "      --default-keyspace <DEFAULT_KEYSPACE>"
      ("Keyspace for created types that are not defined in any keyspace "
        ++ s!"{standIn} [default: {defaults.defaultKeyspace}]")
    ++ optionLines "      --legacy-below <LEGACY_BELOW>"
      ("Models with a major version below this alter column types in place "
        ++ s!"[default: {defaults.legacyBelow}]")
    ++ optionLines "      --udt-registry <UDT_REGISTRY>"
      "JSON object mapping UDT identifiers to type names"
    ++ optionLines "      --model-data <MODEL_DATA>"
      "JSON array of model data entries declaring the database version"
    ++ optionLines "      --db-version <DB_VERSION>"
      "Database version of the model, overrides --model-data"
    ++ optionLines "  -o, --output <OUTPUT>" "Write output to a file instead of stdout"
    ++ optionLines "  -v, --verbose" "Enable verbose output"
    ++ optionLines "  -h, --help" "Print help"

/-- The parts of a page behind its usage. -/
def pageParts (keyspace : Option String) : Topic → List (List String)
  | .program =>
      let version := optionLines "  -V, --version" "Print version"
      [commandsPart, "Options:" :: commonOptions keyspace ++ version]
  | .command .checkTypes =>
      [ ["Arguments:", "  <OLD>  Current CQL type", "  <NEW>  Target CQL type"],
        "Options:" :: commonOptions keyspace ]
  | .command _ =>
      [ ["Arguments:", "  <DIFF>  Diff document (JSON)"],
        "Options:" :: commonOptions keyspace ]
  | .help => [["Arguments:", "  [COMMAND]...  Print help for the subcommand(s)"]]

/-- The manual of the program. -/
def programManual (keyspace : Option String) : Manual
  | .version => "cql-migrate 0.1.0\n"
  | .help topic =>
      let parts := [purpose topic] :: [usageLine topic] :: pageParts keyspace topic
      String.intercalate "\n\n" (parts.map (String.intercalate "\n")) ++ "\n"

end Program
end CqlDelta

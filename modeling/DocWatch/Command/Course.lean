import DocWatch.Command.Serve

/-!
# What a command line comes to

A command line is read first, then the configuration that it names, then the log
is set up, and only then does the command begin. Each of these steps can be the
last one.
-/

namespace DocWatch.Command

/-- What a command line comes to. -/
inductive Course where
  /-- The words are no command. -/
  | misuse
  /-- A text is asked for, and nothing else. -/
  | tell (text : String)
  /-- The command never begins. -/
  | refuse (failure : String)
  /-- The command has run to its end. -/
  | report (config : Config) (report : Report)
  /-- A server is to be run. -/
  | serve (config : Config)

/-- What is told of the version. -/
def versionText : String := "prometheus-mcp " ++ version ++ "\n"

/-- What is told of the commands. -/
def helpText : String :=
  unlines
    ["MCP server for Prometheus queries and documentation", "",
     "Usage: prometheus-mcp [OPTIONS] <COMMAND>", "",
     "Commands:",
     "  serve  Run the MCP server",
     "  docs   Inspect or refresh the documentation snapshot",
     "  query  Run an instant PromQL query and print the JSON result",
     "  help   Print this message or the help of the given subcommand(s)", "",
     "Options:",
     "      --config <CONFIG>  Path to configuration file (TOML)",
     "  -h, --help             Print help",
     "  -V, --version          Print version"]

/-- The configuration at a path, or the usual one where there is no path. -/
def configAt (file : String → Option Bytes) (path : Option String) :
    Except Config.Fault Config :=
  match path with
  | none => .ok .standard
  | some path => Config.ofFile path (file path)

namespace Course

/-- What a command comes to under a configuration. -/
def ofAction (w : Surroundings) (c : Config) : Action → Course
  | .serve transport bind => .serve (overridden c transport bind)
  | .list => .report c (listReport c)
  | .read file => .report c (readReport c file)
  | .search query limit => .report c (searchReport c query limit)
  | .check => .report c (checkReport w c)
  | .refresh => .report c (refreshReport w c)
  | .query expr time => .report c (queryReport w c expr time)

/-- What a command line comes to, where files are as given. -/
def ofWords (w : Surroundings) (file : String → Option Bytes) (words : List String) : Course :=
  match Invocation.parse? words with
  | none => .misuse
  | some .showVersion => .tell versionText
  | some .showHelp => .tell helpText
  | some (.run path action) =>
      match configAt file path with
      | .error fault => .refuse fault.message
      | .ok c =>
          match c.logging.file.bind Log.fileFault? with
          | some failure => .refuse failure
          | none => ofAction w c action

end Course

/-- The text of a failure on the standard error. -/
def failureLine (failure : String) : String :=
  "Error: " ++ failure

/-- The status that the program ends with where its command line is misused. -/
def misuseStatus : Nat := 2

/-- The status that the program ends with after a command that may have failed. -/
def statusAfter (failure : Option String) : Nat :=
  if failure.isSome then 1 else 0

end DocWatch.Command

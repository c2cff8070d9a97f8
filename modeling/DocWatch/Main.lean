import DocWatch.Command.Course
import DocWatch.Json.Reader
import DocWatch.Net.Unreachable
import Std.Time.DateTime.Timestamp

/-!
# The program

The outermost layer: it reads what files and streams hold, lets the library say
what follows, and writes that down. It has the standard streams and files only,
neither a network nor a program that lists refs.
-/

namespace DocWatch

/-- The present time. -/
def presentTime : IO Time.Instant := do
  let nanos := (← Std.Time.Timestamp.now).toNanosecondsSinceUnixEpoch.val
  return ⟨nanos / 1000000000, (nanos % 1000000000).toNat⟩

/-- The present surroundings. -/
def presentSurroundings : IO Command.Surroundings := do
  return ⟨none, Net.unreachable, ← presentTime⟩

/-- The bytes of the file that a command line names as its configuration. -/
def configBytes (words : List String) : IO (Option Bytes) :=
  match Command.Invocation.parse? words with
  | some (.run (some path) _) =>
      try return some (← IO.FS.readBinFile path).toList catch _ => return none
  | _ => return none

/-- The directory that a path leads through last. -/
def directoryOf (path : String) : String :=
  String.ofList ((path.toList.reverse.dropWhile (· ≠ '/')).drop 1).reverse

/-- Writes records to the standard error and to the file of the log. -/
def writeRecords (c : Config) (records : List Log.Record) : IO Unit := do
  let level := (Config.Level.parse? c.logging.level).getD .error
  let lines := (Log.kept level records).map Log.Record.line
  for line in lines do
    IO.eprintln line
  match c.logging.file with
  | none => return
  | some path =>
      if directoryOf path ≠ "" then IO.FS.createDirAll (directoryOf path)
      let file ← IO.FS.Handle.mk path .append
      for line in lines do
        file.putStrLn line

/-- Ends the program after a command that may have failed. -/
def finish (failure : Option String) : IO UInt32 := do
  for text in failure do
    IO.eprintln (Command.failureLine text)
  return (Command.statusAfter failure).toUInt32

/-- Answers the messages on the standard input, one on each line, until it ends,
and tells whether there were any. How long a call takes is shown to no client on
the standard streams, and is not measured. -/
partial def answerMessages (c : Config) (s : Command.Session) (greeted : Bool) : IO Bool := do
  let line ← (← IO.getStdin).getLine
  if line.isEmpty then return greeted
  match (Json.parse? line.toList).bind Mcp.Message.ofJson? with
  | none => answerMessages c s greeted
  | some message =>
      let (answer, after) := s.take message ⟨0, 0⟩
      for value in answer do
        let output ← IO.getStdout
        output.putStrLn value.compact
        output.flush
      writeRecords c (after.records.drop s.records.length)
      answerMessages c after true

/-- Runs a server. -/
def runServer (w : Command.Surroundings) (c : Config) : IO UInt32 := do
  let s := Command.Session.start w c
  writeRecords c s.records
  if c.server.transport = "http" then
    writeRecords c (Command.lastRecords c.docs)
    finish (some ((Command.bindFault? c.server.bind).getD "Network is unreachable (os error 101)"))
  else
    writeRecords c [Command.stdioReady]
    let greeted ← answerMessages c s false
    writeRecords c ((if greeted then [Command.stdioGone] else []) ++ Command.lastRecords c.docs)
    finish (if greeted then none else some Command.neverGreeted)

end DocWatch

/-- Does what the command line says. -/
def main (words : List String) : IO UInt32 := do
  let w ← DocWatch.presentSurroundings
  let content ← DocWatch.configBytes words
  match DocWatch.Command.Course.ofWords w (fun _ => content) words with
  | .misuse =>
      IO.eprintln "error: the command line is misused"
      return DocWatch.Command.misuseStatus.toUInt32
  | .tell text =>
      IO.print text
      return 0
  | .refuse failure => DocWatch.finish (some failure)
  | .report c report =>
      DocWatch.writeRecords c report.records
      IO.print report.output
      DocWatch.finish report.failure
  | .serve c => DocWatch.runServer w c

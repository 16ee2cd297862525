import Durable.Order.Host
import Durable.Store.Journal
import Durable.Store.Location
import Std.Time.DateTime.Timestamp

/-!
# The command line

`order-workflow [execution]` fulfils the order of an execution.  Without a
configured database the records live as long as the process; otherwise they are
kept in a journal file, and an execution that was cut short goes on from there.
-/

namespace Durable

namespace CommandLine

def currentTime : IO Instant := do
  let nanos := (← Std.Time.Timestamp.now).toNanosecondsSinceUnixEpoch.toInt
  return ⟨nanos / Duration.nanosPerSecond, (nanos % Duration.nanosPerSecond).toNat⟩

/-- A random number in as many hexadecimal digits. -/
def randomDigits (count : Nat) : IO String := do
  let mut digits := ""
  for _ in List.range count do
    digits := digits ++ Text.hexDigits (← IO.rand 0 15)
  return digits

def freshExecutionId : IO String := do
  let parts ← [8, 4, 4, 4, 12].mapM randomDigits
  return "order-" ++ "-".intercalate parts

/-- The file of the journal; none when the records are kept in memory. -/
def journalFile? (databaseUrl : Option String) : Option String :=
  (databaseUrl.bind StoreLocation.ofText?).bind StoreLocation.filePath?

/-- Everything before the last slash of a path. -/
def directoryOf (path : String) : String :=
  String.ofList ((path.toList.reverse.dropWhile (· != '/')).drop 1).reverse

def readStore (file : Option String) : IO Store := do
  match file with
  | none => return .empty
  | some path =>
    let directory := directoryOf path
    if !directory.isEmpty then IO.FS.createDirAll directory
    let lines ← try IO.FS.lines path catch _ => pure #[]
    match Journal.tableOfLines? lines.toList with
    | some table => return .ofTable table
    | none => throw (IO.userError ("unreadable journal " ++ path))

/-- The rows that a store keeps; none when it keeps records in memory. -/
def rowsOf (store : Store) : List (Row String) :=
  match store.medium with
  | .memory _ => []
  | .table table => table.rows

/-- Write the rows that were appended after the first `known` ones. -/
def writeRows (file : Option String) (known : Nat) (store : Store) : IO Unit := do
  match file with
  | none => return
  | some path =>
    IO.FS.withFile path .append fun handle =>
      for row in (rowsOf store).drop known do
        handle.putStrLn (Journal.line row)

def reportText (diagnostic : Diagnostic) : String :=
  " ".intercalate ([diagnostic.level.text, diagnostic.message]
    ++ diagnostic.fields.map fun (name, value) => name ++ "=" ++ value.render)

/-- What is printed of an effect: log calls, and diagnostics of some weight. -/
def report? : Effect OrderValue → Option String
  | .logged entry => some (reportText (.forwarded entry))
  | .diagnosed diagnostic =>
    if diagnostic.level.isBelow .info then none else some (reportText diagnostic)
  | _ => none

def sleepUntil (wake : Instant) : IO Unit := do
  let millis := (wake.toNanos - (← currentTime).toNanos).toNat / 1000000
  IO.sleep (UInt32.ofNat (min (millis + 1) (Nat.pow 2 32 - 1)))

def sampler : Sampler := .proportional 1 2

/-- Invoke up to `remaining` times, and sleep while the execution is suspended. -/
def host (execution : Execution) (workflow : Workflow OrderValue String) (file : Option String)
    (store : Store) : Nat → IO HostEnd
  | 0 => return .failed (HostStep.incompleteText execution.executionId)
  | remaining + 1 => do
    let answer := execution.invoke store ⟨← currentTime⟩ workflow
    writeRows file (rowsOf store).length answer.store
    for line in answer.occurrences.filterMap fun occurrence => report? occurrence.effect do
      IO.println line
    match answer.verdict with
    | .crashed => return .crashed
    | .failed error => return .broken error
    | .finished result =>
      match HostStep.ofResult result answer.clock.now with
      | .succeed text => return .printed text
      | .fail message => return .failed message
      | .sleepUntil wake =>
        sleepUntil wake
        host execution workflow file answer.store remaining

def readVariables : IO (String → Option String) := do
  let names := [EngineConfig.databaseVariable, EngineConfig.suppressionVariable,
    EngineConfig.invocationsVariable]
  let values ← names.mapM fun name => return (name, ← IO.getEnv name)
  return fun name => ((values.find? (·.1 == name)).map Prod.snd).join

def run (arguments : List String) : IO HostEnd := do
  match EngineConfig.ofEnvironment (← readVariables) with
  | .error error => return .refused error
  | .ok config =>
    let executionId ← match arguments with
      | executionId :: _ => pure executionId
      | [] => freshExecutionId
    let file := journalFile? config.databaseUrl
    let store ← readStore file
    host ⟨executionId, config.suppressReplayLogs⟩
      ((Order.ofExecution executionId).workflow sampler) file store config.maxInvocations

end CommandLine

end Durable

def main (arguments : List String) : IO UInt32 := do
  let ending ← Durable.CommandLine.run arguments
  match ending.output? with
  | some line => IO.println line
  | none => pure ()
  IO.eprint ending.errorText
  return UInt32.ofNat ending.exitCode

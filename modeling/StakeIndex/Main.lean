import StakeIndex.Program.Work

/-!
The command line program. What it can reach are its arguments, its environment and the file `.env` beside
it. It opens no connections, so a start goes as far as the session with the database.
-/
namespace StakeIndex

def readVariables (names : List String) : IO Environment := do
  let found ← names.filterMapM fun name => do
    return (← IO.getEnv name).map fun value => (name, value)
  return fun name => found.lookup name

/-- The text of the file beside the program, empty if there is none. -/
def readEnvironmentFile : IO String := do
  try IO.FS.readFile ".env" catch _ => return ""

def report (args : List String) (ending : Ending) : IO Unit :=
  match ending.error, Command.read args with
  | some message, _ => IO.eprintln ("Error: " ++ message)
  | none, .error .displayVersion => IO.println "skale-indexer"
  | none, .error .displayHelp => IO.println Command.usage
  | none, .error _ => IO.eprintln Command.usage
  | none, .ok _ => return

end StakeIndex

open StakeIndex in
def main (args : List String) : IO UInt32 := do
  let file ← readEnvironmentFile
  let env ← readVariables (Configuration.variableNames ++ EnvironmentFile.names file)
  let start := (Launch.start args (EnvironmentFile.extend env file)).run
  match (start.run LaunchRequest.offline ()).1 with
  | .ok _ => return 0
  | .error ending =>
    report args ending
    return ending.code.toUInt32

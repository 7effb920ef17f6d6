import StakeIndex.Chain.Rpc
import StakeIndex.Contract.Directory
import StakeIndex.Program.CommandLine
import StakeIndex.Program.Configuration
import StakeIndex.Program.EnvironmentFile
import StakeIndex.Sql.Migration
import StakeIndex.Sql.Session

/-!
The start of the program: command line, configuration, metrics, database, schema, contracts and node, in
this order. The first of them that fails ends the program, and nothing after it is tried.
-/
namespace StakeIndex

/-- What the program asks of its surroundings while it starts. -/
inductive LaunchRequest where
  | listen (metrics : SocketAddress)
  | openSession (session : Sql.Session)
  | appliedMigrations
  | runMigration (m : Sql.Migration)
  | readDirectory (path : String)

abbrev LaunchRequest.Answer : LaunchRequest → Type
  | listen _ => Bool
  | openSession _ => Sql.Session.Opening
  | appliedMigrations => List Sql.AppliedMigration
  | runMigration _ => Option String
  | readDirectory _ => Option FileTree

namespace LaunchRequest

/-- The reason that the system gives when there is no way to a peer. -/
def noNetwork : String := "Network is unreachable (os error 101)"

/-- Surroundings without any peer: only the host's own addresses can be listened on. -/
def offline : (r : LaunchRequest) → Unit → r.Answer × Unit
  | listen address, _ => (address.isLocal, ())
  | openSession _, _ => (.unreachable noNetwork, ())
  | appliedMigrations, _ => ([], ())
  | runMigration _, _ => (none, ())
  | readDirectory _, _ => (none, ())

end LaunchRequest

/-- How the program ends: its exit code and what it says about an error. -/
structure Ending where
  code : Nat
  error : Option String
deriving DecidableEq, Repr

namespace Ending

def done : Ending := ⟨0, none⟩

def failed (message : String) : Ending := ⟨1, some message⟩

def ofFailure (f : Failure) : Ending := failed f.message

def ofCommandLine (stop : CommandLineStop) : Ending := ⟨stop.exitCode, none⟩

end Ending

structure Launched where
  command : Command
  configuration : Configuration
  registry : Registry

/-- Steps of the start; they may end the program. -/
abbrev Launch := ExceptT Ending (Dialogue LaunchRequest LaunchRequest.Answer)

namespace Launch

def ask (r : LaunchRequest) : Launch r.Answer :=
  ExceptT.mk <| .ask r fun answer => .done (.ok answer)

/-- A result, or the end of the program. -/
def orEnd {α ε : Type} (ending : ε → Ending) (result : Except ε α) : Launch α :=
  ExceptT.mk (.done (result.mapError ending))

def serveMetrics (address : Option SocketAddress) : Launch Unit := do
  if let some address := address then
    if !(← ask (.listen address)) then throw (.failed "Failed to install Prometheus exporter")

def openDatabase (c : Configuration) : Launch Unit := do
  let session ← orEnd .ofFailure (Sql.Session.ofUrl c.databaseUrl c.databaseConnections)
  if let some f := session.failure? (← ask (.openSession session)) then throw (.ofFailure f)

def migrate : Launch Unit := do
  let steps := Sql.Migration.bringUpToDate (← ask .appliedMigrations)
  let result ← ExceptT.lift ((ExceptT.run steps).mapRequests fun m => .request (.runMigration m))
  orEnd (fun fault => .ofFailure fault.toFailure) result

def start (args : List String) (env : Environment) : Launch Launched := do
  let command ← orEnd .ofCommandLine (Command.read args)
  let configuration ← orEnd (fun fault => .failed fault.message) (Configuration.read env)
  serveMetrics configuration.metricsAddress
  openDatabase configuration
  migrate
  let directory := configuration.abiDirectory
  let registry ← orEnd .ofFailure
    (Registry.ofDirectory directory (← ask (.readDirectory directory)))
  let _ ← orEnd .ofFailure (nodeAddress configuration.rpcUrl)
  return { command, configuration, registry }

end Launch
end StakeIndex

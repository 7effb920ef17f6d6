/-!
Attempts that are repeated until one succeeds: each failure is followed by a longer wait, up to a minute,
and an attempt that ran for a while before it failed starts the waits over. Time is counted in seconds and
passes only in attempts and waits.
-/
namespace StakeIndex

/-- How an attempt ends. One that fails may also have been called off. -/
inductive AttemptEnd where
  | succeeded
  | failed
  | calledOff
deriving DecidableEq, Repr

structure Attempt where
  seconds : Nat
  ending : AttemptEnd
deriving DecidableEq, Repr

/-- When the attempts began and when the last one ended. -/
structure RetryTrace where
  starts : List Nat
  finish : Nat
deriving DecidableEq, Repr

namespace Retry

/-- The waits after the first failures. -/
def delays : List Nat := [5, 10, 20, 30, 60]

/-- The wait after all further failures. -/
def longestDelay : Nat := 60

/-- An attempt that ran this long was healthy. -/
def healthyRun : Nat := 300

/-- The wait after a failure that followed some failures in a row. -/
def delay (failures : Nat) : Nat := delays.getD failures longestDelay

/-- How many failures in a row count before the failure of an attempt that ran for some seconds. -/
def countedFailures (failures seconds : Nat) : Nat := if healthyRun ≤ seconds then 0 else failures

/-- The course of attempts from a moment on; when they are used up the next one succeeds at once. -/
def trace (now failures : Nat) : List Attempt → RetryTrace
  | [] => ⟨[now], now⟩
  | a :: rest =>
    let finish := now + a.seconds
    match a.ending with
    | .succeeded => ⟨[now], finish⟩
    | .calledOff => ⟨[now], finish⟩
    | .failed =>
      let counted := countedFailures failures a.seconds
      let later := trace (finish + delay counted) (counted + 1) rest
      ⟨now :: later.starts, later.finish⟩

end Retry
end StakeIndex

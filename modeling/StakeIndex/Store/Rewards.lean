import StakeIndex.Entity.Account

/-!
The running total of claimed rewards: from the claims of a holder in their order to one row for each
height at which the total changes.
-/
namespace StakeIndex

namespace RewardClaim

/-- The row of a claim, with the total up to it. -/
def row (c : RewardClaim) (total : Word) : DelegatorStatistic :=
  ⟨c.holder, c.height, c.time, .claimedRewards, total⟩

/-- Rows from the first claim at a height on: the row of that height gets the total of all its claims. -/
def rowsFrom : Word → DelegatorStatistic → List RewardClaim → List DelegatorStatistic
  | _, current, [] => [current]
  | total, current, c :: rest =>
    let total := total.saturatingAdd c.amount
    if c.height = current.height then rowsFrom total { current with amount := total } rest
    else current :: rowsFrom total (c.row total) rest

/-- One row for each run of claims at one height, with the total after it. -/
def totals : List RewardClaim → List DelegatorStatistic
  | [] => []
  | c :: rest =>
    let total := Word.saturatingAdd 0 c.amount
    rowsFrom total (c.row total) rest

/-- The rows that differ from the row before them; the first one is compared with an amount. -/
def changesFrom : Word → List DelegatorStatistic → List DelegatorStatistic
  | _, [] => []
  | previous, row :: rest =>
    if row.amount = previous then changesFrom row.amount rest
    else row :: changesFrom row.amount rest

/-- The rows of a holder's claimed rewards. The claims must be in their order. -/
def rows (claims : List RewardClaim) : List DelegatorStatistic := changesFrom 0 (totals claims)

end RewardClaim
end StakeIndex

import StakeIndex.Abi.Describe
import StakeIndex.Contract.Standard
import StakeIndex.Control.Http
import StakeIndex.Main
import StakeIndex.Proofs.Derived
import StakeIndex.Proofs.Recall
import StakeIndex.Proofs.Recomputation
import StakeIndex.Proofs.Sequential
import StakeIndex.Proofs.SyncFailures
import StakeIndex.Rehearsal.Database
import StakeIndex.Rehearsal.World
import StakeIndex.Store.Form
import StakeIndex.View.Token
import StakeIndex.Proofs.Resynchronisation
import StakeIndex.Index.ScrapeWorkers
import StakeIndex.Index.Turn
import StakeIndex.Proofs.HandlerRequests
import StakeIndex.Proofs.ScrapeWorld
import StakeIndex.Proofs.ScrapeOutputs
import StakeIndex.Proofs.ScrapeReports
import StakeIndex.Proofs.ScrapeCompleteness
import StakeIndex.Proofs.ScrapeSequential
import StakeIndex.Proofs.SyncFrame
import StakeIndex.Proofs.FollowWorld
import StakeIndex.Proofs.Turns
import StakeIndex.Proofs.Numerals
import StakeIndex.Proofs.Checkpoint
import StakeIndex.Proofs.TurnSequential
import StakeIndex.Proofs.Months
import StakeIndex.Proofs.MonthSearch
import StakeIndex.Proofs.EpochStarts
import StakeIndex.Proofs.HeightFrame
import StakeIndex.Proofs.ViewCalls
import StakeIndex.Proofs.Pinning
import StakeIndex.Proofs.ParameterHistory
import StakeIndex.Proofs.EventDecoding
import StakeIndex.Proofs.Calculations
import StakeIndex.Proofs.Sessions
import StakeIndex.Proofs.AccountTypes
import StakeIndex.Proofs.DelegationStages
import StakeIndex.Proofs.HeaderRanges
import StakeIndex.Proofs.HeaderMemo
import StakeIndex.Proofs.Traces
import StakeIndex.Proofs.CatchUp
import StakeIndex.Proofs.NewestFirst
import StakeIndex.Proofs.SavedRows
import StakeIndex.Proofs.EventValues
import StakeIndex.Proofs.Transactions

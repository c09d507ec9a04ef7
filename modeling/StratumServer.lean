import StratumServer.Lib.Table
import StratumServer.Lib.Prog
import StratumServer.Lib.Machine
import StratumServer.Lib.Contract
import StratumServer.Lib.Text
import StratumServer.Lib.Schedule
import StratumServer.Accounting.Schema
import StratumServer.Accounting.ShareRepository
import StratumServer.Accounting.RoundRepository
import StratumServer.Accounting.FoundBlockRepository
import StratumServer.Accounting.PayoutRepository
import StratumServer.Payout.Plan
import StratumServer.Accounting.PayoutSections
import StratumServer.ShareProcessing.Difficulty
import StratumServer.StratumProtocol.Session
import StratumServer.ShareProcessing.Validator
import StratumServer.System.Operations
import StratumServer.Accounting.Service
import StratumServer.StratumProtocol.Server
import StratumServer.NodeIntegration.Consumer
import StratumServer.Payout.Handler
import StratumServer.System.Pool
import StratumServer.System.Simulation
import StratumServer.System.Effects
import StratumServer.System.Grounding
import StratumServer.System.Rules
import StratumServer.System.Programs
import StratumServer.Shares.Ledger
import StratumServer.Shares.Credit
import StratumServer.Shares.Recording
import StratumServer.Shares.Answer
import StratumServer.Payouts.Batches
import StratumServer.Payouts.Maturity
import StratumServer.Payouts.OwnBlock
import StratumServer.Blocks.Stages
import StratumServer.Blocks.Acknowledged
import StratumServer.System.NodeSide
import StratumServer.Blocks.Confirmations
import StratumServer.Payouts.Announced
import StratumServer.Lib.Apportion
import StratumServer.Lib.Calls
import StratumServer.Payouts.Balance
import StratumServer.Payouts.Dust
import StratumServer.Sessions.Earned
import StratumServer.Blocks.Built
import StratumServer.Lib.Lines
import StratumServer.Sessions.Ceiling
import StratumServer.Sessions.CleanJobs
import StratumServer.Sessions.Requests
import StratumServer.Accounting.Statements
import StratumServer.Blocks.OpenRound
import StratumServer.Lib.LargestRemainder
import StratumServer.Payouts.Apportionment
import StratumServer.Payouts.Paid
import StratumServer.Payouts.Window
import StratumServer.Payouts.Work
import StratumServer.Shares.Failures
import StratumServer.Shares.Pairs
import StratumServer.Shares.Repeats
import StratumServer.Blocks.Promotion
import StratumServer.Config
import StratumServer.Payout.Signer
import StratumServer.Payouts.Bonus
import StratumServer.Payouts.Broadcast
import StratumServer.Payouts.Fees
import StratumServer.Payouts.Ties
import StratumServer.Payouts.Transaction
import StratumServer.Payouts.WindowEnd
import StratumServer.Sessions.Control
import StratumServer.Lib.Recent
import StratumServer.Lib.Query
import StratumServer.Accounting.ShareQueries
import StratumServer.HttpApi.Shares
import StratumServer.NodeIntegration.Coalesce
import StratumServer.Blocks.Filing
import StratumServer.Blocks.Size
import StratumServer.Jobs.Assigned
import StratumServer.Jobs.Cache
import StratumServer.Jobs.Ids
import StratumServer.Sessions.Extranonce
import StratumServer.Shares.Keys
import StratumServer.Shares.Paging
import StratumServer.Lib.Broadcast
import StratumServer.Lib.Utf8
import StratumServer.Lib.RelativeError
import StratumServer.Lib.Binary64
import StratumServer.StratumProtocol.Protocol
import StratumServer.StratumProtocol.Dialogue
import StratumServer.StratumProtocol.Serving
import StratumServer.Jobs.Delivery
import StratumServer.Sessions.Responses
import StratumServer.Sessions.Told
import StratumServer.Sessions.Login
import StratumServer.Payout.Rounded
import StratumServer.Payouts.Rounding
import StratumServer.NodeIntegration.Feed
import StratumServer.Jobs.Freshness
import StratumServer.Lib.ForeignKey
import StratumServer.Records.References
import StratumServer.Records.Kept
import StratumServer.Records.Audit

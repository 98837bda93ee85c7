import FundLedger.Access.Histories
import FundLedger.Access.Keys
import FundLedger.Api.Effects
import FundLedger.Api.Entries
import FundLedger.Api.Histories
import FundLedger.Api.Interference
import FundLedger.Api.Isolation
import FundLedger.Api.Mirrored
import FundLedger.Api.Requests
import FundLedger.Api.Retry
import FundLedger.Api.Reversal
import FundLedger.Api.Views
import FundLedger.Api.Within
import FundLedger.Concurrency.Alone
import FundLedger.Concurrency.Assertions
import FundLedger.Concurrency.Beside
import FundLedger.Concurrency.ClosedBooks
import FundLedger.Concurrency.Commitments
import FundLedger.Concurrency.Commits
import FundLedger.Concurrency.Cuts
import FundLedger.Concurrency.Deadlock
import FundLedger.Concurrency.Keys
import FundLedger.Concurrency.Numbers
import FundLedger.Concurrency.Overdraft
import FundLedger.Concurrency.Reversals
import FundLedger.Concurrency.Runs
import FundLedger.Concurrency.Serial
import FundLedger.Concurrency.Sessions
import FundLedger.Concurrency.Views
import FundLedger.Database
import FundLedger.Funds.Models
import FundLedger.Guards.Connections
import FundLedger.Guards.Effects
import FundLedger.Guards.Ledger
import FundLedger.Guards.Services
import FundLedger.Guards.Statements
import FundLedger.Ledger.Acceptance
import FundLedger.Ledger.Bank
import FundLedger.Ledger.Classes
import FundLedger.Ledger.Errors
import FundLedger.Ledger.Funds
import FundLedger.Ledger.Idempotency
import FundLedger.Ledger.Legs
import FundLedger.Ledger.Models
import FundLedger.Ledger.PlainLegs
import FundLedger.Ledger.Posting
import FundLedger.Ledger.Pricing
import FundLedger.Ledger.Queries
import FundLedger.Ledger.Reconcile
import FundLedger.Ledger.Rejections
import FundLedger.Ledger.Residual
import FundLedger.Ledger.Services
import FundLedger.Ledger.Worth
import FundLedger.Lib.Checks
import FundLedger.Lib.Context
import FundLedger.Lib.Cursor
import FundLedger.Lib.Deadlock
import FundLedger.Lib.Decimal
import FundLedger.Lib.Dict
import FundLedger.Lib.HalfEven
import FundLedger.Lib.Interleaving
import FundLedger.Lib.LargestRemainder
import FundLedger.Lib.Numbering
import FundLedger.Lib.Projection
import FundLedger.Lib.Refinement
import FundLedger.Lib.Snapshot
import FundLedger.Lib.Sums
import FundLedger.Lib.Table
import FundLedger.Lib.Text
import FundLedger.Lib.Transactions
import FundLedger.Lib.Tx
import FundLedger.Operations.Allocation
import FundLedger.Operations.CalledCapital
import FundLedger.Operations.Capital
import FundLedger.Operations.CapitalCalls
import FundLedger.Operations.Chaining
import FundLedger.Operations.Changes
import FundLedger.Operations.Chart
import FundLedger.Operations.ChartCodes
import FundLedger.Operations.ClosedStatements
import FundLedger.Operations.Conversions
import FundLedger.Operations.Currencies
import FundLedger.Operations.Documents
import FundLedger.Operations.Drawdown
import FundLedger.Operations.Factories
import FundLedger.Operations.FailSafe
import FundLedger.Operations.Fingerprints
import FundLedger.Operations.Frozen
import FundLedger.Operations.Later
import FundLedger.Operations.Openings
import FundLedger.Operations.PartnerStatements
import FundLedger.Operations.Partners
import FundLedger.Operations.Periods
import FundLedger.Operations.Queries
import FundLedger.Operations.Replay
import FundLedger.Operations.Reversals
import FundLedger.Operations.Runs
import FundLedger.Operations.Services
import FundLedger.Operations.SettingUp
import FundLedger.Operations.Shares
import FundLedger.Operations.Snapshots
import FundLedger.Operations.Statements
import FundLedger.Operations.TrialBalance
import FundLedger.Operations.Unfunded

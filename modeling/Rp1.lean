import Rp1.Support.Checked
import Rp1.Support.Bytes
import Rp1.Support.Tlv
import Rp1.Protocol.Types
import Rp1.Protocol.Decode
import Rp1.Protocol.Admit
import Rp1.Protocol.Checks
import Rp1.Protocol.Verdict
import Rp1.Protocol.Stability
import Rp1.Protocol.Encode
import Rp1.Protocol.Grammar
import Rp1.Protocol.RoundTrip
import Rp1.Connection.Drain
import Rp1.Connection.Chunking
import Rp1.Command
import Rp1.Connection.Caller
import Rp1.Connection.Multiplex
import Rp1.Connection.Driver
import Rp1.Support.Runs
import Rp1.Connection.Ledger
import Rp1.Connection.Task
import Rp1.Connection.Session
import Rp1.Connection.Close
import Rp1.Connection.Charge
import Rp1.Connection.Request
import Rp1.Connection.Loss
import Rp1.Connection.Buffering
import Rp1.Connection.Calls
import Rp1.Connection.Wiring
import Rp1.Connection.Admission
import Rp1.Connection.Outcomes
import Rp1.Connection.Scope
import Rp1.Connection.Ambiguity
import Rp1.Connection.Establish
import Rp1.Validation.Evidence
import Rp1.Validation.Record
import Rp1.Validation.Campaign
import Rp1.Validation.Runner
import Rp1.Validation.Sealing
import Rp1.Protocol.Fit
import Rp1.Protocol.Negotiation
import Rp1.Connection.Greeting
import Rp1.Connection.Guard
import Rp1.Validation.Journal
import Rp1.Validation.OneIdentity
import Rp1.Support.Calendar
import Rp1.Validation.Time
import Rp1.Connection.Identifiers
import Rp1.Connection.Outgoing
import Rp1.Support.Text
import Rp1.Validation.Json
import Rp1.Validation.JsonGrammar
import Rp1.Validation.JournalText
import Rp1.Validation.DigestInputs
import Rp1.Support.TextOrder
import Rp1.Validation.RecordOrder
import Rp1.Support.Simulation
import Rp1.Connection.Work
import Rp1.Connection.Progress
import Rp1.Connection.Abandon
import Rp1.Connection.Exchange
import Rp1.Connection.Reader
import Rp1.Connection.Replies
import Rp1.Connection.Link
import Rp1.Connection.Served
import Rp1.Connection.Agreement
import Rp1.Support.Linear
import Rp1.Connection.Store
import Rp1.Connection.Service
import Rp1.Connection.Faults
import Rp1.Validation.Torn
import Rp1.Validation.Resume
import Rp1.Validation.Budget
import Rp1.Validation.Digest
import Rp1.Validation.Segments
import Rp1.Validation.CommandLine
import Rp1.Validation.Rerun

import GameRelay.Address
import GameRelay.Client
import GameRelay.Config
import GameRelay.Decimal.Binary64
import GameRelay.Decimal.Shortest
import GameRelay.Frame.Identity
import GameRelay.Frame.Request
import GameRelay.Frame.Response
import GameRelay.Frame.Result
import GameRelay.Host.Args
import GameRelay.Host.Run
import GameRelay.Host.Schedule
import GameRelay.Host.Status
import GameRelay.Inbound.Call
import GameRelay.Inbound.Consumer
import GameRelay.Inbound.Door
import GameRelay.Inbound.Listener
import GameRelay.Inbound.Response
import GameRelay.Inbound.Schedule
import GameRelay.Inbound.Serving
import GameRelay.Json.Fault
import GameRelay.Json.Printer
import GameRelay.Json.Reader
import GameRelay.Json.Record
import GameRelay.Json.Scan
import GameRelay.Json.Value
import GameRelay.Log
import GameRelay.Main
import GameRelay.Method
import GameRelay.Outbound.Caller
import GameRelay.Outbound.Link
import GameRelay.Outbound.Retry
import GameRelay.Outbound.Schedule
import GameRelay.RelayError
import GameRelay.Scenario.Calls
import GameRelay.Scenario.Clients
import GameRelay.Scenario.Consumer
import GameRelay.Scenario.Hosting
import GameRelay.Scenario.Listening
import GameRelay.Scenario.Network
import GameRelay.Scenario.Relay
import GameRelay.SystemError
import GameRelay.Text.Blank
import GameRelay.Text.Duration
import GameRelay.Text.Hidden
import GameRelay.Text.Lines
import GameRelay.Text.Numeral
import GameRelay.Text.Quoted
import GameRelay.Text.Stream
import GameRelay.Text.Terminal
import GameRelay.Proofs.Link.Move
import GameRelay.Proofs.Link.Slot
import GameRelay.Proofs.Link.Change
import GameRelay.Proofs.Link.Growth
import GameRelay.Proofs.Link.Table
import GameRelay.Proofs.Link.FirstAnswer
import GameRelay.Proofs.Link.Delivery
import GameRelay.Proofs.Link.Matching
import GameRelay.Proofs.Caller.Links
import GameRelay.Proofs.Caller.Course
import GameRelay.Proofs.Caller.Tasks
import GameRelay.Proofs.Caller.Steps
import GameRelay.Proofs.Caller.Sending
import GameRelay.Proofs.Caller.Answer
import GameRelay.Proofs.Link.Breaking
import GameRelay.Proofs.Link.Shutdown
import GameRelay.Proofs.Caller.Turn
import GameRelay.Proofs.Caller.Lasting
import GameRelay.Proofs.Caller.Lock
import GameRelay.Proofs.Caller.Invocation
import GameRelay.Proofs.Caller.Redial
import GameRelay.Proofs.Text.Encoding
import GameRelay.Proofs.Text.Lines
import GameRelay.Proofs.Text.Stream
import GameRelay.Proofs.Inbound.Answer
import GameRelay.Proofs.Inbound.Session
import GameRelay.Proofs.Inbound.Listener
import GameRelay.Proofs.Inbound.Service
import GameRelay.Proofs.Json.Text
import GameRelay.Proofs.Json.Number
import GameRelay.Proofs.Json.RoundTrip
import GameRelay.Proofs.Json.Record
import GameRelay.Proofs.Frame.Request
import GameRelay.Proofs.Link.Wire
import GameRelay.Proofs.Link.Reading
import GameRelay.Proofs.Link.Awaiting
import GameRelay.Proofs.Link.Ending
import GameRelay.Proofs.Link.Cut
import GameRelay.Proofs.Link.InOrder
import GameRelay.Proofs.Caller.Underway
import GameRelay.Proofs.Caller.Exclusive
import GameRelay.Proofs.Json.Extension.Scan
import GameRelay.Proofs.Json.Extension.Turn
import GameRelay.Proofs.Json.Extension.Value
import GameRelay.Proofs.Json.Extension.Record
import GameRelay.Proofs.Json.Float
import GameRelay.Proofs.Json.Written
import GameRelay.Proofs.Json.WellFormed
import GameRelay.Proofs.Frame.Response
import GameRelay.Proofs.Inbound.Yields
import GameRelay.Proofs.Inbound.Alone
import GameRelay.Proofs.Inbound.Reply
import GameRelay.Proofs.Inbound.Independence
import GameRelay.Proofs.Text.Cut
import GameRelay.Proofs.Inbound.Cut
import GameRelay.Proofs.Cut
import GameRelay.Proofs.Inbound.Skip
import GameRelay.Proofs.Inbound.Closing
import GameRelay.Proofs.Inbound.Naming
import GameRelay.Proofs.Roles
import GameRelay.Proofs.Text.Order
import GameRelay.Proofs.Inbound.Taking
import GameRelay.Proofs.Inbound.Requests
import GameRelay.Proofs.Host.Status
import GameRelay.Proofs.Caller.OneCall
import GameRelay.Proofs.Caller.Abandon
import GameRelay.Proofs.Caller.Late
import GameRelay.Proofs.Caller.Sent
import GameRelay.Proofs.Caller.InTurn
import GameRelay.Proofs.Host.Step
import GameRelay.Proofs.Host.Standing
import GameRelay.Proofs.Host.Sent
import GameRelay.Proofs.Host.Asking
import GameRelay.Proofs.Inbound.Coming
import GameRelay.Proofs.Inbound.Pieces
import GameRelay.Proofs.Link.Pieces
import GameRelay.Proofs.Pieces
import GameRelay.Proofs.Caller.Reports
import GameRelay.Proofs.Caller.Beside
import GameRelay.Proofs.Caller.Behind
import GameRelay.Proofs.Caller.FailedDial
import GameRelay.Proofs.FailedReconnect
import GameRelay.Proofs.Json.Grammar
import GameRelay.Proofs.Json.Accepted.Scan
import GameRelay.Proofs.Json.Accepted.Value
import GameRelay.Proofs.Json.Skipped
import GameRelay.Proofs.Json.Fields
import GameRelay.Proofs.Json.Presented
import GameRelay.Proofs.Json.Accepted.Record
import GameRelay.Proofs.Frame.Members
import GameRelay.Proofs.Inbound.Recognised
import GameRelay.Proofs.Decimal.Shortest
import GameRelay.Proofs.Json.Printed.Value
import GameRelay.Proofs.Json.Printed.Record
import GameRelay.Proofs.Frame.Identity
import GameRelay.Proofs.Inbound.Closers
import GameRelay.Proofs.Caller.Budget

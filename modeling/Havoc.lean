import Havoc.Backend.Kind
import Havoc.Backend.Message
import Havoc.Backend.Statement
import Havoc.Draw.Select
import Havoc.Draw.Uniform
import Havoc.Draw.Words
import Havoc.Fault.Report
import Havoc.Fault.Rules
import Havoc.Http.Charset
import Havoc.Http.Exchange
import Havoc.Http.Info
import Havoc.Http.Page
import Havoc.Http.Query
import Havoc.Http.Reply
import Havoc.Http.Syntax
import Havoc.Job.Id
import Havoc.Job.Table
import Havoc.Json.Printer
import Havoc.Json.Reader
import Havoc.Json.Record
import Havoc.Json.Value
import Havoc.Json.Written
import Havoc.Load.Basic
import Havoc.Load.Cycling
import Havoc.Load.FanOut
import Havoc.Load.Ramp
import Havoc.Load.Rehearsal
import Havoc.Load.Script
import Havoc.Load.Shape
import Havoc.Load.Worker
import Havoc.Log.Amount
import Havoc.Log.Event
import Havoc.Log.Format
import Havoc.Log.Template
import Havoc.Metric.Exposition
import Havoc.Metric.Registry
import Havoc.Number.Binary64
import Havoc.Number.Digits
import Havoc.Number.Places
import Havoc.Number.Reader
import Havoc.Number.Shortest
import Havoc.Outside.Site
import Havoc.Outside.StandIn
import Havoc.Outside.Watch
import Havoc.Outside.World
import Havoc.Proofs.Backend.Statement
import Havoc.Proofs.Draw.Select
import Havoc.Proofs.Draw.Uniform
import Havoc.Proofs.Draw.Wrapping
import Havoc.Proofs.Fault.Orders
import Havoc.Proofs.Fault.Remaining
import Havoc.Proofs.Fault.Roll
import Havoc.Proofs.Http.Page
import Havoc.Proofs.Http.Query
import Havoc.Proofs.Http.RawText
import Havoc.Proofs.Job.Eviction
import Havoc.Proofs.Job.Table
import Havoc.Proofs.Json.Number
import Havoc.Proofs.Json.Value
import Havoc.Proofs.Load.Cadence
import Havoc.Proofs.Load.FanOut
import Havoc.Proofs.Load.Holdings
import Havoc.Proofs.Load.Notes
import Havoc.Proofs.Load.Numbering
import Havoc.Proofs.Load.Ramp
import Havoc.Proofs.Load.Rehearsal
import Havoc.Proofs.Load.Run
import Havoc.Proofs.Load.Spacing
import Havoc.Proofs.Load.Throughput
import Havoc.Proofs.Load.Worker
import Havoc.Proofs.Log.Figures
import Havoc.Proofs.Log.Format
import Havoc.Proofs.Log.Lines
import Havoc.Proofs.Log.Segments
import Havoc.Proofs.Log.Template
import Havoc.Proofs.Metric.Count
import Havoc.Proofs.Metric.Sample
import Havoc.Proofs.Number.Integer
import Havoc.Proofs.Number.NotANumber
import Havoc.Proofs.Number.Order
import Havoc.Proofs.Quantity.Integer
import Havoc.Proofs.Quantity.Range
import Havoc.Proofs.Quantity.Reader
import Havoc.Proofs.Quantity.Resolve
import Havoc.Proofs.Service.Acceptance
import Havoc.Proofs.Service.AccessLine
import Havoc.Proofs.Service.AccessLog
import Havoc.Proofs.Service.ArmedRates
import Havoc.Proofs.Service.Arming
import Havoc.Proofs.Service.Attempt
import Havoc.Proofs.Service.BackendOrder
import Havoc.Proofs.Service.Books
import Havoc.Proofs.Service.ColorPage
import Havoc.Proofs.Service.Dealing
import Havoc.Proofs.Service.Disconnect
import Havoc.Proofs.Service.Dispatch
import Havoc.Proofs.Service.Effect
import Havoc.Proofs.Service.FaultLayer
import Havoc.Proofs.Service.Lapse
import Havoc.Proofs.Service.Lasting
import Havoc.Proofs.Service.Launch
import Havoc.Proofs.Service.Leak
import Havoc.Proofs.Service.Memory
import Havoc.Proofs.Service.QueryCycle
import Havoc.Proofs.Service.Rejection
import Havoc.Proofs.Service.Repeating
import Havoc.Proofs.Service.RevisionPage
import Havoc.Proofs.Service.Route
import Havoc.Proofs.Service.Serving
import Havoc.Proofs.Service.Share
import Havoc.Proofs.Settings.Credentials
import Havoc.Proofs.Settings.Host
import Havoc.Proofs.Text.Blank
import Havoc.Proofs.Text.Cut
import Havoc.Proofs.Text.Index
import Havoc.Proofs.Time.Pattern
import Havoc.Proofs.Url.Authority
import Havoc.Proofs.Url.Percent
import Havoc.Quantity.Basic
import Havoc.Quantity.Reader
import Havoc.Service.Attend
import Havoc.Service.BackendJob
import Havoc.Service.Cloud
import Havoc.Service.Echo
import Havoc.Service.FaultControl
import Havoc.Service.Flood
import Havoc.Service.Form
import Havoc.Service.Handle
import Havoc.Service.Health
import Havoc.Service.HostStress
import Havoc.Service.Listener
import Havoc.Service.Relay
import Havoc.Service.Report
import Havoc.Service.Route
import Havoc.Service.State
import Havoc.Service.Task
import Havoc.Settings.Backend
import Havoc.Settings.Basic
import Havoc.Settings.KeyPath
import Havoc.Settings.Tree
import Havoc.Text.Blank
import Havoc.Text.Cut
import Havoc.Text.Index
import Havoc.Text.Quoted
import Havoc.Text.Shown
import Havoc.Text.Utf8
import Havoc.Time.Agenda
import Havoc.Time.Calendar
import Havoc.Time.Clock
import Havoc.Time.Pattern
import Havoc.Url.Basic
import Havoc.Url.Host
import Havoc.Url.Join
import Havoc.Url.Percent
import Havoc.Url.Reader

import Psbox.Gateway.BusQueries
import Psbox.Portal.Options
import Psbox.Foundations.Tokens
import Psbox.Gateway.Registration
import Psbox.Gateway.Answers
import Psbox.Portal.Results
import Psbox.Gateway.Results
import Psbox.Foundations.Pipeline
import Psbox.Gateway.Order
import Psbox.DBus.Grammar
import Psbox.DBus.Layout
import Psbox.DBus.Reading
import Psbox.DBus.RoundTrip
import Psbox.DBus.Relay
import Psbox.DBus.MapPaths
import Psbox.Portal.RewritePaths
import Psbox.Decorations.State
import Psbox.Decorations.Scale
import Psbox.Decorations.Requests
import Psbox.Decorations.Events
import Psbox.Decorations.Bookkeeping
import Psbox.Decorations.Ids
import Psbox.Decorations.Parts
import Psbox.Decorations.Hidden
import Psbox.Decorations.References
import Psbox.Decorations.Content
import Psbox.Decorations.Sizes
import Psbox.Foundations.MountTree
import Psbox.Sandbox.Plan
import Psbox.Sandbox.Supervisor
import Psbox.Decorations.Codec
import Psbox.Decorations.WireRoundTrip
import Psbox.Decorations.Socket
import Psbox.DBus.Checked
import Psbox.DBus.Framing
import Psbox.DBus.NoPanic.Reader
import Psbox.DBus.NoPanic.Writer
import Psbox.DBus.NoPanic.Messages
import Psbox.Fuzz
import Psbox.Gateway.Departure
import Psbox.Foundations.Changes
import Psbox.Gateway.Owners
import Psbox.Gateway.Identity
import Psbox.Gateway.Clients
import Psbox.Foundations.ForwardJumps
import Psbox.Sandbox.Seccomp
import Psbox.Desktop.Exec
import Psbox.Desktop.ExecReading
import Psbox.Desktop.HostLines
import Psbox.Desktop.Entry
import Psbox.Desktop.Rewrite
import Psbox.Desktop.RoundTrip
import Psbox.Desktop.Changes
import Psbox.Install.Build
import Psbox.Install.Escaping
import Psbox.Install.Faithful
import Psbox.Install.Files
import Psbox.Install.Generate
import Psbox.Install.Apply
import Psbox.Install.Steady
import Psbox.Decorations.Input
import Psbox.Sandbox.Restarts
import Psbox.Sandbox.Launches
import Psbox.Sandbox.Idle
import Psbox.Decorations.Effects
import Psbox.Decorations.Outputs
import Psbox.Decorations.Frame
import Psbox.Decorations.CopiesFollow
import Psbox.Decorations.Limits
import Psbox.Decorations.Positioners
import Psbox.Decorations.Links
import Psbox.Decorations.Geometry
import Psbox.Portal.Uris
import Psbox.Sandbox.Keys
import Psbox.Foundations.JsonStrings
import Psbox.Unnamed.Settings
import Psbox.Foundations.Jsonnet
import Psbox.Unnamed.Snippets
import Psbox.Sandbox.Guards
import Psbox.Sandbox.Records
import Psbox.Sandbox.Dialogs
import Psbox.Foundations.Exchange
import Psbox.Sandbox.Reload
import Psbox.Sandbox.Refresh
import Psbox.Sandbox.Exact
import Psbox.Sandbox.Exposed
import Psbox.Devices.Udev
import Psbox.Devices.Publish
import Psbox.Foundations.Report
import Psbox.Foundations.Dict
import Psbox.Config.Checker
import Psbox.Config.Spec
import Psbox.Config.Parse
import Psbox.Config.Valid
import Psbox.Config.ReadBack

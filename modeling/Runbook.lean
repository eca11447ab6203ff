import Runbook.CommandLine
import Runbook.Main
import Runbook.Proofs.Procedure.Report
import Runbook.Proofs.Run.Budget
import Runbook.Proofs.Run.Cancel
import Runbook.Proofs.Run.Commit
import Runbook.Proofs.Run.FanOut
import Runbook.Proofs.Run.Recorder
import Runbook.Proofs.Run.Resolve
import Runbook.Script.DenyList
import Runbook.Service
import Runbook.Template.Resolver
import Runbook.Yaml.Writer
import Runbook.Proofs.Service.Hub
import Runbook.Proofs.Service.Protocol
import Runbook.Proofs.Service.Simulation
import Runbook.Proofs.Run.Identifier
import Runbook.Proofs.Service.Independence
import Runbook.Proofs.Handler.Faults
import Runbook.Proofs.Run.Handled
import Runbook.Proofs.Service.Gate
import Runbook.Proofs.Context.Results
import Runbook.Proofs.Template.Inline
import Runbook.Proofs.Template.Block
import Runbook.Proofs.Run.Authored
import Runbook.Proofs.Script.Conversion
import Runbook.Proofs.Procedure.Document
import Runbook.Proofs.Run.Cycle
import Runbook.Proofs.Run.Raised
import Runbook.Proofs.Run.Permuted
import Runbook.Proofs.Json.Record
import Runbook.Proofs.Time.Reading
import Runbook.Proofs.Execution.Identifier
import Runbook.Proofs.Execution.RoundTrip
import Runbook.Proofs.Template.Params
import Runbook.Proofs.Run.Script
import Runbook.Proofs.Condition.Integer
import Runbook.Proofs.Handler.Untouched
import Runbook.Proofs.Run.Delivery
import Runbook.Proofs.Run.Verdict
import Runbook.Proofs.Handler.Seconds
import Runbook.Proofs.Script.DenyList
import Runbook.Proofs.Template.Numeric
import Runbook.Proofs.Run.View
import Runbook.Proofs.Handler.Delay
import Runbook.Proofs.Handler.Lines
import Runbook.Proofs.CommandLine.Overrides

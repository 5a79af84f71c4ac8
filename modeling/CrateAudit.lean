import CrateAudit.Audit
import CrateAudit.Bom.Crate
import CrateAudit.Bom.Document
import CrateAudit.Bom.Properties
import CrateAudit.Bytes.Basic
import CrateAudit.Bytes.Letter
import CrateAudit.Bytes.Lines
import CrateAudit.Bytes.Printable
import CrateAudit.Bytes.Quoted
import CrateAudit.Bytes.Space
import CrateAudit.Bytes.Utf8
import CrateAudit.CommandLine.Flag
import CrateAudit.CommandLine.Invocation
import CrateAudit.Config.Basic
import CrateAudit.Config.Issue
import CrateAudit.Config.Schema
import CrateAudit.Console
import CrateAudit.Diagnosis
import CrateAudit.Display.Cluster
import CrateAudit.Display.Properties
import CrateAudit.Display.Width
import CrateAudit.Duration
import CrateAudit.Environment
import CrateAudit.Environment.File
import CrateAudit.Evaluator
import CrateAudit.Execution
import CrateAudit.Fault
import CrateAudit.FileTree
import CrateAudit.Job
import CrateAudit.Job.Directory
import CrateAudit.Json
import CrateAudit.Log
import CrateAudit.Log.Derivation
import CrateAudit.Log.Target
import CrateAudit.Mapping
import CrateAudit.Number.Binary64
import CrateAudit.Number.Decimal
import CrateAudit.Number.Reading
import CrateAudit.Number.Sum
import CrateAudit.Number.Whole
import CrateAudit.Outcome
import CrateAudit.Path
import CrateAudit.Pool
import CrateAudit.Preparation
import CrateAudit.Program
import CrateAudit.Report.Artifact
import CrateAudit.Report.Narrative
import CrateAudit.Report.Summary
import CrateAudit.Report.Table
import CrateAudit.ResultSet
import CrateAudit.Session
import CrateAudit.Session.Invoke
import CrateAudit.Session.Prepare
import CrateAudit.Session.Run
import CrateAudit.Session.Setup
import CrateAudit.Severity
import CrateAudit.Timestamp
import CrateAudit.Usage
import CrateAudit.Yaml.Moment
import CrateAudit.Yaml.Node
import CrateAudit.Yaml.Printer
import CrateAudit.Yaml.Scalar
import CrateAudit.Yaml.Text
import CrateAudit.Yaml.Token
import CrateAudit.Yaml.Tree
import CrateAudit.Main
import CrateAudit.Proofs.Audit.Notices
import CrateAudit.Proofs.Audit.Run
import CrateAudit.Proofs.Mapping
import CrateAudit.Proofs.Pool.Ledger
import CrateAudit.Proofs.Pool.Run
import CrateAudit.Proofs.Pool.Schedule
import CrateAudit.Proofs.ResultSet
import CrateAudit.Proofs.Isolation
import CrateAudit.Proofs.Evaluator
import CrateAudit.Proofs.Bytes.Decimal
import CrateAudit.Proofs.Diagnosis
import CrateAudit.Proofs.Report.Agreement
import CrateAudit.Proofs.Environment
import CrateAudit.Proofs.Config.Load
import CrateAudit.Proofs.Job
import CrateAudit.Proofs.Bom.References
import CrateAudit.Proofs.Bom.Traces
import CrateAudit.Proofs.Bytes.Lines
import CrateAudit.Proofs.Bytes.Space
import CrateAudit.Proofs.Number.Binary64
import CrateAudit.Proofs.Number.Reading
import CrateAudit.Proofs.Usage
import CrateAudit.Proofs.Session.Deadline
import CrateAudit.Proofs.Duration
import CrateAudit.Proofs.Config.Draft
import CrateAudit.Proofs.Config.Printed
import CrateAudit.Proofs.FileTree
import CrateAudit.Proofs.FileTree.Changes
import CrateAudit.Proofs.FileTree.Matches
import CrateAudit.Proofs.FileTree.Way
import CrateAudit.Proofs.Report.Table
import CrateAudit.Proofs.Execution
import CrateAudit.Proofs.Evaluator.Cleanup
import CrateAudit.Proofs.Bytes.Utf8
import CrateAudit.Proofs.Json.Reading
import CrateAudit.Proofs.Json.RoundTrip
import CrateAudit.Proofs.Bom.Properties
import CrateAudit.Proofs.Bom.Utf8
import CrateAudit.Proofs.Bom.Document
import CrateAudit.Proofs.Bom.Crate
import CrateAudit.Proofs.FileTree.Matches
import CrateAudit.Proofs.Log.Target
import CrateAudit.Proofs.Session.SetUp
import CrateAudit.Proofs.Session.Rejected
import CrateAudit.Proofs.Path
import CrateAudit.Proofs.Report.Artifact
import CrateAudit.Proofs.Execution.Region
import CrateAudit.Proofs.Session.Audit
import CrateAudit.Proofs.Session.Twins
import CrateAudit.Proofs.Session.Failures
import CrateAudit.Proofs.Bytes.Order
import CrateAudit.Proofs.Job.Directory
import CrateAudit.Proofs.Session.Schedule
import CrateAudit.Proofs.Session.Preparation
import CrateAudit.Proofs.Bytes.Trim
import CrateAudit.Proofs.Job.Listing
import CrateAudit.Proofs.Execution.Result
import CrateAudit.Proofs.Config.Settings
import CrateAudit.Proofs.Config.Verdict
import CrateAudit.Proofs.Config.Overlay
import CrateAudit.Proofs.Config.Details
import CrateAudit.Proofs.Config.Violations
import CrateAudit.Proofs.Config.Refusal
import CrateAudit.Proofs.Diagnosis.Marker
import CrateAudit.Proofs.Diagnosis.Classification
import CrateAudit.Proofs.Report.Narrative
import CrateAudit.Proofs.Path.Place
import CrateAudit.Proofs.Job.WorkingDirectory
import CrateAudit.Proofs.Mapping.Monotone
import CrateAudit.Proofs.Number.Value
import CrateAudit.Proofs.Number.Amount
import CrateAudit.Proofs.Number.Names
import CrateAudit.Proofs.Report.Summary
import CrateAudit.Proofs.Usage.Measurement
import CrateAudit.Proofs.FileTree.Layout
import CrateAudit.Proofs.Report.Writing
import CrateAudit.Proofs.Number.Exact
import CrateAudit.Proofs.Duration.RoundTrip
import CrateAudit.Proofs.ResultSet.History
import CrateAudit.Proofs.Log.Line
import CrateAudit.Proofs.Log.Derivation

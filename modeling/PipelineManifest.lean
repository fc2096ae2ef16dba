import PipelineManifest.Calendar
import PipelineManifest.CommandLine.Options
import PipelineManifest.CommandLine.Run
import PipelineManifest.Condition
import PipelineManifest.Describe
import PipelineManifest.Document
import PipelineManifest.Fault
import PipelineManifest.Files
import PipelineManifest.Glob
import PipelineManifest.Json
import PipelineManifest.Log
import PipelineManifest.Main
import PipelineManifest.Manifest
import PipelineManifest.Number.Binary64
import PipelineManifest.Number.Reading
import PipelineManifest.Number.Shortest
import PipelineManifest.Pipeline.Basic
import PipelineManifest.Pipeline.Edit
import PipelineManifest.Pipeline.Lint
import PipelineManifest.Pipeline.Step
import PipelineManifest.Registry
import PipelineManifest.Resource
import PipelineManifest.Schema.Basic
import PipelineManifest.Schema.Manifest
import PipelineManifest.Schema.Report
import PipelineManifest.Secret
import PipelineManifest.Session
import PipelineManifest.Settings
import PipelineManifest.Table.Layout
import PipelineManifest.Table.Markup
import PipelineManifest.Table.Wrap
import PipelineManifest.Text.Base64
import PipelineManifest.Text.Blank
import PipelineManifest.Text.Printable
import PipelineManifest.Text.Quoted
import PipelineManifest.Text.Utf8
import PipelineManifest.Text.Width
import PipelineManifest.Validation
import PipelineManifest.Value.Access
import PipelineManifest.Value.Basic
import PipelineManifest.Value.Equal
import PipelineManifest.Value.Order
import PipelineManifest.Value.Render
import PipelineManifest.Variable
import PipelineManifest.Yaml.Cursor
import PipelineManifest.Yaml.File
import PipelineManifest.Yaml.Node.Basic
import PipelineManifest.Yaml.Node.Compose
import PipelineManifest.Yaml.Node.Merge
import PipelineManifest.Yaml.Object.Basic
import PipelineManifest.Yaml.Object.Data
import PipelineManifest.Yaml.Object.Source
import PipelineManifest.Yaml.Pen
import PipelineManifest.Yaml.Print
import PipelineManifest.Yaml.Scalar.Read
import PipelineManifest.Yaml.Scalar.Style
import PipelineManifest.Yaml.Scalar.Write
import PipelineManifest.Yaml.Stream
import PipelineManifest.Yaml.Tag
import PipelineManifest.Yaml.Token.Basic
import PipelineManifest.Yaml.Token.Mark
import PipelineManifest.Yaml.Token.Scalar
import PipelineManifest.Yaml.Token.Scan
import PipelineManifest.Proofs.Rejection
import PipelineManifest.Proofs.Value.Keys
import PipelineManifest.Proofs.Value.WellFormed
import PipelineManifest.Proofs.Schema.Rules
import PipelineManifest.Proofs.Outcome
import PipelineManifest.Proofs.Schema.Shapes
import PipelineManifest.Proofs.Condition
import PipelineManifest.Proofs.Settings
import PipelineManifest.Proofs.Pipeline.Step
import PipelineManifest.Proofs.Pipeline.Decode
import PipelineManifest.Proofs.Pipeline.WriteBack
import PipelineManifest.Proofs.RoundTrip
import PipelineManifest.Proofs.Value.Kinds
import PipelineManifest.Proofs.Value.Entries
import PipelineManifest.Proofs.Yaml.Flatten
import PipelineManifest.Proofs.Yaml.Explore
import PipelineManifest.Proofs.Yaml.Layout
import PipelineManifest.Proofs.Yaml.Parts
import PipelineManifest.Proofs.Yaml.Sourced
import PipelineManifest.Proofs.Yaml.Descent
import PipelineManifest.Proofs.Yaml.Mirror
import PipelineManifest.Proofs.Yaml.Untagged
import PipelineManifest.Proofs.Pipeline.Quoted
import PipelineManifest.Proofs.Pipeline.OneView
import PipelineManifest.Proofs.Pipeline.AsWritten
import PipelineManifest.Proofs.Spelling
import PipelineManifest.Proofs.Schema.Writable
import PipelineManifest.Proofs.Resolution
import PipelineManifest.Proofs.Splitting
import PipelineManifest.Proofs.Isolation
import PipelineManifest.Proofs.Secrecy.Agreement
import PipelineManifest.Proofs.Secrecy.Decode
import PipelineManifest.Proofs.Secrecy.Output
import PipelineManifest.Proofs.Pipeline.Lint
import PipelineManifest.Proofs.Pipeline.Fields
import PipelineManifest.Proofs.Dispatch
import PipelineManifest.Proofs.Pipeline.Form
import PipelineManifest.Proofs.Pipeline.Canonical
import PipelineManifest.Proofs.Yaml.Progress
import PipelineManifest.Proofs.Yaml.Succession
import PipelineManifest.Proofs.Stream
import PipelineManifest.Proofs.Registration
import PipelineManifest.Proofs.Glob
import PipelineManifest.Proofs.Acceptance
import PipelineManifest.Proofs.Schema.Decoders
import PipelineManifest.Proofs.Refusal
import PipelineManifest.Proofs.Numbering
import PipelineManifest.Proofs.Schema.Locality
import PipelineManifest.Proofs.Table.Markup
import PipelineManifest.Proofs.Table.Wrap
import PipelineManifest.Proofs.Table.Layout
import PipelineManifest.Proofs.Pipeline.Texts
import PipelineManifest.Proofs.Describe.Json
import PipelineManifest.Proofs.Describe.Table
import PipelineManifest.Proofs.Json
import PipelineManifest.Proofs.Describe.Screen

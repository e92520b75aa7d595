import TouchPanel.Text.Blank
import TouchPanel.Text.Lines
import TouchPanel.Text.Search
import TouchPanel.Text.Quoted
import TouchPanel.Decimal.Layout
import TouchPanel.Decimal.Reading
import TouchPanel.Identifier
import TouchPanel.Output.Node
import TouchPanel.Output.Rows
import TouchPanel.Json.Term
import TouchPanel.Output.Content
import TouchPanel.Recipe.Section
import TouchPanel.Region.Merge
import TouchPanel.Project.Reading
import TouchPanel.Project.Writing
import TouchPanel.Schema.Registry
import TouchPanel.Diagnostic
import TouchPanel.Options
import TouchPanel.Schema.Builtin
import TouchPanel.Widget.Index
import TouchPanel.Widget.Asset
import TouchPanel.Egress.Handler
import TouchPanel.Ingress.Link
import TouchPanel.Ingress.Setpoint
import TouchPanel.Fragments
import TouchPanel.Record
import TouchPanel.Yaml.Source
import TouchPanel.Yaml.Token.Basic
import TouchPanel.Yaml.Token.Scalar
import TouchPanel.Yaml.Token.Property
import TouchPanel.Yaml.Token.Lexer
import TouchPanel.Yaml.Tree
import TouchPanel.Yaml.Term
import TouchPanel.Yaml.Plain
import TouchPanel.Yaml.Value
import TouchPanel.Yaml.Decode
import TouchPanel.Schema.Reading
import TouchPanel.Document.Identity
import TouchPanel.Document.UserText
import TouchPanel.Document.Assembly
import TouchPanel.Recipe.Lint
import TouchPanel.Document.Fault
import TouchPanel.Document.SelfCheck
import TouchPanel.FileTree.Path
import TouchPanel.FileTree.Basic
import TouchPanel.FileTree.Access
import TouchPanel.Region.Export
import TouchPanel.Command.Basic
import TouchPanel.Command.Run
import TouchPanel.Main
import TouchPanel.Proofs.Text.Places
import TouchPanel.Proofs.Text.Lines
import TouchPanel.Proofs.Region.Scan
import TouchPanel.Proofs.Region.Frame
import TouchPanel.Proofs.Region.Overwrite
import TouchPanel.Proofs.Region.Classification
import TouchPanel.Proofs.Table
import TouchPanel.Proofs.FileTree.Frame
import TouchPanel.Proofs.FileTree.Sibling
import TouchPanel.Proofs.Region.Atomicity
import TouchPanel.Proofs.Region.Preview
import TouchPanel.Proofs.Text.Trim
import TouchPanel.Proofs.Widget.Cycle
import TouchPanel.Proofs.Widget.Forest
import TouchPanel.Proofs.Widget.Emission
import TouchPanel.Proofs.Text.Split
import TouchPanel.Proofs.Text.Replace
import TouchPanel.Proofs.Recipe.Key
import TouchPanel.Proofs.Recipe.Parts
import TouchPanel.Proofs.Recipe.Fill
import TouchPanel.Proofs.Recipe.Insert
import TouchPanel.Proofs.Recipe.Append
import TouchPanel.Proofs.Output.Rows
import TouchPanel.Proofs.Output.Entry
import TouchPanel.Proofs.Identifier
import TouchPanel.Proofs.Fragments
import TouchPanel.Proofs.Findings
import TouchPanel.Proofs.Document.Fill
import TouchPanel.Proofs.Document.Identity
import TouchPanel.Proofs.Document.Join
import TouchPanel.Proofs.Document.Merge
import TouchPanel.Proofs.Document.Parts
import TouchPanel.Proofs.Document.Assembly
import TouchPanel.Proofs.Document.Order
import TouchPanel.Proofs.Document.Entries
import TouchPanel.Proofs.Document.Named
import TouchPanel.Proofs.Document.Survival
import TouchPanel.Proofs.Document.Placement
import TouchPanel.Proofs.Ingress.Declaration
import TouchPanel.Proofs.Intake
import TouchPanel.Proofs.Ingress.Link
import TouchPanel.Proofs.Ingress.Update
import TouchPanel.Proofs.Lock.Name
import TouchPanel.Proofs.Lock.Use
import TouchPanel.Proofs.Lock.Clock
import TouchPanel.Proofs.Egress.Unordered
import TouchPanel.Proofs.Ingress.Unordered
import TouchPanel.Proofs.Widget.Alike
import TouchPanel.Proofs.Document.Unordered
import TouchPanel.Proofs.Ingress.Setpoint
import TouchPanel.Proofs.Widget.Emitted
import TouchPanel.Proofs.References
import TouchPanel.Proofs.Widget.Asset
import TouchPanel.Proofs.Widget.Relevant
import TouchPanel.Proofs.Document.Relevant
import TouchPanel.Proofs.Widget.Distinct
import TouchPanel.Proofs.Document.Written
import TouchPanel.Proofs.Document.Encryption
import TouchPanel.Proofs.Document.Related
import TouchPanel.Proofs.Document.Padding
import TouchPanel.Proofs.Ingress.Bare
import TouchPanel.Proofs.Recipe.Tail
import TouchPanel.Proofs.Document.MarkerAtEnd
import TouchPanel.Proofs.Recipe.Read
import TouchPanel.Proofs.Document.Content
import TouchPanel.Proofs.Document.Comment
import TouchPanel.Proofs.Yaml.Quoted
import TouchPanel.Proofs.Document.Placeholder
import TouchPanel.Proofs.Document.KeyPlaceholder
import TouchPanel.Proofs.Recipe.Commute
import TouchPanel.Proofs.Document.Insertion
import TouchPanel.Proofs.Widget.Reserved
import TouchPanel.Proofs.Document.Header
import TouchPanel.Proofs.Document.KeyLine
import TouchPanel.Proofs.Output.Undivided
import TouchPanel.Proofs.Output.Value
import TouchPanel.Proofs.Project.Strings
import TouchPanel.Proofs.Widget.Built
import TouchPanel.Proofs.Widget.Undivided
import TouchPanel.Proofs.Ingress.Undivided
import TouchPanel.Proofs.Document.Boundary
import TouchPanel.Proofs.Document.Undivided
import TouchPanel.Proofs.Egress.Account
import TouchPanel.Proofs.Document.NodeName
import TouchPanel.Proofs.Widget.Findings
import TouchPanel.Proofs.Widget.Payload
import TouchPanel.Proofs.Output.Pruned
import TouchPanel.Proofs.Widget.Unset
import TouchPanel.Proofs.Widget.Tidied
import TouchPanel.Proofs.Output.Unambiguous
import TouchPanel.Proofs.Output.Indented
import TouchPanel.Proofs.Yaml.Literal
import TouchPanel.Proofs.Output.Literal
import TouchPanel.Proofs.Access.Basic
import TouchPanel.Proofs.Access.Output
import TouchPanel.Proofs.Access.Recipe
import TouchPanel.Proofs.Access.Identity
import TouchPanel.Proofs.Access.Content
import TouchPanel.Proofs.Access.Widget
import TouchPanel.Proofs.Access.Forest
import TouchPanel.Proofs.Access.Document
import TouchPanel.Proofs.Access.Compile
import TouchPanel.Proofs.Document.SelfCheck
import TouchPanel.Proofs.Schema.Registry
import TouchPanel.Proofs.Json.Decode
import TouchPanel.Proofs.Project.RoundTrip
import TouchPanel.Proofs.Output.Reindented
import TouchPanel.Proofs.Recipe.Marker
import TouchPanel.Proofs.Recipe.Partition

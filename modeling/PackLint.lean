import PackLint.Command.Basic
import PackLint.Command.Execute
import PackLint.Command.Token
import PackLint.CommandLine.Options
import PackLint.CommandLine.Run
import PackLint.Finding
import PackLint.Json.Basic
import PackLint.Json.Decimal
import PackLint.Json.Number
import PackLint.Json.Pointer
import PackLint.Json.Reader
import PackLint.Json.Token
import PackLint.Json.Writer
import PackLint.Kind
import PackLint.Pack.Basic
import PackLint.Pack.FileTree
import PackLint.Pack.Load
import PackLint.Proofs.Command.Basic
import PackLint.Proofs.Command.Chain
import PackLint.Proofs.Command.Execute
import PackLint.Proofs.Command.Token
import PackLint.Proofs.Command.Unfolding
import PackLint.Proofs.Command.Words
import PackLint.Proofs.Json.Pointer
import PackLint.Proofs.Pack.Exact
import PackLint.Proofs.Pack.FilePath
import PackLint.Proofs.Pack.FileTree
import PackLint.Proofs.Pack.Ids
import PackLint.Proofs.Pack.Kinds
import PackLint.Proofs.Pack.Load
import PackLint.Proofs.Pack.Order
import PackLint.Proofs.Pack.Removal
import PackLint.Proofs.Resource.Id
import PackLint.Proofs.Text.ByteOrder
import PackLint.Proofs.Text.Path
import PackLint.Proofs.Text.PathOrder
import PackLint.Proofs.Text.Trim
import PackLint.Proofs.Text.WordAt
import PackLint.Proofs.Upgrade.Findings
import PackLint.Proofs.Upgrade.Function
import PackLint.Proofs.Upgrade.RenamedId
import PackLint.Proofs.Upgrade.Trace
import PackLint.Proofs.Upgrade.Walker
import PackLint.Report
import PackLint.Resource.Basic
import PackLint.Resource.Id
import PackLint.Rule
import PackLint.Text.Blank
import PackLint.Text.Lines
import PackLint.Text.Path
import PackLint.Text.Search
import PackLint.Text.Word
import PackLint.Upgrade.Findings
import PackLint.Upgrade.Issue
import PackLint.Upgrade.Pattern
import PackLint.Upgrade.Walker
import PackLint.Main
import PackLint.Proofs.Pack.Faults
import PackLint.Proofs.Pack.Listing
import PackLint.Proofs.Text.Respaced
import PackLint.Proofs.Upgrade.Respaced
import PackLint.Proofs.Command.Respaced
import PackLint.Proofs.Rule.Check
import PackLint.Proofs.Command.Grammar
import PackLint.Proofs.Upgrade.Gate
import PackLint.Proofs.CommandLine.Arguments
import PackLint.Proofs.CommandLine.Run
import PackLint.Proofs.Command.Partition
import PackLint.Proofs.Text.Fields
import PackLint.Proofs.Command.Fields
import PackLint.Proofs.Upgrade.Pattern
import PackLint.Proofs.Upgrade.Summon
import PackLint.Proofs.Upgrade.Innermost
import PackLint.Proofs.Json.Layout
import PackLint.Proofs.Upgrade.Condition
import PackLint.Proofs.Resource.Tag
import PackLint.Proofs.Upgrade.About
import PackLint.Proofs.Upgrade.Tag
import PackLint.Proofs.Upgrade.LineByLine
import PackLint.Proofs.Json.Strings
import PackLint.Proofs.Json.Words
import PackLint.Proofs.Upgrade.DocumentId
import PackLint.Proofs.Command.Forms
import PackLint.Proofs.Command.Search
import PackLint.Proofs.Json.Pretty
import PackLint.Proofs.Json.ReadBack
import PackLint.Proofs.Report
import PackLint.Proofs.Pack.Shelves
import PackLint.Proofs.Upgrade.Adding

import SchemaGraph.Builtin.Names
import SchemaGraph.Builtin.Types
import SchemaGraph.Command.Arguments
import SchemaGraph.Command.Failure
import SchemaGraph.Command.Request
import SchemaGraph.Command.Run
import SchemaGraph.Decimal.Binary64
import SchemaGraph.Decimal.Layout
import SchemaGraph.Decimal.Shortest
import SchemaGraph.Files.Access
import SchemaGraph.Files.Path
import SchemaGraph.Files.Tree
import SchemaGraph.Json.Printer
import SchemaGraph.Json.Value
import SchemaGraph.Main
import SchemaGraph.Outline.Basic
import SchemaGraph.Project.Basic
import SchemaGraph.Proofs.Keyed
import SchemaGraph.Proofs.Placement
import SchemaGraph.Proofs.Scope
import SchemaGraph.Schema.Applied
import SchemaGraph.Schema.Build
import SchemaGraph.Schema.Coercion
import SchemaGraph.Schema.Construction
import SchemaGraph.Schema.Extension
import SchemaGraph.Schema.Graph
import SchemaGraph.Schema.Keyed
import SchemaGraph.Schema.Lineage
import SchemaGraph.Schema.Merge
import SchemaGraph.Schema.Problem
import SchemaGraph.Schema.Snapshot
import SchemaGraph.Schema.Type
import SchemaGraph.Schema.Validation
import SchemaGraph.Sdl.Cursor
import SchemaGraph.Sdl.Document
import SchemaGraph.Sdl.Grammar
import SchemaGraph.Sdl.Literal
import SchemaGraph.Sdl.SyntaxError
import SchemaGraph.Sdl.TypeExpr
import SchemaGraph.Summary.Basic
import SchemaGraph.Summary.Format
import SchemaGraph.Summary.Listing
import SchemaGraph.Summary.Outline
import SchemaGraph.Text.Blank
import SchemaGraph.Text.Dedent
import SchemaGraph.Text.Hidden
import SchemaGraph.Text.Location
import SchemaGraph.Text.Quoted
import SchemaGraph.Token.Basic
import SchemaGraph.Token.Fault
import SchemaGraph.Token.Lexer
import SchemaGraph.Token.Numeral
import SchemaGraph.Yaml.Block
import SchemaGraph.Yaml.Character
import SchemaGraph.Yaml.Cursor
import SchemaGraph.Yaml.Flow
import SchemaGraph.Yaml.Layout
import SchemaGraph.Yaml.Node
import SchemaGraph.Yaml.Plain
import SchemaGraph.Yaml.Scalar
import SchemaGraph.Yaml.Tag
import SchemaGraph.Yaml.Token
import SchemaGraph.Proofs.Growth
import SchemaGraph.Proofs.Extension
import SchemaGraph.Proofs.Builtin
import SchemaGraph.Proofs.Invariant
import SchemaGraph.Proofs.Sound
import SchemaGraph.Proofs.History
import SchemaGraph.Proofs.TypeMap
import SchemaGraph.Proofs.Reach
import SchemaGraph.Proofs.Effect
import SchemaGraph.Proofs.Fit
import SchemaGraph.Proofs.Report
import SchemaGraph.Proofs.Alike
import SchemaGraph.Proofs.Batch
import SchemaGraph.Proofs.InTurn
import SchemaGraph.Proofs.Rearrange
import SchemaGraph.Proofs.Carry
import SchemaGraph.Proofs.Honor
import SchemaGraph.Proofs.Conservation
import SchemaGraph.Proofs.Joining
import SchemaGraph.Proofs.Source
import SchemaGraph.Proofs.Respacing
import SchemaGraph.Proofs.Conforming
import SchemaGraph.Proofs.JsonForm
import SchemaGraph.Proofs.Closure
import SchemaGraph.Proofs.Discovery
import SchemaGraph.Proofs.MapOrder
import SchemaGraph.Proofs.CommandLine
import SchemaGraph.Proofs.Commands
import SchemaGraph.Proofs.Agreement
import SchemaGraph.Proofs.Merging
import SchemaGraph.Proofs.Spans
import SchemaGraph.Proofs.Traversal
import SchemaGraph.Proofs.Roots
import SchemaGraph.Proofs.Lines
import SchemaGraph.Proofs.Indentation
import SchemaGraph.Proofs.LineEndings
import SchemaGraph.Proofs.Tags
import SchemaGraph.Proofs.RepeatedKeys
import SchemaGraph.Proofs.Overwriting
import SchemaGraph.Proofs.TypeNotation
import SchemaGraph.Proofs.NumberGrammar
import SchemaGraph.Proofs.Counted
import SchemaGraph.Proofs.Progress
import SchemaGraph.Proofs.Utf8
import SchemaGraph.Proofs.ByteLexer
import SchemaGraph.Proofs.ByteLiterals
import SchemaGraph.Proofs.Lockstep

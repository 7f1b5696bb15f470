import ByteSignature.Command.Action
import ByteSignature.Command.Arguments
import ByteSignature.Command.Basic
import ByteSignature.Command.Input
import ByteSignature.Command.Library
import ByteSignature.Command.Run
import ByteSignature.Command.Switch
import ByteSignature.Compile.Basic
import ByteSignature.Compile.Error
import ByteSignature.Compile.Options
import ByteSignature.Compile.Report
import ByteSignature.Compile.Source
import ByteSignature.Compile.Trace
import ByteSignature.Dfa.Basic
import ByteSignature.Dfa.Minimal
import ByteSignature.Dfa.Order
import ByteSignature.Dfa.Partition
import ByteSignature.Dfa.Subset
import ByteSignature.Graph
import ByteSignature.Graphviz
import ByteSignature.Json.Fault
import ByteSignature.Json.Found
import ByteSignature.Json.Number
import ByteSignature.Json.Quotation
import ByteSignature.Json.Skip
import ByteSignature.Limit
import ByteSignature.Literal.Automaton
import ByteSignature.Literal.Set
import ByteSignature.Literal.Table
import ByteSignature.Literal.Trie
import ByteSignature.Main
import ByteSignature.Nfa.Basic
import ByteSignature.Nfa.Builder
import ByteSignature.OrderedSet
import ByteSignature.Palette
import ByteSignature.Pattern.Basic
import ByteSignature.Pattern.Diagnostic
import ByteSignature.Pattern.Reader
import ByteSignature.Pattern.Token
import ByteSignature.Scan.Basic
import ByteSignature.Scan.Trace
import ByteSignature.Sequence
import ByteSignature.Snippet.Drawing
import ByteSignature.Snippet.Excerpt
import ByteSignature.Snippet.Line
import ByteSignature.Snippet.Mark
import ByteSignature.Snippet.Report
import ByteSignature.Snippet.Row
import ByteSignature.Snippet.Window
import ByteSignature.Symbol
import ByteSignature.Table.Basic
import ByteSignature.Table.Dense
import ByteSignature.Table.Exchange
import ByteSignature.Table.Json
import ByteSignature.Table.Listing
import ByteSignature.Table.OfDfa
import ByteSignature.Table.Record
import ByteSignature.Table.Text
import ByteSignature.Text.Blank
import ByteSignature.Text.Decimal
import ByteSignature.Text.Extend
import ByteSignature.Text.Lines
import ByteSignature.Text.Pad
import ByteSignature.Text.Quoted
import ByteSignature.Text.Range
import ByteSignature.Text.Shortest
import ByteSignature.Text.Utf8
import ByteSignature.Text.Width
import ByteSignature.Proofs.Graph.Discovery
import ByteSignature.Proofs.Pattern.Grammar
import ByteSignature.Proofs.Text.Offset
import ByteSignature.Proofs.Pattern.Kind
import ByteSignature.Proofs.Pattern.Runs
import ByteSignature.Proofs.Pattern.LongestMatch
import ByteSignature.Proofs.Pattern.Token
import ByteSignature.Proofs.Pattern.Reading
import ByteSignature.Proofs.Nfa.Fragment
import ByteSignature.Proofs.Nfa.Build
import ByteSignature.Proofs.Graph.Numbering
import ByteSignature.Proofs.Nfa.Finish
import ByteSignature.Proofs.Compile.Automaton
import ByteSignature.Proofs.Dfa.Walk
import ByteSignature.Proofs.Nfa.Closure
import ByteSignature.Proofs.Dfa.Subset
import ByteSignature.Proofs.Dfa.Partition
import ByteSignature.Proofs.Dfa.Refinement
import ByteSignature.Proofs.Dfa.Merge
import ByteSignature.Proofs.Dfa.Shape
import ByteSignature.Proofs.Dfa.Behaviour
import ByteSignature.Proofs.Dfa.Language
import ByteSignature.Proofs.Dfa.Agreement
import ByteSignature.Proofs.Table.Entries
import ByteSignature.Proofs.Table.Emission
import ByteSignature.Proofs.Compile.Meaning
import ByteSignature.Proofs.Compile.Canonical
import ByteSignature.Proofs.Compile.Source
import ByteSignature.Proofs.Literal.Suffix
import ByteSignature.Proofs.Literal.Trie
import ByteSignature.Proofs.Literal.Links
import ByteSignature.Proofs.Literal.Set
import ByteSignature.Proofs.Table.Dense
import ByteSignature.Proofs.Literal.Search
import ByteSignature.Proofs.Literal.Anchored
import ByteSignature.Proofs.Nfa.Calls
import ByteSignature.Proofs.Compile.Scanning
import ByteSignature.Proofs.Table.Ordered
import ByteSignature.Proofs.Scan.Prefix
import ByteSignature.Proofs.Scan.Interchange
import ByteSignature.Proofs.Table.Record
import ByteSignature.Proofs.Text.Words
import ByteSignature.Proofs.Text.Lines
import ByteSignature.Proofs.Table.Text
import ByteSignature.Proofs.Compile.Alternatives
import ByteSignature.Proofs.Text.Bytes
import ByteSignature.Proofs.Json.Number
import ByteSignature.Proofs.Json.Layout
import ByteSignature.Proofs.Table.Json
import ByteSignature.Proofs.Table.Exchange
import ByteSignature.Proofs.Dfa.Limit
import ByteSignature.Proofs.Table.Simulation
import ByteSignature.Proofs.Table.LineFormat
import ByteSignature.Proofs.Text.FirstLines
import ByteSignature.Proofs.Table.FirstFault
import ByteSignature.Proofs.Table.Extent
import ByteSignature.Proofs.Literal.Limit
import ByteSignature.Proofs.Compile.Trimmed
import ByteSignature.Proofs.Nfa.Realization
import ByteSignature.Proofs.Pattern.Position
import ByteSignature.Proofs.Pattern.Refusal
import ByteSignature.Proofs.Pattern.Enclosure
import ByteSignature.Proofs.Pattern.Spacing
import ByteSignature.Proofs.Graph.Precedence
import ByteSignature.Proofs.Dfa.AccessWord
import ByteSignature.Proofs.Compile.Diagnosis
import ByteSignature.Proofs.Compile.Continuation
import ByteSignature.Proofs.Compile.Spacing
import ByteSignature.Proofs.Text.ByteLines
import ByteSignature.Proofs.Pattern.Tiling
import ByteSignature.Proofs.Text.Split
import ByteSignature.Proofs.Compile.Checking
import ByteSignature.Proofs.Graphviz.Line
import ByteSignature.Proofs.Graphviz.Picture
import ByteSignature.Proofs.Graphviz.Drawing
import ByteSignature.Proofs.Dfa.Circle
import ByteSignature.Proofs.Dfa.Building
import ByteSignature.Proofs.Dfa.Stabilization
import ByteSignature.Proofs.Graph.Growth
import ByteSignature.Proofs.Nfa.Reachability
import ByteSignature.Proofs.Literal.State
import ByteSignature.Proofs.Sequence.Log
import ByteSignature.Proofs.Sequence.Request

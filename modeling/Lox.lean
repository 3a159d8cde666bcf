import Lox.Text
import Lox.Text.Digit
import Lox.Text.Rune
import Lox.Text.Class
import Lox.Text.Case
import Lox.Text.Space
import Lox.Text.Escape
import Lox.Text.Base64
import Lox.Number.Decimal
import Lox.Number
import Lox.Token
import Lox.StaticError
import Lox.Token.Scan
import Lox.Tree
import Lox.Tree.Print
import Lox.Tree.Parse
import Lox.Table
import Lox.Resolution
import Lox.Value
import Lox.Fault
import Lox.Heap
import Lox.Evaluation
import Lox.Log
import Lox.Session
import Lox.Path
import Lox.Files
import Lox.Settings.Document
import Lox.Settings.Document.Characters
import Lox.Settings.Document.Gap
import Lox.Settings.Document.Plain
import Lox.Settings.Document.Quoted
import Lox.Settings.Document.Block
import Lox.Settings.Document.Token
import Lox.Settings.Document.Name
import Lox.Settings.Document.Tokens
import Lox.Settings.Document.Node
import Lox.Settings.Document.Read
import Lox.Settings.Document.Number
import Lox.Settings.Document.Timestamp
import Lox.Settings.Document.Meaning
import Lox.Settings
import Lox.Settings.Load
import Lox.Repl
import Lox.CommandLine
import Lox.Console
import Lox.NodeTypes
import Lox.NodeTypes.Command
import Lox.Main
import Lox.Proofs.Tree.Language
import Lox.Proofs.Session.Safety
import Lox.Proofs.Session.Joining
import Lox.Proofs.Session.Renaming
import Lox.Proofs.Resolution.Visits
import Lox.Proofs.Session.Identities
import Lox.Proofs.Evaluation.Renumbering
import Lox.Proofs.Session.Rejection
import Lox.Proofs.Evaluation.Hosting
import Lox.Proofs.Evaluation.Unwinding
import Lox.Proofs.Evaluation.Moments
import Lox.Proofs.Session.Returns
import Lox.Proofs.Token.LongestMatch
import Lox.Proofs.Token.Scanner
import Lox.Proofs.Token.Lexemes
import Lox.Proofs.Heap.Chains
import Lox.Proofs.Number.Text
import Lox.Proofs.Tree.Printed
import Lox.Proofs.Tree.Unambiguous
import Lox.Proofs.Evaluation.Cutoff
import Lox.Proofs.Session.Limits
import Lox.Proofs.Evaluation.Termination
import Lox.Proofs.Session.Termination
import Lox.Proofs.Resolution.Mentions
import Lox.Proofs.Evaluation.Declared
import Lox.Proofs.Evaluation.ByName
import Lox.Proofs.Session.ByName
import Lox.Proofs.Resolution.Placement
import Lox.Proofs.Resolution.Rules
import Lox.Proofs.Session.Diagnostics
import Lox.Proofs.Tree.Cursor
import Lox.Proofs.Tree.Bounds
import Lox.Proofs.Tree.Composition
import Lox.Proofs.Resolution.Layers
import Lox.Proofs.Evaluation.Growth
import Lox.Proofs.Evaluation.Standing
import Lox.Proofs.Evaluation.Walks
import Lox.Proofs.Session.Super
import Lox.Proofs.Evaluation.ByHand
import Lox.Proofs.Session.Registers
import Lox.Proofs.Session.Graph
import Lox.Proofs.Session.Construction
import Lox.Proofs.Evaluation.Endings
import Lox.Proofs.Evaluation.Apart
import Lox.Proofs.Evaluation.ForLoops
import Lox.Proofs.Number.Doubles
import Lox.Proofs.Number.Packing
import Lox.Proofs.Number.Rounding
import Lox.Proofs.Number.Shortest
import Lox.Proofs.Number.Reading
import Lox.Proofs.Number.Printing
import Lox.Proofs.Value.Equality

import Lox.Decimal.Layout
import Lox.Decimal.Reading
import Lox.Token.Stream
import Lox.Token.Listing
import Lox.Tree.Form
import Lox.Grammar.Statement
import Lox.Resolution
import Lox.Scope
import Lox.Value
import Lox.Main
import Lox.Text.Utf8
import Lox.Proofs.Grammar.Language
import Lox.Proofs.Joining.Units
import Lox.Proofs.Joining.Stream
import Lox.Proofs.Token.Layout
import Lox.Proofs.Form.Source
import Lox.Proofs.Lexical.Lowering
import Lox.Proofs.Scoping.Units
import Lox.Proofs.Exit.Returning
import Lox.Proofs.Token.Tiling
import Lox.Proofs.Depth.Limit
import Lox.Proofs.LoopFree.Units
import Lox.Proofs.Static.Reporting
import Lox.Proofs.Order.Places
import Lox.Proofs.Recovery.Parts
import Lox.Proofs.Deeds.Assignment
import Lox.Proofs.Deeds.Receiver
import Lox.Proofs.Deeds.Trees
import Lox.Proofs.Buffer.Parse
import Lox.Proofs.CommandLine.Agreement
import Lox.Proofs.Scoping.Nearest
import Lox.Proofs.Omission.Nesting

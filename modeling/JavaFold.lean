import JavaFold.Arena.Source
import JavaFold.Command.Run
import JavaFold.Files.Store
import JavaFold.Fold.Catalogue
import JavaFold.Main
import JavaFold.Tree.Match
import JavaFold.Proofs.Arena.Descent
import JavaFold.Proofs.Arena.Exchange
import JavaFold.Proofs.Arena.Guards
import JavaFold.Proofs.Arena.Handles
import JavaFold.Proofs.Arena.Mismatch
import JavaFold.Proofs.Arena.Removal
import JavaFold.Proofs.Arena.Selection
import JavaFold.Proofs.Arena.Transplant
import JavaFold.Proofs.Arena.Written
import JavaFold.Proofs.Command.Arguments
import JavaFold.Proofs.Command.Pipeline
import JavaFold.Proofs.Fold.Conserve
import JavaFold.Proofs.Fold.Order
import JavaFold.Proofs.Fold.Render
import JavaFold.Proofs.Fold.Source
import JavaFold.Proofs.Fold.Spans
import JavaFold.Proofs.Grammar.Binding
import JavaFold.Proofs.Grammar.Lookahead
import JavaFold.Proofs.Grammar.Progress
import JavaFold.Proofs.Grammar.Refusal
import JavaFold.Proofs.Interner.History
import JavaFold.Proofs.Layout.Spaced
import JavaFold.Proofs.Token.Bytes
import JavaFold.Proofs.Token.Spread

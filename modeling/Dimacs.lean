import Dimacs.Main
import Dimacs.Problem.Printer
import Dimacs.Proofs.Cursor.Reading
import Dimacs.Proofs.Parser.Success
import Dimacs.Proofs.Parser.BoundedNumber
import Dimacs.Proofs.Clauses.Grammar
import Dimacs.Proofs.Parser.Simulation
import Dimacs.Proofs.Strictness.Grading
import Dimacs.Proofs.Strictness.Agreement
import Dimacs.Proofs.Options.Indifference
import Dimacs.Proofs.Position.Readers
import Dimacs.Proofs.Position.Diagnostics
import Dimacs.Proofs.Problem.Interruption
import Dimacs.Proofs.Header.Directive
import Dimacs.Proofs.Options.Directives
import Dimacs.Proofs.Storage.Clauses
import Dimacs.Proofs.Formula.Blocks
import Dimacs.Formula.Operation
import Dimacs.Proofs.Formula.InPlace
import Dimacs.Proofs.Formula.History
import Dimacs.Proofs.Problem.Events
import Dimacs.Proofs.Hint.Scanning
import Dimacs.Proofs.Formula.Hints
import Dimacs.Proofs.Formula.Run
import Dimacs.Proofs.Formula.Contents
import Dimacs.Proofs.Formula.Compactness
import Dimacs.Proofs.Formula.Record
import Dimacs.Proofs.Printer.Decimal
import Dimacs.Proofs.Printer.Reading
import Dimacs.Proofs.Printer.RoundTrip
import Dimacs.Proofs.Problem.Text
import Dimacs.Proofs.LineEnd.CarriageReturn
import Dimacs.Proofs.Strictness.FinalLineFeed
import Dimacs.Proofs.LineEnd.Correspondence
import Dimacs.Proofs.LineEnd.Readers
import Dimacs.Proofs.LineEnd.Equivalence
import Dimacs.Cursor.Call
import Dimacs.Proofs.Cursor.Moves
import Dimacs.Proofs.Cursor.Accounting
import Dimacs.Proofs.Cursor.Lookahead
import Dimacs.Proofs.Hint.Integer
import Dimacs.Proofs.Hint.Fraction
import Dimacs.Proofs.Hint.Listing
import Dimacs.Proofs.Storage.Assignment
import Dimacs.Proofs.Hint.Prediction
import Dimacs.Proofs.Formula.Backbone
import Dimacs.Proofs.Formula.HintFiles
import Dimacs.Proofs.Cursor.Consumption
import Dimacs.Proofs.Hint.Exactness
import Dimacs.Proofs.Hint.Denotation
import Dimacs.Proofs.Hint.Progress
import Dimacs.Proofs.Hint.RoundTrip
import Dimacs.Proofs.Storage.Tiling
import Dimacs.Proofs.Storage.Growth
import Dimacs.Proofs.Storage.Limits
import Dimacs.Proofs.Storage.Pushing
import Dimacs.Proofs.Formula.Encoding
import Dimacs.Proofs.Formula.Randomness
import Dimacs.Proofs.Formula.Room
import Dimacs.Proofs.Formula.Footprint
import Dimacs.Proofs.Options.Clamping
import Dimacs.Proofs.Options.Applied
import Dimacs.Proofs.Session.Steps
import Dimacs.Proofs.Session.Ranges
import Dimacs.Proofs.Session.Journal
import Dimacs.Proofs.Session.Quiet

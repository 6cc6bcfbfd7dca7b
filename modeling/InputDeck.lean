import InputDeck.Main
import InputDeck.Settings.Printer
import InputDeck.Proofs.Template.OnePass
import InputDeck.Proofs.Template.Settling
import InputDeck.Proofs.Template.WholeText
import InputDeck.Proofs.Scalar.RoundTrip
import InputDeck.Proofs.Variables.Document
import InputDeck.Proofs.Variables.Gap
import InputDeck.Proofs.Variables.Worksheet
import InputDeck.Proofs.Generation.Decks
import InputDeck.Proofs.Generation.TwoRuns
import InputDeck.Proofs.Generation.Repeated
import InputDeck.Proofs.CommandLine.Run
import InputDeck.Proofs.Path.Ancestors
import InputDeck.Proofs.FileSystem.Ways
import InputDeck.Proofs.Generation.Exchange
import InputDeck.Proofs.Json.Escape
import InputDeck.Proofs.Json.Printed
import InputDeck.Proofs.FileSystem.ReadBack
import InputDeck.Proofs.Settings.RoundTrip
import InputDeck.Proofs.Text.Blank
import InputDeck.Proofs.Variables.Written
import InputDeck.Proofs.Json.Finite
import InputDeck.Proofs.Variables.Loaded
import InputDeck.Proofs.Number.Order
import InputDeck.Proofs.Number.Canonical
import InputDeck.Proofs.Number.Fewest
import InputDeck.Proofs.Number.Notation
import InputDeck.Proofs.Json.RealText
import InputDeck.Proofs.Variables.Reloaded
import InputDeck.Proofs.Variables.WholeNumbers
import InputDeck.Proofs.Json.Reading
import InputDeck.Proofs.Settings.Accepted
import InputDeck.Proofs.Template.Indices
import InputDeck.Proofs.Template.Numbered
import InputDeck.Proofs.Variables.NumberCells
import InputDeck.Proofs.Path.FileName
import InputDeck.Proofs.Selection
import InputDeck.Proofs.Workbook.UsedCells
import InputDeck.Proofs.Variables.RowNumbers
import InputDeck.Proofs.Path.Lexical
import InputDeck.Proofs.Generation.Inside
import InputDeck.Proofs.Scalar.Layouts
import InputDeck.Proofs.Value.Alphabet

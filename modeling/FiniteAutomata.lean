import FiniteAutomata.Branch
import FiniteAutomata.Checked
import FiniteAutomata.Choice
import FiniteAutomata.Console.Arguments
import FiniteAutomata.Console.Ending
import FiniteAutomata.Console.Reader
import FiniteAutomata.Console.Session
import FiniteAutomata.Datum
import FiniteAutomata.Decimal.Number
import FiniteAutomata.Decimal.Numeral
import FiniteAutomata.Decimal.Shortest
import FiniteAutomata.Diagram.Basic
import FiniteAutomata.Diagram.Import
import FiniteAutomata.Dict
import FiniteAutomata.Draft
import FiniteAutomata.Dump
import FiniteAutomata.Files.Basic
import FiniteAutomata.Files.Tree
import FiniteAutomata.Journal.Basic
import FiniteAutomata.Journal.Note
import FiniteAutomata.Json.Reader
import FiniteAutomata.Json.Writer
import FiniteAutomata.Listing.Destination
import FiniteAutomata.Listing.Fault
import FiniteAutomata.Listing.Printer
import FiniteAutomata.Listing.Reader
import FiniteAutomata.Loading
import FiniteAutomata.Main
import FiniteAutomata.Options.Basic
import FiniteAutomata.Options.File
import FiniteAutomata.Options.Lenient
import FiniteAutomata.Options.Reader
import FiniteAutomata.Path
import FiniteAutomata.Program
import FiniteAutomata.Proofs.Choice
import FiniteAutomata.Proofs.Console.Endings
import FiniteAutomata.Proofs.Decimal.Bits
import FiniteAutomata.Proofs.Decimal.Nearest
import FiniteAutomata.Proofs.Decimal.RoundTrip
import FiniteAutomata.Proofs.Decimal.Rounding
import FiniteAutomata.Proofs.Decimal.Shortest
import FiniteAutomata.Proofs.Decimal.Weights
import FiniteAutomata.Proofs.Diagram.Depiction
import FiniteAutomata.Proofs.Diagram.Drafting
import FiniteAutomata.Proofs.Diagram.Tables
import FiniteAutomata.Proofs.Dict
import FiniteAutomata.Proofs.Dump
import FiniteAutomata.Proofs.Listing.Agreement
import FiniteAutomata.Proofs.Listing.Blocks
import FiniteAutomata.Proofs.Listing.Built
import FiniteAutomata.Proofs.Listing.Destinations
import FiniteAutomata.Proofs.Listing.Files
import FiniteAutomata.Proofs.Listing.Grammar
import FiniteAutomata.Proofs.Listing.Items
import FiniteAutomata.Proofs.Listing.Layout
import FiniteAutomata.Proofs.Listing.Legible
import FiniteAutomata.Proofs.Listing.Printed
import FiniteAutomata.Proofs.Listing.Rereading
import FiniteAutomata.Proofs.Listing.RoundTrip
import FiniteAutomata.Proofs.Listing.Session
import FiniteAutomata.Proofs.Listing.Sources
import FiniteAutomata.Proofs.Listing.Weighted
import FiniteAutomata.Proofs.Options
import FiniteAutomata.Proofs.Producers.Basic
import FiniteAutomata.Proofs.Producers.Consistency
import FiniteAutomata.Proofs.Producers.Modes
import FiniteAutomata.Proofs.Producers.Reordered
import FiniteAutomata.Proofs.Producers.Validation
import FiniteAutomata.Proofs.Producers.WellFormed
import FiniteAutomata.Proofs.Simulator.Alongside
import FiniteAutomata.Proofs.Simulator.Alphabet
import FiniteAutomata.Proofs.Simulator.Budget
import FiniteAutomata.Proofs.Simulator.Calls
import FiniteAutomata.Proofs.Simulator.Commands
import FiniteAutomata.Proofs.Simulator.Course
import FiniteAutomata.Proofs.Simulator.Draws
import FiniteAutomata.Proofs.Simulator.Guards
import FiniteAutomata.Proofs.Simulator.Machines
import FiniteAutomata.Proofs.Simulator.Mirrors
import FiniteAutomata.Proofs.Simulator.Modes
import FiniteAutomata.Proofs.Simulator.Pruning
import FiniteAutomata.Proofs.Simulator.Renaming
import FiniteAutomata.Proofs.Simulator.Reordered
import FiniteAutomata.Proofs.Simulator.Rounds
import FiniteAutomata.Proofs.Simulator.Steps
import FiniteAutomata.Proofs.Simulator.Stops
import FiniteAutomata.Proofs.Simulator.Walks
import FiniteAutomata.Proofs.Simulator.WordWalks
import FiniteAutomata.Proofs.Text.Lines
import FiniteAutomata.Proofs.Text.Pieces
import FiniteAutomata.Proofs.Text.Trim
import FiniteAutomata.Proofs.Text.Utf8
import FiniteAutomata.Proofs.Traces.Basic
import FiniteAutomata.Proofs.Traces.Branches
import FiniteAutomata.Proofs.Traces.Correspondence
import FiniteAutomata.Proofs.Traces.Exploration
import FiniteAutomata.Proofs.Traces.Word
import FiniteAutomata.Random.Twister
import FiniteAutomata.Ref
import FiniteAutomata.Report
import FiniteAutomata.Simulator.Basic
import FiniteAutomata.Simulator.Machine
import FiniteAutomata.Simulator.Run
import FiniteAutomata.Simulator.Step
import FiniteAutomata.Text.Basic
import FiniteAutomata.Text.Digit
import FiniteAutomata.Text.Printable
import FiniteAutomata.Text.Quoted
import FiniteAutomata.Text.Uppercase
import FiniteAutomata.Text.Utf8
import FiniteAutomata.Text.Word
import FiniteAutomata.Yaml.Composer
import FiniteAutomata.Yaml.Cursor
import FiniteAutomata.Yaml.Fault
import FiniteAutomata.Yaml.Form
import FiniteAutomata.Yaml.Lexer
import FiniteAutomata.Yaml.Literal
import FiniteAutomata.Yaml.Node
import FiniteAutomata.Yaml.Plain
import FiniteAutomata.Yaml.Quoted
import FiniteAutomata.Yaml.Reader
import FiniteAutomata.Yaml.Tag
import FiniteAutomata.Yaml.Time
import FiniteAutomata.Yaml.Value

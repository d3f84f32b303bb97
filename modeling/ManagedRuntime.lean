import ManagedRuntime.CommandLine.Help
import ManagedRuntime.CommandLine.Outcome
import ManagedRuntime.CommandLine.Request
import ManagedRuntime.CommandLine.Scenario
import ManagedRuntime.Configuration
import ManagedRuntime.Exception
import ManagedRuntime.Execution.Action
import ManagedRuntime.Execution.Foreign
import ManagedRuntime.Execution.Process
import ManagedRuntime.Execution.Region
import ManagedRuntime.Execution.Thread
import ManagedRuntime.Failure
import ManagedRuntime.Fault
import ManagedRuntime.FiniteSet
import ManagedRuntime.FiniteSet.Register
import ManagedRuntime.Main
import ManagedRuntime.Memory
import ManagedRuntime.Memory.Command
import ManagedRuntime.Number.Binary64
import ManagedRuntime.Number.Decimal
import ManagedRuntime.Number.Fixed
import ManagedRuntime.Number.Layout
import ManagedRuntime.Number.Leading
import ManagedRuntime.Number.Literal
import ManagedRuntime.Number.Rounding
import ManagedRuntime.Number.Shortest
import ManagedRuntime.Program.Routine
import ManagedRuntime.Program.Run
import ManagedRuntime.Program.Statement
import ManagedRuntime.Proofs.Program.CatchFinally
import ManagedRuntime.Proofs.Program.Comparison
import ManagedRuntime.Proofs.Program.Exchange
import ManagedRuntime.Proofs.Program.FaultsAsRaises
import ManagedRuntime.Proofs.Program.FinallyChain
import ManagedRuntime.Proofs.Program.Landings
import ManagedRuntime.Proofs.Program.Origins
import ManagedRuntime.Proofs.Program.Processes
import ManagedRuntime.Proofs.Program.RegionStack
import ManagedRuntime.Proofs.Program.Reraising
import ManagedRuntime.Proofs.Program.Steps
import ManagedRuntime.Proofs.Program.Threads
import ManagedRuntime.Proofs.Program.Unwinds
import ManagedRuntime.Proofs.SharedArray.Counting
import ManagedRuntime.Proofs.SharedArray.Plain
import ManagedRuntime.Proofs.SharedArray.References
import ManagedRuntime.Proofs.SharedArray.Refinement
import ManagedRuntime.Session
import ManagedRuntime.SharedArray.Element
import ManagedRuntime.SharedArray.Nested
import ManagedRuntime.SharedArray.Pool
import ManagedRuntime.SharedArray.Store
import ManagedRuntime.Text.Basic
import ManagedRuntime.Text.Blank
import ManagedRuntime.Text.Case
import ManagedRuntime.Text.Encoding
import ManagedRuntime.Text.Lines
import ManagedRuntime.Text.Printable
import ManagedRuntime.Text.Quoted
import ManagedRuntime.Text.Register
import ManagedRuntime.Text.Search
import ManagedRuntime.Toml.Document
import ManagedRuntime.Toml.Layout
import ManagedRuntime.Toml.Lexical
import ManagedRuntime.Toml.Library
import ManagedRuntime.Toml.Node
import ManagedRuntime.Toml.Reader
import ManagedRuntime.Toml.Scalar
import ManagedRuntime.Toml.Value
import ManagedRuntime.Utf16
import ManagedRuntime.Utf8
import ManagedRuntime.Word
import ManagedRuntime.Proofs.Encoding.Utf16
import ManagedRuntime.Proofs.Encoding.Utf8
import ManagedRuntime.Proofs.Encoding.RoundTrip
import ManagedRuntime.Proofs.Program.RaisingForms
import ManagedRuntime.Execution.System
import ManagedRuntime.Proofs.Execution.Startup
import ManagedRuntime.Proofs.FiniteSet.Algebra
import ManagedRuntime.Proofs.Toml.Standard
import ManagedRuntime.Proofs.Toml.Distinct
import ManagedRuntime.Proofs.Configuration.Acceptance
import ManagedRuntime.Proofs.Program.MainAction
import ManagedRuntime.Proofs.Lookup
import ManagedRuntime.Proofs.Memory.Arrays
import ManagedRuntime.Proofs.Encoding.CodePoints
import ManagedRuntime.Proofs.Encoding.Concatenation
import ManagedRuntime.Proofs.Encoding.Lenient
import ManagedRuntime.Proofs.Program.Scopes
import ManagedRuntime.Proofs.Program.Destructors
import ManagedRuntime.Checked
import ManagedRuntime.Text.Checked
import ManagedRuntime.SharedArray.Checked
import ManagedRuntime.Proofs.Text.Editing
import ManagedRuntime.Proofs.IndexBounds
import ManagedRuntime.Proofs.Encoding.Ascii
import ManagedRuntime.Proofs.Number.Scanning
import ManagedRuntime.Proofs.Number.LeadingInteger
import ManagedRuntime.Proofs.Number.Grammar
import ManagedRuntime.Proofs.Number.LongestMatch
import ManagedRuntime.Proofs.Number.LeadingFloat
import ManagedRuntime.Proofs.Text.Stripping
import ManagedRuntime.Proofs.Number.WholeInteger
import ManagedRuntime.Proofs.Number.Digits
import ManagedRuntime.Proofs.Number.IntegerText
import ManagedRuntime.Proofs.Number.Rounding
import ManagedRuntime.Proofs.Number.Binary64
import ManagedRuntime.Proofs.Number.NearestBinary
import ManagedRuntime.Proofs.Number.Numeral
import ManagedRuntime.Proofs.Number.FixedNotation
import ManagedRuntime.Proofs.Number.ReadBack
import ManagedRuntime.Proofs.Number.ExactText
import ManagedRuntime.Proofs.Text.Searching
import ManagedRuntime.Proofs.FiniteSet.Inclusion
import ManagedRuntime.Proofs.SharedArray.Splits
import ManagedRuntime.Proofs.Program.Division
import ManagedRuntime.Proofs.Number.Trimming
import ManagedRuntime.Proofs.Execution.ForeignExceptions
import ManagedRuntime.Proofs.Toml.Reading
import ManagedRuntime.Proofs.Toml.Plain
import ManagedRuntime.Proofs.Configuration.Printing
import ManagedRuntime.Proofs.Number.LetterCase
import ManagedRuntime.Proofs.Program.PendingFaults

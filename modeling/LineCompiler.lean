import LineCompiler.Complaint
import LineCompiler.Counter
import LineCompiler.Files.Listing
import LineCompiler.Files.Reading
import LineCompiler.Files.Writing
import LineCompiler.Host
import LineCompiler.Main
import LineCompiler.Program.Builtin
import LineCompiler.Proofs.Assembly.Success
import LineCompiler.Proofs.Compile
import LineCompiler.Proofs.Assembly.Sections
import LineCompiler.Proofs.Assembly.Statements
import LineCompiler.Proofs.Fault
import LineCompiler.Proofs.Flat.Calls
import LineCompiler.Proofs.Flat.Conditions
import LineCompiler.Proofs.Flat.Declarations
import LineCompiler.Proofs.Flat.Language
import LineCompiler.Proofs.Flat.Lines
import LineCompiler.Proofs.Flat.RoundTrip
import LineCompiler.Proofs.Flat.Texts
import LineCompiler.Proofs.Number.Numeral
import LineCompiler.Proofs.Program.Acceptance
import LineCompiler.Proofs.Program.Effect
import LineCompiler.Proofs.Program.Formed
import LineCompiler.Proofs.Program.Walk
import LineCompiler.Proofs.Program.Layout
import LineCompiler.Proofs.Program.Order
import LineCompiler.Proofs.Program.Watch
import LineCompiler.Proofs.Source.Comment
import LineCompiler.Proofs.Text.Split
import LineCompiler.Proofs.Text.Trim
import LineCompiler.Proofs.Token.Agreement
import LineCompiler.Proofs.Token.Declaration
import LineCompiler.Proofs.Token.Opener
import LineCompiler.Proofs.Token.Plain
import LineCompiler.Proofs.Token.Stream
import LineCompiler.Session
import LineCompiler.Source.Excerpt
import LineCompiler.Toolchain.Libraries
import LineCompiler.Toolchain.Tests
import LineCompiler.Value
import LineCompiler.Vocabulary
import LineCompiler.Proofs.Assembly.Storage
import LineCompiler.Proofs.Assembly.Blocks
import LineCompiler.Proofs.Assembly.Returns
import LineCompiler.Proofs.Text.Lines
import LineCompiler.Proofs.Token.Renumber
import LineCompiler.Proofs.Token.Gap
import LineCompiler.Proofs.Program.Renumber
import LineCompiler.Proofs.Insertion
import LineCompiler.Proofs.Assembly.Instructions
import LineCompiler.Proofs.Assembly.Lines
import LineCompiler.Proofs.Assembly.References
import LineCompiler.Proofs.Assembly.Sharing
import LineCompiler.Proofs.Token.Failure
import LineCompiler.Proofs.Assembly.Growth
import LineCompiler.Proofs.Session
import LineCompiler.Proofs.Token.Blocks
import LineCompiler.Proofs.Token.Names
import LineCompiler.Proofs.Arity
import LineCompiler.Proofs.Program.Declared
import LineCompiler.Proofs.Operation
import LineCompiler.Proofs.Token.Part
import LineCompiler.Proofs.Text.Slashes
import LineCompiler.Proofs.Token.Semicolon
import LineCompiler.Proofs.Source.Tail
import LineCompiler.Proofs.Token.Settled
import LineCompiler.Proofs.Token.Edge
import LineCompiler.Proofs.Token.Ending
import LineCompiler.Proofs.Token.LastCharacter
import LineCompiler.Proofs.Token.Tail
import LineCompiler.Proofs.Program.Shape
import LineCompiler.Proofs.Replacement
import LineCompiler.Proofs.Trailing
import LineCompiler.Proofs.Token.Unended
import LineCompiler.Proofs.FinalNewline
import LineCompiler.Proofs.Token.Identifier
import LineCompiler.Proofs.Initialised
import LineCompiler.Proofs.Comparison
import LineCompiler.Proofs.Machine.Memory
import LineCompiler.Proofs.Machine.Basic
import LineCompiler.Proofs.Machine.Assembler
import LineCompiler.Proofs.Assembly.Occurrence
import LineCompiler.Proofs.SystemCall
import LineCompiler.Proofs.Branch
import LineCompiler.Proofs.Calculation
import LineCompiler.Proofs.Division
import LineCompiler.Proofs.Token.Value
import LineCompiler.Proofs.Token.Forms
import LineCompiler.Proofs.Quotation
import LineCompiler.Proofs.Source.Chain
import LineCompiler.Proofs.Source.FirstComment
import LineCompiler.Proofs.Assembly.Additions
import LineCompiler.Proofs.Text.Utf8
import LineCompiler.Proofs.Files.Paths
import LineCompiler.Proofs.Files.ReadBack

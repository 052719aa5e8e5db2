import JackCompiler.Main
import JackCompiler.Files.FileSystem
import JackCompiler.Proofs.Scope
import JackCompiler.Proofs.Grammar
import JackCompiler.Proofs.Translation
import JackCompiler.Proofs.Places
import JackCompiler.Proofs.Recognition.Statements
import JackCompiler.Proofs.Recognition.Declarations
import JackCompiler.Proofs.Lexing
import JackCompiler.Proofs.Acceptance
import JackCompiler.Proofs.Evaluation
import JackCompiler.Proofs.Labels
import JackCompiler.Proofs.Subexpressions
import JackCompiler.Proofs.Execution
import JackCompiler.Proofs.Correctness
import JackCompiler.Proofs.Depth
import JackCompiler.Proofs.Jumps
import JackCompiler.Proofs.Segments
import JackCompiler.Proofs.Functions
import JackCompiler.Proofs.Fields
import JackCompiler.Proofs.Safety
import JackCompiler.Proofs.Layout
import JackCompiler.Proofs.Lines
import JackCompiler.Proofs.Prefixes
import JackCompiler.Proofs.Cursor
import JackCompiler.Proofs.OnDemand
import JackCompiler.Proofs.Document
import JackCompiler.Proofs.Identifiers
import JackCompiler.Proofs.Constants
import JackCompiler.Proofs.Symbols
import JackCompiler.Proofs.Isolation
import JackCompiler.Proofs.Recovery
import JackCompiler.Proofs.Printing
import JackCompiler.Proofs.Encoding
import JackCompiler.Proofs.Atomicity
import JackCompiler.Proofs.Offsets
import JackCompiler.Proofs.Lookahead
import JackCompiler.Proofs.Collisions
import JackCompiler.Proofs.Failures

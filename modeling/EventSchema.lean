import EventSchema.Checksum
import EventSchema.CommandLine
import EventSchema.Compilation.Basic
import EventSchema.Compilation.Drain
import EventSchema.Compilation.Note
import EventSchema.Document.Basic
import EventSchema.Document.Json
import EventSchema.Document.Markup
import EventSchema.Document.Parse
import EventSchema.Document.Writer
import EventSchema.Draft.Basic
import EventSchema.Draft.Define
import EventSchema.Draft.Statement
import EventSchema.Error
import EventSchema.Files.Path
import EventSchema.Files.System
import EventSchema.Files.Tree
import EventSchema.Json.Basic
import EventSchema.Json.Reader
import EventSchema.Main
import EventSchema.Markup.Basic
import EventSchema.Markup.Reader
import EventSchema.Model.Entity
import EventSchema.Model.Provider
import EventSchema.Model.ProviderId
import EventSchema.Model.Vocabulary
import EventSchema.Numbering.Assign
import EventSchema.Numbering.Space
import EventSchema.Program
import EventSchema.Report.ModelJson
import EventSchema.Report.Summary
import EventSchema.Source.Clause
import EventSchema.Source.Context
import EventSchema.Source.Literal
import EventSchema.Source.Scan
import EventSchema.Table
import EventSchema.Text.Blank
import EventSchema.Text.Numeral
import EventSchema.Text.Quoted
import EventSchema.Text.Utf8
import EventSchema.Text.Visible
import EventSchema.WorkQueue
import EventSchema.Proofs.Numbering.Slots
import EventSchema.Proofs.Numbering.Members
import EventSchema.Proofs.Run
import EventSchema.Proofs.Numbering.Passes
import EventSchema.Proofs.Draft.Change
import EventSchema.Proofs.Draft.Coherent
import EventSchema.Proofs.Numbering.CollisionFree
import EventSchema.Proofs.Source.ClauseText
import EventSchema.Proofs.Numbering.Greedy
import EventSchema.Proofs.Compilation.Termination
import EventSchema.Proofs.Document.ClauseForm
import EventSchema.Proofs.Compilation.Duplicates
import EventSchema.Proofs.Draft.Composition
import EventSchema.Proofs.Draft.Growth
import EventSchema.Proofs.Compilation.Accounting
import EventSchema.Proofs.Draft.Marks
import EventSchema.Proofs.Draft.Repetition
import EventSchema.Proofs.Compilation.Pruning
import EventSchema.Proofs.Compilation.Skipping
import EventSchema.Proofs.Draft.Order
import EventSchema.Proofs.Draft.Least
import EventSchema.Proofs.Draft.Reordering
import EventSchema.Proofs.Checksum
import EventSchema.Proofs.Draft.TemplateId
import EventSchema.Proofs.Source.ContextForm
import EventSchema.Proofs.Source.Lexeme
import EventSchema.Proofs.Source.Decomposition
import EventSchema.Proofs.Source.Insertion
import EventSchema.Proofs.Source.NormalForm
import EventSchema.Proofs.Source.ReadBack
import EventSchema.Proofs.Source.LexemeReading
import EventSchema.Proofs.Source.Layout
import EventSchema.Proofs.Source.Trivia
import EventSchema.Proofs.Numbering.Stability
import EventSchema.Proofs.Draft.Parts
import EventSchema.Proofs.Draft.Interning
import EventSchema.Proofs.Document.Aliases
import EventSchema.Proofs.Draft.Identifier
import EventSchema.Proofs.Document.Forms
import EventSchema.Proofs.Report.ModelJson
import EventSchema.Proofs.Program.Output
import EventSchema.Proofs.Draft.Properties
import EventSchema.Proofs.Draft.Refusal
import EventSchema.Proofs.Draft.Redefinition
import EventSchema.Proofs.Source.Concatenation
import EventSchema.Proofs.Source.LiteralExtent
import EventSchema.Proofs.Draft.Admission
import EventSchema.Proofs.Draft.Standing
import EventSchema.Proofs.Draft.Atomicity
import EventSchema.Proofs.Compilation.ReadingOrder
import EventSchema.Proofs.Document.Recording
import EventSchema.Proofs.Document.Paths
import EventSchema.Proofs.Compilation.Referenced
import EventSchema.Proofs.Text.NumeralForm
import EventSchema.Proofs.Model.ProviderIdForm
import EventSchema.Proofs.Model.ProviderIdLiteral
import EventSchema.Proofs.Draft.EventSymbol
import EventSchema.Proofs.Cursor.Safety

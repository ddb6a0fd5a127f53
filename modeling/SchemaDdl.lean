import SchemaDdl.Main
import SchemaDdl.Session
import SchemaDdl.Places
import SchemaDdl.Proofs.Lexing.Chain
import SchemaDdl.Proofs.Splitting.Pieces
import SchemaDdl.Proofs.Lexing.Trim
import SchemaDdl.Proofs.Splitting.Segments
import SchemaDdl.Proofs.Splitting.Agreement
import SchemaDdl.Proofs.Reading.Depth
import SchemaDdl.Proofs.Reading.Excerpt
import SchemaDdl.Proofs.Ddl.Wording
import SchemaDdl.Proofs.Ddl.Legible
import SchemaDdl.Proofs.Ddl.Sequence
import SchemaDdl.Proofs.Ddl.Decoding
import SchemaDdl.Proofs.Outline.Basic
import SchemaDdl.Proofs.Outline.Script
import SchemaDdl.Proofs.Outline.Keys
import SchemaDdl.Proofs.Outline.Placement
import SchemaDdl.Proofs.Outline.Comments
import SchemaDdl.Proofs.Fallible
import SchemaDdl.Proofs.Outline.Resolution
import SchemaDdl.Proofs.Outline.Entries
import SchemaDdl.Proofs.Outline.Reread
import SchemaDdl.Proofs.Reading.Clauses
import SchemaDdl.Proofs.Reading.Sound
import SchemaDdl.Proofs.Outline.Declared
import SchemaDdl.Proofs.Outline.RoundTrip
import SchemaDdl.Proofs.Outline.FixedPoint
import SchemaDdl.Proofs.Check.Faultless
import SchemaDdl.Proofs.Outline.Scripted
import SchemaDdl.Proofs.Check.WellFormed
import SchemaDdl.Proofs.Outline.Parsed
import SchemaDdl.Proofs.Outline.Canonical
import SchemaDdl.Proofs.Outline.Similar
import SchemaDdl.Proofs.Reading.Body
import SchemaDdl.Proofs.Outline.Order
import SchemaDdl.Proofs.Decimal.Finite
import SchemaDdl.Proofs.Decimal.NumberText
import SchemaDdl.Proofs.Document.Coordinates
import SchemaDdl.Proofs.Document.Fields
import SchemaDdl.Proofs.Document.RoundTrip
import SchemaDdl.Proofs.Reading.Lenient
import SchemaDdl.Proofs.Ddl.References
import SchemaDdl.Proofs.Ddl.Renaming
import SchemaDdl.Proofs.Document.Reloading
import SchemaDdl.Proofs.Document.Parsed
import SchemaDdl.Proofs.CommandLine.Written
import SchemaDdl.Proofs.CommandLine.Pipeline
import SchemaDdl.Proofs.Ddl.Inventory
import SchemaDdl.Proofs.Ddl.Contents
import SchemaDdl.Proofs.Json.Canonical
import SchemaDdl.Proofs.Document.Lookup
import SchemaDdl.Proofs.Check.SoundShape
import SchemaDdl.Proofs.Json.Members
import SchemaDdl.Proofs.Check.Decodable
import SchemaDdl.Proofs.Document.Checked
import SchemaDdl.Proofs.Check.Encoded
import SchemaDdl.Proofs.Check.Resolving
import SchemaDdl.Proofs.Check.Flaws
import SchemaDdl.Proofs.Ddl.Invariance
import SchemaDdl.Proofs.Lexing.Blanking
import SchemaDdl.Proofs.Splitting.Blanking
import SchemaDdl.Proofs.Paired
import SchemaDdl.Proofs.Reading.Alike
import SchemaDdl.Proofs.Reading.BlankedItems
import SchemaDdl.Proofs.Reading.BlankedStatements
import SchemaDdl.Proofs.Outline.Blanking
import SchemaDdl.Proofs.Document.ConstraintNames
import SchemaDdl.Proofs.Check.Normalized
import SchemaDdl.Proofs.Outline.Resolver
import SchemaDdl.Proofs.Reading.UnsupportedClauses
import SchemaDdl.Proofs.Splitting.Joined
import SchemaDdl.Proofs.Reading.Malformed
import SchemaDdl.Proofs.Reading.ImplicitKey
import SchemaDdl.Proofs.Reading.SupportedClauses
import SchemaDdl.Proofs.Reading.Grammar
import SchemaDdl.Proofs.Splitting.Lines
import SchemaDdl.Proofs.Lexing.Spans
import SchemaDdl.Proofs.Ddl.Quoting
import SchemaDdl.Proofs.Cursor.Attempt
import SchemaDdl.Proofs.Cursor.Scanner
import SchemaDdl.Proofs.Cursor.Captures
import SchemaDdl.Proofs.Cursor.Columns
import SchemaDdl.Proofs.Cursor.Items
import SchemaDdl.Proofs.Cursor.Parens
import SchemaDdl.Proofs.Cursor.Statements
import SchemaDdl.Proofs.Cursor.Indexed
import SchemaDdl.Proofs.Cursor.Faultless
import SchemaDdl.Proofs.Text.FreeNames
import SchemaDdl.Proofs.Text.Sanitized

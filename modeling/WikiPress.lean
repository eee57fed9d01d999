import WikiPress.Batch.Convert
import WikiPress.Batch.Index
import WikiPress.Batch.Settings
import WikiPress.Command.Arguments
import WikiPress.Command.Reach
import WikiPress.Command.Run
import WikiPress.Config.File
import WikiPress.Config.Token
import WikiPress.Document.Basic
import WikiPress.Document.Nesting
import WikiPress.Document.Run
import WikiPress.Document.Same
import WikiPress.Document.Style
import WikiPress.FileSystem
import WikiPress.Inclusion.Expand
import WikiPress.Inclusion.Splice
import WikiPress.Inline.Construct
import WikiPress.Inline.Marker
import WikiPress.Inline.Runs
import WikiPress.Json.Document
import WikiPress.Json.Value
import WikiPress.Main
import WikiPress.Outline
import WikiPress.Path
import WikiPress.Reference
import WikiPress.Source.Cursor
import WikiPress.Source.Error
import WikiPress.Source.Header
import WikiPress.Source.Line
import WikiPress.Source.LineKind
import WikiPress.Source.Listing
import WikiPress.Source.Parse
import WikiPress.Source.Table
import WikiPress.Statistics
import WikiPress.Text.Quoted
import WikiPress.Text.Space
import WikiPress.Text.Split
import WikiPress.Text.Utf8
import WikiPress.Text.Visible
import WikiPress.Wiki.Page
import WikiPress.Wiki.Run
import WikiPress.Proofs.Batch.Failure
import WikiPress.Proofs.Batch.Pages
import WikiPress.Proofs.Command.Rendering
import WikiPress.Proofs.Document.Tree
import WikiPress.Proofs.Files.Walks
import WikiPress.Proofs.Inclusion.Completeness
import WikiPress.Proofs.Inclusion.Cycles
import WikiPress.Proofs.Inclusion.Ending
import WikiPress.Proofs.Inclusion.Lookup
import WikiPress.Proofs.Inclusion.Meaning
import WikiPress.Proofs.Inclusion.Resumption
import WikiPress.Proofs.Inclusion.Substitution
import WikiPress.Proofs.Inclusion.Transclusion
import WikiPress.Proofs.Inline.Characters
import WikiPress.Proofs.Inline.Markup
import WikiPress.Proofs.Inline.Spans
import WikiPress.Proofs.Inline.Styles
import WikiPress.Proofs.Path.References
import WikiPress.Proofs.Source.Acceptance
import WikiPress.Proofs.Source.Concatenation
import WikiPress.Proofs.Source.Grammar
import WikiPress.Proofs.Source.Kinds
import WikiPress.Proofs.Source.Lines
import WikiPress.Proofs.Source.Lists
import WikiPress.Proofs.Source.Regions
import WikiPress.Proofs.Text.Cuts
import WikiPress.Proofs.Text.Trimming
import WikiPress.Proofs.Wiki.Lines
import WikiPress.Proofs.Wiki.Nesting
import WikiPress.Proofs.Wiki.Pieces
import WikiPress.Proofs.Source.Mistakes
import WikiPress.Proofs.Path.Below
import WikiPress.Proofs.Batch.Index
import WikiPress.Proofs.Document.Texts
import WikiPress.Proofs.Document.Outline
import WikiPress.Proofs.Files.Directories
import WikiPress.Proofs.Files.Writes
import WikiPress.Proofs.Batch.Order
import WikiPress.Proofs.Document.Sections
import WikiPress.Proofs.Path.Cleaning
import WikiPress.Proofs.Wiki.Literal
import WikiPress.Proofs.Source.Building
import WikiPress.Proofs.Inline.Content
import WikiPress.Proofs.Inline.Escapes
import WikiPress.Proofs.Inline.Colors
import WikiPress.Proofs.Document.Gathering
import WikiPress.Proofs.Document.Runs
import WikiPress.Proofs.Wiki.Marks
import WikiPress.Proofs.Wiki.Tables
import WikiPress.Proofs.Command.Origins
import WikiPress.Proofs.Document.Paragraphs
import WikiPress.Proofs.Source.Breaks
import WikiPress.Proofs.Inline.Boundaries
import WikiPress.Proofs.Source.People
import WikiPress.Proofs.Source.Progress
import WikiPress.Path.Raw
import WikiPress.Proofs.Path.Canonical
import WikiPress.Proofs.Path.Shown
import WikiPress.Proofs.Inclusion.Loop

import ErbLayout.Arguments
import ErbLayout.Block
import ErbLayout.ClassOrder
import ErbLayout.Code.Balance
import ErbLayout.Code.CodeTag
import ErbLayout.Code.Keyword
import ErbLayout.Code.Kind
import ErbLayout.Command
import ErbLayout.Construct
import ErbLayout.Directive
import ErbLayout.Document
import ErbLayout.Event
import ErbLayout.Failure
import ErbLayout.Filter.Basic
import ErbLayout.Filter.Copy
import ErbLayout.Filter.Editor
import ErbLayout.Filter.Exchange
import ErbLayout.Filter.Expression
import ErbLayout.Filter.Octet
import ErbLayout.Filter.Script
import ErbLayout.Filter.Select
import ErbLayout.Filter.Switch
import ErbLayout.FrontMatter
import ErbLayout.Glob
import ErbLayout.IgnoreList
import ErbLayout.Layout.Attributes
import ErbLayout.Layout.Packing
import ErbLayout.Layout.Reflow
import ErbLayout.Main
import ErbLayout.Marker
import ErbLayout.Markup.Attribute
import ErbLayout.Markup.Name
import ErbLayout.Markup.Tag
import ErbLayout.Markup.Token
import ErbLayout.Path
import ErbLayout.Proofs.Acceptance
import ErbLayout.Proofs.Adjacency
import ErbLayout.Proofs.CanonicalLayout
import ErbLayout.Proofs.Code.Balance
import ErbLayout.Proofs.Code.CodeTag
import ErbLayout.Proofs.Code.Delimiters
import ErbLayout.Proofs.Code.Kind
import ErbLayout.Proofs.Code.NormalForm
import ErbLayout.Proofs.Code.OpaqueText
import ErbLayout.Proofs.Code.RestoredTags
import ErbLayout.Proofs.CodeSign
import ErbLayout.Proofs.Document
import ErbLayout.Proofs.Extraction
import ErbLayout.Proofs.FailurePlace
import ErbLayout.Proofs.FailureText
import ErbLayout.Proofs.FrontMatter
import ErbLayout.Proofs.FrontMatterLayout
import ErbLayout.Proofs.FrontMatterLines
import ErbLayout.Proofs.Glob
import ErbLayout.Proofs.Idempotence
import ErbLayout.Proofs.IgnoreList
import ErbLayout.Proofs.KeptCode
import ErbLayout.Proofs.LaidTokens
import ErbLayout.Proofs.Layout.Attributes
import ErbLayout.Proofs.Layout.Content
import ErbLayout.Proofs.Layout.GreedyPacking
import ErbLayout.Proofs.Layout.KeptAttributes
import ErbLayout.Proofs.Layout.Lines
import ErbLayout.Proofs.Layout.OpeningTag
import ErbLayout.Proofs.Layout.Packing
import ErbLayout.Proofs.Layout.SettledTag
import ErbLayout.Proofs.Layout.Spread
import ErbLayout.Proofs.Layout.Squeeze
import ErbLayout.Proofs.Layout.SteadyTag
import ErbLayout.Proofs.Layout.TagWidth
import ErbLayout.Proofs.Layout.TidyLines
import ErbLayout.Proofs.LeadingBlanks
import ErbLayout.Proofs.Lockstep
import ErbLayout.Proofs.Marker
import ErbLayout.Proofs.Markup.Attribute
import ErbLayout.Proofs.Markup.AttributeList
import ErbLayout.Proofs.Markup.Rereading
import ErbLayout.Proofs.Markup.Rows
import ErbLayout.Proofs.Markup.Squeeze
import ErbLayout.Proofs.Markup.SqueezedTokens
import ErbLayout.Proofs.Markup.Tag
import ErbLayout.Proofs.Markup.Tiling
import ErbLayout.Proofs.Nesting
import ErbLayout.Proofs.OpenBlocks
import ErbLayout.Proofs.Pages
import ErbLayout.Proofs.Path
import ErbLayout.Proofs.PlacedTags
import ErbLayout.Proofs.Preservation
import ErbLayout.Proofs.Reextraction
import ErbLayout.Proofs.RelaidRows
import ErbLayout.Proofs.RelaidTag
import ErbLayout.Proofs.RelaidText
import ErbLayout.Proofs.RenderedCode
import ErbLayout.Proofs.Reopening
import ErbLayout.Proofs.RowLayout
import ErbLayout.Proofs.Scanner
import ErbLayout.Proofs.Session.Interleaving
import ErbLayout.Proofs.Session.Layouts
import ErbLayout.Proofs.Session.Rewriting
import ErbLayout.Proofs.Session.Workers
import ErbLayout.Proofs.Settings.Discovery
import ErbLayout.Proofs.Settings.Precedence
import ErbLayout.Proofs.Settings.WorkingFolder
import ErbLayout.Proofs.SortedClasses
import ErbLayout.Proofs.SteadyBody
import ErbLayout.Proofs.SteadyRows
import ErbLayout.Proofs.Text.Blank
import ErbLayout.Proofs.Text.Bytes
import ErbLayout.Proofs.Text.Occurrence
import ErbLayout.Proofs.Text.Pieces
import ErbLayout.Proofs.Text.Squeeze
import ErbLayout.Proofs.Text.Width
import ErbLayout.Proofs.TextWidth
import ErbLayout.Proofs.TidyDocument
import ErbLayout.Proofs.Trace
import ErbLayout.Proofs.Tree
import ErbLayout.Proofs.UnreachedCauses
import ErbLayout.Scanner
import ErbLayout.Session.Basic
import ErbLayout.Session.Notice
import ErbLayout.Session.Usage
import ErbLayout.Settings.Basic
import ErbLayout.Settings.Discovery
import ErbLayout.Settings.Toml
import ErbLayout.System
import ErbLayout.Text.Advance
import ErbLayout.Text.Basic
import ErbLayout.Text.Blank
import ErbLayout.Text.Bytes
import ErbLayout.Text.Number
import ErbLayout.Text.Pictograph
import ErbLayout.Text.Quoted
import ErbLayout.Text.Ranges
import ErbLayout.Text.Recogniser
import ErbLayout.Text.Unprintable
import ErbLayout.Text.Width
import ErbLayout.Text.Wordlike
import ErbLayout.Tree

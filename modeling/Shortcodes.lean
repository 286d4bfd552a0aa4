import Shortcodes.Context
import Shortcodes.Failure
import Shortcodes.Format.Basic
import Shortcodes.Format.Filling
import Shortcodes.Html.Arena
import Shortcodes.Html.Builder.Basic
import Shortcodes.Html.Builder.Body
import Shortcodes.Html.Builder.Formatting
import Shortcodes.Html.Builder.Modes
import Shortcodes.Html.Builder.Table
import Shortcodes.Html.Document
import Shortcodes.Html.Fragment
import Shortcodes.Html.Lookup.Basic
import Shortcodes.Html.LooseTag
import Shortcodes.Html.Names
import Shortcodes.Html.Node
import Shortcodes.Html.Reference
import Shortcodes.Html.ReferenceNames
import Shortcodes.Html.Token.Basic
import Shortcodes.Html.Token.Doctype
import Shortcodes.Html.Token.Next
import Shortcodes.Json.Basic
import Shortcodes.Json.Double
import Shortcodes.Json.Printer
import Shortcodes.Json.Reader
import Shortcodes.Json.Shortest
import Shortcodes.Proofs.Format.Filling
import Shortcodes.Proofs.Html.Anchor
import Shortcodes.Proofs.Html.Arena
import Shortcodes.Proofs.Html.EmptyBody
import Shortcodes.Proofs.Html.FirstTag
import Shortcodes.Proofs.Html.LooseTag
import Shortcodes.Proofs.Html.OpeningTag
import Shortcodes.Proofs.Html.Reference
import Shortcodes.Proofs.Html.Standing.Basic
import Shortcodes.Proofs.Html.Standing.Body
import Shortcodes.Proofs.Html.Standing.Modes
import Shortcodes.Proofs.Html.TopLevel
import Shortcodes.Proofs.Registry.Expansion
import Shortcodes.Proofs.Shortcode.Link
import Shortcodes.Proofs.Shortcode.Ownership
import Shortcodes.Proofs.Shortcode.Reversal
import Shortcodes.Proofs.Signature.Canonical
import Shortcodes.Proofs.Signature.Keyword
import Shortcodes.Proofs.Signature.KeywordExact
import Shortcodes.Proofs.Signature.Positional
import Shortcodes.Proofs.Tag.Given
import Shortcodes.Proofs.Tag.Scan
import Shortcodes.Proofs.Text
import Shortcodes.Proofs.Word.Reading
import Shortcodes.Proofs.Word.Writing
import Shortcodes.Registry
import Shortcodes.Settings.Basic
import Shortcodes.Settings.Key
import Shortcodes.Shortcode.Basic
import Shortcodes.Shortcode.Html
import Shortcodes.Shortcode.Listing
import Shortcodes.Signature.Arguments
import Shortcodes.Signature.Basic
import Shortcodes.Signature.Canonical
import Shortcodes.Signature.Policy
import Shortcodes.Tag.Basic
import Shortcodes.Tag.Given
import Shortcodes.Text.Basic
import Shortcodes.Text.Blank
import Shortcodes.Text.Cased
import Shortcodes.Text.Listing
import Shortcodes.Text.Lower
import Shortcodes.Text.Numeral
import Shortcodes.Text.Unshown
import Shortcodes.Toml.Document
import Shortcodes.Toml.Scalar
import Shortcodes.Word.Basic
import Shortcodes.Word.Reading
import Shortcodes.Word.Writing
import Shortcodes.Proofs.Html.Crossing
import Shortcodes.Proofs.Html.Extent
import Shortcodes.Proofs.Shortcode.Built
import Shortcodes.Proofs.Shortcode.RenderedExtent
import Shortcodes.Proofs.Shortcode.ShownMarker
import Shortcodes.Proofs.Shortcode.WrittenTags
import Shortcodes.Proofs.Tag.Joining
import Shortcodes.Proofs.Registry.Piecewise
import Shortcodes.Proofs.Registry.Registration
import Shortcodes.Proofs.Shortcode.Spans
import Shortcodes.Proofs.Registry.Passes
import Shortcodes.Proofs.Word.Faults
import Shortcodes.Proofs.Word.Joining
import Shortcodes.Proofs.Word.Weight
import Shortcodes.Proofs.Word.Rows
import Shortcodes.Proofs.Tag.Pattern
import Shortcodes.Proofs.Tag.Grammar
import Shortcodes.Proofs.Tag.Trimming
import Shortcodes.Proofs.Signature.Acceptance
import Shortcodes.Proofs.Signature.ByPosition
import Shortcodes.Proofs.Signature.KeyOrder
import Shortcodes.Proofs.Signature.RepeatedKeys
import Shortcodes.Proofs.Signature.Filling
import Shortcodes.Proofs.Signature.UnknownKeys
import Shortcodes.Proofs.Signature.Least
import Shortcodes.Proofs.Format.Reading
import Shortcodes.Proofs.Format.Rendering
import Shortcodes.Proofs.Format.Escaping
import Shortcodes.Proofs.Shortcode.DeclaredInputs
import Shortcodes.Proofs.Format.Outputs
import Shortcodes.Proofs.Html.Lookup.Reading
import Shortcodes.Proofs.Html.Lookup.Order
import Shortcodes.Proofs.Html.TagGrammar
import Shortcodes.Proofs.Html.Rereading.Marked
import Shortcodes.Proofs.Settings.Applying
import Shortcodes.Proofs.Word.Drafts
import Shortcodes.Proofs.Tag.Sorting
import Shortcodes.Proofs.Registry.Failures
import Shortcodes.Proofs.Html.Comment
import Shortcodes.Proofs.Shortcode.Comments
import Shortcodes.Proofs.Html.AddedClass
import Shortcodes.Proofs.Html.Balance

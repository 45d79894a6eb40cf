import MdxProse.Text.Blank
import MdxProse.Text.WordChar
import MdxProse.Text.Punctuation
import MdxProse.Text.Printable
import MdxProse.Text.CaseMap
import MdxProse.Document
import MdxProse.Expression
import MdxProse.Tag
import MdxProse.Tag.Balance
import MdxProse.Tag.Run
import MdxProse.CodeSpan
import MdxProse.Tag.Closer
import MdxProse.Event
import MdxProse.Error
import MdxProse.Block.Element
import MdxProse.Block.Paragraph
import MdxProse.Block.Container
import MdxProse.Text.Escape
import MdxProse.Block.Content
import MdxProse.Inline.Content
import MdxProse.Reading
import MdxProse.Embedded
import MdxProse.Settings
import MdxProse.Conversion
import MdxProse.Main
import MdxProse.Proofs.Locality
import MdxProse.Proofs.TagLocality
import MdxProse.Proofs.Nesting
import MdxProse.Proofs.Layout
import MdxProse.Proofs.TagRun
import MdxProse.Proofs.Lines
import MdxProse.Proofs.Regions
import MdxProse.Proofs.RunningText
import MdxProse.Proofs.LeafBlocks
import MdxProse.Proofs.ElementBlocks
import MdxProse.Proofs.Blocks
import MdxProse.Proofs.EmphasisNesting
import MdxProse.Proofs.TextCode
import MdxProse.Proofs.DocumentTree
import MdxProse.Proofs.Anchoring
import MdxProse.Proofs.BlockCode
import MdxProse.Proofs.Alignment
import MdxProse.Proofs.TextSpans
import MdxProse.Proofs.Failures
import MdxProse.Proofs.Unwrapping
import MdxProse.Proofs.Streams
import MdxProse.Proofs.Matching
import MdxProse.Proofs.PlainTags
import MdxProse.Proofs.TextMatching
import MdxProse.Proofs.PlainLines
import MdxProse.Proofs.TextElements
import MdxProse.Proofs.Rows
import MdxProse.Proofs.BlockElements
import MdxProse.Proofs.HiddenText
import MdxProse.Proofs.ClosingLine
import MdxProse.Proofs.OpaqueComments
import MdxProse.Proofs.DeepNesting
import MdxProse.Proofs.DefinitionText
import MdxProse.Proofs.MovedText
import MdxProse.Proofs.MovedBlocks
import MdxProse.Proofs.ProseBlocks
import MdxProse.Proofs.WrappedText
import MdxProse.Proofs.WrappedProse
import MdxProse.Proofs.WrittenHtml
import MdxProse.Proofs.ExpressionGrammar
import MdxProse.Proofs.IndentedContent
import MdxProse.Proofs.QuotedElement
import MdxProse.Proofs.TagGrammar
import MdxProse.Proofs.RestoredState
import MdxProse.Proofs.SilentCalls
import MdxProse.Proofs.TextPassages
import MdxProse.Proofs.FirstPartner
import MdxProse.Proofs.VisibleTags
import MdxProse.Proofs.ClosingRuns
import MdxProse.Proofs.FencedCode
import MdxProse.Proofs.TextCodeSpans
import MdxProse.Proofs.BalanceGrammar
import MdxProse.Proofs.StableScans
import MdxProse.Proofs.ReportedLines
import MdxProse.Proofs.LoneComment
import MdxProse.Proofs.FilledLines
import MdxProse.Proofs.CodeSpanRule
import MdxProse.Proofs.ExactAnchors
import MdxProse.Proofs.RunTree
import MdxProse.Proofs.LineBreaks

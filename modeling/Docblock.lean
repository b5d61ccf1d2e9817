import Docblock.Anchor
import Docblock.Markup.Paragraph
import Docblock.Markup
import Docblock.Lexeme
import Docblock.Text.Extending
import Docblock.Declaration
import Docblock.Passage
import Docblock.Reader
import Docblock.Catalog
import Docblock.Document
import Docblock.Diagnostic
import Docblock.Reading
import Docblock.Block
import Docblock.Document.Record
import Docblock.Document.Operation
import Docblock.Store
import Docblock.Format
import Docblock.FileTree
import Docblock.Path
import Docblock.FileTree.Access
import Docblock.Glob
import Docblock.Arguments
import Docblock.Glob.Search
import Docblock.Inputs
import Docblock.Log
import Docblock.Run
import Docblock.Main
import Docblock.Proofs.Occurrence
import Docblock.Proofs.Extent
import Docblock.Proofs.Composed
import Docblock.Proofs.Starts
import Docblock.Proofs.Resumption
import Docblock.Proofs.HeaderCourse
import Docblock.Proofs.Prose
import Docblock.Proofs.Labels
import Docblock.Proofs.Closing
import Docblock.Proofs.Words
import Docblock.Proofs.MemberHeader
import Docblock.Proofs.PlainDeclaration
import Docblock.Proofs.PlainProse
import Docblock.Proofs.FunctionNote
import Docblock.Proofs.Recording
import Docblock.Proofs.RoundTrip
import Docblock.Proofs.Seam
import Docblock.Proofs.Completion
import Docblock.Proofs.Abreast
import Docblock.Proofs.Joining
import Docblock.Proofs.Margins
import Docblock.Proofs.Edits
import Docblock.Proofs.Attributes
import Docblock.Proofs.Walk
import Docblock.Proofs.Order
import Docblock.Proofs.Notices
import Docblock.Proofs.Missing
import Docblock.Proofs.FaultLines
import Docblock.Proofs.HeldLexeme
import Docblock.Proofs.DeclarationEnd
import Docblock.Proofs.BetweenBlocks
import Docblock.Proofs.Segments
import Docblock.Proofs.Listings
import Docblock.Proofs.Operations
import Docblock.Proofs.StoredNodes
import Docblock.Proofs.PageNames
import Docblock.Proofs.Sections
import Docblock.Proofs.JsonReader
import Docblock.Proofs.JsonPage
import Docblock.Proofs.PagePieces
import Docblock.Proofs.Tags
import Docblock.Proofs.AnchorLinks
import Docblock.Proofs.ClosedTags
import Docblock.Proofs.Places
import Docblock.Proofs.Selection
import Docblock.Proofs.InputOrder
import Docblock.Proofs.NamedPaths
import Docblock.Proofs.InputFiles
import Docblock.Proofs.ProseLines
import Docblock.Proofs.Values
import Docblock.Proofs.CarriageReturns
import Docblock.Proofs.Routes
import Docblock.Proofs.MadeDirectories
import Docblock.Proofs.WrittenPages
import Docblock.Proofs.StandardInput
import Docblock.Proofs.Mutations
import Docblock.Proofs.Lookahead
import Docblock.Proofs.LexemeStream
import Docblock.Proofs.HeaderEffects
import Docblock.Proofs.Entities
import Docblock.Proofs.Signs
import Docblock.Proofs.ParagraphLines
import Docblock.Proofs.LinkNames
import Docblock.Proofs.EncodedText
import Docblock.Proofs.AnchorBytes
import Docblock.Proofs.Expansion
import Docblock.Proofs.Requests
import Docblock.Proofs.Rounds
import Docblock.Proofs.LoopsEnd

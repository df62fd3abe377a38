import DocTree.Encode
import DocTree.Html.Parse
import DocTree.Markup.Blankless
import DocTree.Markup.Outline
import DocTree.NormalForm
import DocTree.Realised
import DocTree.Respelt
import DocTree.Session
import DocTree.Traversal
import DocTree.Tree.Offence
import DocTree.Tree.Path
import DocTree.Proofs.Audit
import DocTree.Proofs.Reading
import DocTree.Proofs.Schema
import DocTree.Proofs.Soundness
import DocTree.Proofs.Copying
import DocTree.Proofs.Loading
import DocTree.Proofs.Traversing
import DocTree.Proofs.WellFormed
import DocTree.Proofs.Session
import DocTree.Proofs.Writing
import DocTree.Proofs.Building
import DocTree.Proofs.Alike
import DocTree.Proofs.RoundTrip
import DocTree.Proofs.Spelling
import DocTree.Proofs.Acceptance
import DocTree.Proofs.Adding
import DocTree.Proofs.Sharing
import DocTree.Proofs.Agreement
import DocTree.Proofs.Discriminants
import DocTree.Proofs.Mirroring
import DocTree.Proofs.Relabelling
import DocTree.Proofs.Nesting
import DocTree.Proofs.Normalising
import DocTree.Proofs.Conversion
import DocTree.Proofs.Evolving
import DocTree.Proofs.Parallel
import DocTree.Proofs.Composing
import DocTree.Proofs.Pruning
import DocTree.Proofs.Overlap
import DocTree.Markup.Declaration
import DocTree.Proofs.Declaration
import DocTree.Proofs.Reporting
import DocTree.Proofs.Properties
import DocTree.Proofs.Matching
import DocTree.Proofs.Respelling
import DocTree.Proofs.Reordering
import DocTree.Proofs.DocumentOrder
import DocTree.Proofs.TextContent

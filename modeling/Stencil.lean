import Stencil.Bundle.Basic
import Stencil.Listing.Plan
import Stencil.Workspace
import Stencil.Proofs.Render.Restoration
import Stencil.Proofs.Render.Closures
import Stencil.Proofs.Compile.Dispatch
import Stencil.Proofs.Compile.Reuse
import Stencil.Proofs.Compile.Pairing
import Stencil.Proofs.Compile.Alternatives
import Stencil.Proofs.Compile.Passing
import Stencil.Proofs.Compile.References
import Stencil.Proofs.Compile.Recursion
import Stencil.Proofs.Expr.Numerals
import Stencil.Proofs.Expr.Tokens
import Stencil.Proofs.Expr.Tokenizing
import Stencil.Proofs.Expr.Paths
import Stencil.Proofs.Expr.RoundTrip
import Stencil.Proofs.Render.Sections
import Stencil.Proofs.Render.Invariants
import Stencil.Proofs.Render.Nesting
import Stencil.Proofs.Compile.Chronicle
import Stencil.Proofs.Compile.Texts
import Stencil.Proofs.Render.Escaping
import Stencil.Proofs.Compile.Injection
import Stencil.Proofs.Markup.Spans
import Stencil.Proofs.Markup.Verbatim
import Stencil.Proofs.Markup.Standalone
import Stencil.Proofs.Render.Iterations
import Stencil.Proofs.Render.Contexts
import Stencil.Proofs.Compile.Layouts
import Stencil.Proofs.Compile.Registering
import Stencil.Proofs.Render.Scoping
import Stencil.Proofs.Markup.Trimming
import Stencil.Proofs.Compile.Sites
import Stencil.Proofs.Compile.Unchaining
import Stencil.Proofs.Render.Inversion
import Stencil.Proofs.Render.Iterables
import Stencil.Proofs.Render.Relative
import Stencil.Proofs.Render.Failover
import Stencil.Proofs.Compile.Literals
import Stencil.Proofs.Render.Missing
import Stencil.Proofs.Compile.Screening
import Stencil.Proofs.Markup.Progress
import Stencil.Proofs.Markup.Delimiters
import Stencil.Proofs.Compile.RawBlocks
import Stencil.Proofs.Expr.Grammar
import Stencil.Proofs.Encoding
import Stencil.Proofs.Expr.Suggestions
import Stencil.Proofs.Render.Positions
import Stencil.Proofs.Render.Strictness
import Stencil.Proofs.Compile.Interpolations
import Stencil.Proofs.Compile.Indentation
import Stencil.Proofs.Bundle
import Stencil.Proofs.Expr.Extending
import Stencil.Proofs.Compile.Lookups
import Stencil.Proofs.Markup.Numbering
import Stencil.Proofs.Render.Sharing

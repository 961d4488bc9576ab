import SmallLisp.Listing
import SmallLisp.Main
import SmallLisp.Source.Cursor
import SmallLisp.Proofs.Source.Atoms
import SmallLisp.Proofs.Source.Reading
import SmallLisp.Proofs.Binary64.Printing
import SmallLisp.Proofs.Source.Numerals
import SmallLisp.Proofs.Source.NumberText
import SmallLisp.Proofs.Value.Bare
import SmallLisp.Proofs.Source.Spelling
import SmallLisp.Proofs.Value.RoundTrip
import SmallLisp.Proofs.Evaluation.Nested
import SmallLisp.Proofs.Run.Compositional
import SmallLisp.Proofs.Evaluation.Compositional
import SmallLisp.Proofs.Run.Invariant
import SmallLisp.Proofs.Evaluation.Frames
import SmallLisp.Proofs.Value.Equality
import SmallLisp.Proofs.Value.Soundness
import SmallLisp.Proofs.Source.Literals
import SmallLisp.Proofs.Run.Ensures
import SmallLisp.Proofs.Run.Soundness
import SmallLisp.Proofs.Evaluation.Soundness
import SmallLisp.Proofs.Session.Keys
import SmallLisp.Proofs.Session.Faults
import SmallLisp.Proofs.Template.Rebuild
import SmallLisp.Proofs.Run.Limit
import SmallLisp.Proofs.Evaluation.Rules
import SmallLisp.Proofs.Evaluation.Template
import SmallLisp.Proofs.Source.Enclosed
import SmallLisp.Proofs.Session.Loading
import SmallLisp.Proofs.Evaluation.MapLiteral
import SmallLisp.Proofs.Evaluation.Handlers
import SmallLisp.Proofs.Value.Rereading
import SmallLisp.Proofs.Evaluation.Calling
import SmallLisp.Proofs.Run.Pairs
import SmallLisp.Proofs.Value.Likeness
import SmallLisp.Proofs.Run.Likeness
import SmallLisp.Proofs.Primitive.Likeness
import SmallLisp.Proofs.Evaluation.Likeness
import SmallLisp.Proofs.Value.Erasure
import SmallLisp.Proofs.Evaluation.Metadata
import SmallLisp.Proofs.Run.Growth
import SmallLisp.Proofs.Evaluation.Chains
import SmallLisp.Proofs.Run.Store
import SmallLisp.Proofs.Run.Chains
import SmallLisp.Proofs.Session.Frames
import SmallLisp.Proofs.Run.Looking
import SmallLisp.Proofs.Run.Scopes
import SmallLisp.Proofs.Run.Closed
import SmallLisp.Proofs.Primitive.Closed
import SmallLisp.Proofs.Value.Inspection
import SmallLisp.Proofs.Session.Lines
import SmallLisp.Proofs.Session.Prompt
import SmallLisp.Proofs.Value.Lookup
import SmallLisp.Proofs.Primitive.Maps
import SmallLisp.Value.Hash
import SmallLisp.Proofs.Value.Hashing
import SmallLisp.Proofs.Evaluation.Expansion
import SmallLisp.Proofs.Source.Comparable
import SmallLisp.Proofs.Evaluation.PlainTemplate
import SmallLisp.Proofs.Run.Tree
import SmallLisp.Proofs.Evaluation.Quiet
import SmallLisp.Proofs.Prelude.Macros
import SmallLisp.Proofs.Prelude.Cond
import SmallLisp.Proofs.Prelude.Or
import SmallLisp.Proofs.Run.Parameters
import SmallLisp.Proofs.Source.Lines
import SmallLisp.Proofs.Source.Layout
import SmallLisp.Proofs.Source.Spacing
import SmallLisp.Proofs.Source.Cursor
import SmallLisp.Proofs.Primitive.Comparisons
import SmallLisp.Proofs.Primitive.Division
import SmallLisp.Proofs.Evaluation.Entering
import SmallLisp.Proofs.Template.Malformed
import SmallLisp.Proofs.Evaluation.Malformed
import SmallLisp.Proofs.Evaluation.Recovery

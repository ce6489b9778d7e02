import FiniteState.Ordered
import FiniteState.OrderedSet
import FiniteState.LookupSet
import FiniteState.Text.Classes
import FiniteState.Text.Quoted
import FiniteState.Text.Columns
import FiniteState.Text.Emoji
import FiniteState.Text.Escape
import FiniteState.Text.Grid
import FiniteState.Text.Style
import FiniteState.Text.Width
import FiniteState.Text.Shown
import FiniteState.Label
import FiniteState.Word
import FiniteState.Partition
import FiniteState.Automaton.Adjacency
import FiniteState.Automaton.Arena
import FiniteState.Automaton.Basic
import FiniteState.Automaton.Growth
import FiniteState.Automaton.Build
import FiniteState.Traversal
import FiniteState.Numbering
import FiniteState.Automaton.Reachability
import FiniteState.Automaton.ShortestWord
import FiniteState.Construction.Regular
import FiniteState.Construction.Unfolding
import FiniteState.Construction.Determinization
import FiniteState.Construction.Removal
import FiniteState.Construction.Normal
import FiniteState.Construction.Quotient
import FiniteState.Construction.Product
import FiniteState.Expression.Basic
import FiniteState.Expression.Printing
import FiniteState.Token.Basic
import FiniteState.Token.Scanner
import FiniteState.Term.Basic
import FiniteState.Term.Parser
import FiniteState.Expression.Elimination
import FiniteState.Relation.Memo
import FiniteState.Relation.Matching
import FiniteState.Relation.Difference
import FiniteState.Relation.Containment
import FiniteState.Handle.Basic
import FiniteState.Handle.Relation
import FiniteState.Automaton.Description
import FiniteState.Draw.Generator
import FiniteState.Draw.Automaton
import FiniteState.Draw.Word
import FiniteState.Session.Command
import FiniteState.Session.Basic
import FiniteState.Proofs.FirstOccurrence
import FiniteState.Proofs.BreadthFirst
import FiniteState.Proofs.Traversal
import FiniteState.Proofs.Run
import FiniteState.Proofs.Automaton.Moves
import FiniteState.Proofs.Automaton.Language
import FiniteState.Proofs.Automaton.Acceptance
import FiniteState.Proofs.Automaton.Parts
import FiniteState.Proofs.Construction.Regular
import FiniteState.Proofs.Construction.Iteration
import FiniteState.Proofs.Automaton.Useful
import FiniteState.Proofs.Construction.SilentFree
import FiniteState.Proofs.Construction.Morphism
import FiniteState.Proofs.Numbering
import FiniteState.Proofs.Construction.Trimmed
import FiniteState.Proofs.Construction.Refinement
import FiniteState.Proofs.Construction.Quotient
import FiniteState.Proofs.Construction.Unfolding
import FiniteState.Proofs.Construction.Product
import FiniteState.Proofs.Construction.ReachablePart
import FiniteState.Proofs.Construction.Synchronized
import FiniteState.Proofs.Term.Meaning
import FiniteState.Proofs.Term.Grammar
import FiniteState.Proofs.Term.Parsing
import FiniteState.Proofs.Term.Unambiguous
import FiniteState.Proofs.Term.Denotation
import FiniteState.Proofs.Expression.Meaning
import FiniteState.Proofs.Expression.Passing
import FiniteState.Proofs.Expression.Elimination
import FiniteState.Proofs.Construction.Normal
import FiniteState.Proofs.Expression.Kleene
import FiniteState.Proofs.Relation.Memo
import FiniteState.Proofs.Relation.Inquiry
import FiniteState.Proofs.Automaton.Bisimulation
import FiniteState.Proofs.Relation.Matching
import FiniteState.Proofs.Handle.Basic
import FiniteState.Proofs.Handle.Coinductive
import FiniteState.Proofs.Automaton.Deterministic
import FiniteState.Proofs.Construction.Determinization
import FiniteState.Proofs.Construction.Complement
import FiniteState.Proofs.Construction.Subsets
import FiniteState.Proofs.Relation.Containment
import FiniteState.Proofs.Relation.Difference
import FiniteState.Proofs.Relation.LeastDifference
import FiniteState.Proofs.Handle.Comparison
import FiniteState.Proofs.Automaton.Residuals
import FiniteState.Proofs.Automaton.Spectrum
import FiniteState.Proofs.Construction.Minimization
import FiniteState.Proofs.Construction.CanonicalForm
import FiniteState.Proofs.Handle.Agreement
import FiniteState.Proofs.Token.Spelling
import FiniteState.Proofs.Term.Nesting
import FiniteState.Proofs.Expression.Tokens
import FiniteState.Proofs.Expression.Derivation
import FiniteState.Proofs.Token.Letters
import FiniteState.Proofs.Expression.Simplified
import FiniteState.Proofs.Expression.RoundTrip
import FiniteState.Proofs.Expression.Words
import FiniteState.Proofs.Expression.Ladder
import FiniteState.Proofs.Term.Sentence
import FiniteState.Proofs.Term.Blame
import FiniteState.Proofs.Automaton.Isomorphism
import FiniteState.Proofs.Partition
import FiniteState.Proofs.Construction.Reduction
import FiniteState.Proofs.Handle.Reduction
import FiniteState.Proofs.Handle.Counterexample
import FiniteState.Proofs.Handle.Trace
import FiniteState.Proofs.Automaton.WeakBisimulation
import FiniteState.Proofs.Handle.Simulation
import FiniteState.Proofs.Handle.WeakBisimulation
import FiniteState.Proofs.Automaton.ShortestWord
import FiniteState.Proofs.Relation.Violations
import FiniteState.Proofs.Handle.Verdicts
import FiniteState.Proofs.Term.Canonical
import FiniteState.Proofs.Automaton.Intact
import FiniteState.Proofs.Automaton.Path
import FiniteState.Proofs.Handle.Foreign
import FiniteState.Proofs.Session.Runs
import FiniteState.Proofs.Session.Identity
import FiniteState.Proofs.Automaton.Emptiness
import FiniteState.Proofs.Construction.Idempotence
import FiniteState.Proofs.Construction.Minimality
import FiniteState.Proofs.WordEnumeration
import FiniteState.Proofs.Token.Layout
import FiniteState.Proofs.Automaton.Build
import FiniteState.Proofs.Draw.Generator
import FiniteState.Proofs.Draw.Automaton
import FiniteState.Proofs.Relation.Journal
import FiniteState.Proofs.Relation.Bookkeeping
import FiniteState.Proofs.Handle.Journal
import FiniteState.Proofs.Relation.Attempt
import FiniteState.Proofs.Relation.Effort
import FiniteState.Proofs.Handle.Effort
import FiniteState.Proofs.Handle.Reachability
import FiniteState.Proofs.Expression.Parts
import FiniteState.Proofs.Draw.Rejection
import FiniteState.Proofs.Token.Numbers
import FiniteState.Proofs.Draw.Word

import RuleExpr.Document.StringTable
import RuleExpr.Document.Universe
import RuleExpr.Node.Eval
import RuleExpr.Node.Independence
import RuleExpr.Node.Same
import RuleExpr.Node.Text
import RuleExpr.Proofs.Footprint
import RuleExpr.Proofs.Independence
import RuleExpr.Proofs.Hoisting
import RuleExpr.Proofs.Naming
import RuleExpr.Proofs.ExactInteger
import RuleExpr.Proofs.Script.Canonical
import RuleExpr.Proofs.Finite.Evaluation
import RuleExpr.Proofs.WellFormed
import RuleExpr.Proofs.Unflagged
import RuleExpr.Proofs.Folding
import RuleExpr.Proofs.Sampling
import RuleExpr.Proofs.Script.Quoted
import RuleExpr.Proofs.Equality
import RuleExpr.Proofs.BeyondSlots
import RuleExpr.Proofs.Selection
import RuleExpr.Proofs.Decimal
import RuleExpr.Proofs.Script.Condition
import RuleExpr.Proofs.Json
import RuleExpr.Proofs.Reloading
import RuleExpr.Proofs.Unresolved
import RuleExpr.Proofs.History
import RuleExpr.Proofs.Reduction.Chain
import RuleExpr.Proofs.Reduction.MatchOrder
import RuleExpr.Proofs.Reduction.Mode
import RuleExpr.Proofs.Reduction.Integers
import RuleExpr.Proofs.Template
import RuleExpr.Proofs.Guard
import RuleExpr.Proofs.Path
import RuleExpr.Proofs.Intersection
import RuleExpr.Proofs.Equivalence
import RuleExpr.Proofs.Rewriting
import RuleExpr.Proofs.Reordering
import RuleExpr.Proofs.Draw
import RuleExpr.Proofs.Regrouping
import RuleExpr.Proofs.Script.Renaming
import RuleExpr.Proofs.Mixing

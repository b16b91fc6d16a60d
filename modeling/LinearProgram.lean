import LinearProgram.Formula.Basic
import LinearProgram.Proofs.Catalog.Ranges
import LinearProgram.Proofs.Catalog.Registry
import LinearProgram.Proofs.Constraint.Tree
import LinearProgram.Proofs.Expr.Postings
import LinearProgram.Proofs.Expr.Refusal
import LinearProgram.Proofs.LpText.Emission
import LinearProgram.Proofs.LpText.Names
import LinearProgram.Proofs.LpText.Spelling
import LinearProgram.Proofs.Model.Aggregation
import LinearProgram.Proofs.Model.FailedSealing
import LinearProgram.Proofs.Model.Loading
import LinearProgram.Proofs.Model.ReadOnly
import LinearProgram.Proofs.Model.Rearranged
import LinearProgram.Proofs.Model.RowNames
import LinearProgram.Proofs.Model.Storage
import LinearProgram.Proofs.Parameter.Check
import LinearProgram.Proofs.Parameter.FailedStore
import LinearProgram.Proofs.Solution
import LinearProgram.Proofs.Space.Labels

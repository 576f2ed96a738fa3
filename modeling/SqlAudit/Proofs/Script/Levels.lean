import SqlAudit.Proofs.Grammar.Levels
import SqlAudit.Proofs.Script.Nesting
import SqlAudit.Proofs.Script.Twins
/-!
The depth that a parser keeps. Expressions, queries, data types and statements leave it as they find
it, whatever it is, if they can be read. An error leaves it where it arose; a script starts each
statement over, but a statement read right behind one that failed starts as deep as that one got.
-/
namespace SqlAudit

open Grammar

namespace Script

variable {size : Nat} {a : Grammar} {f g : Frame} {c d e : Cursor} {node : Node}
  {error : SyntaxError}

/-- What is read on its own. -/
inductive IsUnit : Grammar → Prop
  | expression (power : Nat) : IsUnit (expressionOf power)
  | query : IsUnit query
  | dataType : IsUnit dataType
  | statement : IsUnit statement

theorem IsUnit.passes (isUnit : IsUnit a) : passes .lexical a true = true := by
  cases isUnit with
  | expression power => rfl
  | query => rfl
  | dataType => decide +kernel
  | statement => exact lexical_statement

theorem IsUnit.derives (isUnit : IsUnit a) (ordered : c.Ordered size)
    (ok : a.run rules f c = .ok (g, d)) : Derives rules a f c g d :=
  run_derives rfl (unbarred_lexical c) (fun name _ => lexical_rules name) isUnit.passes
    (within_range ordered c.depth) ok

theorem IsUnit.refuses (isUnit : IsUnit a) (ordered : c.Ordered size)
    (failed : a.run rules f c = .error (error, e)) : Refuses rules a f c error e :=
  run_refuses rfl (unbarred_lexical c) (fun name _ => lexical_rules name) isUnit.passes
    (within_range ordered c.depth) failed

end Script

end SqlAudit

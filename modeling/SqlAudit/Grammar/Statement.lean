import SqlAudit.Grammar.Alteration
import SqlAudit.Grammar.Creation
/-! Statements, told by their first word, and the rules of the nonterminals. -/
namespace SqlAudit.Grammar

def transactionWords : List String := [
  "BEGIN", "START", "COMMIT", "ROLLBACK", "ABORT", "SAVEPOINT", "RELEASE"]

/-- Statements that are recognized and not looked into. -/
def utilityWords : List String := [
  "ANALYZE", "CALL", "CHECKPOINT", "CLUSTER", "COMMENT", "COPY", "DISCARD", "EXPLAIN",
  "IMPORT", "LISTEN", "LOCK", "NOTIFY", "REASSIGN", "REFRESH", "REINDEX", "RESET",
  "SECURITY", "SHOW", "TRUNCATE", "UNLISTEN", "VACUUM"]

def transaction : Grammar :=
  .node .transaction
    (.branch (word "START")
      (takeAs .capitals ++ expectWord "TRANSACTION" ++ .write " TRANSACTION")
      (takeAs .capitals) ++
      restOfStatement)

def utility : Grammar := .node .otherStatement (takeAs .capitals ++ restOfStatement)

/-- One statement without the semicolon after it: one node. -/
def statement : Grammar :=
  choose [
    (startsQuery ||| symbol .openParen, queryStatement),
    (keyword .INSERT, .node .insert insertBody),
    (keyword .UPDATE, .node .update updateBody),
    (keyword .DELETE, .node .delete deleteBody),
    (keyword .CREATE, .call .createStatement),
    (keyword .ALTER, alter),
    (keyword .DROP, drop),
    (keyword .GRANT, grant),
    (keyword .REVOKE, revoke),
    (keyword .END ||| words transactionWords, transaction),
    (keywords [.SET, .DO] ||| words utilityWords, utility)]
  (.fail "statement")

def groupRule : Grammar :=
  inParens
    (.loop (~~~ symbol .closeParen)
      (choose [(symbol .openParen, group), (terminator ||| invalid, .fail ")")] .take))

def rules : Nonterminal → Grammar
  | .expression power => expressionFrom power
  | .query => queryRule
  | .joinedTable => joinedTable
  | .createStatement => createRule
  | .group => groupRule
  | .atomicBody => atomicBodyRule

end SqlAudit.Grammar

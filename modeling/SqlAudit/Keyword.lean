import SqlAudit.Text.Case
/-!
Reserved words: those that are never a bare name. Words with a meaning only in some places stay
names, and the grammar asks for them by their spelling.
-/
namespace SqlAudit

inductive Keyword where
  | SELECT | FROM | WHERE | ORDER | BY | GROUP | HAVING | LIMIT | OFFSET | DISTINCT | ALL
  | RETURNING | WITH | FOR
  | JOIN | INNER | LEFT | RIGHT | FULL | OUTER | CROSS | NATURAL | ON | USING | ONLY
  | UNION | INTERSECT | EXCEPT
  | INSERT | INTO | VALUES | UPDATE | SET | DELETE | DO
  | CREATE | DROP | ALTER | TABLE | COLUMN | GRANT | REVOKE | TO
  | PRIMARY | FOREIGN | REFERENCES | UNIQUE | CHECK | DEFAULT | CONSTRAINT | COLLATE
  | AND | OR | NOT | IN | BETWEEN | LIKE | ILIKE | IS | NULL | TRUE | FALSE | EXISTS
  | ASC | DESC
  | AS | CASE | WHEN | THEN | ELSE | END | CAST
  deriving DecidableEq, Repr

namespace Keyword

def all : List Keyword := [
  .SELECT, .FROM, .WHERE, .ORDER, .BY, .GROUP, .HAVING, .LIMIT, .OFFSET, .DISTINCT, .ALL,
  .RETURNING, .WITH, .FOR, .JOIN, .INNER, .LEFT, .RIGHT, .FULL, .OUTER, .CROSS, .NATURAL,
  .ON, .USING, .ONLY, .UNION, .INTERSECT, .EXCEPT, .INSERT, .INTO, .VALUES, .UPDATE, .SET,
  .DELETE, .DO, .CREATE, .DROP, .ALTER, .TABLE, .COLUMN, .GRANT, .REVOKE, .TO, .PRIMARY,
  .FOREIGN, .REFERENCES, .UNIQUE, .CHECK, .DEFAULT, .CONSTRAINT, .COLLATE, .AND, .OR, .NOT,
  .IN, .BETWEEN, .LIKE, .ILIKE, .IS, .NULL, .TRUE, .FALSE, .EXISTS, .ASC, .DESC, .AS, .CASE,
  .WHEN, .THEN, .ELSE, .END, .CAST]

def text : Keyword → String
  | .SELECT => "SELECT"
  | .FROM => "FROM"
  | .WHERE => "WHERE"
  | .ORDER => "ORDER"
  | .BY => "BY"
  | .GROUP => "GROUP"
  | .HAVING => "HAVING"
  | .LIMIT => "LIMIT"
  | .OFFSET => "OFFSET"
  | .DISTINCT => "DISTINCT"
  | .ALL => "ALL"
  | .RETURNING => "RETURNING"
  | .WITH => "WITH"
  | .FOR => "FOR"
  | .JOIN => "JOIN"
  | .INNER => "INNER"
  | .LEFT => "LEFT"
  | .RIGHT => "RIGHT"
  | .FULL => "FULL"
  | .OUTER => "OUTER"
  | .CROSS => "CROSS"
  | .NATURAL => "NATURAL"
  | .ON => "ON"
  | .USING => "USING"
  | .ONLY => "ONLY"
  | .UNION => "UNION"
  | .INTERSECT => "INTERSECT"
  | .EXCEPT => "EXCEPT"
  | .INSERT => "INSERT"
  | .INTO => "INTO"
  | .VALUES => "VALUES"
  | .UPDATE => "UPDATE"
  | .SET => "SET"
  | .DELETE => "DELETE"
  | .DO => "DO"
  | .CREATE => "CREATE"
  | .DROP => "DROP"
  | .ALTER => "ALTER"
  | .TABLE => "TABLE"
  | .COLUMN => "COLUMN"
  | .GRANT => "GRANT"
  | .REVOKE => "REVOKE"
  | .TO => "TO"
  | .PRIMARY => "PRIMARY"
  | .FOREIGN => "FOREIGN"
  | .REFERENCES => "REFERENCES"
  | .UNIQUE => "UNIQUE"
  | .CHECK => "CHECK"
  | .DEFAULT => "DEFAULT"
  | .CONSTRAINT => "CONSTRAINT"
  | .COLLATE => "COLLATE"
  | .AND => "AND"
  | .OR => "OR"
  | .NOT => "NOT"
  | .IN => "IN"
  | .BETWEEN => "BETWEEN"
  | .LIKE => "LIKE"
  | .ILIKE => "ILIKE"
  | .IS => "IS"
  | .NULL => "NULL"
  | .TRUE => "TRUE"
  | .FALSE => "FALSE"
  | .EXISTS => "EXISTS"
  | .ASC => "ASC"
  | .DESC => "DESC"
  | .AS => "AS"
  | .CASE => "CASE"
  | .WHEN => "WHEN"
  | .THEN => "THEN"
  | .ELSE => "ELSE"
  | .END => "END"
  | .CAST => "CAST"

/-- The keyword a word spells in any case. -/
def ofText? (word : String) : Option Keyword := all.find? fun k => k.text == Text.capitals word

end Keyword
end SqlAudit

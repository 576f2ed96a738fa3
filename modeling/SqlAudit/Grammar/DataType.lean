import SqlAudit.Grammar.Basic
/-!
Type names and numbers. The value of a type is its name in lowercase with a pair of brackets for
each array dimension; lengths and precisions are read over.
-/
namespace SqlAudit.Grammar

/-- A number with a sign, which becomes part of its value. -/
def signedNumber : Grammar :=
  .node .literal
    (.branch (symbol .minus) (.take ++ .write "-") (accept (symbol .plus)) ++
      .branch (.here .number) (takeAs .text) (.fail "number"))

/-- Names of types that go on with further words. -/
def typeWords : Grammar :=
  choose [
    (.valueIn ["double"], expectWord "PRECISION" ++ .write " precision"),
    (.valueIn ["national"],
      .write " " ++ name ++ whenever (word "VARYING") (.take ++ .write " varying")),
    (.valueIn ["character", "char", "bit"],
      whenever (word "VARYING") (.take ++ .write " varying")),
    (.valueIn ["timestamp", "time"], .nothing)]
  (.loop (symbol .dot) (.take ++ .write "." ++ name))

def timeZone : Grammar :=
  choose [
    (keyword .WITH &&& nextWord "TIME",
      .take ++ expectWord "TIME" ++ expectWord "ZONE" ++ .write " with time zone"),
    (word "WITHOUT",
      .take ++ expectWord "TIME" ++ expectWord "ZONE" ++ .write " without time zone")]
  .nothing

/-- The fields of an interval. -/
def intervalFields : Grammar :=
  .loop (words ["YEAR", "MONTH", "DAY", "HOUR", "MINUTE", "SECOND"] ||| keyword .TO) .take

/-- One array dimension after its opening bracket. -/
def dimension : Grammar := accept (.here .number) ++ expectSymbol .closeBracket

def dimensions : Grammar :=
  .loop (symbol .openBracket ||| word "ARRAY")
    (.branch (symbol .openBracket)
      (.take ++ dimension)
      (.take ++ whenever (symbol .openBracket) (.take ++ dimension)) ++ .write "[]")

def dataType : Grammar :=
  .node .dataType
    (.branch anyName (takeAs .lowered) (.fail "data type") ++
      typeWords ++
      whenever (symbol .openParen) group ++
      whenever (.valueIn ["timestamp", "time"]) timeZone ++
      whenever (.valueIn ["interval"]) intervalFields ++
      dimensions)

end SqlAudit.Grammar

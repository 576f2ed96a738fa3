import SqlAudit.Grammar.DataType
/-!
Expressions. `expressionFrom p` reads an operand and then operators as long as they bind at least
as tightly as `p`; each operator wraps what stands to its left.
-/
namespace SqlAudit.Grammar

def expressionOf (power : Nat) : Grammar := .call (.expression power)

def expression : Grammar := expressionOf 0

def expressionList : Grammar := commaList expression

def query : Grammar := .call .query

def startsQuery : Test := keywords [.SELECT, .WITH, .VALUES]

def nextStartsQuery : Test := nextKeywords [.SELECT, .WITH, .VALUES]

/-- Where nulls stand in an order. -/
def nullsPosition : Grammar :=
  whenever (word "NULLS")
    (.take ++ .gap ++ .write "NULLS " ++
      .branch (word "FIRST") (takeAs .capitals) (.copy .capitals ++ expectWord "LAST"))

def orderItem : Grammar :=
  .node .orderItem
    (expression ++
      choose [
        (keywords [.ASC, .DESC], takeAs .capitals),
        (keyword .USING, .take ++ .write "USING " ++ takeAs .described)]
      .nothing ++
      nullsPosition)

def orderBy : Grammar :=
  .node .orderBy (expectKeyword .ORDER ++ expectKeyword .BY ++ commaList orderItem)

def frameBound : Grammar :=
  .gap ++ .branch (word "CURRENT")
    (.take ++ expectWord "ROW" ++ .write "CURRENT ROW")
    (.branch (word "UNBOUNDED")
        (.take ++ .write "UNBOUNDED ")
        (expressionOf 7 ++ .write "OFFSET ") ++
      .branch (word "PRECEDING") (takeAs .capitals)
        (.copy .capitals ++ expectWord "FOLLOWING"))

/-- The rows around the current one that a window function sees. -/
def windowFrame : Grammar :=
  .node .windowFrame
    (takeAs .capitals ++
      whenever (keyword .BETWEEN)
        (.take ++ .write " BETWEEN" ++ frameBound ++ expectKeyword .AND ++ .write " AND") ++
      frameBound ++
      whenever (word "EXCLUDE")
        (.take ++ choose [
          (word "CURRENT", .take ++ expectWord "ROW" ++ .write " EXCLUDE CURRENT ROW"),
          (keyword .GROUP, .take ++ .write " EXCLUDE GROUP"),
          (word "TIES", .take ++ .write " EXCLUDE TIES")]
        (expectWord "NO" ++ expectWord "OTHERS" ++ .write " EXCLUDE NO OTHERS")))

def windowSpec : Grammar :=
  inParens
    (whenever (anyName &&& ~~~ words ["PARTITION", "ROWS", "RANGE", "GROUPS"]) identifier ++
      whenever (word "PARTITION")
        (.node .windowPartition (.take ++ expectKeyword .BY ++ expressionList)) ++
      whenever (keyword .ORDER) orderBy ++
      whenever (words ["ROWS", "RANGE", "GROUPS"]) windowFrame)

/-- Functions whose arguments stand between words rather than commas. -/
def wordyFunctions : List String := ["extract", "substring", "position", "trim", "overlay"]

def arguments : Grammar :=
  choose [
    (.valueIn wordyFunctions,
      .loop (~~~ symbol .closeParen)
        (.branch
          (symbol .comma ||| keywords [.FROM, .FOR, .IN] |||
            words ["PLACING", "BOTH", "LEADING", "TRAILING"])
          .take (expressionOf Binding.comparisonOperand))),
    (symbol .star, .node .wildcard (.write "*" ++ .take)),
    (symbol .closeParen, .nothing)]
  (.branch (keyword .DISTINCT) (.node .distinct .take) (accept (keyword .ALL)) ++
    expressionList ++ whenever (keyword .ORDER) orderBy)

/-- The rest of a function call, whose name is the value already. -/
def callTail : Grammar :=
  inParens arguments ++
  whenever (word "WITHIN") (.take ++ expectKeyword .GROUP ++ inParens orderBy) ++
  whenever (word "FILTER")
    (.node .whereClause (.take ++ inParens (expectKeyword .WHERE ++ expression))) ++
  whenever (word "OVER") (.node .window (.take ++ .branch (symbol .openParen) windowSpec name))

/-- A literal with its type in front, a column, a wildcard or a function call. -/
def nameExpression : Grammar :=
  .branch (.next .string)
    (.node .cast (.node .dataType name ++ .node .literal (takeAs .text) ++ .write "literal"))
    (.node .columnRef
      (name ++
        .loop (symbol .dot &&& ~~~ nextSymbol .star) (.take ++ .write "." ++ name) ++
        choose [
          (symbol .dot, .take ++ .take ++ .write ".*" ++ .become .wildcard),
          (symbol .openParen, .become .functionCall ++ callTail)]
        .nothing))

/-- A query or an expression in parentheses; several expressions make a row. -/
def parenthesized : Grammar :=
  .branch nextStartsQuery
    (.node .subquery (inParens query))
    (.node .row
      (inParens
        (expression ++
          .branch (symbol .comma) (.loop (symbol .comma) (.take ++ expression)) .dissolve)))

def caseExpression : Grammar :=
  .node .caseExpr
    (.take ++ unlessIs (keyword .WHEN) expression ++
      .branch (keyword .WHEN)
        (.loop (keyword .WHEN)
          (.node .whenClause (.take ++ expression ++ expectKeyword .THEN ++ expression)))
        (.fail "WHEN") ++
      whenever (keyword .ELSE) (.take ++ expression) ++ expectKeyword .END)

def castCall : Grammar :=
  .node .cast
    (.take ++ inParens (expression ++ expectKeyword .AS ++ dataType) ++ .write "CAST")

def arrayExpression : Grammar :=
  .node .array
    (.take ++ .branch (symbol .openParen)
      (inParens query)
      (expectSymbol .openBracket ++ unlessIs (symbol .closeBracket) expressionList ++
        expectSymbol .closeBracket))

def primary : Grammar :=
  choose [
    (keywords [.ALL, .LEFT, .RIGHT] &&& nextSymbol .openParen,
      .node .functionCall (takeAs .lowered ++ callTail)),
    (.here .number ||| .here .string ||| .here .bits, .node .literal (takeAs .text)),
    (keywords [.TRUE, .FALSE, .NULL, .DEFAULT], .node .literal (takeAs .capitals)),
    (.here .parameter, .node .parameter (takeAs .text)),
    (symbol .star, .node .wildcard (.write "*" ++ .take)),
    (symbol .openParen, parenthesized),
    (keyword .CASE, caseExpression),
    (keyword .CAST, castCall),
    (keyword .EXISTS, .node .existsTest (.take ++ inParens query)),
    (word "ARRAY", arrayExpression),
    (anyName, nameExpression)]
  (.fail "expression")

def operand : Grammar :=
  choose [
    (symbols [.minus, .plus, .bitNot],
      .node .unaryExpr (takeAs .described ++ expressionOf Binding.sign)),
    (keyword .NOT, .node .unaryExpr (takeAs .described ++ expressionOf Binding.logicalNot))]
  primary

def isTest : Grammar :=
  .wrap .isTest
    (.take ++ .write "IS " ++ whenever (keyword .NOT) (.take ++ .write "NOT ") ++
      choose [
        (keywords [.NULL, .TRUE, .FALSE] ||| word "UNKNOWN", takeAs .capitals),
        (keyword .DISTINCT,
          .take ++ expectKeyword .FROM ++ .write "DISTINCT FROM" ++
            expressionOf Binding.comparisonOperand)]
      (.fail "NULL, TRUE, FALSE, UNKNOWN or DISTINCT FROM"))

/-- The right side of a pattern match. -/
def pattern : Grammar :=
  expressionOf Binding.comparisonOperand ++
    whenever (word "ESCAPE") (.take ++ expressionOf Binding.comparisonOperand)

/-- IN, BETWEEN, LIKE and SIMILAR TO, perhaps denied. -/
def predicate : Grammar :=
  .wrap .binaryExpr
    (whenever (keyword .NOT) (takeAs .capitals ++ .gap) ++
      choose [
        (keyword .IN,
          .become .inList ++ takeAs .capitals ++
            .branch (symbol .openParen &&& nextStartsQuery)
              (.node .subquery (inParens query)) (inParens expressionList)),
        (keyword .BETWEEN,
          .become .between ++ takeAs .capitals ++ accept (word "SYMMETRIC") ++
            expressionOf Binding.comparisonOperand ++ expectKeyword .AND ++
            expressionOf Binding.comparisonOperand),
        (word "SIMILAR", .take ++ expectKeyword .TO ++ .write "SIMILAR TO" ++ pattern)]
      (takeAs .described ++ pattern))

def subscript : Grammar :=
  .wrap .subscript
    (.take ++ unlessIs (symbol .colon) expression ++
      whenever (symbol .colon) (.take ++ unlessIs (symbol .closeBracket) expression) ++
      expectSymbol .closeBracket)

def binaryAt (power : Nat) : Test × Grammar :=
  (.here (.infixAt power),
    .wrap .binaryExpr (takeAs .described ++ expressionOf (power + 1)))

/-- An operator after its left operand, and its other operands. -/
def operatorTail : Grammar :=
  choose ([
    (symbol .doubleColon, .wrap .cast (.take ++ .write "::" ++ dataType)),
    (keyword .COLLATE, .wrap .collate (.take ++ qualifiedName)),
    (symbol .openBracket, subscript),
    (keyword .IS, isTest),
    (keywords [.NOT, .IN, .BETWEEN, .LIKE, .ILIKE], predicate)] ++
    Binding.levels.map binaryAt)
  .nothing

/-- Casts, subscripts and collations bind more tightly than any infix operator. NOT is an operator
only before a predicate. -/
def continues (power : Nat) : Test :=
  symbols [.doubleColon, .openBracket] ||| keyword .COLLATE |||
    (.here (.infixFrom power) &&&
      (~~~ keyword .NOT ||| nextKeywords [.IN, .LIKE, .ILIKE, .BETWEEN] ||| nextWord "SIMILAR"))

def expressionFrom (power : Nat) : Grammar :=
  .deeper (operand ++ .loop (continues power) operatorTail)

end SqlAudit.Grammar

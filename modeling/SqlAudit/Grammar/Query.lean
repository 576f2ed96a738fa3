import SqlAudit.Grammar.Expression
/-!
Queries and the statements that change rows. A query is one `select` node: a single term gives up
its parts to it, terms joined by set operators stay together under their operator.
-/
namespace SqlAudit.Grammar

/-- Words that open a clause and so are no alias without AS. -/
def clauseWords : List String := [
  "WINDOW", "FETCH", "LATERAL", "RETURNING", "CONFLICT", "OVERRIDING", "TABLESAMPLE",
  "SHARD", "INHERITS", "PARTITION", "TABLESPACE", "NOWAIT", "SKIP"]

def startsAlias : Test :=
  keyword .AS ||| .here .quoted ||| (.here .anyWord &&& ~~~ words clauseWords)

/-- An alias around the last node. -/
def aliased : Grammar := .wrap .alias (accept (keyword .AS) ++ name)

def optionalAlias : Grammar := whenever startsAlias aliased

def whereClause : Grammar :=
  whenever (keyword .WHERE)
    (.node .whereClause
      (.take ++ .branch (word "CURRENT")
        (.take ++ expectWord "OF" ++ identifier ++ .write "CURRENT OF") expression))

/-- A function among the tables; its name is the last node. -/
def tableFunction : Grammar :=
  .wrap .functionCall
    (.splice ++ inParens (unlessIs (symbol .closeParen) expressionList) ++
      whenever (keyword .WITH) (.take ++ expectWord "ORDINALITY"))

/-- A table's alias may name its columns too, also when it was given inside the parentheses. -/
def tableAlias : Grammar :=
  .branch startsAlias
    (.wrap .alias
      (accept (keyword .AS) ++ name ++ whenever (symbol .openParen) columnList))
    (whenever (.lastIs .alias &&& symbol .openParen) (.wrap .alias (.splice ++ columnList)))

/-- A table, a function, a query or joined tables in parentheses. -/
def tableItem : Grammar :=
  .node .subquery
    (accept (word "LATERAL") ++
      .branch (symbol .openParen)
        (.take ++ .branch (startsQuery ||| symbol .openParen)
          query (.dissolve ++ .call .joinedTable) ++ expectSymbol .closeParen)
        (.dissolve ++ accept (keyword .ONLY) ++ qualifiedName ++
          .branch (symbol .openParen) tableFunction (accept (symbol .star)))) ++
  tableAlias

def joinWords : List Keyword := [.JOIN, .INNER, .CROSS, .LEFT, .RIGHT, .FULL]

def outerJoin : Grammar :=
  takeAs .capitals ++ accept (keyword .OUTER) ++ expectKeyword .JOIN ++ .write " JOIN"

def innerJoin : Grammar := takeAs .capitals ++ expectKeyword .JOIN ++ .write " JOIN"

/-- The words of a join as its value. NATURAL is not kept before INNER and CROSS. -/
def joinType : Grammar :=
  .branch (keyword .NATURAL)
    (.take ++ choose [
      (keyword .JOIN, .write "NATURAL JOIN" ++ .take),
      (keywords [.INNER, .CROSS], innerJoin),
      (keywords [.LEFT, .RIGHT, .FULL], .write "NATURAL " ++ outerJoin)]
    (.fail "JOIN"))
    (choose [
      (keyword .JOIN, takeAs .capitals),
      (keywords [.INNER, .CROSS], innerJoin)]
    outerJoin)

def joinCondition : Grammar :=
  choose [
    (keyword .ON, .node .joinCondition (takeAs .capitals ++ expression)),
    (keyword .USING, .node .joinCondition (takeAs .capitals ++ columnList))]
  .nothing

def joinedTable : Grammar :=
  tableItem ++
    .loop (keyword .NATURAL ||| keywords joinWords)
      (.wrap .join (joinType ++ tableItem ++ joinCondition))

def tables : Grammar := commaList (.call .joinedTable)

def distinct : Grammar :=
  .branch (keyword .DISTINCT)
    (.node .distinct
      (takeAs .capitals ++
        whenever (keyword .ON) (.take ++ .write " ON" ++ inParens expressionList)))
    (accept (keyword .ALL))

def selectList : Grammar := .node .selectList (commaList (expression ++ optionalAlias))

def intoTable : Grammar :=
  whenever (keyword .INTO)
    (.node .asQuery
      (takeAs .capitals ++ accept (word "TEMPORARY") ++ accept (word "TEMP") ++
        accept (word "UNLOGGED") ++ accept (keyword .TABLE) ++ qualifiedName))

def fromClause : Grammar := whenever (keyword .FROM) (.node .fromClause (.take ++ tables))

def groupBy : Grammar :=
  whenever (keyword .GROUP)
    (.node .groupBy
      (.take ++ expectKeyword .BY ++
        .branch (keyword .ALL) .take (accept (keyword .DISTINCT)) ++ expressionList))

def having : Grammar := whenever (keyword .HAVING) (.node .having (.take ++ expression))

def windows : Grammar :=
  whenever (word "WINDOW")
    (.node .window
      (.take ++ commaList (.node .windowDef (name ++ expectKeyword .AS ++ windowSpec))))

def selectTerm : Grammar :=
  .node .select
    (.take ++ distinct ++ selectList ++ intoTable ++ fromClause ++ whereClause ++ groupBy ++
      having ++ windows)

def values : Grammar :=
  .node .values (.take ++ commaList (.node .valuesRow (inParens expressionList)))

/-- An operand of a set operator. -/
def queryTerm : Grammar :=
  choose [
    (keyword .SELECT, selectTerm),
    (keyword .VALUES, .node .select values),
    (symbol .openParen, inParens query)]
  (.fail "SELECT or VALUES")

def setOperator : Test := keywords [.UNION, .INTERSECT, .EXCEPT]

def setOperation : Grammar :=
  .wrap .setOperation
    (takeAs .capitals ++
      whenever (keywords [.ALL, .DISTINCT]) (.gap ++ takeAs .capitals) ++ queryTerm)

def limit : Grammar :=
  .node .limit (.take ++ .branch (keyword .ALL) (takeAs .capitals) expression)

def offset : Grammar :=
  .node .offset
    (.take ++ expression ++ .branch (word "ROW") .take (accept (word "ROWS")))

def fetch : Grammar :=
  .node .limit
    (takeAs .capitals ++ .branch (word "FIRST") .take (expectWord "NEXT") ++
      unlessIs (words ["ROW", "ROWS"]) (expressionOf 20) ++
      .branch (word "ROW") .take (expectWord "ROWS") ++
      .branch (keyword .WITH) (.take ++ expectWord "TIES") (expectKeyword .ONLY))

def lockingWord : Test := keyword .UPDATE ||| words ["SHARE", "NO", "KEY"]

def locking : Grammar :=
  .node .locking
    (takeAs .capitals ++
      .branch lockingWord
        (.loop lockingWord (.gap ++ takeAs .capitals)) (.fail "UPDATE or SHARE") ++
      whenever (word "OF") (.take ++ .discard (commaList qualifiedName)) ++
      .branch (word "NOWAIT") .take (whenever (word "SKIP") (.take ++ expectWord "LOCKED")))

/-- What follows the terms of a query. -/
def queryTail : Grammar :=
  whenever (keyword .ORDER) orderBy ++
    .loop (keywords [.LIMIT, .OFFSET, .FOR] ||| word "FETCH")
      (choose [
        (keyword .LIMIT, limit),
        (keyword .OFFSET, offset),
        (word "FETCH", fetch)]
      locking)

def queryBody : Grammar :=
  .deeper
    (queryTerm ++ .branch setOperator (.loop setOperator setOperation) .splice ++ queryTail)

/-- A row in the target list of an assignment, or one column, whose subscript is not kept. -/
def assignment : Grammar :=
  .node .assignment
    (.branch (symbol .openParen)
      columnList
      (dottedName ++ whenever (symbol .openBracket)
        (.take ++ .discard expression ++ expectSymbol .closeBracket)) ++
      expectSymbol .equal ++ expression)

def assignments : Grammar := commaList assignment

def returning : Grammar :=
  whenever (keyword .RETURNING)
    (.node .returning (.take ++ commaList (expression ++ optionalAlias)))

/-- An element of an index: a column or an expression, perhaps an operator class, an order. -/
def indexElement : Grammar :=
  .node .indexElement
    (expression ++
      whenever (anyName &&& ~~~ word "NULLS")
        (qualifiedName ++ whenever (symbol .openParen) group) ++
      whenever (keywords [.ASC, .DESC]) (takeAs .capitals) ++
      nullsPosition)

def indexElements : Grammar := inParens (commaList indexElement)

def onConflict : Grammar :=
  whenever (keyword .ON)
    (.node .onConflict
      (.take ++ expectWord "CONFLICT" ++
        choose [
          (symbol .openParen, indexElements ++ whereClause),
          (keyword .ON, .take ++ expectKeyword .CONSTRAINT ++ identifier)]
        .nothing ++
        expectKeyword .DO ++
        .branch (word "NOTHING")
          (.take ++ .write "DO NOTHING")
          (expectKeyword .UPDATE ++ expectKeyword .SET ++ assignments ++ whereClause ++
            .write "DO UPDATE")))

def insertBody : Grammar :=
  expectKeyword .INSERT ++ expectKeyword .INTO ++ qualifiedName ++
    whenever (keyword .AS) aliased ++
    whenever (symbol .openParen &&& ~~~ (nextStartsQuery ||| nextSymbol .openParen)) columnList ++
    whenever (word "OVERRIDING")
      (.take ++ .branch (word "SYSTEM") .take (expectWord "USER") ++ expectWord "VALUE") ++
    .branch (keyword .DEFAULT)
      (.node .defaultValues (.take ++ expectKeyword .VALUES)) query ++
    onConflict ++ returning

/-- ONLY before the name of a table. -/
def onlyTable : Grammar := whenever (keyword .ONLY) (.node .only .take)

def updateBody : Grammar :=
  expectKeyword .UPDATE ++ onlyTable ++ qualifiedName ++ optionalAlias ++
    expectKeyword .SET ++ assignments ++ fromClause ++ whereClause ++ returning

def deleteBody : Grammar :=
  expectKeyword .DELETE ++ expectKeyword .FROM ++ onlyTable ++ qualifiedName ++ optionalAlias ++
    whenever (keyword .USING) (.node .usingClause (.take ++ tables)) ++
    whereClause ++ returning

/-- A named query, or a statement that returns rows. -/
def commonTable : Grammar :=
  .node .cte
    (name ++ whenever (symbol .openParen) columnList ++ expectKeyword .AS ++
      .branch (keyword .NOT)
        (.take ++ expectWord "MATERIALIZED") (accept (word "MATERIALIZED")) ++
      inParens
        (choose [
          (keyword .INSERT, .node .insert insertBody),
          (keyword .UPDATE, .node .update updateBody),
          (keyword .DELETE, .node .delete deleteBody)]
        query))

def withClause : Grammar :=
  .node .withClause
    (.take ++ whenever (word "RECURSIVE") (takeAs .capitals) ++ commaList commonTable)

def queryRule : Grammar := .node .select (whenever (keyword .WITH) withClause ++ queryBody)

/-- A query as a statement; its WITH may also lead a statement that changes rows. -/
def queryStatement : Grammar :=
  .branch (keyword .WITH)
    (withClause ++
      choose [
        (keyword .INSERT, .wrap .insert insertBody),
        (keyword .UPDATE, .wrap .update updateBody),
        (keyword .DELETE, .wrap .delete deleteBody)]
      (.wrap .select queryBody))
    query

end SqlAudit.Grammar

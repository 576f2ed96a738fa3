import SqlAudit.Grammar.Query
/-! Tables: columns, constraints, options and partitions, and the sequences behind columns. -/
namespace SqlAudit.Grammar

def ifNotExists : Grammar :=
  whenever (word "IF")
    (.node .ifNotExists (.take ++ expectKeyword .NOT ++ expectKeyword .EXISTS))

def ifExists : Grammar :=
  whenever (word "IF") (.node .ifExists (.take ++ expectKeyword .EXISTS))

def accessMethod : Grammar := .node .accessMethod (expectKeyword .USING ++ name)

def tablespace : Grammar := .node .tablespace (expectWord "TABLESPACE" ++ name)

/-- The value of an option: a signed number, a string or a word. -/
def optionValue : Grammar :=
  .branch (symbols [.minus, .plus] ||| .here .number)
    signedNumber
    (.node .literal
      (choose [
        (.here .string ||| .here .quoted, takeAs .text),
        (plainWord, takeAs .lowered)]
      (.fail "option value")))

def storageParameter : Grammar :=
  .node .storageParameter
    (dottedName ++ whenever (symbol .equal) (.take ++ optionValue))

def storageParameters : Grammar :=
  .node .storageParameters (expectKeyword .WITH ++ inParens (commaList storageParameter))

def startsStorageParameters : Test := keyword .WITH &&& nextSymbol .openParen

/-- WITH DATA or WITH NO DATA after a query. -/
def withData : Grammar :=
  choose [
    (keyword .WITH &&& nextWord "NO",
      .node .withData (.take ++ .take ++ expectWord "DATA" ++ .write "WITH NO DATA")),
    (keyword .WITH &&& nextWord "DATA", .node .withData (.take ++ .take ++ .write "WITH DATA"))]
  .nothing

def included : Grammar := .node .included (.take ++ columnList)

/-- What may follow the columns of a unique constraint. -/
def indexParameters : Grammar :=
  whenever (word "INCLUDE") included ++
  whenever startsStorageParameters storageParameters ++
  whenever (keyword .USING &&& nextWord "INDEX")
    (.node .tablespace (.take ++ .take ++ expectWord "TABLESPACE" ++ name))

def nullsDistinct : Grammar :=
  whenever (word "NULLS") (.take ++ accept (keyword .NOT) ++ expectKeyword .DISTINCT)

/-- Whether and when a constraint is checked; nothing of it is kept. -/
def constraintAttributes : Grammar :=
  .loop
    (words ["DEFERRABLE", "INITIALLY"] |||
      (keyword .NOT &&& .next (.words ["DEFERRABLE", "VALID"])))
    (choose [
      (word "DEFERRABLE", .take),
      (keyword .NOT, .take ++ .take)]
    (.take ++ .branch (word "DEFERRED") .take (expectWord "IMMEDIATE")))

def checkCondition : Grammar :=
  inParens expression ++ whenever (word "NO" &&& nextWord "INHERIT") (.take ++ .take)

/-- What happens to a row when the row it refers to changes. -/
def referentialAction : Grammar :=
  .node .referentialAction
    (takeAs .capitals ++ .gap ++ takeAs .capitals ++
      choose [
        (keyword .SET,
          .take ++ .branch (keyword .NULL)
            (.take ++ .write " SET NULL") (expectKeyword .DEFAULT ++ .write " SET DEFAULT") ++
          whenever (symbol .openParen) (.discard columnList)),
        (words ["CASCADE", "RESTRICT"], .gap ++ takeAs .capitals)]
      (expectWord "NO" ++ expectWord "ACTION" ++ .write " NO ACTION"))

def references : Grammar :=
  .node .references
    (expectKeyword .REFERENCES ++ qualifiedName ++ whenever (symbol .openParen) columnList ++
      whenever (word "MATCH") (.take ++ expect plainWord "FULL, PARTIAL or SIMPLE") ++
      .loop (keyword .ON &&& nextKeywords [.DELETE, .UPDATE]) referentialAction)

def sequenceOption : Grammar :=
  .node .sequenceOption
    (choose [
      (keyword .AS, takeAs .capitals ++ dataType),
      (word "INCREMENT", takeAs .capitals ++ accept (keyword .BY) ++ signedNumber),
      (words ["MINVALUE", "MAXVALUE", "CACHE"], takeAs .capitals ++ signedNumber),
      (word "START", takeAs .capitals ++ accept (keyword .WITH) ++ signedNumber),
      (word "RESTART",
        takeAs .capitals ++
          .branch (keyword .WITH)
            (.take ++ signedNumber) (whenever (.here .number) signedNumber)),
      (word "CYCLE", takeAs .capitals),
      (word "NO",
        takeAs .capitals ++
          .branch (words ["MINVALUE", "MAXVALUE"])
            (.gap ++ takeAs .capitals) (expectWord "CYCLE" ++ .write " CYCLE")),
      (word "OWNED",
        .take ++ expectKeyword .BY ++ .branch (word "NONE") .take qualifiedName ++
          .write "OWNED BY")]
    (.take ++ .take ++ qualifiedName ++ .write "SEQUENCE NAME"))

def startsSequenceOption : Test :=
  keyword .AS |||
    words ["INCREMENT", "MINVALUE", "MAXVALUE", "START", "RESTART", "CACHE", "CYCLE", "NO",
      "OWNED"] |||
    (word "SEQUENCE" &&& nextWord "NAME")

def sequenceOptions : Grammar := .loop startsSequenceOption sequenceOption

def identity : Grammar :=
  expectWord "IDENTITY" ++ whenever (symbol .openParen) (inParens sequenceOptions)

/-- What follows GENERATED: an identity or a stored expression, and what each says of the value. -/
def generated (asIdentity asStored : Grammar) : Grammar :=
  .branch (word "ALWAYS")
    (.take ++ expectKeyword .AS ++
      .branch (symbol .openParen)
        (inParens expression ++ expectWord "STORED" ++ asStored)
        (identity ++ asIdentity))
    (expectKeyword .BY ++ expectKeyword .DEFAULT ++ expectKeyword .AS ++ identity ++ asIdentity)

/-- The name of a constraint. -/
def constraintName : Grammar := whenever (keyword .CONSTRAINT) (.take ++ identifier)

def columnConstraint : Grammar :=
  .node .columnConstraint
    (constraintName ++
      choose [
        (keyword .NOT, takeAs .capitals ++ expectKeyword .NULL ++ .write " NULL"),
        (keyword .NULL, takeAs .capitals),
        (keyword .DEFAULT, takeAs .capitals ++ expression),
        (keyword .PRIMARY,
          takeAs .capitals ++ expectWord "KEY" ++ indexParameters ++ .write " KEY"),
        (keyword .UNIQUE, takeAs .capitals ++ nullsDistinct ++ indexParameters),
        (keyword .CHECK, takeAs .capitals ++ checkCondition),
        (keyword .REFERENCES, .copy .capitals ++ references),
        (keyword .COLLATE, takeAs .capitals ++ qualifiedName),
        (word "GENERATED",
          .take ++ generated (.write "IDENTITY") (.write "GENERATED STORED")),
        (words ["COMPRESSION", "STORAGE"], takeAs .capitals ++ optionValue)]
      (.fail "constraint") ++
      constraintAttributes)

def startsColumnConstraint : Test :=
  keywords [.CONSTRAINT, .NOT, .NULL, .DEFAULT, .PRIMARY, .UNIQUE, .CHECK, .REFERENCES,
    .COLLATE] |||
    words ["GENERATED", "COMPRESSION", "STORAGE"]

def columnDef : Grammar :=
  .node .columnDef (name ++ dataType ++ .loop startsColumnConstraint columnConstraint)

/-- Operators by which rows exclude each other: every symbol that is no delimiter. -/
def isExclusionOperator : Test :=
  .here .operator |||
    symbols [.plus, .minus, .star, .slash, .percent, .caret, .equal, .notEqual, .less, .lessEqual,
      .greater, .greaterEqual, .concat, .bitAnd, .bitOr, .bitNot, .shiftLeft, .shiftRight]

def exclusionOperator : Grammar :=
  .branch (word "OPERATOR")
    (.take ++ .write "OPERATOR(" ++
      inParens
        (.loop (~~~ symbol .closeParen)
          (.branch (terminator ||| invalid) (.fail ")") (takeAs .described))) ++
      .write ")")
    (.branch isExclusionOperator (takeAs .described) (.fail "operator"))

def exclusionElement : Grammar :=
  indexElement ++
    .wrap .indexElement
      (.splice ++ expectKeyword .WITH ++ .gap ++ .write "WITH " ++ exclusionOperator)

def startsTableConstraint : Test :=
  keywords [.CONSTRAINT, .PRIMARY, .UNIQUE, .CHECK, .FOREIGN] ||| word "EXCLUDE"

def tableConstraint : Grammar :=
  .node .tableConstraint
    (constraintName ++
      choose [
        (keyword .PRIMARY,
          .take ++ expectWord "KEY" ++ columnList ++ indexParameters ++ .write "PRIMARY KEY"),
        (keyword .UNIQUE, takeAs .capitals ++ nullsDistinct ++ columnList ++ indexParameters),
        (keyword .CHECK, takeAs .capitals ++ checkCondition),
        (keyword .FOREIGN,
          .take ++ expectWord "KEY" ++ columnList ++ references ++ .write "FOREIGN KEY"),
        (word "EXCLUDE",
          takeAs .capitals ++ whenever (keyword .USING) accessMethod ++
            inParens (commaList exclusionElement) ++ indexParameters ++
            whenever (keyword .WHERE) (.take ++ inParens expression))]
      (.fail "constraint") ++
      constraintAttributes)

def likeClause : Grammar :=
  .node .likeClause
    (.take ++ qualifiedName ++
      .loop (words ["INCLUDING", "EXCLUDING"]) (.take ++ expect plainWord "LIKE option"))

def tableElement : Grammar :=
  choose [(keyword .LIKE, likeClause), (startsTableConstraint, tableConstraint)] columnDef

def tableElements : Grammar :=
  inParens (unlessIs (symbol .closeParen) (commaList tableElement))

def optionalElements : Grammar := whenever (symbol .openParen) tableElements

/-- Which rows a partition takes; its form is the value. -/
def partitionBound : Grammar :=
  .branch (keyword .DEFAULT)
    (takeAs .capitals)
    (expectKeyword .FOR ++ expectKeyword .VALUES ++
      choose [
        (keyword .IN, .take ++ group ++ .write "FOR VALUES IN"),
        (keyword .FROM,
          .take ++ group ++ expectKeyword .TO ++ group ++ .write "FOR VALUES FROM")]
      (expectKeyword .WITH ++ group ++ .write "FOR VALUES WITH"))

def partitionOf : Grammar :=
  .node .partitionBound
    (.take ++ .take ++ qualifiedName ++ optionalElements ++ partitionBound)

def partitionBy : Grammar :=
  .node .partitionBy
    (.take ++ expectKeyword .BY ++
      .branch (words ["RANGE", "LIST", "HASH"]) (takeAs .capitals) (.fail "RANGE, LIST or HASH") ++
      indexElements)

def onCommit : Grammar :=
  .node .onCommit
    (.take ++ .take ++
      choose [
        (keyword .DROP, takeAs .capitals),
        (keyword .DELETE, .take ++ expectWord "ROWS" ++ .write "DELETE ROWS")]
      (expectWord "PRESERVE" ++ expectWord "ROWS" ++ .write "PRESERVE ROWS"))

def startsOnCommit : Test := keyword .ON &&& nextWord "COMMIT"

/-- The columns by which a table is spread over shards. -/
def shardKey : Grammar :=
  .node .shardKey (.take ++ expectWord "KEY" ++ columnList ++ .splice)

def tableOptions : Grammar :=
  .loop
    (words ["INHERITS", "PARTITION", "WITHOUT", "TABLESPACE", "SHARD"] ||| keyword .USING |||
      startsStorageParameters ||| startsOnCommit)
    (choose [
      (word "INHERITS", .node .inherits (.take ++ inParens (commaList qualifiedName))),
      (word "PARTITION", partitionBy),
      (keyword .USING, accessMethod),
      (keyword .WITH, storageParameters),
      (word "WITHOUT", .node .withoutOids (.take ++ expectWord "OIDS")),
      (keyword .ON, onCommit),
      (word "TABLESPACE", tablespace)]
    shardKey)

/-- AS and a query. -/
def asQuery : Grammar := .node .asQuery (expectKeyword .AS ++ query)

/-- What follows TABLE: a name, then elements, a type or a parent to take them from, or a query. -/
def createTable : Grammar :=
  .take ++ ifNotExists ++ qualifiedName ++
    .branch (symbol .openParen ||| word "OF" ||| (word "PARTITION" &&& nextWord "OF"))
      (choose [
        (word "OF", .node .ofType (.take ++ qualifiedName ++ .echo) ++ optionalElements),
        (word "PARTITION", partitionOf)]
        tableElements ++
        tableOptions ++ whenever (keyword .AS) (asQuery ++ withData))
      (tableOptions ++ .branch (keyword .AS) (asQuery ++ withData) (.fail "( or AS"))

end SqlAudit.Grammar

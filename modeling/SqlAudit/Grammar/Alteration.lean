import SqlAudit.Grammar.Privilege
/-! ALTER and DROP. Actions that are not looked into are kept by their words alone. -/
namespace SqlAudit.Grammar

/-- Kinds of objects whose alteration is recognized and not looked into. -/
def alteredObjects : Phrases := [
  ["AGGREGATE"], ["COLLATION"], ["CONVERSION"], ["DATABASE"], ["DEFAULT", "PRIVILEGES"],
  ["DOMAIN"], ["EVENT", "TRIGGER"], ["EXTENSION"], ["FOREIGN", "DATA", "WRAPPER"],
  ["FOREIGN", "TABLE"], ["FUNCTION"], ["GROUP"], ["INDEX"], ["LANGUAGE"], ["LARGE", "OBJECT"],
  ["MATERIALIZED", "VIEW"], ["OPERATOR"], ["OPERATOR", "CLASS"], ["OPERATOR", "FAMILY"],
  ["POLICY"], ["PROCEDURAL", "LANGUAGE"], ["PROCEDURE"], ["PUBLICATION"], ["ROLE"],
  ["ROUTINE"], ["RULE"], ["SCHEMA"], ["SEQUENCE"], ["SERVER"], ["STATISTICS"],
  ["SUBSCRIPTION"], ["SYSTEM"], ["TABLESPACE"], ["TEXT", "SEARCH", "CONFIGURATION"],
  ["TEXT", "SEARCH", "DICTIONARY"], ["TEXT", "SEARCH", "PARSER"],
  ["TEXT", "SEARCH", "TEMPLATE"], ["TRIGGER"], ["TYPE"], ["USER"], ["USER", "MAPPING"],
  ["VIEW"]]

def extensionActions : Phrases := [
  ["UPDATE"], ["SET", "SCHEMA"], ["ADD"], ["DROP"]]

def indexActions : Phrases := [
  ["RENAME", "TO"], ["SET", "TABLESPACE"], ["SET", "SCHEMA"], ["SET"], ["RESET"],
  ["ATTACH", "PARTITION"], ["DEPENDS", "ON", "EXTENSION"],
  ["NO", "DEPENDS", "ON", "EXTENSION"], ["ALTER", "COLUMN"], ["ALTER"]]

def sequenceActions : Phrases := [
  ["RENAME", "TO"], ["SET", "SCHEMA"], ["SET", "LOGGED"], ["SET", "UNLOGGED"], ["OWNER", "TO"]]

/-- Actions on tables that are recognized and not looked into. -/
def opaqueTableActions : Phrases := [
  ["CLUSTER", "ON"], ["DISABLE", "ROW", "LEVEL", "SECURITY"], ["DISABLE", "RULE"],
  ["DISABLE", "TRIGGER"], ["ENABLE", "ALWAYS", "RULE"], ["ENABLE", "ALWAYS", "TRIGGER"],
  ["ENABLE", "REPLICA", "RULE"], ["ENABLE", "REPLICA", "TRIGGER"],
  ["ENABLE", "ROW", "LEVEL", "SECURITY"], ["ENABLE", "RULE"], ["ENABLE", "TRIGGER"],
  ["FORCE", "ROW", "LEVEL", "SECURITY"], ["INHERIT"],
  ["NO", "FORCE", "ROW", "LEVEL", "SECURITY"], ["NO", "INHERIT"], ["NOT", "OF"], ["OF"],
  ["REPLICA", "IDENTITY"], ["RESET"], ["VALIDATE", "CONSTRAINT"]]

/-- Kinds of objects that can be dropped. -/
def droppedObjects : Phrases := [
  ["ACCESS", "METHOD"], ["AGGREGATE"], ["CAST"], ["COLLATION"], ["CONVERSION"], ["DATABASE"],
  ["DOMAIN"], ["EVENT", "TRIGGER"], ["EXTENSION"], ["FOREIGN", "DATA", "WRAPPER"],
  ["FOREIGN", "TABLE"], ["FUNCTION"], ["GROUP"], ["INDEX"], ["LANGUAGE"],
  ["MATERIALIZED", "VIEW"], ["OPERATOR"], ["OPERATOR", "CLASS"], ["OPERATOR", "FAMILY"],
  ["OWNED"], ["POLICY"], ["PROCEDURAL", "LANGUAGE"], ["PROCEDURE"], ["PUBLICATION"], ["ROLE"],
  ["ROUTINE"], ["RULE"], ["SCHEMA"], ["SEQUENCE"], ["SERVER"], ["STATISTICS"],
  ["SUBSCRIPTION"], ["TABLE"], ["TABLESPACE"], ["TEXT", "SEARCH", "CONFIGURATION"],
  ["TEXT", "SEARCH", "DICTIONARY"], ["TEXT", "SEARCH", "PARSER"],
  ["TEXT", "SEARCH", "TEMPLATE"], ["TRANSFORM"], ["TRIGGER"], ["TYPE"], ["USER"],
  ["USER", "MAPPING"], ["VIEW"]]

/-- Kinds of objects that are dropped by their names. -/
def namedDrops : List String := [
  "DATABASE", "DOMAIN", "EXTENSION", "FOREIGN TABLE", "INDEX", "MATERIALIZED VIEW", "SCHEMA",
  "SEQUENCE", "TABLE", "TYPE", "VIEW", "FUNCTION", "PROCEDURE", "ROUTINE",
  "AGGREGATE"]

/-- An action given by its words; what it goes on with is read over. -/
def opaqueAction (phrases : Phrases) (expected : String) : Grammar :=
  .node .alterAction (expectPhrase phrases expected ++ restOfStatement)

/-- The rest of one action: up to a comma that is not in parentheses. -/
def restOfAction : Grammar :=
  .loop (~~~ (symbol .comma ||| terminator))
    (choose [(symbol .openParen, group), (invalid, .fail "token")] .take)

/-- An action told by its first word, which may be missing. -/
def wordAction (text : String) : Grammar :=
  .write text ++ whenever plainWord (.gap ++ .copy .capitals) ++ restOfAction

def alterColumn : Grammar :=
  whenever (keyword .SET &&& nextWord "DATA") (.take ++ .take) ++
    choose [
      (word "TYPE",
        .take ++ dataType ++ whenever (keyword .COLLATE) (.take ++ qualifiedName) ++
          whenever (keyword .USING) (.take ++ expression) ++ .write "ALTER COLUMN TYPE"),
      (keyword .SET,
        .take ++ choose [
          (keyword .DEFAULT, .take ++ expression ++ .write "ALTER COLUMN SET DEFAULT"),
          (keyword .NOT, .take ++ expectKeyword .NULL ++ .write "ALTER COLUMN SET NOT NULL")]
        (wordAction "ALTER COLUMN SET")),
      (keyword .DROP,
        .take ++ choose [
          (keyword .DEFAULT, .take ++ .write "ALTER COLUMN DROP DEFAULT"),
          (keyword .NOT, .take ++ expectKeyword .NULL ++ .write "ALTER COLUMN DROP NOT NULL")]
        (wordAction "ALTER COLUMN DROP")),
      (word "ADD",
        .take ++ expectWord "GENERATED" ++ generated .nothing .nothing ++
          .write "ALTER COLUMN ADD IDENTITY")]
    (.fail "ALTER COLUMN action")

def addColumn : Grammar := ifNotExists ++ columnDef ++ .write "ADD COLUMN"

def alterTableAction : Grammar :=
  .node .alterAction
    (choose [
      (word "ADD",
        .take ++ choose [
          (keyword .COLUMN, .take ++ addColumn),
          (startsTableConstraint, tableConstraint ++ .write "ADD CONSTRAINT")]
        addColumn),
      (keyword .DROP,
        .take ++ .branch (keyword .CONSTRAINT)
          (.take ++ .write "DROP CONSTRAINT")
          (accept (keyword .COLUMN) ++ .write "DROP COLUMN") ++
        ifExists ++ identifier ++ dropBehavior),
      (keyword .ALTER, .take ++ accept (keyword .COLUMN) ++ identifier ++ alterColumn),
      (word "RENAME",
        .take ++ .branch (keyword .TO)
          (.take ++ identifier ++ .write "RENAME TO")
          (.branch (keyword .CONSTRAINT)
            (.take ++ .write "RENAME CONSTRAINT")
            (accept (keyword .COLUMN) ++ .write "RENAME COLUMN") ++
          identifier ++ expectKeyword .TO ++ identifier)),
      (word "OWNER", .take ++ expectKeyword .TO ++ identifier ++ .write "OWNER TO"),
      (keyword .SET &&& .next (.words ["SCHEMA", "TABLESPACE"]),
        takeAs .capitals ++ .gap ++ takeAs .capitals ++ identifier),
      (keyword .SET, .take ++ wordAction "SET"),
      (word "ATTACH",
        .take ++ expectWord "PARTITION" ++ qualifiedName ++ .discard partitionBound ++
          .write "ATTACH PARTITION"),
      (word "DETACH",
        .take ++ expectWord "PARTITION" ++ qualifiedName ++
          .branch (word "CONCURRENTLY") .take (accept (word "FINALIZE")) ++
          .write "DETACH PARTITION")]
    (expectPhrase opaqueTableActions "ALTER TABLE action" ++ restOfAction))

def alterTable : Grammar :=
  .take ++ ifExists ++ onlyTable ++ qualifiedName ++ accept (symbol .star) ++
    commaList alterTableAction

def alterExtension : Grammar :=
  .take ++ name ++ opaqueAction extensionActions "ALTER EXTENSION action"

def alterIndex : Grammar :=
  .take ++ ifExists ++ qualifiedName ++ opaqueAction indexActions "ALTER INDEX action"

def alterSequence : Grammar :=
  .take ++ ifExists ++ qualifiedName ++
    .branch startsSequenceOption
      sequenceOptions (opaqueAction sequenceActions "ALTER SEQUENCE action")

def alter : Grammar :=
  .node .otherStatement
    (.take ++ choose [
      (word "EXTENSION", .become .alterExtension ++ alterExtension),
      (word "INDEX" &&& ~~~ nextKeywords [.ALL], .become .alterIndex ++ alterIndex),
      (word "SEQUENCE", .become .alterSequence ++ alterSequence),
      (keyword .TABLE, .become .alterTable ++ alterTable),
      (.phrase alteredObjects, .write "ALTER" ++ .phrase alteredObjects ++ restOfStatement)]
    (.fail "object type"))

def drop : Grammar :=
  .node .drop
    (.take ++ expectPhrase droppedObjects "object type" ++
      whenever (.valueIn ["INDEX"] &&& word "CONCURRENTLY") (.node .concurrently .take) ++
      ifExists ++
      .branch (.valueIn namedDrops)
        (commaList (qualifiedName ++ whenever (symbol .openParen) group))
        (.loop (~~~ (terminator ||| words ["CASCADE", "RESTRICT"]))
          (.branch invalid (.fail "token") .take)) ++
      dropBehavior)

end SqlAudit.Grammar

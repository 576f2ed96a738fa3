import SqlAudit.Grammar.Privilege
import SqlAudit.Grammar.Routine
/-! CREATE: the modifiers before the kind of object, and what each kind goes on with. -/
namespace SqlAudit.Grammar

/-- Kinds of objects whose creation is recognized and not looked into. -/
def createdObjects : Phrases := [
  ["ACCESS", "METHOD"], ["AGGREGATE"], ["CAST"], ["COLLATION"], ["CONSTRAINT", "TRIGGER"],
  ["CONVERSION"], ["DATABASE"], ["DEFAULT", "CONVERSION"], ["DOMAIN"], ["EVENT", "TRIGGER"],
  ["FOREIGN", "DATA", "WRAPPER"], ["FOREIGN", "TABLE"], ["GROUP"], ["LANGUAGE"], ["OPERATOR"],
  ["OPERATOR", "CLASS"], ["OPERATOR", "FAMILY"], ["POLICY"], ["PROCEDURAL", "LANGUAGE"],
  ["PUBLICATION"], ["ROLE"], ["RULE"], ["SERVER"], ["STATISTICS"], ["SUBSCRIPTION"],
  ["TABLESPACE"], ["TEXT", "SEARCH", "CONFIGURATION"], ["TEXT", "SEARCH", "DICTIONARY"],
  ["TEXT", "SEARCH", "PARSER"], ["TEXT", "SEARCH", "TEMPLATE"], ["TRANSFORM"], ["TRIGGER"],
  ["TRUSTED", "LANGUAGE"], ["TRUSTED", "PROCEDURAL", "LANGUAGE"], ["TYPE"], ["USER"],
  ["USER", "MAPPING"]]

def modifier : Grammar :=
  choose [
    (keyword .OR, .node .orReplace (.take ++ expectWord "REPLACE")),
    (words ["GLOBAL", "LOCAL"],
      .node .temporary (.take ++ .branch (word "TEMPORARY") .take (expectWord "TEMP"))),
    (words ["TEMPORARY", "TEMP"], .node .temporary .take),
    (word "UNLOGGED", .node .unlogged .take),
    (keyword .UNIQUE, .node .unique .take),
    (word "MATERIALIZED", .node .materialized .take)]
  .take

def modifiers : Grammar :=
  .loop
    (keywords [.OR, .UNIQUE] |||
      words ["GLOBAL", "LOCAL", "TEMPORARY", "TEMP", "UNLOGGED", "MATERIALIZED", "RECURSIVE"])
    modifier

def concurrently : Grammar := whenever (word "CONCURRENTLY") (.node .concurrently .take)

def createIndex : Grammar :=
  .take ++ concurrently ++ ifNotExists ++ unlessIs (keyword .ON) identifier ++
    expectKeyword .ON ++ onlyTable ++ qualifiedName ++ whenever (keyword .USING) accessMethod ++
    indexElements ++ whenever (word "INCLUDE") included ++ nullsDistinct ++
    whenever (keyword .WITH) storageParameters ++ whenever (word "TABLESPACE") tablespace ++
    whereClause

def authorization : Grammar :=
  whenever (word "AUTHORIZATION") (.node .authorization (.take ++ name))

/-- Statements inside CREATE SCHEMA. -/
def schemaElements : Grammar :=
  whenever (keywords [.CREATE, .GRANT])
    (.node .schemaElements
      (.loop (keywords [.CREATE, .GRANT])
        (.branch (keyword .CREATE) (.call .createStatement) grant)))

/-- A schema has a name or an owner. -/
def createSchema : Grammar :=
  .take ++ ifNotExists ++
    .branch (anyName &&& ~~~ word "AUTHORIZATION")
      (name ++ authorization)
      (.branch (word "AUTHORIZATION") authorization (.fail "schema name")) ++
    schemaElements

def extensionOption : Grammar :=
  choose [
    (word "SCHEMA", .node .schemaName (.take ++ name)),
    (word "VERSION", .node .version (.take ++ optionValue ++ .splice))]
  (.node .cascade .take)

def createExtension : Grammar :=
  .take ++ ifNotExists ++ name ++ accept (keyword .WITH) ++
    .loop (words ["SCHEMA", "VERSION", "CASCADE"]) extensionOption

def createSequence : Grammar := .take ++ ifNotExists ++ qualifiedName ++ sequenceOptions

/-- WITH CHECK OPTION; nothing of it is kept. -/
def checkOption : Grammar :=
  whenever (keyword .WITH)
    (.take ++ .branch (word "CASCADED") .take (accept (word "LOCAL")) ++
      expectKeyword .CHECK ++ expectWord "OPTION")

def createView : Grammar :=
  .take ++ ifNotExists ++ qualifiedName ++ whenever (symbol .openParen) columnList ++
    whenever (keyword .USING) accessMethod ++ whenever (keyword .WITH) storageParameters ++
    whenever (word "TABLESPACE") tablespace ++ asQuery ++
    .branch (keyword .WITH &&& .next (.words ["NO", "DATA"])) withData checkOption

def otherObject : Grammar :=
  .branch (.phrase createdObjects)
    (.write "CREATE" ++ .phrase createdObjects ++ restOfStatement)
    (.fail "object type")

def createRule : Grammar :=
  .node .otherStatement
    (expectKeyword .CREATE ++ modifiers ++
      choose [
        (keyword .TABLE, .become .createTable ++ createTable),
        (word "INDEX", .become .createIndex ++ createIndex),
        (word "SCHEMA", .become .createSchema ++ createSchema),
        (word "EXTENSION", .become .createExtension ++ createExtension),
        (word "SEQUENCE", .become .createSequence ++ createSequence),
        (word "VIEW", .become .createView ++ createView),
        (words ["FUNCTION", "PROCEDURE"], .become .createFunction ++ createRoutine)]
      otherObject)

end SqlAudit.Grammar

import SqlAudit.Catalog.Definition
/-! The catalog that comes with the program, for three versions of the engine. -/
namespace SqlAudit.Catalog
namespace Builtin

def declared (id : String) (target : NodeKind) (severity : Severity) (check : Check)
    (message : String) : Declaration := ⟨⟨id, target, check, severity, message⟩, false⟩

def replaced (id : String) (target : NodeKind) (severity : Severity) (check : Check)
    (message : String) : Declaration := ⟨⟨id, target, check, severity, message⟩, true⟩

/-- Version 15.5. -/
def version15_5 : Version := ⟨none, [
  declared "shard-key-clause" .shardKey .blocker .present
    ("SHARD KEY is not supported in CREATE TABLE; set " ++
      "rds_aurora.limitless_create_table_shard_key before creating the table"),
  declared "sharded-table-subquery" .subquery .warning (.within .createTable (some .shardKey))
    "Subqueries in the definition of a sharded table are evaluated on each shard",
  declared "create-table-of-type" .ofType .blocker .present
    "CREATE TABLE OF \x7bvalue\x7d is not supported",
  declared "create-table-partition-of" .partitionBound .blocker (.within .createTable none)
    "CREATE TABLE ... PARTITION OF is not supported",
  declared "create-table-like" .likeClause .blocker .present
    "CREATE TABLE ... LIKE is not supported",
  declared "create-temporary-table" .temporary .blocker (.within .createTable none)
    "Temporary tables are not supported",
  declared "parameter-inherits" .inherits .blocker .present
    "INHERITS is not supported",
  declared "parameter-partition-by" .partitionBy .blocker .present
    "PARTITION BY \x7bvalue\x7d is not supported",
  declared "parameter-tablespace" .tablespace .blocker
    (.any [.within .createTable none, .within .createIndex none, .within .createView none])
    "TABLESPACE \x7bvalue\x7d is not supported",
  declared "parameter-using-method" .accessMethod .blocker (.within .createTable none)
    "Table access method \x7bvalue\x7d is not supported",
  declared "parameter-on-commit" .onCommit .blocker .present
    "ON COMMIT \x7bvalue\x7d is not supported",
  declared "storage-parameter" .storageParameters .blocker
    (.any [.within .createTable none, .within .createView none])
    "Storage parameters are not supported",
  declared "storage-parameter-without-oids" .withoutOids .blocker .present
    "WITHOUT OIDS is not supported",
  declared "constraint-exclude" .tableConstraint .blocker (.valueIn ["EXCLUDE"])
    "EXCLUDE constraints are not supported",
  declared "constraint-foreign-key" .tableConstraint .blocker (.valueIn ["FOREIGN KEY"])
    "Foreign key constraints are not supported",
  declared "column-references" .columnConstraint .blocker (.valueIn ["REFERENCES"])
    "Foreign key constraints are not supported",
  declared "constraint-generated-stored" .columnConstraint .blocker
    (.valueIn ["GENERATED STORED"])
    "Generated columns are not supported",
  declared "constraint-identity" .columnConstraint .warning (.valueIn ["IDENTITY"])
    ("Identity columns are allocated per router; values are unique but not ordered across " ++
      "the cluster"),
  declared "alter-table-add-serial-not-null" .columnConstraint .blocker
    (.all [.valueIn ["NOT NULL"], .within .alterAction none,
      .parentHasChild .dataType
        (some ["smallserial", "serial2", "serial", "serial4", "bigserial", "serial8"])])
    "Adding a serial column with NOT NULL to an existing table is not supported",
  declared "alter-table-partition" .alterAction .blocker
    (.all [.valueIn ["ATTACH PARTITION", "DETACH PARTITION"], .within .alterTable none])
    "ALTER TABLE \x7bvalue\x7d is not supported",
  declared "alter-table-set-tablespace" .alterAction .blocker
    (.all [.valueIn ["SET TABLESPACE"], .within .alterTable none])
    "ALTER TABLE SET TABLESPACE is not supported",
  declared "alter-table-rename-constraint" .alterAction .blocker
    (.all [.valueIn ["RENAME CONSTRAINT"], .within .alterTable none])
    "ALTER TABLE RENAME CONSTRAINT is not supported",
  declared "alter-table-only-rename-column" .only .blocker
    (.all [.within .alterTable none, .parentHasChild .alterAction (some ["RENAME COLUMN"])])
    "ALTER TABLE ONLY is not supported",
  declared "alter-index-rename" .alterAction .blocker
    (.all [.valueIn ["RENAME TO"], .within .alterIndex none])
    "ALTER INDEX is not supported",
  declared "index-access-method" .accessMethod .blocker
    (.all [.within .createIndex none, .valueNotIn ["btree", "hash"]])
    "Index type \x7bvalue\x7d is not supported",
  declared "index-unique" .unique .warning (.within .createIndex none)
    "Unique indexes on sharded tables must include the shard key",
  declared "create-schema-with-elements" .schemaElements .blocker .present
    "CREATE SCHEMA with schema elements is not supported",
  declared "extension-allow-list" .createExtension .blocker
    (.valueNotIn ["apgdbcc", "aws_commons", "pg_stat_statements", "pgcrypto", "plpgsql"])
    "Extension \x7bvalue\x7d is not supported",
  declared "alter-extension-allow-list" .alterExtension .blocker
    (.valueNotIn ["apgdbcc", "aws_commons", "pg_stat_statements", "pgcrypto", "plpgsql"])
    "Extension \x7bvalue\x7d is not supported",
  declared "create-temporary-sequence" .temporary .blocker (.within .createSequence none)
    "Temporary sequences are not supported",
  declared "create-unlogged-sequence" .unlogged .blocker (.within .createSequence none)
    "Unlogged sequences are not supported",
  declared "sequence-cycle" .sequenceOption .blocker
    (.all [.valueIn ["CYCLE"], .within .createSequence none])
    "CYCLE is not supported for distributed sequences",
  declared "sequence-capacity" .createSequence .blocker
    (.all [.lacksChild .temporary, .sequenceCapacity .standard])
    "\x7bdetail\x7d",
  declared "alter-sequence-options" .alterSequence .blocker
    (.all [.hasChild .sequenceOption none,
      .not (.hasChild .sequenceOption (some ["OWNED BY"]))])
    "ALTER SEQUENCE is only supported with OWNED BY",
  declared "create-materialized-view" .materialized .blocker (.within .createView none)
    "Materialized views are not supported",
  declared "procedure-return-type" .createFunction .blocker
    (.all [.valueIn ["PROCEDURE"], .hasChild .returns none])
    "Procedure return type must be void",
  declared "routine-language" .language .blocker
    (.all [.within .createFunction none, .valueNotIn ["sql", "plpgsql"]])
    "Invalid or untrusted language \x7bvalue\x7d",
  declared "routine-body-not-analyzed" .routineBody .info .present
    "Routine bodies are not analyzed; review the statements they run",
  declared "privilege-target" .privilegeTarget .blocker
    (.valueIn ["DOMAIN", "FOREIGN DATA WRAPPER", "FOREIGN SERVER", "LANGUAGE", "LARGE OBJECT",
      "PROCEDURE", "ALL PROCEDURES IN SCHEMA", "ROUTINE", "ALL ROUTINES IN SCHEMA", "TYPE"])
    "Privileges on \x7bvalue\x7d are not supported",
  declared "privilege-target-unreviewed" .privilegeTarget .info
    (.valueIn ["DATABASE", "TABLESPACE"])
    "Privileges on \x7bvalue\x7d could not be reviewed",
  declared "unsupported-statement" .otherStatement .blocker
    (.valueIn ["CREATE ACCESS METHOD", "CREATE CAST", "CREATE CONSTRAINT TRIGGER",
      "CREATE CONVERSION", "CREATE DATABASE", "CREATE DEFAULT CONVERSION", "CREATE EVENT TRIGGER",
      "CREATE FOREIGN DATA WRAPPER", "CREATE FOREIGN TABLE", "CREATE LANGUAGE",
      "CREATE OPERATOR CLASS", "CREATE OPERATOR FAMILY", "CREATE PROCEDURAL LANGUAGE",
      "CREATE PUBLICATION", "CREATE RULE", "CREATE SERVER", "CREATE STATISTICS",
      "CREATE SUBSCRIPTION", "CREATE TABLESPACE", "CREATE TEXT SEARCH CONFIGURATION",
      "CREATE TEXT SEARCH DICTIONARY", "CREATE TEXT SEARCH PARSER", "CREATE TEXT SEARCH TEMPLATE",
      "CREATE TRANSFORM", "CREATE TRIGGER", "CREATE TRUSTED LANGUAGE",
      "CREATE TRUSTED PROCEDURAL LANGUAGE", "CREATE USER MAPPING", "ALTER DATABASE",
      "ALTER EVENT TRIGGER", "ALTER FOREIGN DATA WRAPPER", "ALTER FOREIGN TABLE",
      "ALTER LARGE OBJECT", "ALTER OPERATOR CLASS", "ALTER OPERATOR FAMILY", "ALTER PUBLICATION",
      "ALTER RULE", "ALTER SERVER", "ALTER STATISTICS", "ALTER SUBSCRIPTION", "ALTER SYSTEM",
      "ALTER TABLESPACE", "ALTER TRIGGER", "ALTER USER MAPPING", "CLUSTER", "IMPORT", "LISTEN",
      "NOTIFY", "UNLISTEN"])
    "This statement is not supported"],
  []⟩

/-- Version 16.2. -/
def version16_2 : Version := ⟨some "15.5", [
  replaced "extension-allow-list" .createExtension .blocker
    (.valueNotIn ["apgdbcc", "aws_commons", "btree_gin", "btree_gist", "citext", "hstore",
      "pg_stat_statements", "pg_trgm", "pgcrypto", "plpgsql"])
    "Extension \x7bvalue\x7d is not supported",
  replaced "alter-extension-allow-list" .alterExtension .blocker
    (.valueNotIn ["apgdbcc", "aws_commons", "btree_gin", "btree_gist", "citext", "hstore",
      "pg_stat_statements", "pg_trgm", "pgcrypto", "plpgsql"])
    "Extension \x7bvalue\x7d is not supported"],
  []⟩

/-- Version 16.4. -/
def version16_4 : Version := ⟨some "16.2", [
  declared "materialized-view-refresh" .otherStatement .warning (.valueIn ["REFRESH"])
    "REFRESH MATERIALIZED VIEW runs on a single router and may be slow for large views"],
  ["create-materialized-view"]⟩

def definition : Definition :=
  ⟨"16.4", [("15.5", version15_5), ("16.2", version16_2), ("16.4", version16_4)]⟩

end Builtin

/-- A version of the catalog that comes with the program, or its default version. -/
def builtin (version : Option String) : Except CatalogError Catalog :=
  ofDefinition Builtin.definition version

end SqlAudit.Catalog

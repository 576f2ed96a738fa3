/-! The closed set of constructs a script is made of, and what sort of thing each one is. -/
namespace SqlAudit

inductive Category where
  | script | statement | clause | definition | expression | identifier | literal | dataType
  | unparsed
  deriving DecidableEq, Repr

def Category.name : Category → String
  | .script => "script"
  | .statement => "statement"
  | .clause => "clause"
  | .definition => "definition"
  | .expression => "expression"
  | .identifier => "identifier"
  | .literal => "literal"
  | .dataType => "data_type"
  | .unparsed => "unparsed"

inductive NodeKind where
  | script
  | select | insert | update | delete | createTable | createIndex | createSchema
  | createExtension | createSequence | createView | createFunction | alterTable
  | alterExtension | alterIndex | alterSequence | drop | grant | revoke | transaction
  | otherStatement
  | temporary | unlogged | ifNotExists | ifExists | orReplace | materialized | unique
  | concurrently | only
  | likeClause | ofType | inherits | partitionBy | partitionBound | accessMethod
  | storageParameters | storageParameter | withoutOids | onCommit | tablespace | shardKey
  | asQuery | withData
  | columnDef | columnConstraint | tableConstraint | references | referentialAction
  | indexElement | included | parameterDef
  | withClause | cte | distinct | selectList | alias | fromClause | join | joinCondition
  | whereClause | groupBy | having | orderBy | orderItem | limit | offset | locking
  | setOperation | window | windowDef | windowPartition | windowFrame
  | columnList | values | valuesRow | defaultValues | assignment | onConflict | returning
  | usingClause
  | authorization | schemaElements | schemaName | version | cascade | sequenceOption
  | returns | language | routineBody | routineOption
  | alterAction | dropBehavior
  | privileges | privilegeTarget | grantees | grantOption
  | binaryExpr | unaryExpr | functionCall | caseExpr | whenClause | cast | subquery
  | existsTest | inList | between | isTest | columnRef | wildcard | parameter | array
  | subscript | row | collate
  | identifier | qualifiedName | literal | dataType | unparsed
  deriving DecidableEq, Repr

namespace NodeKind

/-- Every kind, in the order in which they are declared. -/
def all : List NodeKind := [
  .script, .select, .insert, .update, .delete, .createTable, .createIndex, .createSchema,
  .createExtension, .createSequence, .createView, .createFunction, .alterTable,
  .alterExtension, .alterIndex, .alterSequence, .drop, .grant, .revoke, .transaction,
  .otherStatement, .temporary, .unlogged, .ifNotExists, .ifExists, .orReplace, .materialized,
  .unique, .concurrently, .only, .likeClause, .ofType, .inherits, .partitionBy,
  .partitionBound, .accessMethod, .storageParameters, .storageParameter, .withoutOids,
  .onCommit, .tablespace, .shardKey, .asQuery, .withData, .columnDef, .columnConstraint,
  .tableConstraint, .references, .referentialAction, .indexElement, .included, .parameterDef,
  .withClause, .cte, .distinct, .selectList, .alias, .fromClause, .join, .joinCondition,
  .whereClause, .groupBy, .having, .orderBy, .orderItem, .limit, .offset, .locking,
  .setOperation, .window, .windowDef, .windowPartition, .windowFrame, .columnList, .values,
  .valuesRow, .defaultValues, .assignment, .onConflict, .returning, .usingClause,
  .authorization, .schemaElements, .schemaName, .version, .cascade, .sequenceOption, .returns,
  .language, .routineBody, .routineOption, .alterAction, .dropBehavior, .privileges,
  .privilegeTarget, .grantees, .grantOption, .binaryExpr, .unaryExpr, .functionCall, .caseExpr,
  .whenClause, .cast, .subquery, .existsTest, .inList, .between, .isTest, .columnRef,
  .wildcard, .parameter, .array, .subscript, .row, .collate, .identifier, .qualifiedName,
  .literal, .dataType, .unparsed]

/-- The place of a kind in that order. -/
def rank (kind : NodeKind) : Nat := kind.ctorIdx

/-- The name of a kind in catalogs and reports, and its category. -/
def entry : NodeKind → String × Category
  | .script => ("script", .script)
  | .select => ("select", .statement)
  | .insert => ("insert", .statement)
  | .update => ("update", .statement)
  | .delete => ("delete", .statement)
  | .createTable => ("create_table", .statement)
  | .createIndex => ("create_index", .statement)
  | .createSchema => ("create_schema", .statement)
  | .createExtension => ("create_extension", .statement)
  | .createSequence => ("create_sequence", .statement)
  | .createView => ("create_view", .statement)
  | .createFunction => ("create_function", .statement)
  | .alterTable => ("alter_table", .statement)
  | .alterExtension => ("alter_extension", .statement)
  | .alterIndex => ("alter_index", .statement)
  | .alterSequence => ("alter_sequence", .statement)
  | .drop => ("drop", .statement)
  | .grant => ("grant", .statement)
  | .revoke => ("revoke", .statement)
  | .transaction => ("transaction", .statement)
  | .otherStatement => ("other_statement", .statement)
  | .temporary => ("temporary", .clause)
  | .unlogged => ("unlogged", .clause)
  | .ifNotExists => ("if_not_exists", .clause)
  | .ifExists => ("if_exists", .clause)
  | .orReplace => ("or_replace", .clause)
  | .materialized => ("materialized", .clause)
  | .unique => ("unique", .clause)
  | .concurrently => ("concurrently", .clause)
  | .only => ("only", .clause)
  | .likeClause => ("like_clause", .clause)
  | .ofType => ("of_type", .clause)
  | .inherits => ("inherits", .clause)
  | .partitionBy => ("partition_by", .clause)
  | .partitionBound => ("partition_bound", .clause)
  | .accessMethod => ("access_method", .clause)
  | .storageParameters => ("storage_parameters", .clause)
  | .storageParameter => ("storage_parameter", .clause)
  | .withoutOids => ("without_oids", .clause)
  | .onCommit => ("on_commit", .clause)
  | .tablespace => ("tablespace", .clause)
  | .shardKey => ("shard_key", .clause)
  | .asQuery => ("as_query", .clause)
  | .withData => ("with_data", .clause)
  | .columnDef => ("column_def", .definition)
  | .columnConstraint => ("column_constraint", .definition)
  | .tableConstraint => ("table_constraint", .definition)
  | .references => ("references", .clause)
  | .referentialAction => ("referential_action", .clause)
  | .indexElement => ("index_element", .definition)
  | .included => ("include", .clause)
  | .parameterDef => ("parameter_def", .definition)
  | .withClause => ("with", .clause)
  | .cte => ("cte", .clause)
  | .distinct => ("distinct", .clause)
  | .selectList => ("select_list", .clause)
  | .alias => ("alias", .clause)
  | .fromClause => ("from", .clause)
  | .join => ("join", .clause)
  | .joinCondition => ("join_condition", .clause)
  | .whereClause => ("where", .clause)
  | .groupBy => ("group_by", .clause)
  | .having => ("having", .clause)
  | .orderBy => ("order_by", .clause)
  | .orderItem => ("order_item", .clause)
  | .limit => ("limit", .clause)
  | .offset => ("offset", .clause)
  | .locking => ("locking", .clause)
  | .setOperation => ("set_operation", .clause)
  | .window => ("window", .clause)
  | .windowDef => ("window_def", .clause)
  | .windowPartition => ("window_partition", .clause)
  | .windowFrame => ("window_frame", .clause)
  | .columnList => ("column_list", .clause)
  | .values => ("values", .clause)
  | .valuesRow => ("values_row", .clause)
  | .defaultValues => ("default_values", .clause)
  | .assignment => ("assignment", .clause)
  | .onConflict => ("on_conflict", .clause)
  | .returning => ("returning", .clause)
  | .usingClause => ("using", .clause)
  | .authorization => ("authorization", .clause)
  | .schemaElements => ("schema_elements", .clause)
  | .schemaName => ("schema_name", .clause)
  | .version => ("version", .clause)
  | .cascade => ("cascade", .clause)
  | .sequenceOption => ("sequence_option", .clause)
  | .returns => ("returns", .clause)
  | .language => ("language", .clause)
  | .routineBody => ("routine_body", .clause)
  | .routineOption => ("routine_option", .clause)
  | .alterAction => ("alter_action", .clause)
  | .dropBehavior => ("drop_behavior", .clause)
  | .privileges => ("privileges", .clause)
  | .privilegeTarget => ("privilege_target", .clause)
  | .grantees => ("grantees", .clause)
  | .grantOption => ("grant_option", .clause)
  | .binaryExpr => ("binary_expr", .expression)
  | .unaryExpr => ("unary_expr", .expression)
  | .functionCall => ("function_call", .expression)
  | .caseExpr => ("case", .expression)
  | .whenClause => ("when_clause", .expression)
  | .cast => ("cast", .expression)
  | .subquery => ("subquery", .expression)
  | .existsTest => ("exists", .expression)
  | .inList => ("in_list", .expression)
  | .between => ("between", .expression)
  | .isTest => ("is_test", .expression)
  | .columnRef => ("column_ref", .expression)
  | .wildcard => ("wildcard", .expression)
  | .parameter => ("parameter", .expression)
  | .array => ("array", .expression)
  | .subscript => ("subscript", .expression)
  | .row => ("row", .expression)
  | .collate => ("collate", .expression)
  | .identifier => ("identifier", .identifier)
  | .qualifiedName => ("qualified_name", .identifier)
  | .literal => ("literal", .literal)
  | .dataType => ("data_type", .dataType)
  | .unparsed => ("unparsed", .unparsed)

def name (kind : NodeKind) : String := kind.entry.1

def category (kind : NodeKind) : Category := kind.entry.2

def ofName? (text : String) : Option NodeKind := all.find? fun kind => kind.name == text

def unknownMessage (text : String) : String := "unknown construct kind: " ++ text

end NodeKind
end SqlAudit

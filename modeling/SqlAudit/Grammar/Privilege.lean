import SqlAudit.Grammar.Table
/-! GRANT and REVOKE: privileges or roles, their target, and who gets or loses them. -/
namespace SqlAudit.Grammar

/-- CASCADE or RESTRICT. -/
def dropBehavior : Grammar :=
  whenever (words ["CASCADE", "RESTRICT"]) (.node .dropBehavior (takeAs .capitals))

def privilegeTargets : Phrases := [
  ["ALL", "FUNCTIONS", "IN", "SCHEMA"], ["ALL", "PROCEDURES", "IN", "SCHEMA"],
  ["ALL", "ROUTINES", "IN", "SCHEMA"], ["ALL", "SEQUENCES", "IN", "SCHEMA"],
  ["ALL", "TABLES", "IN", "SCHEMA"], ["DATABASE"], ["DOMAIN"], ["FOREIGN", "DATA", "WRAPPER"],
  ["FOREIGN", "SERVER"], ["FUNCTION"], ["LANGUAGE"], ["LARGE", "OBJECT"], ["PARAMETER"],
  ["PROCEDURE"], ["ROUTINE"], ["SCHEMA"], ["SEQUENCE"], ["TABLE"], ["TABLESPACE"], ["TYPE"]]

def isPrivilegeWord : Test :=
  .here .quoted ||| (plainWord &&& ~~~ keywords [.ON, .TO, .FROM])

def privilegeColumns : Grammar := .discard columnList

/-- The words of one privilege; lists of columns among them are not kept. -/
def privilege : Grammar :=
  .loop (symbol .openParen) privilegeColumns ++
    .branch isPrivilegeWord (takeAs .capitals) (.fail "privilege") ++
    .loop (symbol .openParen ||| isPrivilegeWord)
      (.branch (symbol .openParen) privilegeColumns (.gap ++ takeAs .capitals))

def privileges : Grammar :=
  .node .privileges (privilege ++ .loop (symbol .comma) (.take ++ .write ", " ++ privilege))

/-- The kind of object is TABLE unless it is named. -/
def privilegeTarget : Grammar :=
  whenever (keyword .ON)
    (.node .privilegeTarget
      (.take ++
        .branch (.phrase privilegeTargets) (.phrase privilegeTargets) (.write "TABLE") ++
        commaList
          (.branch (.here .number)
            signedNumber (qualifiedName ++ whenever (symbol .openParen) group))))

def grantees : Grammar := .node .grantees (commaList (accept (keyword .GROUP) ++ identifier))

def grantedBy : Grammar :=
  whenever (word "GRANTED") (.take ++ expectKeyword .BY ++ .discard name)

def grantOption : Grammar :=
  .node .grantOption
    (.take ++ .branch (keyword .GRANT ||| word "ADMIN")
      (takeAs .capitals ++ .write " OPTION") (expectWord "INHERIT" ++ .write "INHERIT OPTION") ++
      accept plainWord)

def grant : Grammar :=
  .node .grant
    (expectKeyword .GRANT ++ privileges ++ privilegeTarget ++ expectKeyword .TO ++ grantees ++
      whenever (keyword .WITH) grantOption ++ grantedBy)

def revokedOption : Grammar :=
  whenever ((keyword .GRANT ||| word "ADMIN") &&& nextWord "OPTION")
    (.node .grantOption
      (takeAs .capitals ++ .take ++ expectKeyword .FOR ++ .write " OPTION FOR"))

def revoke : Grammar :=
  .node .revoke
    (expectKeyword .REVOKE ++ revokedOption ++ privileges ++ privilegeTarget ++
      expectKeyword .FROM ++ grantees ++ grantedBy ++ dropBehavior)

end SqlAudit.Grammar

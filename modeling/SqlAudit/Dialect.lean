import SqlAudit.Text.Case
/-! The lexical conventions a script is read with. -/
namespace SqlAudit

inductive Dialect where
  | postgres
  | generic
  deriving DecidableEq, Repr, Inhabited

namespace Dialect

def name : Dialect → String
  | .postgres => "postgres"
  | .generic => "generic"

/-- The characters that open and close a quoted name. -/
def quotes : Dialect → List Char
  | .postgres => ['"']
  | .generic => ['"', '\x60']

/-- Dollar quoting, and with it numbered parameters. -/
def hasDollarQuotes (d : Dialect) : Bool := d = .postgres

/-- Strings with backslash escapes, written after an E. -/
def hasEscapeStrings (d : Dialect) : Bool := d = .postgres

/-- Parameters written as a colon and a name. -/
def hasNamedParameters (d : Dialect) : Bool := d = .generic

/-- The dialect of a name in any case, with the usual short forms. -/
def ofName? (text : String) : Option Dialect :=
  if ["postgres", "postgresql", "pg"].contains (Text.smallLetters text) then some .postgres
  else if ["generic", "ansi"].contains (Text.smallLetters text) then some .generic
  else none

def unknownMessage (text : String) : String := "unknown dialect: " ++ Text.smallLetters text

end Dialect
end SqlAudit

import SqlAudit.Grammar.Table
/-!
Functions and procedures. Options that no rule looks into are kept as `routineOption` nodes without
a value: their text is taken from the script once it has been read.
-/
namespace SqlAudit.Grammar

/-- The current name is followed by a type, so it names the parameter. -/
def namesParameter : Test :=
  anyName &&& (.next .anyWord ||| .next .quoted) &&&
    ~~~ ((word "DOUBLE" &&& nextWord "PRECISION") |||
      (words ["CHARACTER", "CHAR", "BIT"] &&& nextWord "VARYING") ||| word "NATIONAL")

/-- A parameter's value is its name, else its mode. -/
def parameterDef : Grammar :=
  .node .parameterDef
    (.branch (keyword .IN ||| words ["OUT", "INOUT", "VARIADIC"])
      (choose [
        (keyword .IN, .take ++ .branch namesParameter name (.write "IN")),
        (word "OUT", .take ++ .branch namesParameter name (.write "OUT")),
        (word "INOUT", .take ++ .branch namesParameter name (.write "INOUT"))]
      (.take ++ .branch namesParameter name (.write "VARIADIC")))
      (whenever namesParameter name) ++
    dataType ++
    whenever (keyword .DEFAULT ||| symbol .equal) (.take ++ expression))

/-- Words that start a characteristic of a routine. -/
def routineWords : List String := [
  "RETURNS", "LANGUAGE", "IMMUTABLE", "STABLE", "VOLATILE", "STRICT", "CALLED", "SECURITY",
  "EXTERNAL", "PARALLEL", "COST", "ROWS", "SUPPORT", "LEAKPROOF", "WINDOW", "TRANSFORM",
  "BEGIN", "RETURN"]

def startsCharacteristic : Test := words routineWords ||| keywords [.AS, .NOT, .SET]

def returns : Grammar :=
  .node .returns
    (.take ++ .branch (keyword .TABLE)
      (takeAs .capitals ++ group) (whenever (word "SETOF") (takeAs .capitals) ++ dataType))

def language : Grammar :=
  .node .language
    (.take ++ .branch (anyName ||| .here .string) (takeAs .lowered) (.fail "language name"))

def routineBody : Grammar :=
  .node .routineBody
    (.take ++ .branch (.here .string) (takeAs .text) (.fail "routine body") ++
      whenever (symbol .comma) (.take ++ expect (.here .string) "link symbol"))

def atomicBlock : Grammar :=
  .node .routineBody (.take ++ .take ++ .call .atomicBody ++ .write "BEGIN ATOMIC")

/-- Any other characteristic goes on up to the next one. -/
def routineOption : Grammar :=
  .node .routineOption
    (.branch (keyword .NOT ||| words ["EXTERNAL", "RETURNS"]) (.take ++ .take) .take ++
      .loop (~~~ (terminator ||| startsCharacteristic))
        (.branch invalid (.fail "routine option") .take))

def characteristic : Grammar :=
  choose [
    (word "RETURNS" &&& ~~~ nextKeywords [.NULL], returns),
    (word "LANGUAGE", language),
    (keyword .AS, routineBody),
    (word "BEGIN" &&& nextWord "ATOMIC", atomicBlock),
    (word "RETURN", .node .routineBody (takeAs .capitals ++ expression))]
  routineOption

def createRoutine : Grammar :=
  takeAs .capitals ++ qualifiedName ++
    inParens (unlessIs (symbol .closeParen) (commaList parameterDef)) ++
    .loop startsCharacteristic characteristic

/-- CASE opens what an END closes; the END after them is that of the block. -/
def atomicBodyRule : Grammar :=
  .loop (~~~ keyword .END)
    (choose [
      (keyword .CASE, .take ++ .call .atomicBody),
      (.here .finish ||| invalid, .fail "END")]
    .take) ++
  .take

end SqlAudit.Grammar

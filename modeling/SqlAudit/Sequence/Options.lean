import SqlAudit.Rule.Fault
import SqlAudit.Sequence.Basic
import SqlAudit.Text.Decimal
import SqlAudit.Tree.Node
/-! The sequence that a statement creates: the options it has and those it leaves out. -/
namespace SqlAudit.Sequence

/-- The options given; of one given twice the last counts. -/
structure Options where
  dataType : Option String
  increment : Option Int
  minValue : Option Int
  maxValue : Option Int
  start : Option Int
  cache : Option Int
  deriving DecidableEq, Repr

namespace Options

def empty : Options := ⟨none, none, none, none, none, none⟩

/-- The number that an option called `name` was given, if 128 bits hold it. -/
def argument (option : Node) (name : String) : Except RuleFault Int :=
  match (option.child? .literal).bind Node.value with
  | none => .error (.missingArgument name)
  | some text =>
    match (Text.integer? text.toList).filter (Text.fitsSigned 128) with
    | some n => .ok n
    | none => .error (.invalidNumber name text)

/-- The options after one more. -/
def add (options : Options) (option : Node) : Except RuleFault Options :=
  match option.value.getD "" with
  | "AS" => .ok { options with dataType := (option.child? .dataType).bind Node.value }
  | "INCREMENT" => (argument option "INCREMENT").map fun n => { options with increment := some n }
  | "MINVALUE" => (argument option "MINVALUE").map fun n => { options with minValue := some n }
  | "MAXVALUE" => (argument option "MAXVALUE").map fun n => { options with maxValue := some n }
  | "START" => (argument option "START").map fun n => { options with start := some n }
  | "CACHE" => (argument option "CACHE").map fun n => { options with cache := some n }
  | _ => .ok options

def ofNode (node : Node) : Except RuleFault Options :=
  (node.childrenOf .sequenceOption).foldlM add empty

/-- Unless told otherwise a sequence counts up by one from one to the end of its type, or down from
minus one, and starts at the bound that it moves away from. -/
def settle (options : Options) : Sequence :=
  let dataType := options.dataType.getD "bigint"
  let (low, high) := typeRange dataType
  let increment := options.increment.getD 1
  let minValue := options.minValue.getD (if 0 < increment then 1 else low)
  let maxValue := options.maxValue.getD (if 0 < increment then high else -1)
  ⟨dataType, increment, minValue, maxValue,
    options.start.getD (if 0 < increment then minValue else maxValue), options.cache.getD 1⟩

end Options

/-- The first reason why the sequence that a node creates cannot be shared. -/
def capacity (node : Node) (limits : Limits) : Except RuleFault (Option Problem) :=
  if node.kind ≠ .createSequence then .error (.wrongTarget .createSequence node.kind)
  else if !limits.isUsable then .error (.invalidCheck "routers and max_chunk must be positive")
  else (Options.ofNode node).map fun options => options.settle.problem? limits

end SqlAudit.Sequence

import SqlAudit.Dialect
import SqlAudit.Text.Decimal
/-!
The arguments of a run. Options have a long and mostly a short form; a value follows as the next
argument, after `=`, or after the letter itself. Each option may be given once; what is no option
is an input, and so is everything after `--`.
-/
namespace SqlAudit.CommandLine

inductive Format where
  | json
  | text
  deriving DecidableEq, Repr

namespace Format

def ofName? : String → Option Format
  | "json" => some .json
  | "text" => some .text
  | _ => none

end Format

/-- The switches, which take no value. -/
inductive Switch where
  | listRules
  | verbose
  | help
  | version
  deriving DecidableEq, Repr

namespace Switch

def ofLong? : String → Option Switch
  | "list-rules" => some .listRules
  | "verbose" => some .verbose
  | "help" => some .help
  | "version" => some .version
  | _ => none

def ofShort? : Char → Option Switch
  | 'v' => some .verbose
  | 'h' => some .help
  | 'V' => some .version
  | _ => none

end Switch

/-- The options that take a value. -/
inductive Setting where
  | catalog
  | engineVersion
  | dialect
  | workers
  | timeoutSecs
  | format
  | output
  deriving DecidableEq, Repr

namespace Setting

def ofLong? : String → Option Setting
  | "catalog" => some .catalog
  | "engine-version" => some .engineVersion
  | "dialect" => some .dialect
  | "workers" => some .workers
  | "timeout-secs" => some .timeoutSecs
  | "format" => some .format
  | "output" => some .output
  | _ => none

def ofShort? : Char → Option Setting
  | 'c' => some .catalog
  | 'e' => some .engineVersion
  | 'd' => some .dialect
  | 'w' => some .workers
  | 't' => some .timeoutSecs
  | 'f' => some .format
  | 'o' => some .output
  | _ => none

end Setting

structure Options where
  inputs : List String
  catalog : Option String
  engineVersion : Option String
  dialect : Option Dialect
  workers : Option Nat
  timeoutSecs : Option Nat
  format : Option Format
  output : Option String
  listRules : Bool
  verbose : Bool
  deriving DecidableEq, Repr

/-- Why the arguments start no run. -/
inductive Refusal where
  | help
  | version
  | usage (reason : String)
  deriving DecidableEq, Repr

namespace Options

def empty : Options := ⟨[], none, none, none, none, none, none, none, false, false⟩

def refuse {α : Type} (reason : String) : Except Refusal α := .error (.usage reason)

def path (text : String) : Except Refusal String :=
  if text.isEmpty then refuse "a value is required" else .ok text

/-- A count that 64 bits hold, with an optional plus sign. -/
def count (text : String) : Except Refusal Nat :=
  let digits := match text.toList with
    | '+' :: digits => digits
    | digits => digits
  match (Text.natural? digits).filter fun n => n < Nat.pow 2 64 with
  | some n => .ok n
  | none => refuse ("invalid number: " ++ text)

/-- `value`, unless there is one already. -/
def once {α : Type} (given : Option α) (value : Except Refusal α) : Except Refusal (Option α) :=
  match given with
  | some _ => refuse "an option cannot be used twice"
  | none => value.map some

def set (options : Options) (setting : Setting) (value : String) : Except Refusal Options :=
  match setting with
  | .catalog =>
    (once options.catalog (path value)).map fun given => { options with catalog := given }
  | .engineVersion =>
    (once options.engineVersion (.ok value)).map fun given =>
      { options with engineVersion := given }
  | .dialect =>
    let dialect := match Dialect.ofName? value with
      | some d => .ok d
      | none => refuse (Dialect.unknownMessage value)
    (once options.dialect dialect).map fun given => { options with dialect := given }
  | .workers =>
    (once options.workers (count value)).map fun given => { options with workers := given }
  | .timeoutSecs =>
    (once options.timeoutSecs (count value)).map fun given => { options with timeoutSecs := given }
  | .format =>
    let format := match Format.ofName? value with
      | some format => .ok format
      | none => refuse ("unknown format: " ++ value)
    (once options.format format).map fun given => { options with format := given }
  | .output =>
    (once options.output (path value)).map fun given => { options with output := given }

def turnOn (options : Options) : Switch → Except Refusal Options
  | .listRules =>
    if options.listRules then refuse "an option cannot be used twice"
    else .ok { options with listRules := true }
  | .verbose =>
    if options.verbose then refuse "an option cannot be used twice"
    else .ok { options with verbose := true }
  | .help => .error .help
  | .version => .error .version

def addInput (options : Options) (text : String) : Except Refusal Options :=
  (path text).map fun text => { options with inputs := options.inputs ++ [text] }

/-- An argument without its leading `--`: a switch, a setting with its value, or one that waits for
the next argument. -/
def addLong (options : Options) (chars : List Char) : Except Refusal (Options × Option Setting) :=
  let name := String.ofList (chars.takeWhile (· != '='))
  match Switch.ofLong? name, Setting.ofLong? name, chars.dropWhile (· != '=') with
  | some switch, _, [] => (turnOn options switch).map fun options => (options, none)
  | some _, _, _ => refuse ("unexpected value for " ++ name)
  | none, some setting, [] => .ok (options, some setting)
  | none, some setting, _ :: value =>
    (set options setting (String.ofList value)).map fun options => (options, none)
  | none, none, _ => refuse ("unexpected argument --" ++ name)

/-- The letters of an argument without its leading `-`: switches, then perhaps a setting with its
value or one that waits for the next argument. -/
def addShort (options : Options) : List Char → Except Refusal (Options × Option Setting)
  | [] => .ok (options, none)
  | c :: rest =>
    match Switch.ofShort? c, Setting.ofShort? c with
    | some switch, _ =>
      match turnOn options switch with
      | .ok options => addShort options rest
      | .error refusal => .error refusal
    | none, some setting =>
      match rest with
      | [] => .ok (options, some setting)
      | '=' :: value =>
        (set options setting (String.ofList value)).map fun options => (options, none)
      | value => (set options setting (String.ofList value)).map fun options => (options, none)
    | none, none => refuse ("unexpected argument -" ++ String.singleton c)

/-- The options after these arguments; `waiting` still needs its value, which cannot start with a
dash unless it is nothing else. -/
def addAll (options : Options) (waiting : Option Setting) :
    List String → Except Refusal Options
  | [] =>
    match waiting with
    | some _ => refuse "a value is required"
    | none => .ok options
  | argument :: rest =>
    match argument.toList, waiting with
    | '-' :: _ :: _, some _ => refuse "a value is required"
    | ['-', '-'], none => rest.foldlM addInput options
    | '-' :: '-' :: chars, none =>
      match addLong options chars with
      | .ok (options, waiting) => addAll options waiting rest
      | .error refusal => .error refusal
    | '-' :: c :: chars, none =>
      match addShort options (c :: chars) with
      | .ok (options, waiting) => addAll options waiting rest
      | .error refusal => .error refusal
    | _, some setting =>
      match set options setting argument with
      | .ok options => addAll options none rest
      | .error refusal => .error refusal
    | _, none =>
      match addInput options argument with
      | .ok options => addAll options none rest
      | .error refusal => .error refusal

/-- A setting that the arguments leave out is looked up in the environment. -/
def addFrom (environment : String → Option String) (setting : Setting) (name : String)
    (given : Option String) (options : Options) : Except Refusal Options :=
  match given, environment name with
  | none, some value => set options setting value
  | _, _ => .ok options

/-- The options of a run. There has to be an input unless the rules are to be listed. -/
def ofArguments (environment : String → Option String) (arguments : List String) :
    Except Refusal Options := do
  let options ← addAll empty none arguments
  let options ← addFrom environment .catalog "LIMITLESS_CATALOG" options.catalog options
  let options ← addFrom environment .engineVersion "LIMITLESS_ENGINE_VERSION"
    options.engineVersion options
  if options.inputs.isEmpty && !options.listRules then refuse "an input is required"
  else pure options

end Options
end SqlAudit.CommandLine

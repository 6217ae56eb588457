/-! The arguments of the command. Options and flags may stand anywhere before `--`, at most once
each; everything else is a path. -/
namespace CallGuard

inductive OutputFormat
  | text | json
  deriving DecidableEq, Repr

structure Arguments where
  /-- The active rules are to be listed. -/
  listsRules : Bool := false
  config? : Option String := none
  fix : Bool := false
  format? : Option OutputFormat := none
  pretty? : Option Bool := none
  paths : List String := []
  deriving DecidableEq, Repr

/-- Why arguments are not taken as a command to lint. -/
inductive ArgumentFault
  | unknownArgument
  /-- A value is missing, empty where a path is needed, or none of those that are allowed. -/
  | invalidValue
  /-- Something is given twice. -/
  | conflict
  /-- A flag is given a value. -/
  | tooManyValues
  | unknownSubcommand
  /-- Help is asked for. -/
  | help
  /-- The version is asked for. -/
  | version
  deriving DecidableEq, Repr

namespace Arguments

def format (a : Arguments) : OutputFormat := a.format?.getD .text

/-- What takes a value. -/
inductive Valued
  | config | format | pretty
  deriving DecidableEq, Repr

inductive Switch
  | fix | help | version
  deriving DecidableEq, Repr

/-- A name that begins with dashes. -/
inductive Named
  | valued (v : Valued)
  | switch (s : Switch)
  deriving DecidableEq, Repr

def long? : String → Option Named
  | "config" => some (.valued .config)
  | "format" => some (.valued .format)
  | "pretty" => some (.valued .pretty)
  | "fix" => some (.switch .fix)
  | "help" => some (.switch .help)
  | "version" => some (.switch .version)
  | _ => none

def short? : Char → Option Named
  | 'c' => some (.valued .config)
  | 'h' => some (.switch .help)
  | 'V' => some (.switch .version)
  | _ => none

/-! ### Values -/

def pathValue (value : String) : Except ArgumentFault String :=
  if value.isEmpty then .error .invalidValue else .ok value

/-- Lower and upper case mean the same. -/
def formatValue (value : String) : Except ArgumentFault OutputFormat :=
  match value.toLower with
  | "text" => .ok .text
  | "json" => .ok .json
  | _ => .error .invalidValue

def flagValue : String → Except ArgumentFault Bool
  | "true" => .ok true
  | "false" => .ok false
  | _ => .error .invalidValue

/-- Something new in the place of nothing. -/
def once (old? : Option α) (value : Except ArgumentFault α) : Except ArgumentFault (Option α) :=
  if old?.isSome then .error .conflict else value.map some

def give (a : Arguments) (v : Valued) (value : String) : Except ArgumentFault Arguments :=
  match v with
  | .config => do return { a with config? := ← once a.config? (pathValue value) }
  | .format => do return { a with format? := ← once a.format? (formatValue value) }
  | .pretty => do return { a with pretty? := ← once a.pretty? (flagValue value) }

def turn (a : Arguments) : Switch → Except ArgumentFault Arguments
  | .fix => if a.fix then .error .conflict else .ok { a with fix := true }
  | .help => .error .help
  | .version => .error .version

/-! ### Reading -/

/-- What has been read but not looked at yet: an option that may still get its value, or paths. -/
inductive Pending
  | nothing
  | option (v : Valued) (value? : Option String)
  | paths (values : List String)
  deriving DecidableEq, Repr

structure Reading where
  done : Arguments
  pending : Pending

namespace Reading

/-- Looks at what is pending. -/
def settle (r : Reading) : Except ArgumentFault Arguments :=
  match r.pending with
  | .nothing => .ok r.done
  | .option _ none => .error .invalidValue
  | .option v (some value) => r.done.give v value
  | .paths values => do
    let values ← values.mapM pathValue
    return { r.done with paths := r.done.paths ++ values }

/-- A path joins the paths directly before it. -/
def addPath (r : Reading) (path : String) : Except ArgumentFault Reading :=
  match r.pending with
  | .paths values => .ok ⟨r.done, .paths (values ++ [path])⟩
  | _ => do return ⟨← r.settle, .paths [path]⟩

/-- A name with the value attached to it. -/
def addNamed (r : Reading) (n : Named) (value? : Option String) :
    Except ArgumentFault Reading := do
  match n, value? with
  | .valued v, some value => return ⟨← (← r.settle).give v value, .nothing⟩
  | .valued v, none => return ⟨← r.settle, .option v none⟩
  | .switch s, none => return ⟨← (← r.settle).turn s, .nothing⟩
  | .switch _, some _ => throw .tooManyValues

/-- Single letters behind one dash. What follows a letter that takes a value is that value. -/
def addShort (r : Reading) : List Char → Except ArgumentFault Reading
  | [] => .ok r
  | c :: cs =>
    match short? c with
    | none => .error .unknownArgument
    | some (.switch s) => do (← r.addNamed (.switch s) none).addShort cs
    | some (.valued v) =>
      match cs with
      | [] => r.addNamed (.valued v) none
      | '=' :: value => r.addNamed (.valued v) (some (String.ofList value))
      | value => r.addNamed (.valued v) (some (String.ofList value))

/-- A name behind two dashes, with or without a value behind `=`. -/
def addLong (r : Reading) (cs : List Char) : Except ArgumentFault Reading :=
  let name := String.ofList (cs.takeWhile (· != '='))
  match long? name, cs.dropWhile (· != '=') with
  | none, _ => .error .unknownArgument
  | some n, [] => r.addNamed n none
  | some n, _ :: value => r.addNamed n (some (String.ofList value))

/-- Whether the next word is the value of an option. -/
def awaitsValue (r : Reading) : Bool := r.pending matches .option _ none

/-- Whether the next word can be the name of a subcommand: it neither is a value nor follows a
path. -/
def allowsSubcommand (r : Reading) : Bool := !r.awaitsValue && !(r.pending matches .paths _)

end Reading

/-- The words after `help` name subcommands, which have none of their own. -/
def helpOn : List String → ArgumentFault
  | [] | ["help"] | ["rules"] => .help
  | _ => .unknownSubcommand

/-- The words after `rules`, which takes nothing. -/
def readRules : List String → Except ArgumentFault Unit
  | [] | ["--"] => .ok ()
  | word :: _ =>
    match word.toList with
    | '-' :: '-' :: name =>
      if name.takeWhile (· != '=') == "help".toList then
        .error (if name.contains '=' then .tooManyValues else .help)
      else .error .unknownArgument
    | '-' :: 'h' :: _ => .error .help
    | _ => .error .unknownArgument

/-- Reads the words on from a place. `onlyPaths` is set behind `--`. -/
def readFrom (onlyPaths : Bool) (r : Reading) : List String → Except ArgumentFault Arguments
  | [] => r.settle
  | word :: words =>
    if onlyPaths then do readFrom true (← r.addPath word) words
    else if r.allowsSubcommand && word == "help" then .error (helpOn words)
    else if r.allowsSubcommand && word == "rules" then do
      readRules words
      return { ← r.settle with listsRules := true }
    else
      match word.toList with
      | ['-', '-'] => readFrom true r words
      | '-' :: '-' :: name => do readFrom false (← r.addLong name) words
      | '-' :: c :: cs => do readFrom false (← r.addShort (c :: cs)) words
      | _ =>
        match r.pending with
        | .option v none => readFrom false ⟨r.done, .option v (some word)⟩ words
        | _ => do readFrom false (← r.addPath word) words

/-- What the words of a command say. -/
def ofWords (words : List String) : Except ArgumentFault Arguments :=
  readFrom false ⟨{}, .nothing⟩ words

end Arguments

end CallGuard

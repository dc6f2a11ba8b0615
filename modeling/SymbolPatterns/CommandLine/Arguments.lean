import SymbolPatterns.Options

/-!
Reading the arguments of the command line. Flags given before a command exclude
a command; without one the flags are those of `generate`. Arguments that cannot
be read are a usage error, and nothing is run.
-/

namespace SymbolPatterns.CommandLine

/-- How the outcome of a run is told: in sentences, or as one object. -/
inductive SummaryFormat where
  | human
  | json
  deriving DecidableEq, Repr

inductive ConfigFormat where
  | json
  | toml
  deriving DecidableEq, Repr

/-- Flags that take precedence over a configuration file. A flag that is not
given leaves the setting as it is in the file. -/
structure Overrides where
  core : Option Path := none
  game : List Path := []
  header : Option Path := none
  installDir : Option Path := none
  installDirs : Option String := none
  includeHeaders : Bool := false
  grammar : Option Path := none
  chunkLimit : Option Nat := none
  deriving DecidableEq, Repr

/-- Directories from both flags replace those of the configuration, the single
one first. A flag for headers can only include them; nothing on the command
line leaves them out again. -/
def Overrides.apply (o : Overrides) (options : Options) : Options :=
  let dirs := o.installDir.toList ++ ((o.installDirs.map Options.splitDirList).getD [])
  { options with
    core := o.core.orElse fun _ => options.core
    game := if o.game.isEmpty then options.game else o.game
    header := o.header.orElse fun _ => options.header
    installDirs := if dirs.isEmpty then options.installDirs else dirs
    includeHeaders := options.includeHeaders || o.includeHeaders
    grammar := o.grammar.orElse fun _ => options.grammar
    chunkLimit := o.chunkLimit.orElse fun _ => options.chunkLimit }

inductive Command where
  | generate (overrides : Overrides) (format : SummaryFormat) (config : Option Path)
  | version
  /-- The flag that names the program together with its version. -/
  | programVersion
  | configInit (format : ConfigFormat) (force withLayout : Bool)
  | configShow (format : ConfigFormat) (config : Option Path)
  deriving DecidableEq, Repr

/-- How far the arguments have led into the commands. -/
inductive Level where
  | top
  | generate
  | version
  | config
  | configInit
  | configShow
  deriving DecidableEq, Repr

/-- What the flags have set so far, for all commands together. A command takes
from it what concerns it. -/
structure Draft where
  overrides : Overrides := {}
  summaryFormat : SummaryFormat := .human
  configFormat : ConfigFormat := .json
  config : Option Path := none
  force : Bool := false
  withLayout : Bool := false

/-- A flag with its names and what it changes in a draft. Whether it takes a
value and whether it may be repeated is told here as well. -/
structure Flag where
  /-- The first name identifies the flag. -/
  names : List String
  letter : Option Char := none
  takesValue : Bool := true
  repeatable : Bool := false
  set : Draft → String → Option Draft

/-- A path may not be empty. -/
def path? (value : String) : Option Path := if value.isEmpty then none else some ⟨value⟩

/-- A natural number of 64 bits, for which a plus sign is allowed. Blanks and
other signs are refused. -/
def natural? (value : String) : Option Nat :=
  let digits :=
    match value.toList with
    | '+' :: rest => rest
    | chars => chars
  if digits.isEmpty || !digits.all Char.isDigit then none
  else
    let n := digits.foldl (fun n c => n * 10 + (c.toNat - 48)) 0
    if n ≤ Json.greatestInteger then some n else none

def choice? {α : Type} (choices : List (String × α)) (value : String) : Option α :=
  choices.lookup value

def override {α : Type} (read : String → Option α) (put : Overrides → α → Overrides) :
    Draft → String → Option Draft := fun d value => do
  return { d with overrides := put d.overrides (← read value) }

def generateFlags : List Flag := [
  { names := ["core"], set := override path? fun o x => { o with core := x } },
  { names := ["game", "next"], repeatable := true,
    set := override path? fun o x => { o with game := o.game ++ [x] } },
  { names := ["header"], set := override path? fun o x => { o with header := x } },
  { names := ["openplanet-dir"],
    set := override path? fun o x => { o with installDir := x } },
  { names := ["openplanet-dirs"],
    set := override some fun o x => { o with installDirs := x } },
  { names := ["include-headers"], takesValue := false,
    set := override some fun o _ => { o with includeHeaders := true } },
  { names := ["grammar"], set := override path? fun o x => { o with grammar := x } },
  { names := ["max-chunk-length"],
    set := override natural? fun o x => { o with chunkLimit := x } },
  { names := ["format"], letter := 'f',
    set := fun d value => do
      let format ← choice? [("human", .human), ("json", .json)] value
      return { d with summaryFormat := format } }]

def configFormatFlag : Flag where
  names := ["format"]
  letter := 'f'
  set := fun d value => do
    let format ← choice? [("json", .json), ("toml", .toml)] value
    return { d with configFormat := format }

/-- Flags that every command takes. How much is logged and in which colours is
no part of what a command does. -/
def globalFlags : List Flag := [
  { names := ["config"], letter := 'c',
    set := fun d value => do return { d with config := ← path? value } },
  { names := ["verbose"], letter := 'v', takesValue := false, repeatable := true,
    set := fun d _ => some d },
  { names := ["no-color"], takesValue := false, set := fun d _ => some d }]

def Level.flags : Level → List Flag
  | top | generate => generateFlags ++ globalFlags
  | version | config => globalFlags
  | configInit =>
      [configFormatFlag,
        { names := ["force"], takesValue := false,
          set := fun d _ => some { d with force := true } },
        { names := ["with-layout"], takesValue := false,
          set := fun d _ => some { d with withLayout := true } }] ++ globalFlags
  | configShow => configFormatFlag :: globalFlags

def Level.enter? (level : Level) (word : String) : Option Level :=
  match level, word with
  | top, "generate" => some generate
  | top, "version" => some version
  | top, "config" => some config
  | config, "init" => some configInit
  | config, "show" => some configShow
  | _, _ => none

/-- The command at a level, unless it needs a further word. Without any word
the flags are those of a run. -/
def Level.finish? (level : Level) (d : Draft) : Option Command :=
  match level with
  | top | generate => some (.generate d.overrides d.summaryFormat d.config)
  | version => some .version
  | config => none
  | configInit => some (.configInit d.configFormat d.force d.withLayout)
  | configShow => some (.configShow d.configFormat d.config)

/-- What the arguments read so far have settled: the level, the flags at this
level, and the draft that they fill. -/
structure State where
  level : Level
  draft : Draft
  /-- The flags met at this level. -/
  given : List String

/-- Sets a flag, which is given once unless it is repeatable. A flag given
again is misuse, even with the same value. -/
def State.give (state : State) (flag : Flag) (value : String) : Option State := do
  let name ← flag.names.head?
  if state.given.contains name && !flag.repeatable then none
  let draft ← flag.set state.draft value
  return { state with draft := draft, given := name :: state.given }

/-- The value that an argument is for the flag in front of it. Another flag is
none, and neither is the mark that ends the flags. -/
def asValue? (argument : String) : Option String :=
  match argument.toList with
  | '-' :: _ :: _ => none
  | _ => some argument

/-- What a flag or a cluster of letters leaves to do: nothing, or to read the
value of its last flag from the next argument. -/
inductive Pending where
  | done (state : State)
  | needs (state : State) (flag : Flag)
  | programVersion

def longFlag? (state : State) (argument : List Char) : Option Pending :=
  let name := String.ofList (argument.takeWhile (· ≠ '='))
  let value :=
    match argument.dropWhile (· ≠ '=') with
    | _ :: value => some (String.ofList value)
    | [] => none
  if state.level = .top && name = "version" && value.isNone then some .programVersion
  else do
    let flag ← state.level.flags.find? fun flag => flag.names.contains name
    match value with
    | some value => if flag.takesValue then return .done (← state.give flag value) else none
    | none =>
        if flag.takesValue then return .needs state flag
        else return .done (← state.give flag "")

/-- Letters in a row; the first one that takes a value takes the rest for it. -/
def letters? : State → List Char → Option Pending
  | state, [] => some (.done state)
  | state, letter :: rest =>
      if state.level = .top && letter = 'V' then some .programVersion
      else do
        let flag ← state.level.flags.find? fun flag => flag.letter = some letter
        if !flag.takesValue then letters? (← state.give flag "") rest
        else
          match rest with
          | [] => return .needs state flag
          | '=' :: value => return .done (← state.give flag (String.ofList value))
          | value => return .done (← state.give flag (String.ofList value))

/-- Reads arguments from left to right. `waiting` is the flag whose value
comes next. Nothing is said about what is wrong with arguments that form no
command. -/
def read? : State → (waiting : Option Flag) → List String → Option Command
  | state, none, [] => state.level.finish? state.draft
  | _, some _, [] => none
  | state, some flag, argument :: rest => do
      let value ← asValue? argument
      read? (← state.give flag value) none rest
  | state, none, argument :: rest =>
      let go (pending : Option Pending) : Option Command :=
        match pending with
        | some (.done state) => read? state none rest
        | some (.needs state flag) => read? state (some flag) rest
        | some .programVersion => some .programVersion
        | none => none
      match argument.toList with
      | ['-', '-'] => if rest.isEmpty then state.level.finish? state.draft else none
      | '-' :: '-' :: name => go (longFlag? state name)
      | '-' :: c :: letters => go (letters? state (c :: letters))
      | _ =>
          if state.level = .top && !state.given.isEmpty then none
          else
            match state.level.enter? argument with
            | some level => read? ⟨level, state.draft, []⟩ none rest
            | none => none

def parse? (arguments : List String) : Option Command :=
  read? ⟨.top, {}, []⟩ none arguments

end SymbolPatterns.CommandLine

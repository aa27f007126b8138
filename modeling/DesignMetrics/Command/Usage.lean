import DesignMetrics.Text.Basic

/-!
Reading the words of a command line. An option is known by a letter or by a long name, and its value
follows, or stands behind an equals sign or right behind the letter. A command has operands or
subcommands; two dashes alone end the options.
-/

namespace DesignMetrics

/-- Why the words are not followed: they are wrong, or ask for a text about the program. -/
inductive UsageFault where
  | displayHelp
  | displayVersion
  | nothingGiven
  | missingSubcommand
  | invalidSubcommand
  | missingOperand
  | unknownArgument
  | invalidValue
  | unneededValue
  | repeated
  deriving DecidableEq, Repr

namespace UsageFault

def name : UsageFault → String
  | displayHelp => "DisplayHelp"
  | displayVersion => "DisplayVersion"
  | nothingGiven => "DisplayHelpOnMissingArgumentOrSubcommand"
  | missingSubcommand => "MissingSubcommand"
  | invalidSubcommand => "InvalidSubcommand"
  | missingOperand => "MissingRequiredArgument"
  | unknownArgument => "UnknownArgument"
  | invalidValue => "InvalidValue"
  | unneededValue => "TooManyValues"
  | repeated => "ArgumentConflict"

def exitCode : UsageFault → Nat
  | displayHelp | displayVersion => 0
  | _ => 2

end UsageFault

/-- What an option does. -/
inductive OptionRole where
  | help
  | version
  | count
  | switch
  | path
  | text
  | texts
  deriving DecidableEq, Repr

def OptionRole.takesValue : OptionRole → Bool
  | path | text | texts => true
  | _ => false

/-- An option or, without a letter, an operand. -/
structure OptionForm where
  long : String
  letter : Option Char := none
  role : OptionRole

/-- What the words of a command may be. -/
structure CommandForm where
  options : List OptionForm
  operands : List OptionForm := []
  subcommands : List String := []

/-- What has been read of the words of a command. -/
structure Given where
  counts : List (String × Nat) := []
  values : List (String × List String) := []
  open? : Option (OptionForm × List String) := none

namespace Given

def count (g : Given) (long : String) : Nat :=
  ((g.counts.find? fun c => c.1 == long).map Prod.snd).getD 0

def values? (g : Given) (long : String) : Option (List String) :=
  (g.values.find? fun v => v.1 == long).map Prod.snd

def value? (g : Given) (long : String) : Option String := (g.values? long).bind List.head?

def has (g : Given) (long : String) : Bool := (g.values? long).isSome

def isNothing (g : Given) : Bool := g.counts.isEmpty && g.values.isEmpty

def setOnce (g : Given) (long : String) (values : List String) : Except UsageFault Given :=
  if g.has long then .error .repeated else .ok { g with values := g.values ++ [(long, values)] }

def append (g : Given) (long : String) (values : List String) : Given :=
  let all := (g.values? long).getD [] ++ values
  { g with values := g.values.filter (fun v => v.1 != long) ++ [(long, all)] }

def take (g : Given) (o : OptionForm) (values : List String) : Except UsageFault Given := do
  if o.role.takesValue && values.isEmpty then throw .invalidValue
  match o.role with
  | .help => throw .displayHelp
  | .version => throw .displayVersion
  | .count =>
    let n := min (g.count o.long + 1) 255
    return { g with counts := (o.long, n) :: g.counts.filter fun c => c.1 != o.long }
  | .switch => g.setOnce o.long []
  | .text => g.setOnce o.long values
  | .path =>
    let g ← g.setOnce o.long values
    if values.any String.isEmpty then throw .invalidValue else return g
  | .texts => return g.append o.long (values.flatMap (Text.splitAll ','))

/-- What was read last is settled only when the next thing starts, so a fault in a value may be
found later than one in the word behind it. -/
def settle (g : Given) : Except UsageFault Given :=
  match g.open? with
  | none => .ok g
  | some (o, values) => { g with open? := none }.take o values

def start (g : Given) (o : OptionForm) (values : List String) : Except UsageFault Given := do
  return { ← g.settle with open? := some (o, values) }

def complete (g : Given) (o : OptionForm) (values : List String) : Except UsageFault Given := do
  (← g.settle).take o values

end Given

/-- A command line while it is read. -/
structure Reading where
  given : Given := {}
  awaits : Bool := false
  onlyOperands : Bool := false
  operands : List OptionForm

namespace Reading

def option (r : Reading) (o : OptionForm) (attached : Option String)
    : Except UsageFault Reading := do
  match attached with
  | some value => return { r with given := ← r.given.complete o [value], awaits := false }
  | none => return { r with given := ← r.given.start o [], awaits := true }

def long (r : Reading) (form : CommandForm) (word : String) : Except UsageFault Reading := do
  let (name, attached) :=
    match Text.splitFirst? '=' word with
    | some (name, value) => (name, some value)
    | none => (word, none)
  match form.options.find? fun o => o.long == name with
  | none => throw .unknownArgument
  | some o =>
    if o.role.takesValue then r.option o attached
    else if attached.isSome then throw .unneededValue
    else return { r with given := ← r.given.complete o [], awaits := false }

def letters (form : CommandForm) : Reading → List Char → Except UsageFault Reading
  | r, [] => .ok r
  | r, c :: rest =>
    match form.options.find? fun o => o.letter == some c with
    | none => .error .unknownArgument
    | some o =>
      if o.role.takesValue then
        match rest with
        | [] => r.option o none
        | '=' :: value => r.option o (some (String.ofList value))
        | value => r.option o (some (String.ofList value))
      else do
        letters form { r with given := ← r.given.complete o [], awaits := false } rest

def operand (r : Reading) (form : CommandForm) (word : String) : Except UsageFault Reading :=
  match r.operands with
  | o :: rest => do
    return { r with given := ← r.given.start o [word], awaits := false, operands := rest }
  | [] =>
    if form.subcommands.isEmpty || (r.onlyOperands && form.subcommands.contains word) then
      .error .unknownArgument
    else .error .invalidSubcommand

def plain (r : Reading) (form : CommandForm) (word : String) : Except UsageFault Reading :=
  match r.awaits, r.given.open? with
  | true, some (o, values) =>
    .ok { r with given := { r.given with open? := some (o, values ++ [word]) }, awaits := false }
  | _, _ => r.operand form word

def word (r : Reading) (form : CommandForm) (word : String) : Except UsageFault Reading :=
  if r.onlyOperands then r.operand form word
  else
    match word.toList with
    | ['-', '-'] => .ok { r with onlyOperands := true }
    | '-' :: '-' :: rest => r.long form (String.ofList rest)
    | ['-'] => r.plain form word
    | '-' :: rest => letters form r rest
    | _ => r.plain form word

def words (form : CommandForm)
    : Reading → List String → Except UsageFault (Given × Option (String × List String))
  | r, [] => do return (← r.given.settle, none)
  | r, w :: rest =>
    if !r.onlyOperands && !r.awaits && form.subcommands.contains w then
      .ok (r.given, some (w, rest))
    else do words form (← r.word form w) rest

end Reading

def CommandForm.read (form : CommandForm) (words : List String)
    : Except UsageFault (Given × Option (String × List String)) :=
  Reading.words form { operands := form.operands } words

end DesignMetrics

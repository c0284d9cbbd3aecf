import CurveCalc.Number.Reading
import CurveCalc.Text.Quoted

/-!
Reading the arguments of a command. Options are known by name, may be shortened as long as they stay
unambiguous, and take their value from behind an equals sign or from the next argument. A double
dash ends them. What begins with a dash but is a negative number, or holds a space, is no option.
-/

set_option autoImplicit false
set_option relaxedAutoImplicit false

namespace CurveCalc.CommandLine

/-- What the value of an option has to be. -/
inductive ValueForm where
  | text
  | int
  | float
  | choice (among : List String)
  deriving DecidableEq

/-- What an option does. -/
inductive OptionKind where
  /-- Shows the help text and ends. -/
  | help
  | flag
  | value (form : ValueForm)
  deriving DecidableEq

/-- An option with all of its names, the one it is filed under first. -/
structure OptionSpec where
  names : List String
  kind : OptionKind
  deriving DecidableEq

/-- The option as error messages call it. -/
def OptionSpec.title (o : OptionSpec) : String := String.intercalate "/" o.names

/-- What arguments that are no options mean. -/
inductive Positional where
  | none
  /-- One argument is needed. -/
  | required (name : String)
  /-- The first one is a command, and whatever follows it belongs to that. -/
  | command (name : String) (among : List String)

/-- What a command understands. -/
structure Grammar where
  program : String
  usage : String
  help : String
  options : List OptionSpec
  positional : Positional
  /-- Options of which exactly one is needed, by title. -/
  exclusive : List String

/-- The value of an option. -/
inductive ArgumentValue where
  | flag
  | text (s : String)
  | int (n : Int)
  | float (x : Float)

/-- What was understood. -/
structure Arguments where
  /-- Options by the first of their names, in order. -/
  options : List (String × ArgumentValue)
  positional : Option String
  /-- The command with the arguments that follow it. -/
  command : Option (String × List String)
  /-- Arguments that mean nothing. -/
  extras : List String

/-- Why the arguments of a command are wrong. -/
inductive ArgumentError where
  | ambiguous (argument : String) (matching : List String)
  | missingValue (title : String)
  | unwantedValue (title value : String)
  | notAnInt (title value : String)
  | notAFloat (title value : String)
  | notAChoice (title value : String) (among : List String)
  | conflict (title other : String)
  | missing (name : String)
  | missingGroup (titles : List String)
  | unrecognized (arguments : List String)

namespace ArgumentError

def choicesText (among : List String) : String :=
  "(choose from " ++ String.intercalate ", " (among.map Text.quoted) ++ ")"

def message : ArgumentError → String
  | ambiguous argument matching =>
    "ambiguous option: " ++ argument ++ " could match " ++ String.intercalate ", " matching
  | missingValue title => "argument " ++ title ++ ": expected one argument"
  | unwantedValue title value =>
    "argument " ++ title ++ ": ignored explicit argument " ++ Text.quoted value
  | notAnInt title value => "argument " ++ title ++ ": invalid int value: " ++ Text.quoted value
  | notAFloat title value =>
    "argument " ++ title ++ ": invalid float value: " ++ Text.quoted value
  | notAChoice title value among =>
    "argument " ++ title ++ ": invalid choice: " ++ Text.quoted value ++ " " ++ choicesText among
  | conflict title other => "argument " ++ title ++ ": not allowed with argument " ++ other
  | missing name => "the following arguments are required: " ++ name
  | missingGroup titles =>
    "one of the arguments " ++ String.intercalate " " titles ++ " is required"
  | unrecognized arguments => "unrecognized arguments: " ++ String.intercalate " " arguments

end ArgumentError

/-- Why reading ends before its end. -/
inductive Stop where
  | help
  | error (e : ArgumentError)

/-- A value in the same argument as its option. -/
structure Joined where
  value : String
  /-- An equals sign stands in front of the value. -/
  equals : Bool

/-- How an argument counts. -/
inductive Class where
  | plain
  /-- The double dash. -/
  | divider
  /-- An option, with a value that is joined to it. -/
  | option (o : OptionSpec) (joined : Option Joined)
  | unknownOption

def isDigits (chars : List Char) : Bool := !chars.isEmpty && chars.all Text.isDecimal

/-- A minus with digits of any script, or with digits behind a point; a line break may follow. -/
def isNegativeNumber (chars : List Char) : Bool :=
  match Text.withoutLastBreak chars with
  | '-' :: rest =>
    isDigits rest ||
      (match rest.dropWhile Text.isDecimal with
        | '.' :: places => isDigits places
        | _ => false)
  | _ => false

def startsWith (start whole : String) : Bool := start.toList.isPrefixOf whole.toList

namespace Grammar

/-- Every name of every option. -/
def names (g : Grammar) : List (String × OptionSpec) :=
  g.options.flatMap fun o ↦ o.names.map fun name ↦ (name, o)

/-- The options an argument may be short for, each with the value that is joined to it. -/
def shortFor (g : Grammar) (argument : String) : List (String × OptionSpec × Option Joined) :=
  let chars := argument.toList
  if chars.take 2 = ['-', '-'] then
    let name := String.ofList (chars.takeWhile fun c ↦ c != '=')
    let joined := match chars.dropWhile fun c ↦ c != '=' with
      | [] => none
      | _ :: value => some ⟨String.ofList value, true⟩
    (g.names.filter fun n ↦ startsWith name n.1).map fun n ↦ (n.1, n.2, joined)
  else
    let letter := String.ofList (chars.take 2)
    g.names.filterMap fun n ↦
      if n.1 = letter then some (n.1, n.2, some ⟨String.ofList (chars.drop 2), false⟩)
      else if startsWith argument n.1 then some (n.1, n.2, none)
      else none

def classify (g : Grammar) (argument : String) : Except ArgumentError Class :=
  let chars := argument.toList
  match chars with
  | '-' :: _ :: _ =>
    match g.names.lookup argument with
    | some o => .ok (.option o none)
    | none =>
      let name := String.ofList (chars.takeWhile fun c ↦ c != '=')
      match chars.dropWhile (fun c ↦ c != '='), g.names.lookup name with
      | _ :: value, some o => .ok (.option o (some ⟨String.ofList value, true⟩))
      | _, _ =>
        match g.shortFor argument with
        | [(_, o, joined)] => .ok (.option o joined)
        | [] =>
          if isNegativeNumber chars || chars.contains ' ' then .ok .plain else .ok .unknownOption
        | several => .error (.ambiguous argument (several.map Prod.fst))
  | _ => .ok .plain

/-- The class of each argument; behind a double dash all are plain. -/
def classifyAll (g : Grammar) : List String → Except ArgumentError (List (String × Class))
  | [] => .ok []
  | argument :: rest =>
    if argument = "--" then
      .ok ((argument, .divider) :: rest.map fun a ↦ (a, .plain))
    else do
      let c ← g.classify argument
      return (argument, c) :: (← g.classifyAll rest)

/-- Understands the value of an option. -/
def convert (title : String) (form : ValueForm) (value : String) :
    Except ArgumentError ArgumentValue :=
  match form with
  | .text => .ok (.text value)
  | .int =>
    match Number.readInt? value with
    | some n => .ok (.int n)
    | none => .error (.notAnInt title value)
  | .float =>
    match Number.readFloat? value with
    | some x => .ok (.float x)
    | none => .error (.notAFloat title value)
  | .choice among =>
    if among.contains value then .ok (.text value) else .error (.notAChoice title value among)

/-- The other option of the exclusive ones that has been given before. -/
def conflicting (g : Grammar) (o : OptionSpec) (found : Arguments) : Option String :=
  if g.exclusive.contains o.title then
    (g.options.filter fun other ↦
      g.exclusive.contains other.title && other.title != o.title &&
        found.options.any fun f ↦ other.names.head? = some f.1).head?.map OptionSpec.title
  else none

/-- Files an option with its value. -/
def take (g : Grammar) (o : OptionSpec) (value : Option String) (found : Arguments) :
    Except Stop Arguments :=
  let name := o.names.headD ""
  match o.kind, value with
  | .help, _ => .error .help
  | .flag, _ => .ok { found with options := found.options ++ [(name, .flag)] }
  | .value _, none => .error (.error (.missingValue o.title))
  | .value form, some text =>
    match convert o.title form text with
    | .error e => .error (.error e)
    | .ok v =>
      match g.conflicting o found with
      | some other => .error (.error (.conflict o.title other))
      | none => .ok { found with options := found.options ++ [(name, v)] }

/-- Whether an option takes a value. -/
def takesValue (o : OptionSpec) : Bool :=
  match o.kind with
  | .value _ => true
  | _ => false

/-- Options that stand in one argument, and what is left of it where a letter stands for none. -/
structure Cluster where
  options : List (OptionSpec × Option String)
  unknown : Option String

/-- What is joined to a letter. -/
def joinedTo (rest : List Char) : Option Joined :=
  match rest with
  | [] => none
  | '=' :: value => some ⟨String.ofList value, true⟩
  | value => some ⟨String.ofList value, false⟩

/-- The options that letters joined to one another stand for, the last of them with what is left as
its value. -/
def cluster (g : Grammar) : Nat → OptionSpec → Option Joined → Except Stop Cluster
  | 0, o, joined => .ok ⟨[(o, joined.map Joined.value)], none⟩
  | fuel + 1, o, joined =>
    match joined with
    | none => .ok ⟨[(o, none)], none⟩
    | some ⟨value, equals⟩ =>
      if takesValue o then .ok ⟨[(o, some value)], none⟩
      else
        match value.toList with
        | [] => .error (.error (.unwantedValue o.title value))
        | first :: rest =>
          if equals || first = '-' then .error (.error (.unwantedValue o.title value))
          else
            match g.names.lookup (String.ofList ['-', first]) with
            | none => .ok ⟨[(o, none)], some ("-" ++ value)⟩
            | some next => do
              let more ← g.cluster fuel next (joinedTo rest)
              return ⟨(o, none) :: more.options, more.unknown⟩

/-- Files options that stand in one argument; the last of them may take its value from the next. -/
def takeCluster (g : Grammar) : List (OptionSpec × Option String) → List (String × Class) →
    Arguments → Except Stop (Arguments × List (String × Class))
  | [], rest, found => .ok (found, rest)
  | [(o, none)], rest, found =>
    if takesValue o then
      match rest with
      | (value, .plain) :: after => do return (← g.take o (some value) found, after)
      | _ => .error (.error (.missingValue o.title))
    else do return (← g.take o none found, rest)
  | (o, value) :: more, rest, found => do
    g.takeCluster more rest (← g.take o value found)

def isPlain : String × Class → Bool
  | (_, .plain) => true
  | _ => false

def isDivider : String × Class → Bool
  | (_, .divider) => true
  | _ => false

/-- Files a plain argument at the front, possibly behind a divider, if one is still wanted. -/
def takePositional (g : Grammar) (rest : List (String × Class)) (found : Arguments) :
    Except Stop (Option (Arguments × List (String × Class))) :=
  let dividers := rest.takeWhile isDivider
  match rest.dropWhile isDivider with
  | (value, .plain) :: after =>
    match g.positional with
    | .none => .ok none
    | .required _ =>
      if found.positional.isSome then .ok none
      else .ok (some ({ found with positional := some value }, after.dropWhile isDivider))
    | .command name among =>
      if found.command.isSome then .ok none
      else
        let all := dividers.map Prod.fst ++ value :: after.map Prod.fst
        match all with
        | [] => .ok none
        | first :: others =>
          if among.contains first then
            .ok (some ({ found with command := some (first, others) }, []))
          else .error (.error (.notAChoice name first among))
  | _ => .ok none

/-- Reads classified arguments from the front. -/
def readFrom (g : Grammar) : Nat → List (String × Class) → Arguments → Except Stop Arguments
  | 0, rest, found => .ok { found with extras := found.extras ++ rest.map Prod.fst }
  | fuel + 1, rest, found => do
    match rest with
    | [] => return found
    | (argument, .unknownOption) :: after =>
      g.readFrom fuel after { found with extras := found.extras ++ [argument] }
    | (_, .option o joined) :: after =>
      let c ← g.cluster (joined.elim 0 (fun j ↦ j.value.length) + 1) o joined
      let (found, after) ← g.takeCluster c.options after found
      g.readFrom fuel after { found with extras := found.extras ++ c.unknown.toList }
    | (argument, _) :: after =>
      match ← g.takePositional rest found with
      | some (found, after) => g.readFrom fuel after found
      | none => g.readFrom fuel after { found with extras := found.extras ++ [argument] }

/-- What is still missing once all arguments have been read. -/
def checkComplete (g : Grammar) (found : Arguments) : Except Stop Arguments :=
  match g.positional, found.positional with
  | .required name, none => .error (.error (.missing name))
  | _, _ =>
    if g.exclusive.isEmpty then .ok found
    else if g.options.any fun o ↦
        g.exclusive.contains o.title && found.options.any fun f ↦ o.names.head? = some f.1 then
      .ok found
    else .error (.error (.missingGroup g.exclusive))

/-- Reads the arguments of a command. -/
def read (g : Grammar) (arguments : List String) : Except Stop Arguments := do
  let classified ← (g.classifyAll arguments).mapError Stop.error
  let found ← g.readFrom (arguments.length + 1) classified
    { options := [], positional := none, command := none, extras := [] }
  g.checkComplete found

end Grammar

namespace Arguments

/-- The last value an option was given. -/
def last? (a : Arguments) (name : String) : Option ArgumentValue :=
  (a.options.reverse.find? fun o ↦ o.1 == name).map Prod.snd

def has (a : Arguments) (name : String) : Bool := (a.last? name).isSome

def text? (a : Arguments) (name : String) : Option String :=
  match a.last? name with
  | some (.text s) => some s
  | _ => none

def int? (a : Arguments) (name : String) : Option Int :=
  match a.last? name with
  | some (.int n) => some n
  | _ => none

def float? (a : Arguments) (name : String) : Option Float :=
  match a.last? name with
  | some (.float x) => some x
  | _ => none

/-- Every text an option was given, in order. -/
def texts (a : Arguments) (name : String) : List String :=
  a.options.filterMap fun o ↦
    match o with
    | (n, .text s) => if n == name then some s else none
    | _ => none

end Arguments

end CurveCalc.CommandLine

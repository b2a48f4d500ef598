/-!
# Reading the arguments of a command

Options may be written as one letter behind a dash, several letters together, or as a word behind
two dashes. A value follows in the next argument, behind the letter, or behind an equals sign after
a word. Everything after two dashes by themselves is an argument.
-/

namespace LayerLint.Command

structure OptionForm where
  key : String
  /-- All spellings of the option, with their dashes. -/
  names : List String
  takesValue : Bool

/-- An option as it was given; the value of an option without one is empty. -/
structure GivenOption where
  key : String
  value : String
  deriving DecidableEq, Repr

/-- Options in the order in which they were given, and the arguments between them. -/
structure Arguments where
  options : List GivenOption
  positional : List String
  deriving DecidableEq, Repr

namespace Arguments

def value? (arguments : Arguments) (key : String) : Option String :=
  (arguments.options.reverse.find? (·.key = key)).map (·.value)

def has (arguments : Arguments) (key : String) : Bool :=
  arguments.options.any (·.key = key)

end Arguments

def findForm? (forms : List OptionForm) (name : String) : Option OptionForm :=
  forms.find? (·.names.contains name)

/-- An option that takes the next argument as its value. -/
def withNext? (form : OptionForm) : List String → Option (GivenOption × List String)
  | [] => none
  | value :: rest => some (⟨form.key, value⟩, rest)

/-- Reads an option that is written as a word; the arguments after it are in `rest`. -/
def readWord? (forms : List OptionForm) (word : List Char) (rest : List String) :
    Option (GivenOption × List String) :=
  match findForm? forms (String.ofList (word.takeWhile (· != '='))) with
  | none => none
  | some form =>
      match word.dropWhile (· != '='), form.takesValue with
      | [], true => withNext? form rest
      | [], false => some (⟨form.key, ""⟩, rest)
      | _ :: value, true => some (⟨form.key, String.ofList value⟩, rest)
      | _ :: _, false => none

/-- Reads options that are written as letters together. The first one that takes a value takes the
letters after it, or the next argument if there are none. -/
def readLetters? (forms : List OptionForm) :
    List Char → List String → Option (List GivenOption × List String)
  | [], rest => some ([], rest)
  | c :: cs, rest =>
      match findForm? forms (String.ofList ['-', c]) with
      | none => none
      | some form =>
          if form.takesValue then
            if cs.isEmpty then (withNext? form rest).map fun (given, rest) => ([given], rest)
            else some ([⟨form.key, String.ofList cs⟩], rest)
          else
            (readLetters? forms cs rest).map fun (more, rest) => (⟨form.key, ""⟩ :: more, rest)

def readOptions? (forms : List OptionForm) (argument : List Char) (rest : List String) :
    Option (List GivenOption × List String) :=
  match argument with
  | '-' :: '-' :: _ => (readWord? forms argument rest).map fun (given, rest) => ([given], rest)
  | _ => readLetters? forms argument.tail rest

/-- Whether an argument is read as options: a dash with something behind it. -/
def isOptional : List Char → Bool
  | '-' :: _ :: _ => true
  | _ => false

/-- Reads arguments, at most `fuel`. Unless options may stand `between` other arguments, everything
from the first other argument on is one. -/
def readArguments? (forms : List OptionForm) (between : Bool) : Nat → List String → Option Arguments
  | 0, rest => some ⟨[], rest⟩
  | _ + 1, [] => some ⟨[], []⟩
  | fuel + 1, argument :: rest =>
      if argument = "--" then some ⟨[], rest⟩
      else if isOptional argument.toList then
        match readOptions? forms argument.toList rest with
        | none => none
        | some (given, rest) =>
            (readArguments? forms between fuel rest).map fun more =>
              { more with options := given ++ more.options }
      else if between then
        (readArguments? forms between fuel rest).map fun more =>
          { more with positional := argument :: more.positional }
      else some ⟨[], argument :: rest⟩

/-- The arguments of a command, or nothing if one of them is not understood. -/
def Arguments.read? (forms : List OptionForm) (between : Bool) (arguments : List String) :
    Option Arguments :=
  readArguments? forms between arguments.length arguments

end LayerLint.Command

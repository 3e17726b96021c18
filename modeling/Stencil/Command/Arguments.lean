/-!
# Arguments

Arguments are settings and operands in any order. A setting has a long name and perhaps a letter;
letters may be written together, and a value follows its setting as the next argument, behind `=`,
or right behind the letter. After `--` there are operands only. Arguments are read from left to
right up to the first one that is wrong, or that asks for help or for the version.
-/

namespace Stencil.Command

/-- How a setting is given. -/
inductive Arity where
  /-- Once, without a value. -/
  | flag
  /-- Any number of times, without a value. -/
  | counted
  /-- Once, with a value. -/
  | single
  /-- Any number of times, with a value. -/
  | repeated
  /-- Without a value, to ask for help. -/
  | help
  /-- Without a value, to ask for the version. -/
  | version
  deriving DecidableEq, Repr

/-- Whether a value belongs to the setting. -/
def Arity.takesValue : Arity → Bool
  | .single | .repeated => true
  | _ => false

/-- A setting that a command takes. -/
structure Setting where
  long : String
  letter : Option Char
  arity : Arity
  /-- Which values it takes. -/
  valid : String → Bool

/-- What is wrong with the arguments. -/
inductive UsageFault where
  | unknownSetting (text : String)
  | missingValue (setting : String)
  | unneededValue (setting : String)
  | repeatedSetting (setting : String)
  | invalidValue (setting value : String)
  | unexpectedOperand (text : String)
  | missingOperand
  | missingCommand
  | unknownCommand (text : String)
  deriving DecidableEq, Repr

/-- What is wrong, in words. -/
def UsageFault.message : UsageFault → String
  | .unknownSetting text => s!"unexpected argument '{text}' found"
  | .missingValue setting => s!"a value is required for '--{setting}' but none was supplied"
  | .unneededValue setting => s!"unexpected value for '--{setting}' found; no more were expected"
  | .repeatedSetting setting => s!"the argument '--{setting}' cannot be used multiple times"
  | .invalidValue setting value => s!"invalid value '{value}' for '--{setting}'"
  | .unexpectedOperand text => s!"unexpected argument '{text}' found"
  | .missingOperand => "a required argument was not provided"
  | .missingCommand => "a subcommand is required but one was not provided"
  | .unknownCommand text => s!"unrecognized subcommand '{text}'"

/-- Why the arguments do not lead to a run. -/
inductive Stop where
  | usage (e : UsageFault)
  | help
  | version
  deriving DecidableEq, Repr

/-- The settings given so far, each with its value, and the operands. -/
structure Given where
  settings : List (String × String)
  operands : List String
  deriving DecidableEq, Repr

namespace Given

/-- Nothing is given. -/
def nothing : Given := ⟨[], []⟩

/-- The values of a setting, in order. -/
def values (g : Given) (long : String) : List String :=
  (g.settings.filter (·.1 = long)).map (·.2)

/-- The value of a setting that is given once. -/
def value? (g : Given) (long : String) : Option String := (g.values long).head?

/-- The number of times that a setting is given. -/
def count (g : Given) (long : String) : Nat := (g.values long).length

/-- Whether a setting is given. -/
def has (g : Given) (long : String) : Bool := g.count long != 0

/-- Adds a setting with its value, unless the value is not valid or the setting may not be given
again. -/
def addSetting (g : Given) (s : Setting) (value : String) : Except Stop Given :=
  if s.arity = .help then .error .help
  else if s.arity = .version then .error .version
  else if (s.arity = .flag ∨ s.arity = .single) ∧ g.has s.long then
    .error (.usage (.repeatedSetting s.long))
  else if !s.valid value then .error (.usage (.invalidValue s.long value))
  else .ok { g with settings := g.settings ++ [(s.long, value)] }

end Given

/-- The arguments that a command takes. -/
structure Signature where
  settings : List Setting
  /-- The greatest number of operands. -/
  operands : Nat
  /-- Which operands it takes. -/
  validOperand : String → Bool

namespace Signature

/-- Adds an operand. -/
def addOperand (sig : Signature) (g : Given) (text : String) : Except Stop Given :=
  if g.operands.length < sig.operands ∧ sig.validOperand text then
    .ok { g with operands := g.operands ++ [text] }
  else .error (.usage (.unexpectedOperand text))

/-- The setting of a long name. -/
def ofLong? (sig : Signature) (long : String) : Option Setting :=
  sig.settings.find? (·.long == long)

/-- The setting of a letter. -/
def ofLetter? (sig : Signature) (letter : Char) : Option Setting :=
  sig.settings.find? (·.letter == some letter)

/-- Reads letters that are written together. The last setting may be without its value, which is
the next argument then. -/
def readLetters (sig : Signature) (g : Given) : List Char → Except Stop (Given × Option Setting)
  | [] => .ok (g, none)
  | c :: cs =>
    match sig.ofLetter? c with
    | none => .error (.usage (.unknownSetting (String.ofList ['-', c])))
    | some s =>
      if s.arity.takesValue then
        match cs with
        | [] => .ok (g, some s)
        | '=' :: value => (g.addSetting s (String.ofList value)).map (·, none)
        | value => (g.addSetting s (String.ofList value)).map (·, none)
      else
        match g.addSetting s "" with
        | .ok g => readLetters sig g cs
        | .error e => .error e

/-- Reads what follows the two dashes of a long name. -/
def readLong (sig : Signature) (g : Given) (text : List Char) :
    Except Stop (Given × Option Setting) :=
  let (long, value) := text.span (· ≠ '=')
  match sig.ofLong? (String.ofList long) with
  | none => .error (.usage (.unknownSetting (String.ofList ('-' :: '-' :: long))))
  | some s =>
    match value, s.arity.takesValue with
    | _ :: value, true => (g.addSetting s (String.ofList value)).map (·, none)
    | [], true => .ok (g, some s)
    | _ :: _, false => .error (.usage (.unneededValue s.long))
    | [], false => (g.addSetting s "").map (·, none)

/-- Whether an argument begins a setting or is `--`. A lone dash is an operand. -/
def isSetting (text : String) : Bool :=
  match text.toList with
  | '-' :: _ :: _ => true
  | _ => false

/-- Reads one argument: what is given then, and the setting whose value is to follow. -/
def readArgument (sig : Signature) (g : Given) (text : String) :
    Except Stop (Given × Option Setting) :=
  match text.toList with
  | '-' :: '-' :: long => sig.readLong g long
  | '-' :: c :: cs => sig.readLetters g (c :: cs)
  | _ => (sig.addOperand g text).map (·, none)

/-- Reads arguments, the first of which may be the value of a setting. -/
def readFrom (sig : Signature) : (g : Given) → (waiting : Option Setting) → List String →
    Except Stop Given
  | g, none, [] => .ok g
  | _, some s, [] => .error (.usage (.missingValue s.long))
  | g, none, text :: rest =>
    if text = "--" then rest.foldlM sig.addOperand g
    else
      match sig.readArgument g text with
      | .ok (g, waiting) => readFrom sig g waiting rest
      | .error e => .error e
  | g, some s, text :: rest =>
    if isSetting text then .error (.usage (.missingValue s.long))
    else
      match g.addSetting s text with
      | .ok g => readFrom sig g none rest
      | .error e => .error e

/-- Reads arguments. -/
def read (sig : Signature) (args : List String) : Except Stop Given :=
  sig.readFrom .nothing none args

end Signature

end Stencil.Command

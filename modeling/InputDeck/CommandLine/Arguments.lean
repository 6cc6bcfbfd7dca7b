/-
The command line and the commands that it may hold.

Arguments are read from left to right.  The first one which cannot stand where it does, or which
asks for help or for the version, ends the reading.
-/
import InputDeck.Path

namespace InputDeck
namespace CommandLine

abbrev Argument := List UInt8

inductive Command where
  | generate (templates : Path) (vars output : Option Path) (analysisType : String)
      (config : Option Path)
  | render (input : Path) (vars : Option Path)
deriving DecidableEq

/-- Why there is no command to run. -/
inductive Stop where
  | help
  | version
  | usage
deriving DecidableEq

/-- What the value of an option has to be: a path, which is not empty, or text. -/
inductive Kind where
  | path
  | text
deriving DecidableEq

/-- An option with a value. -/
structure ValueOption where
  name : String
  kind : Kind
deriving DecidableEq

/-- The options given so far with their values. -/
abbrev Given := List (String × List UInt8)

def dash : UInt8 := 0x2D

def equals : UInt8 := 0x3D

/-- Arguments that begin with a dash are no values, a single dash excepted. -/
def isDashed (a : Argument) : Bool := a.head? == some dash && a != [dash]

def isLong (a : Argument) : Bool := [dash, dash].isPrefixOf a

/-- What comes before the first equals sign, and what follows it if there is one. -/
def splitValue (a : Argument) : Argument × Option (List UInt8) :=
  match a.dropWhile (· != equals) with
  | [] => (a, none)
  | _ :: value => (a.takeWhile (· != equals), some value)

/-- The letters behind a single dash.  The version is known before the command only. -/
def readLetters (versionKnown : Bool) : List Char → Except Stop Unit
  | [] => .ok ()
  | 'v' :: rest => readLetters versionKnown rest
  | 'h' :: _ => .error .help
  | 'V' :: _ => .error (if versionKnown then .version else .usage)
  | _ => .error .usage

/-- An argument with a dash that is no option with a value. -/
def readFlag (versionKnown : Bool) (a : Argument) : Except Stop Unit :=
  if !isLong a then readLetters versionKnown (Text.display (a.drop 1))
  else if a = Text.utf8 "--verbose" then .ok ()
  else if a = Text.utf8 "--help" then .error .help
  else if a = Text.utf8 "--version" ∧ versionKnown then .error .version
  else .error .usage

def isValue (kind : Kind) (value : List UInt8) : Bool :=
  match kind with
  | .path => value != []
  | .text => (String.fromUTF8? ⟨value.toArray⟩).isSome

/-- Adds the value of an option, which may be given once. -/
def give (given : Given) (o : ValueOption) (value : List UInt8) : Except Stop Given :=
  if isValue o.kind value ∧ (given.lookup o.name).isNone then .ok (given ++ [(o.name, value)])
  else .error .usage

/-- The options behind a command.  Two dashes end them, and nothing may follow. -/
def readOptions (known : List ValueOption) (given : Given) : List Argument → Except Stop Given
  | [] => .ok given
  | a :: rest =>
      if a = [dash, dash] then if rest = [] then .ok given else .error .usage
      else if !isDashed a then .error .usage
      else
        let (name, value) := splitValue a
        match known.find? fun o => name == Text.utf8 ("--" ++ o.name) with
        | none => do
            readFlag false a
            readOptions known given rest
        | some o =>
            match value with
            | some value => do readOptions known (← give given o value) rest
            | none =>
                match rest with
                | [] => .error .usage
                | value :: rest =>
                    if isDashed value then .error .usage
                    else do readOptions known (← give given o value) rest

def pathOf? (given : Given) (name : String) : Option Path := (given.lookup name).map Path.mk

def requirePath (given : Given) (name : String) : Except Stop Path :=
  match pathOf? given name with
  | some p => .ok p
  | none => .error .usage

def textOf (given : Given) (name : String) : String :=
  match given.lookup name with
  | some value => String.ofList (Text.display value)
  | none => ""

def readGenerate (arguments : List Argument) : Except Stop Command := do
  let known : List ValueOption :=
    [⟨"templates", .path⟩, ⟨"variables", .path⟩, ⟨"output", .path⟩, ⟨"analysis-type", .text⟩,
      ⟨"config", .path⟩]
  let given ← readOptions known [] arguments
  let templates ← requirePath given "templates"
  return .generate templates (pathOf? given "variables") (pathOf? given "output")
    (textOf given "analysis-type") (pathOf? given "config")

def readRender (arguments : List Argument) : Except Stop Command := do
  let given ← readOptions [⟨"input", .path⟩, ⟨"variables", .path⟩] [] arguments
  return .render (← requirePath given "input") (pathOf? given "variables")

/-- Help may be asked for on one of the commands. -/
def readHelp (arguments : List Argument) : Stop :=
  match arguments with
  | [] => .help
  | [name] =>
      if [Text.utf8 "generate", Text.utf8 "render", Text.utf8 "help"].contains name then .help
      else .usage
  | _ => .usage

def read : List Argument → Except Stop Command
  | [] => .error .usage
  | a :: rest =>
      if a = Text.utf8 "generate" then readGenerate rest
      else if a = Text.utf8 "render" then readRender rest
      else if a = Text.utf8 "help" then .error (readHelp rest)
      else if isDashed a ∧ a ≠ [dash, dash] then do
        readFlag true a
        read rest
      else .error .usage

end CommandLine
end InputDeck

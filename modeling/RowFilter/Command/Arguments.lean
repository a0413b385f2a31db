import RowFilter.Command
import RowFilter.Text.Separated

namespace RowFilter

namespace Arguments

/-- An option of a command. -/
structure Flag where
  name : String
  letter : Option Char
  takesValue : Bool
  repeatable : Bool
deriving DecidableEq, Repr

/-- What has been given so far: plain arguments and options with their values, in order. -/
structure Given where
  plain : List String
  options : List (String × String)
deriving DecidableEq, Repr

namespace Given

def has (g : Given) (name : String) : Bool :=
  g.options.any (·.1 = name)

/-- The values of an option in the order in which they were given. -/
def values (g : Given) (name : String) : List String :=
  (g.options.filter (·.1 = name)).map (·.2)

/-- Adds an option, which only some options may be given twice. -/
def addOption (g : Given) (f : Flag) (value : String) : Option Given :=
  if g.has f.name && !f.repeatable then none
  else some { g with options := g.options ++ [(f.name, value)] }

/-- Adds the plain argument, which may not be given twice. -/
def addPlain (g : Given) (value : String) : Option Given :=
  if g.plain.isEmpty then some { g with plain := [value] } else none

end Given

/-- The form of an argument. -/
inductive Form
  | endOfOptions
  | long (name : String) (value : Option String)
  | letters (letters : List Char)
  | plain

/-- The part of a text behind the first equals sign, if there is one, and the part before it. -/
def splitAtEquals (text : List Char) : List Char × Option (List Char) :=
  match text.dropWhile (· ≠ '=') with
  | [] => (text, none)
  | _ :: value => (text.takeWhile (· ≠ '='), some value)

def formOf (argument : String) : Form :=
  match argument.toList with
  | ['-', '-'] => .endOfOptions
  | '-' :: '-' :: rest =>
    let (name, value) := splitAtEquals rest
    .long (.ofList name) (value.map .ofList)
  | '-' :: c :: rest => .letters (c :: rest)
  | _ => .plain

/-- Whether an argument can be the value of the option before it. -/
def isValue (argument : String) : Bool :=
  match formOf argument with
  | .plain => true
  | _ => false

/-- Reads letters run together. The letter of an option with a value takes the rest as its value;
if nothing is left, the option is returned to take the next argument. -/
def readLetters (flags : List Flag) (g : Given) : List Char → Option (Given × Option Flag)
  | [] => some (g, none)
  | c :: rest => do
    let f ← flags.find? (·.letter = some c)
    if f.takesValue then
      match rest with
      | [] => return (g, some f)
      | '=' :: value => return (← g.addOption f (.ofList value), none)
      | value => return (← g.addOption f (.ofList value), none)
    else readLetters flags (← g.addOption f "") rest

/-- Reads the arguments of a command. -/
def readAll (flags : List Flag) (g : Given) : List String → Option Given
  | [] => some g
  | argument :: rest =>
    match formOf argument with
    | .endOfOptions => rest.foldlM Given.addPlain g
    | .plain => do readAll flags (← g.addPlain argument) rest
    | .long name value => do
      let f ← flags.find? (·.name = name)
      match f.takesValue, value with
      | true, some v => readAll flags (← g.addOption f v) rest
      | true, none =>
        match rest with
        | v :: rest => if isValue v then readAll flags (← g.addOption f v) rest else none
        | [] => none
      | false, some _ => none
      | false, none => readAll flags (← g.addOption f "") rest
    | .letters cs => do
      match ← readLetters flags g cs with
      | (g, none) => readAll flags g rest
      | (g, some f) =>
        match rest with
        | v :: rest => if isValue v then readAll flags (← g.addOption f v) rest else none
        | [] => none

def verbose : Flag := ⟨"verbose", some 'v', false, false⟩

def table : Flag := ⟨"table", some 't', true, false⟩

/-- The list of allowed properties. -/
def allowed : Flag := ⟨"fields", some 'f', true, true⟩

/-- A field of the rows. -/
def field : Flag := ⟨"field", some 'f', true, true⟩

def tree : Flag := ⟨"ast", none, false, false⟩

def input : Flag := ⟨"input", some 'i', true, false⟩

def pretty : Flag := ⟨"pretty", some 'p', false, false⟩

/-- The listed properties, if any list was given. -/
def allowedFields (g : Given) : Option (List String) :=
  if g.has allowed.name then
    some ((g.values allowed.name).flatMap fun v => (Separated.items ',' v.toList).map .ofList)
  else none

/-- Reads the arguments behind the name of a command. -/
def readCommand (name : String) (arguments : List String) : Option Command :=
  let read (flags : List Flag) := readAll (verbose :: flags) ⟨[], []⟩ arguments
  match name with
  | "where" => do
    let g ← read [table, allowed]
    return .whereClause (← g.plain.head?) (g.values table.name).head? (allowedFields g)
  | "order-by" => do
    let g ← read [table]
    return .orderClause (← g.plain.head?) (g.values table.name).head?
  | "check" => do
    let g ← read [tree]
    return .check (← g.plain.head?) (g.has tree.name)
  | "filter" => do
    let g ← read [field, input, pretty]
    if !g.has field.name then none
    else
      return .filter (← g.plain.head?) (g.values field.name) (g.values input.name).head?
        (g.has pretty.name)
  | "docs" => do
    let g ← read []
    return .manual g.plain.head?
  | _ => none

/-- Reads the letters before a command: whether one of them asks for the version, and else whether
the talkative mode is set behind them. -/
def readLeadingLetters : Bool → List Char → Option (Bool × Bool)
  | talkative, [] => some (false, talkative)
  | talkative, c :: rest =>
    if c = 'V' then some (true, talkative)
    else if c = 'v' ∧ !talkative then readLeadingLetters true rest
    else none

/-- Reads all arguments: a request for the version, or a command with options before it. -/
def readFrom : Bool → List String → Option Command
  | _, [] => none
  | talkative, argument :: rest =>
    match formOf argument with
    | .endOfOptions => none
    | .plain => readCommand argument rest
    | .long name value =>
      if value.isSome then none
      else if name = "version" then some .version
      else if name = "verbose" ∧ !talkative then readFrom true rest
      else none
    | .letters cs =>
      match readLeadingLetters talkative cs with
      | none => none
      | some (true, _) => some .version
      | some (false, talkative) => readFrom talkative rest

/-- Reads the arguments of the program. Nothing is returned where they are not understood. -/
def read? (arguments : List String) : Option Command :=
  readFrom false arguments

end Arguments

end RowFilter

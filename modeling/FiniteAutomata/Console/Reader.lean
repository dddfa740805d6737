import FiniteAutomata.Console.Arguments
import FiniteAutomata.Decimal.Numeral
import FiniteAutomata.Text.Uppercase

/-! # Reading the command line

Each argument is an option or a plain argument. An option may be cut short as long as only one has
the beginning; its value follows it, or is attached to it, after an equals sign or, with a name of
one letter, directly; options of one letter without a value may be written together. A number below
zero and a text with a space are plain arguments. Two hyphens alone are a separator, after which all
arguments are plain; attached to an option they leave it without a value. The first plain argument
is the file; no other one is recognised. -/

namespace FiniteAutomata.Console

/-! ### Kinds of arguments -/

/-- The text that separates options from plain arguments. -/
def separator : String := "--"

/-- How an argument that looks like an option is understood: the option, if it is known, under the
name it is called by, and the value attached to it. -/
structure Call where
  switch : Option Switch
  name : List Char
  attached : Option (List Char) := none
deriving DecidableEq, Repr

/-- The kind of an argument. -/
inductive Piece where
  | plain (text : String)
  | separator
  | call (c : Call) (text : String)
deriving DecidableEq, Repr

/-- The argument as it was given. -/
def Piece.text : Piece → String
  | .plain text => text
  | .separator => FiniteAutomata.Console.separator
  | .call _ text => text

/-- A text without the line feed at its end, if there is one. -/
def dropLineFeed (s : List Char) : List Char :=
  if s.getLast? = some '\n' then s.dropLast else s

/-- Whether a text looks like a number below zero; a line feed may end it. -/
def isNegativeNumber (s : List Char) : Bool :=
  match dropLineFeed s with
  | '-' :: body =>
    match body.dropWhile Text.isDigit with
    | [] => ! body.isEmpty
    | '.' :: fraction => ! fraction.isEmpty && fraction.all Text.isDigit
    | _ => false
  | _ => false

/-- The text before the first equals sign, and the text after it if there is one. -/
def splitEquals (s : List Char) : List Char × Option (List Char) :=
  match Text.splitFirst? '=' s with
  | some (name, value) => (name, some value)
  | none => (s, none)

/-- The calls that an argument with two hyphens may be short for. -/
def longCalls (s : List Char) : List Call :=
  let (start, value) := splitEquals s
  Switch.table.filterMap fun (name, switch) =>
    if start.isPrefixOf name.toList then
      some { switch := some switch, name := name.toList, attached := value }
    else none

/-- The calls that an argument with one hyphen may stand for: an option of one letter with the rest
as its value, or an option that it is short for. -/
def shortCalls (s : List Char) : List Call :=
  Switch.table.filterMap fun (name, switch) =>
    if name.toList = s.take 2 then
      some { switch := some switch, name := name.toList, attached := some (s.drop 2) }
    else if s.isPrefixOf name.toList then some { switch := some switch, name := name.toList }
    else none

/-- The calls that an argument may be. -/
def callsOf (s : List Char) : List Call :=
  if separator.toList.isPrefixOf s then longCalls s else shortCalls s

/-- The call whose name is written out, with a value after an equals sign or without. -/
def exactCall? (s : List Char) : Option Call :=
  match Switch.ofName? (String.ofList s) with
  | some switch => some { switch := some switch, name := s }
  | none =>
    match splitEquals s with
    | (_, none) => none
    | (name, some value) =>
      (Switch.ofName? (String.ofList name)).map fun switch =>
        { switch := some switch, name, attached := some value }

/-- The kind of an argument before a separator. -/
def Piece.ofText (text : String) : Except Misuse Piece :=
  let s := text.toList
  match s with
  | '-' :: _ :: _ =>
    match exactCall? s with
    | some c => .ok (.call c text)
    | none =>
      match callsOf s with
      | [c] => .ok (.call c text)
      | [] =>
        if isNegativeNumber s || s.contains ' ' then .ok (.plain text)
        else .ok (.call { switch := none, name := s } text)
      | cs => .error (.ambiguous text (cs.map fun c => String.ofList c.name))
  | _ => .ok (.plain text)

/-- The kinds of arguments. -/
def pieces : List String → Except Misuse (List Piece)
  | [] => .ok []
  | "--" :: rest => .ok (.separator :: rest.map .plain)
  | text :: rest => do
    let p ← Piece.ofText text
    let ps ← pieces rest
    return p :: ps

/-! ### Values -/

/-- The integer that a value stands for. -/
def intValue (s : Switch) (value : String) : Except Refusal Int :=
  match Decimal.readInt value.toList with
  | .ok n => .ok n
  | .error _ => .error (.misuse (.notInt s value))

/-- The mode that a value stands for. -/
def modeValue (s : Switch) (value : String) : Except Refusal Mode :=
  match Mode.ofText? value with
  | some mode => .ok mode
  | none => .error (.misuse (.notOneOf s value (Mode.all.map Mode.text)))

/-- The level that a value stands for, whatever the case of its letters. -/
def levelValue (s : Switch) (value : String) : Except Refusal Journal.Level :=
  let name := Text.upper value
  match Journal.Level.ofName? name with
  | some level => .ok level
  | none => .error (.misuse (.notOneOf s name (Journal.Level.choices.map Journal.Level.name)))

/-- What the value of an option gives, read by a rule; the separator leaves the option bare. -/
def given {α : Type} (value : String) (read : String → Except Refusal α) :
    Except Refusal (Given α) :=
  if value = separator then .ok .bare else (read value).map .value

/-- The text that the value of an option gives. -/
def givenText (value : String) : Given String :=
  if value = separator then .bare else .value value

/-- What a command line asks for after one more option with its value, which is empty for options
that take none. -/
def Arguments.apply (a : Arguments) (s : Switch) (value : String) : Except Refusal Arguments :=
  match s with
  | .help => .error .help
  | .version => .error .version
  | .inputFile => .ok { a with inputFile := (givenText value).value? }
  | .string => .ok { a with string := givenText value }
  | .delimiter => .ok { a with delimiter := (givenText value).value? }
  | .loadJson => .ok { a with loadJson := (givenText value).value? }
  | .startState => .ok { a with startState := givenText value }
  | .forceMode =>
    (given value (modeValue s)).map fun mode => { a with forceMode := mode.value? }
  | .dumpAst => .ok { a with dumpAst := true }
  | .prettyPrint => .ok { a with prettyPrint := (givenText value).value? }
  | .quiet => .ok { a with quiet := true }
  | .extraQuiet => .ok { a with extraQuiet := true }
  | .stopOnAccept => .ok { a with stopOnAccept := true }
  | .autoNull => .ok { a with autoNull := true }
  | .maxSteps => (given value (intValue s)).map fun n => { a with maxSteps := n }
  | .seed => (given value (intValue s)).map fun n => { a with seed := n }
  | .config => .ok { a with config := givenText value }
  | .logLevel => (given value (levelValue s)).map fun level => { a with logLevel := level }
  | .logDir => .ok { a with logDir := givenText value }
  | .debug => .ok { a with debug := true }

/-- What a command line asks for after options with their values. -/
def Arguments.applyAll (a : Arguments) : List (Switch × String) → Except Refusal Arguments
  | [] => .ok a
  | (s, value) :: rest => do
    let a ← a.apply s value
    a.applyAll rest

/-! ### Calls -/

/-- What a call comes to: the options called with their values, the last one still to get its value
from the next argument, or a rest that is not recognised. -/
structure Called where
  done : List (Switch × String) := []
  waiting : Option Switch := none
  unknown : Option String := none
deriving DecidableEq, Repr

/-- Follows a call with an attached value, after other calls in the same argument. A value attached
to an option without one is read as more options of one letter, if the option is one. -/
def follow (s : Switch) (name : List Char) (before : List (Switch × String)) :
    (value : List Char) → Except Misuse Called
  | [] =>
    if s.takesValue then .ok { done := before ++ [(s, "")] } else .error (.unwantedValue s "")
  | c :: rest =>
    if s.takesValue then .ok { done := before ++ [(s, String.ofList (c :: rest))] }
    else if separator.toList.isPrefixOf name then
      .error (.unwantedValue s (String.ofList (c :: rest)))
    else
      match Switch.ofName? (String.ofList ['-', c]) with
      | none => .error (.unwantedValue s (String.ofList (c :: rest)))
      | some next =>
        let before := before ++ [(s, "")]
        if rest.isEmpty then
          if next.takesValue then .ok { done := before, waiting := some next }
          else .ok { done := before ++ [(next, "")] }
        else follow next ['-', c] before rest

/-- What a call comes to. -/
def Call.resolve (c : Call) (text : String) : Except Misuse Called :=
  match c.switch, c.attached with
  | none, _ => .ok { unknown := some text }
  | some s, some value => follow s c.name [] value
  | some s, none =>
    if s.takesValue then .ok { waiting := some s } else .ok { done := [(s, "")] }

/-- The options called with their values, after the one that waits has taken the next argument. -/
def Called.complete (c : Called) (rest : List Piece) :
    Except Misuse (List (Switch × String) × List Piece) :=
  match c.waiting, rest with
  | none, _ => .ok (c.done, rest)
  | some s, .plain text :: rest => .ok (c.done ++ [(s, text)], rest)
  | some s, _ => .error (.missingValue s)

/-! ### The command line -/

/-- A command line read in part: what it asks for, what was not recognised, last first, and whether
the file is still to come. -/
structure Progress where
  arguments : Arguments := {}
  unknown : List String := []
  awaitsFile : Bool := true
deriving DecidableEq, Repr

namespace Progress

/-- Notes a text that is not recognised. -/
def reject (p : Progress) (text : String) : Progress := { p with unknown := text :: p.unknown }

/-- Takes the file from plain arguments, with a separator before or after it, and gives what
follows. -/
def takeFile (p : Progress) (ps : List Piece) : Progress × List Piece :=
  let p := { p with awaitsFile := false }
  let named (text : String) : Progress :=
    { p with arguments := { p.arguments with file := some text } }
  match ps with
  | .plain text :: .separator :: rest => (named text, rest)
  | .plain text :: rest => (named text, rest)
  | .separator :: .plain text :: rest => (named text, rest)
  | .separator :: rest => (p, rest)
  | _ => (p, ps)

/-- Reads the rest of a command line; `fuel` bounds the number of arguments. -/
def read (p : Progress) : (fuel : Nat) → List Piece → Except Refusal Progress
  | 0, _ => .ok p
  | _, [] => .ok p
  | fuel + 1, .call c text :: rest =>
    match c.resolve text with
    | .error m => .error (.misuse m)
    | .ok called =>
      match called.complete rest with
      | .error m => .error (.misuse m)
      | .ok (calls, rest) =>
        match p.arguments.applyAll calls with
        | .error r => .error r
        | .ok arguments =>
          let p := { p with arguments }
          ((called.unknown.map p.reject).getD p).read fuel rest
  | fuel + 1, piece :: rest =>
    if p.awaitsFile then
      let (p, rest) := p.takeFile (piece :: rest)
      p.read fuel rest
    else (p.reject piece.text).read fuel rest

end Progress

/-- What a command line asks for; the file may also be named by an option. -/
def readArguments (texts : List String) : Except Refusal Arguments :=
  match pieces texts with
  | .error m => .error (.misuse m)
  | .ok ps =>
    match Progress.read {} (ps.length + 1) ps with
    | .error r => .error r
    | .ok p =>
      if p.unknown.isEmpty then
        .ok { p.arguments with file := p.arguments.file.or p.arguments.inputFile }
      else .error (.misuse (.unrecognized p.unknown.reverse))

end FiniteAutomata.Console

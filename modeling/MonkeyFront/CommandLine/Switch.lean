import MonkeyFront.Text.Quoted

/-!
# Switches

The switches of the command line, their names, and what is said about misusing them.
-/

namespace MonkeyFront.CommandLine

inductive Switch where
  | help | inline | tokens | json | out | strict | session | verbose
  deriving DecidableEq, Repr

namespace Switch

/-- All switches, in the order in which they are listed. -/
def all : List Switch := [.help, .inline, .tokens, .json, .out, .strict, .session, .verbose]

/-- The name of a single letter, if the switch has one. -/
def short? : Switch → Option Char
  | .help => some 'h'
  | .inline => some 's'
  | .out => some 'o'
  | .verbose => some 'v'
  | _ => none

def long : Switch → String
  | .help => "--help"
  | .inline => "--string"
  | .tokens => "--tokens"
  | .json => "--json"
  | .out => "--out"
  | .strict => "--strict"
  | .session => "--repl"
  | .verbose => "--verbose"

def takesValue (switch : Switch) : Bool := switch = .out

/-- The names of a switch, as they are said together. -/
def title (switch : Switch) : String :=
  match switch.short? with
  | some letter => "-" ++ String.singleton letter ++ "/" ++ switch.long
  | none => switch.long

def ofLetter? (letter : Char) : Option Switch := all.find? (·.short? == some letter)

def ofLong? (name : String) : Option Switch := all.find? (·.long == name)

def startingWith (stem : String) : List Switch := all.filter (·.long.startsWith stem)

end Switch

/-- What is wrong with a command line. -/
inductive Misuse where
  /-- A shortened name stands for more than one switch. -/
  | ambiguous (argument : String) (candidates : List Switch)
  | ignoredValue (switch : Switch) (value : String)
  | missingValue (switch : Switch)
  /-- Two switches that exclude each other; the one that came later is first. -/
  | conflict (later earlier : Switch)
  | unrecognized (arguments : List String)
  deriving DecidableEq

def Misuse.message : Misuse → String
  | .ambiguous argument candidates =>
      "ambiguous option: " ++ argument ++ " could match "
        ++ String.intercalate ", " (candidates.map Switch.long)
  | .ignoredValue switch value =>
      "argument " ++ switch.title ++ ": ignored explicit argument " ++ Text.quoted value
  | .missingValue switch => "argument " ++ switch.title ++ ": expected one argument"
  | .conflict later earlier =>
      "argument " ++ later.title ++ ": not allowed with argument " ++ earlier.title
  | .unrecognized arguments => "unrecognized arguments: " ++ String.intercalate " " arguments

end MonkeyFront.CommandLine

import MonkeyFront.CommandLine.Switch
import MonkeyFront.Text.DecimalDigit

/-!
# Arguments

The arguments are classified first, each on its own, and then read from left to right. Switches may
stand anywhere before a double dash. A switch of one letter may share an argument with its value or
with more letters.
-/

namespace MonkeyFront.CommandLine

/-- What stands in the same argument after a switch. -/
inductive Attached where
  | nothing
  /-- A text after a long name and an equals sign. -/
  | value (text : List Char)
  /-- A text after a letter. An equals sign between the two has no meaning and is not part of it. -/
  | letters (text : List Char)
  deriving DecidableEq

inductive Word where
  | plain (text : String)
  /-- The double dash, after which every argument is a value. -/
  | separator
  | switch (switch : Switch) (attached : Attached)
  | unknown (text : String)
  deriving DecidableEq

/-! ## Classification -/

/-- What is before the first equals sign, and what is after it if there is one. -/
def splitAtEquals (text : List Char) : List Char × Option (List Char) :=
  (text.takeWhile (· != '='), (text.dropWhile (· != '=')).tail?)

/-- Whether a text is one or more decimal digits, or digits, a point and one or more digits. -/
def isNumeral (text : List Char) : Bool :=
  let rest := text.dropWhile Text.isDecimalDigit
  match rest with
  | [] => !text.isEmpty
  | '.' :: fraction => !fraction.isEmpty && fraction.all Text.isDecimalDigit
  | _ => false

/-- Whether a text is a negative number. A line feed may stand at its end. -/
def isNegativeNumber : List Char → Bool
  | '-' :: text => isNumeral (if text.getLast? = some '\n' then text.dropLast else text)
  | _ => false

/-- What an argument is that no switch is meant by: a value, if it could not be anything else. -/
def classifyOther (text : List Char) : Word :=
  if isNegativeNumber text || text.contains ' ' then .plain (String.ofList text)
  else .unknown (String.ofList text)

def Attached.ofLong : Option (List Char) → Attached
  | none => nothing
  | some text => value text

def Attached.ofLetter : List Char → Attached
  | [] => nothing
  | '=' :: text => letters text
  | text => letters text

/-- What an argument before any double dash is. A long name may be shortened as long as it stands for
one switch only. -/
def classify (argument : String) : Except Misuse Word :=
  match argument.toList with
  | '-' :: '-' :: name =>
    let (stem, value) := splitAtEquals ('-' :: '-' :: name)
    match Switch.ofLong? (String.ofList stem) with
    | some switch => .ok (.switch switch (.ofLong value))
    | none =>
      match Switch.startingWith (String.ofList stem) with
      | [] => .ok (classifyOther argument.toList)
      | [switch] => .ok (.switch switch (.ofLong value))
      | candidates => .error (.ambiguous argument candidates)
  | '-' :: letter :: rest =>
    match Switch.ofLetter? letter with
    | none => .ok (classifyOther argument.toList)
    | some switch => .ok (.switch switch (.ofLetter rest))
  | _ => .ok (.plain argument)

def classifyAll : List String → Except Misuse (List Word)
  | [] => .ok []
  | argument :: others =>
    if argument = "--" then .ok (.separator :: others.map .plain)
    else
      match classify argument, classifyAll others with
      | .error misuse, _ => .error misuse
      | .ok _, .error misuse => .error misuse
      | .ok word, .ok words => .ok (word :: words)

/-! ## Reading -/

/-- What a command line asks for. -/
structure Settings where
  source : Option String
  inline : Bool
  tokens : Bool
  json : Bool
  destination : Option String
  strict : Bool
  session : Bool
  verbose : Bool
  deriving DecidableEq

def Settings.initial : Settings :=
  ⟨none, false, false, false, none, false, false, false⟩

/-- Why reading the arguments stops. -/
inductive Stop where
  | help
  | misuse (misuse : Misuse)
  deriving DecidableEq

def Settings.apply (settings : Settings) (switch : Switch) (value : Option String) :
    Except Stop Settings :=
  match switch with
  | .help => .error .help
  | .inline => .ok { settings with inline := true }
  | .tokens =>
    if settings.json then .error (.misuse (.conflict .tokens .json))
    else .ok { settings with tokens := true }
  | .json =>
    if settings.tokens then .error (.misuse (.conflict .json .tokens))
    else .ok { settings with json := true }
  | .out => .ok { settings with destination := value }
  | .strict => .ok { settings with strict := true }
  | .session => .ok { settings with session := true }
  | .verbose => .ok { settings with verbose := true }

def Settings.applyAll (settings : Settings) : List Switch → Except Stop Settings
  | [] => .ok settings
  | switch :: others =>
    match settings.apply switch none with
    | .error stop => .error stop
    | .ok after => after.applyAll others

/-- The switches that a single argument stands for. -/
structure Cluster where
  flags : List Switch
  /-- A switch with a value after them, and the value if it is in the same argument. -/
  valued : Option (Switch × Option String)
  deriving DecidableEq

namespace Cluster

def ofSwitch (switch : Switch) : Cluster :=
  if switch.takesValue then ⟨[], some (switch, none)⟩ else ⟨[switch], none⟩

/-- A switch with a text that can only be its value. A double dash is no value: it stands for an
empty one. -/
def ofValue (switch : Switch) (value : List Char) : Except Misuse Cluster :=
  if switch.takesValue then
    .ok ⟨[], some (switch, some (if value = ['-', '-'] then "" else String.ofList value))⟩
  else .error (.ignoredValue switch (String.ofList value))

/-- A switch by its letter with a text after it: its value, if it takes one, and otherwise the letters
of more switches. -/
def ofLetters (switch : Switch) : List Char → Except Misuse Cluster
  | [] => ofValue switch []
  | letter :: rest =>
    if switch.takesValue then ofValue switch (letter :: rest)
    else
      match Switch.ofLetter? letter with
      | none => ofValue switch (letter :: rest)
      | some next =>
        match if rest.isEmpty then .ok (ofSwitch next) else ofLetters next rest with
        | .error misuse => .error misuse
        | .ok cluster => .ok { cluster with flags := switch :: cluster.flags }

def read (switch : Switch) : Attached → Except Misuse Cluster
  | .nothing => .ok (ofSwitch switch)
  | .value text => ofValue switch text
  | .letters text => ofLetters switch text

/-- The switch that still needs a value, if there is one. -/
def needing? (cluster : Cluster) : Option Switch :=
  match cluster.valued with
  | some (switch, none) => some switch
  | _ => none

/-- The settings after a cluster, where a value from the next argument may have been added. -/
def apply (cluster : Cluster) (next : Option String) (settings : Settings) :
    Except Stop Settings :=
  match settings.applyAll cluster.flags, cluster.valued with
  | .error stop, _ => .error stop
  | .ok after, none => .ok after
  | .ok after, some (switch, value) => after.apply switch (value <|> next)

end Cluster

/-- What was read, with arguments that are left over before those of the rest. -/
def leaving (leftover : List String) :
    Except Stop (Settings × List String) → Except Stop (Settings × List String)
  | .error stop => .error stop
  | .ok (settings, others) => .ok (settings, leftover ++ others)

/-- Reads the arguments from left to right. The first value is the source, and a double dash on either
side of it goes with it. `filled` holds once the place of the source has been passed; values after
that are left over. -/
def readWords (settings : Settings) (filled : Bool) :
    List Word → Except Stop (Settings × List String)
  | [] => .ok (settings, [])
  | .plain text :: .separator :: words =>
    if filled then leaving [text, "--"] (readWords settings true words)
    else readWords { settings with source := some text } true words
  | .separator :: .plain text :: words =>
    if filled then leaving ["--", text] (readWords settings true words)
    else readWords { settings with source := some text } true words
  | .plain text :: words =>
    if filled then leaving [text] (readWords settings true words)
    else readWords { settings with source := some text } true words
  | .separator :: words =>
    if filled then leaving ["--"] (readWords settings true words)
    else readWords settings true words
  | .unknown text :: words => leaving [text] (readWords settings filled words)
  | .switch switch attached :: words =>
    match Cluster.read switch attached with
    | .error misuse => .error (.misuse misuse)
    | .ok cluster =>
      match cluster.needing?, words with
      | some _, .plain text :: others =>
        match cluster.apply (some text) settings with
        | .error stop => .error stop
        | .ok after => readWords after filled others
      | some lacking, _ => .error (.misuse (.missingValue lacking))
      | none, words =>
        match cluster.apply none settings with
        | .error stop => .error stop
        | .ok after => readWords after filled words

/-- The settings that arguments ask for. All of them have to be of use. -/
def Settings.ofArguments (arguments : List String) : Except Stop Settings :=
  match classifyAll arguments with
  | .error misuse => .error (.misuse misuse)
  | .ok words =>
    match readWords Settings.initial false words with
    | .error stop => .error stop
    | .ok (settings, []) => .ok settings
    | .ok (_, leftovers) => .error (.misuse (.unrecognized leftovers))

end MonkeyFront.CommandLine

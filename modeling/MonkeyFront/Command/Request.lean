import MonkeyFront.Command.Job
import MonkeyFront.Json.Layout
import MonkeyFront.Log
import MonkeyFront.Tree.Record
import MonkeyFront.Tree.Rendering

/-!
# Requests

A request names a source text and says in which form, and where to, it is written. A malformed source
is reported and nothing is written. All output is made at the end, so a request that fails leaves no
trace but the log.
-/

namespace MonkeyFront

inductive Form where
  | rendering
  | tokens
  | json
  deriving DecidableEq, Repr

/-- The form that two wishes come to. Tokens are what is written if both are made. -/
def Form.ofWishes (tokens json : Bool) : Form :=
  if tokens then .tokens else if json then .json else .rendering

/-- What is asked for. -/
structure Request where
  /-- The source text itself, or the name of the file that holds it. -/
  source : String
  /-- Whether the source text itself is given. -/
  inline : Bool
  form : Form
  /-- The file to write to. An empty name stands for the standard output, like none. -/
  destination : Option String
  /-- Whether a malformed source is a failure. -/
  strict : Bool
  deriving DecidableEq

/-- Why a request fails. -/
inductive Failure where
  | notASource
  | file (fault : FileFault)
  /-- The bytes of the file are not UTF-8. -/
  | undecodable
  | rejected (rejection : Rejection)
  deriving DecidableEq

/-- A failure in words. Of bytes that cannot be decoded no more is said. -/
def Failure.message : Failure → String
  | .notASource => "Only .monkey files are supported."
  | .file fault => fault.message
  | .undecodable => ""
  | .rejected rejection => rejection.message

/-- What a request comes to: a status, 0 if the source was written and 1 if it is malformed, or a
failure; the text on the standard output; the lines of the log; and the error lines after them. -/
structure Response where
  ending : Except Failure Nat
  output : String
  log : List LogLine
  complaints : List String

/-- The text in the bytes of a file, with its line ends made line feeds. -/
def decodeText? (bytes : ByteArray) : Option String :=
  (String.fromUTF8? bytes).map fun text => String.ofList (Text.unifyLineEnds text.toList)

/-- A token as a row of output: its kind, a tab, and its literal. -/
def Token.row (token : Token) : String := token.kind.name ++ "\t" ++ token.literal

namespace Request

/-- What a source text comes to: the text to write, or the errors in it. -/
inductive Verdict where
  | accepted (text : String)
  | malformed (errors : List String)
  deriving DecidableEq

/-- Puts a source text into a form. Tokens can be written of any text. -/
def judge (form : Form) (source : String) : Verdict :=
  match form with
  | .tokens => .accepted (String.intercalate "\n" ((tokenize source).map Token.row))
  | form =>
    let parsed := parse source
    if parsed.reports.isEmpty then
      .accepted (if form = .json then parsed.program.record.layout else parsed.program.render)
    else .malformed parsed.errors

/-- The log of putting a source text into a form. -/
def logOf (form : Form) (source : String) : List LogLine :=
  match form with
  | .tokens => scanLog (lexemesOf source)
  | _ => parseLog (lexemesOf source)

def failed (failure : Failure) (log : List LogLine) : Response := ⟨.error failure, "", log, []⟩

/-- What is left to do once the source text is there. -/
def finish (request : Request) (source : String) : Job Response :=
  let log := logOf request.form source
  match judge request.form source with
  | .malformed errors =>
    if request.strict then .done (failed (.rejected ⟨errors⟩) log)
    else .done ⟨.ok 1, "", log, errors.map ("parser error: " ++ ·)⟩
  | .accepted text =>
    match request.destination.filter (· != "") with
    | none => .done ⟨.ok 0, text ++ "\n", log, []⟩
    | some name =>
      .write name (text ++ "\n") fun
        | .error fault => .done (failed (.file fault) log)
        | .ok () => .done ⟨.ok 0, "", log ++ [⟨.info, .command, "wrote " ++ name⟩], []⟩

def job (request : Request) : Job Response :=
  if request.inline then request.finish request.source
  else if !request.source.endsWith ".monkey" then .done (failed .notASource [])
  else
    .read request.source fun
      | .error fault => .done (failed (.file fault) [])
      | .ok bytes =>
        match decodeText? bytes with
        | none => .done (failed .undecodable [])
        | some text => request.finish text

end Request

/-- The text of a response on the standard error stream. -/
def Response.errorOutput (response : Response) (threshold : Threshold) : String :=
  showLog threshold response.log ++ Text.rows response.complaints

end MonkeyFront

import MonkeyFront.Command.Request
import MonkeyFront.CommandLine.Arguments
import MonkeyFront.CommandLine.Usage
import MonkeyFront.Session

/-!
# The command

What the arguments ask for is help, a session, or a request. Everything that the command does to its
surroundings is in its outcome.
-/

namespace MonkeyFront.CommandLine

inductive Task where
  | help
  | complain (misuse : Misuse)
  | session (threshold : Threshold) (showTokens : Bool)
  | fulfil (threshold : Threshold) (request : Request)

/-- The request in some settings with a source. -/
def Settings.request (settings : Settings) (source : String) : Request :=
  ⟨source, settings.inline, .ofWishes settings.tokens settings.json, settings.destination,
    settings.strict⟩

/-- From where on the log is shown: everything if that is asked for, and otherwise as the environment
says. -/
def Settings.threshold (settings : Settings) (environment : Option String) : Threshold :=
  if settings.verbose then .debug
  else
    match environment with
    | some text => .ofText text
    | none => .warning

/-- What the arguments ask for. Without a source that is a session. -/
def Task.ofArguments (arguments : List String) (environment : Option String) : Task :=
  match Settings.ofArguments arguments with
  | .error .help => .help
  | .error (.misuse misuse) => .complain misuse
  | .ok settings =>
    let threshold := settings.threshold environment
    match settings.session, settings.source with
    | false, some source => .fulfil threshold (settings.request source)
    | _, _ => .session threshold settings.tokens

/-- How the command ends. -/
inductive Ending where
  | status (code : Nat)
  /-- With a status, before any work was done. -/
  | exit (code : Nat)
  | failure (failure : Failure)

/-- How the command ends, and what it writes. -/
structure Outcome where
  ending : Ending
  output : String
  errorOutput : String

def Outcome.ofHelp : Outcome := ⟨.exit 0, helpText, ""⟩

def Outcome.ofMisuse (misuse : Misuse) : Outcome := ⟨.exit 2, "", complaint misuse⟩

/-- What a response comes to when the log is shown from a threshold on. -/
def Outcome.ofResponse (threshold : Threshold) (response : Response) : Outcome :=
  ⟨match response.ending with
    | .ok code => .status code
    | .error failure => .failure failure,
    response.output, response.errorOutput threshold⟩

/-- What a session comes to when the log is shown from a threshold on. -/
def Outcome.ofTranscript (threshold : Threshold) (transcript : Session.Transcript) : Outcome :=
  ⟨.status 0, transcript.output, showLog threshold transcript.log⟩

/-- What a task comes to inside a file system, with an input to read lines from. -/
def Task.runIn (system : FileSystem) (input : String) : Task → Outcome × FileSystem
  | .help => (.ofHelp, system)
  | .complain misuse => (.ofMisuse misuse, system)
  | .session threshold showTokens =>
    (.ofTranscript threshold (Session.hold showTokens (Text.inputLines input)), system)
  | .fulfil threshold request =>
    let (response, after) := request.job.runIn system
    (.ofResponse threshold response, after)

end MonkeyFront.CommandLine

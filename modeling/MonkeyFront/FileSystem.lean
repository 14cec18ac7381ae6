import MonkeyFront.Text.Quoted

/-!
# Files

The files and folders of a machine, as far as names reach them. A name is a way of steps between
slashes. It starts in the working folder, or in the root if it starts with a slash, and every step
but the last has to lead to a folder.
-/

namespace MonkeyFront

/-- Where something is: the names on the way from the root. -/
abbrev Place := List String

/-- The files and the folders of a machine, and the folder that is worked in. -/
structure FileSystem where
  files : List (Place × ByteArray)
  folders : List Place
  here : Place

/-- Why a way does not lead to a file. -/
inductive Obstacle where
  /-- There is nothing at some step, or the name is empty. -/
  | missing
  | folder
  | notAFolder
  /-- A step, or the whole name, is too long. -/
  | tooLong
  deriving DecidableEq, Repr

def Obstacle.message : Obstacle → String
  | .missing => "[Errno 2] No such file or directory"
  | .notAFolder => "[Errno 20] Not a directory"
  | .folder => "[Errno 21] Is a directory"
  | .tooLong => "[Errno 36] File name too long"

/-- Why a file cannot be opened. -/
inductive FileFault where
  /-- There is an obstacle on the way that a name stands for. -/
  | blocked (obstacle : Obstacle) (name : String)
  | nullCharacter
  deriving DecidableEq

def FileFault.message : FileFault → String
  | .blocked obstacle name => obstacle.message ++ ": " ++ Text.quoted name
  | .nullCharacter => "embedded null byte"

namespace FileSystem

def maxStepBytes : Nat := 255

def maxNameBytes : Nat := 4095

/-- Whether there is a folder at a place. The working folder is one, and so are those around it. -/
def isFolder (system : FileSystem) (place : Place) : Bool :=
  place.isPrefixOf system.here || system.folders.contains place

def file? (system : FileSystem) (place : Place) : Option ByteArray := system.files.lookup place

/-- The file system in which a file has given bytes. -/
def put (system : FileSystem) (place : Place) (bytes : ByteArray) : FileSystem :=
  { system with files := (place, bytes) :: system.files.filter (·.1 != place) }

/-! ## Ways -/

/-- The folder that a step leads to from a folder. A dot stays, two dots go up, and the root is above
itself. -/
def enter (system : FileSystem) (folder : Place) (step : String) : Except Obstacle Place :=
  if step = "." then .ok folder
  else if step = ".." then .ok folder.dropLast
  else if maxStepBytes < step.utf8ByteSize then .error .tooLong
  else if system.isFolder (folder ++ [step]) then .ok (folder ++ [step])
  else if (system.file? (folder ++ [step])).isSome then .error .notAFolder
  else .error .missing

/-- The folder in which a way takes its last step, and that step. A way that stays in the folder or
goes up at its end leads to a folder. -/
def approach (system : FileSystem) (folder : Place) : List String → Except Obstacle (Place × String)
  | [] => .error .folder
  | [last] => if last = "." ∨ last = ".." then .error .folder else .ok (folder, last)
  | step :: others =>
    match system.enter folder step with
    | .error obstacle => .error obstacle
    | .ok next => system.approach next others

/-- The folder in which the way of a name takes its last step, and that step. -/
def locate (system : FileSystem) (name : String) : Except Obstacle (Place × String) :=
  if name.isEmpty then .error .missing
  else if maxNameBytes < name.utf8ByteSize then .error .tooLong
  else
    system.approach (if name.startsWith "/" then [] else system.here)
      ((name.splitOn "/").filter (· != ""))

/-- What the way of a name comes to, as far as a name can stand for one. -/
def atName {α : Type} (name : String) (outcome : Except Obstacle α) : Except FileFault α :=
  if name.contains '\x00' then .error .nullCharacter else outcome.mapError (.blocked · name)

/-! ## Reading and writing -/

/-- The bytes of the file that a name leads to. Nothing but a folder goes with a slash after it. -/
def bytesAt (system : FileSystem) (name : String) : Except Obstacle ByteArray :=
  match system.locate name with
  | .error obstacle => .error obstacle
  | .ok (folder, last) =>
    if maxStepBytes < last.utf8ByteSize then .error .tooLong
    else if system.isFolder (folder ++ [last]) then .error .folder
    else
      match system.file? (folder ++ [last]) with
      | none => .error .missing
      | some bytes => if name.endsWith "/" then .error .notAFolder else .ok bytes

/-- The place where a file with a name is or would be. A slash at the end makes it the name of a
folder, whether there is one or not. -/
def placeFor (system : FileSystem) (name : String) : Except Obstacle Place :=
  match system.locate name with
  | .error obstacle => .error obstacle
  | .ok (folder, last) =>
    if name.endsWith "/" then .error .folder
    else if maxStepBytes < last.utf8ByteSize then .error .tooLong
    else if system.isFolder (folder ++ [last]) then .error .folder
    else .ok (folder ++ [last])

def read (system : FileSystem) (name : String) : Except FileFault ByteArray :=
  atName name (system.bytesAt name)

/-- The file system after a text has become the contents of a file. -/
def write (system : FileSystem) (name text : String) : Except FileFault FileSystem :=
  atName name ((system.placeFor name).map (system.put · text.toUTF8))

end FileSystem

end MonkeyFront

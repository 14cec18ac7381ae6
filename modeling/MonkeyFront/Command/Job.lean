import MonkeyFront.FileSystem

/-!
# Jobs

Work that reads and writes files, as data. A job can be run inside a file system value, or be
performed on the files of a machine.
-/

namespace MonkeyFront

/-- Work that ends in a result and may need files on the way. -/
inductive Job (α : Type) where
  | done (result : α)
  | read (name : String) (next : Except FileFault ByteArray → Job α)
  | write (name text : String) (next : Except FileFault Unit → Job α)

/-- The result of a job and the files after it. -/
def Job.runIn {α : Type} (system : FileSystem) : Job α → α × FileSystem
  | .done result => (result, system)
  | .read name next => (next (system.read name)).runIn system
  | .write name text next =>
    match system.write name text with
    | .ok after => (next (.ok ())).runIn after
    | .error fault => (next (.error fault)).runIn system

end MonkeyFront

import Lox.Text.Quoted

/-! What the name of a file leads to. A name is read step by step, from one folder to the next, and
the first step that cannot be taken tells why nothing is read. -/
namespace Lox

/-- Why nothing is read under a name. -/
inductive Unread where
  | missing
  /-- The name goes on behind a file. -/
  | noFolder
  /-- The name ends at a folder. -/
  | folder
  | tooLong
  | denied
  deriving DecidableEq, Repr

/-- A folder can be opened, but its content cannot be had. -/
def Unread.message (file : String) (cause : Unread) : String :=
  let failed (action reason : String) (code : Nat) :=
    "Failed to " ++ action ++ " file " ++ Text.fileName file ++ ": " ++ reason ++
      " (os error " ++ toString code ++ ")"
  match cause with
  | .missing => failed "open" "No such file or directory" 2
  | .noFolder => failed "open" "Not a directory" 20
  | .folder => failed "map" "No such device" 19
  | .tooLong => failed "open" "File name too long" 36
  | .denied => failed "open" "Permission denied" 13

/-- Files by the steps that lead to them. -/
structure Folder where
  files : List (List String × ByteArray)

namespace Folder

def steps (name : String) : List String := name.splitOn "/"

/-- A step that leads nowhere else, as between two slashes. -/
def stays (step : String) : Bool := step = "" || step = "."

def ofFiles (files : List (String × ByteArray)) : Folder :=
  ⟨files.map fun (name, content) => ((steps name).filter (!stays ·), content)⟩

/-- How many bytes a step may have. -/
def stepLimit : Nat := 255

/-- How many bytes a name may have. -/
def nameLimit : Nat := 4095

/-- Outside of the folder only the folders around it are known. -/
def outside (rest : List String) : Unread :=
  if rest.all fun step => stays step || step = ".." then .folder else .missing

/-- Takes the steps of a name from a folder that has been reached, which is given by its own steps.
-/
def follow (f : Folder) (reached : List String) : List String → Except Unread ByteArray
  | [] => .error .folder
  | step :: rest =>
    if stays step then f.follow reached rest
    else if step = ".." then
      if reached.isEmpty then .error (outside rest) else f.follow reached.dropLast rest
    else
      let next := reached ++ [step]
      match f.files.lookup next with
      | some content => if rest.isEmpty then .ok content else .error .noFolder
      | none =>
        if stepLimit < step.utf8ByteSize then .error .tooLong
        else if f.files.any (next.isPrefixOf ·.1) then f.follow next rest
        else .error .missing

/-- A name that begins with a slash leaves the folder. -/
def read (f : Folder) (name : String) : Except Unread ByteArray :=
  if nameLimit < name.utf8ByteSize then .error .tooLong
  else if name.startsWith "/" then .error (outside (steps name))
  else f.follow [] (steps name)

end Folder

end Lox

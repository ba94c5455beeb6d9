import MonkeyFrontEnd.ReadFailure

/-!
Folders: files by their paths, for running the command line on data.  A path is walked step by step
from the folder, or from the root if it starts with a slash.  Every directory has one above it (the
root is above itself); of the directories above the folder nothing else is known, so no name leads
on from them.
-/

namespace MonkeyFrontEnd.CommandLine

/-- The steps of a path, which stand between its slashes.  Some may be empty. -/
def pathSteps (path : String) : List String :=
  let letter (c : Char) (steps : List (List Char)) : List (List Char) :=
    if c = '/' then [] :: steps else steps.modifyHead (c :: ·)
  (path.toList.foldr letter [[]]).map String.ofList

/-- An empty step stays where it is, as a single dot does. -/
def stays (step : String) : Bool := step = "" || step = "."

/-- The last step of a path, none if it only leads to a directory above or to where it starts. -/
def fileName? (path : String) : Option String :=
  match ((pathSteps path).filter fun step => !stays step).getLast? with
  | some ".." => none
  | last => last

/-- Where a path leads: down into the folder by these names, or out of it. -/
inductive Place where
  | within (names : List String)
  | above
  deriving DecidableEq, Repr

namespace Place

def start (path : String) : Place := if path.toList.head? = some '/' then .above else .within []

def walk (place : Place) (step : String) : Place :=
  if stays step then place
  else match place with
    | .above => .above
    | .within names =>
      if step ≠ ".." then .within (names ++ [step])
      else if names.isEmpty then .above
      else .within names.dropLast

/-- Where a path leads if all directories on its way exist. -/
def ofPath (path : String) : Place := (pathSteps path).foldl walk (start path)

end Place

structure Folder where
  /-- Files with the names that lead to them.  Of two with the same names the first counts. -/
  files : List (List String × ByteArray)

namespace Folder

/-- Write a file, with the directories on its way, over one that is there.  What lies outside of the
folder is not kept. -/
def write (f : Folder) (path : String) (bytes : ByteArray) : Folder :=
  match Place.ofPath path with
  | .within names => ⟨(names, bytes) :: f.files⟩
  | .above => f

/-- The folder with these files, written in turn. -/
def ofList (files : List (String × ByteArray)) : Folder :=
  files.foldl (fun f (path, bytes) => f.write path bytes) ⟨[]⟩

def file? (f : Folder) (names : List String) : Option ByteArray :=
  (f.files.find? fun entry => entry.1 = names).map Prod.snd

/-- Some file lies below. -/
def isDirectory (f : Folder) (names : List String) : Bool :=
  f.files.any fun entry => names.isPrefixOf entry.1 && entry.1 ≠ names

/-- The bytes that a name may take in a directory. -/
def maxNameLength : Nat := 255

/-- The bytes that a path may take. -/
def maxPathLength : Nat := 4095

/-- Follow steps from a directory. -/
def follow (f : Folder) (place : Place) : List String → Except ReadFailure ByteArray
  | [] => .error .isDirectory
  | step :: rest =>
    if stays step || step = ".." then f.follow (place.walk step) rest
    else if maxNameLength < step.utf8ByteSize then .error .nameTooLong
    else match place.walk step with
      | .above => .error .missing
      | .within names =>
        match f.file? names with
        | some bytes => if rest.isEmpty then .ok bytes else .error .notDirectory
        | none => if f.isDirectory names then f.follow (.within names) rest else .error .missing

/-- The bytes of the file that a path names, seen from the folder. -/
def read (f : Folder) (path : String) : Except ReadFailure ByteArray :=
  if path.isEmpty then .error .missing
  else if maxPathLength < path.utf8ByteSize then .error .nameTooLong
  else f.follow (Place.start path) (pathSteps path)

end Folder

end MonkeyFrontEnd.CommandLine

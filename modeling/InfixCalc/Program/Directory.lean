import InfixCalc.Program.Source
import InfixCalc.Text.Bytes

/-!
# Directories

A directory is the list of its files by their paths, and nothing else is known
to exist but the directories around it.  A path is walked part by part: a
single dot stays, two dots go up, and a name goes down.  A slash at the front
starts the walk outside, and one at the end asks for a directory.

* `Directory.walk` : where a path leads.
* `Directory.read` : what a path has to be read as.
-/

namespace InfixCalc
namespace Program

/-- The files of a directory with their paths, part by part. -/
structure Directory where
  files : List (List Text × Bytes)

namespace Directory

/-- The most bytes that a name can have. -/
def maxNameLength : Nat := 255

/-- The number of bytes that no path reaches. -/
def pathLimit : Nat := 4096

/-- A place that a path leads to. -/
inductive Place where
  /-- A directory around the given one. -/
  | outside
  /-- The directory under a path, last part first. -/
  | inside (reversed : List Text)
  | file (content : Bytes)

/-- The parts of a path that are not empty. -/
def pathParts (path : Text) : List Text :=
  (path.splitOn '/').filter (· ≠ [])

/-- The directory that holds files under the given paths. -/
def ofFiles (files : List (Text × Bytes)) : Directory :=
  ⟨files.map fun file => (pathParts file.1, file.2)⟩

/-- The place of a name in the directory under a path. -/
def enter (directory : Directory) (parts : List Text) : Except ReadError Place :=
  match directory.files.find? fun file => file.1 = parts with
  | some file => .ok (.file file.2)
  | none =>
    if directory.files.any fun file => parts.isPrefixOf file.1 then
      .ok (.inside parts.reverse)
    else
      .error .missing

/-- One step of a walk.  No name leads back in from outside. -/
def step (directory : Directory) : Place → Text → Except ReadError Place
  | .file _, _ => .error .notDirectory
  | place, ['.'] => .ok place
  | .outside, ['.', '.'] | .inside [], ['.', '.'] => .ok .outside
  | .inside (_ :: above), ['.', '.'] => .ok (.inside above)
  | place, name =>
    if Text.byteLength name > maxNameLength then
      .error .nameTooLong
    else
      match place with
      | .inside reversed => directory.enter (name :: reversed).reverse
      | _ => .error .missing

/-- Where the walk along a path starts. -/
def origin : Text → Place
  | '/' :: _ => .outside
  | _ => .inside []

/-- The names along a path; a slash at the end stands for one more dot. -/
def route (path : Text) : List Text :=
  if path.getLast? = some '/' then pathParts path ++ [['.']] else pathParts path

/-- Where a path leads. -/
def walk (directory : Directory) (path : Text) : Except ReadError Place :=
  if path = [] then .error .missing
  else if Text.byteLength path ≥ pathLimit then .error .nameTooLong
  else (route path).foldlM directory.step (origin path)

/-- The content of the file under a path. -/
def read (directory : Directory) (path : Text) : Content :=
  match directory.walk path with
  | .ok (.file content) => .ok content
  | .ok _ => .error .directory
  | .error error => .error error

end Directory
end Program
end InfixCalc

/-!
# Folders

The files of a folder, and where a path leads that is followed from it, one step after
another.  Only a folder can be stepped from, be it by an empty step: so a path to a file
ends with its name.  Of what lies outside of the folder nothing is known but the folders
above it.

## Main definitions

* `Folder` — files by name.
* `Target`, `Unreachable` — what a path leads to, and why it leads nowhere.
* `Folder.find` — follows a path.
* `tidyPath` — a path without the steps that do not move.
-/

namespace Monkey

/-- The files of a folder by name; a name with slashes is that of a file further down. -/
abbrev Folder := List (String × ByteArray)

/-- What a path leads to. -/
inductive Target
  | file (bytes : ByteArray)
  | folder

/-- Why a path leads nowhere. -/
inductive Unreachable
  | notFound
  /-- A step is taken from a file. -/
  | notFolder
  /-- The path or one of its steps has too many bytes. -/
  | tooLong
  /-- There is a null character in the path. -/
  | nullCharacter
  deriving DecidableEq, Repr

/-! ### Steps -/

/-- Whether a step leads nowhere else. -/
def isIdleStep (step : String) : Bool :=
  step.isEmpty || step = "."

/-- The steps of a path that lead elsewhere. -/
def pathSteps (path : String) : List String :=
  (path.splitOn "/").filter fun step => !isIdleStep step

/-- A path without its idle steps.  Behind the name of a file it then has no step left. -/
def tidyPath (path : String) : String :=
  let tidy := (if "/".isPrefixOf path then "/" else "") ++ "/".intercalate (pathSteps path)
  if tidy.isEmpty then "." else tidy

/-- How many bytes a step may have. -/
def greatestStep : Nat := 255

/-- How many bytes a path may have. -/
def greatestPath : Nat := 4095

namespace Folder

/-- Where a path has led. -/
inductive Position
  /-- Above the folder. -/
  | above
  /-- Down the folder, by these steps. -/
  | within (steps : List String)

/-- The file at a position. -/
def file? (files : Folder) : Position → Option ByteArray
  | .above => none
  | .within steps => (files.find? fun f => pathSteps f.1 = steps).map Prod.snd

/-- Whether anything is at a position. -/
def has (files : Folder) : Position → Bool
  | .above => true
  | .within steps => steps.isEmpty || files.any fun f => steps.isPrefixOf (pathSteps f.1)

/-- The position one folder up. -/
def Position.up : Position → Position
  | above => above
  | within [] => above
  | within steps => within steps.dropLast

/-- Takes a step. -/
def step (files : Folder) (p : Position) (step : String) : Except Unreachable Position :=
  if (files.file? p).isSome then .error .notFolder
  else if isIdleStep step then .ok p
  else if step = ".." then .ok p.up
  else if greatestStep < step.utf8ByteSize then .error .tooLong
  else match p with
    | .above => .error .notFound
    | .within steps =>
      let there := Position.within (steps ++ [step])
      if files.has there then .ok there else .error .notFound

/-- Where a path starts: a slash in front starts it from the top. -/
def origin (path : String) : Position :=
  if "/".isPrefixOf path then .above else .within []

/-- Follows a path. -/
def find (files : Folder) (path : String) : Except Unreachable Target := do
  if path.toList.contains '\x00' then throw .nullCharacter
  if path.isEmpty then throw .notFound
  if greatestPath < path.utf8ByteSize then throw .tooLong
  let p ← (path.splitOn "/").foldlM files.step (origin path)
  return match files.file? p with
    | some bytes => .file bytes
    | none => .folder

end Folder

end Monkey

import TreeOps.Program.Basic

/-!
# Creating directories

A directory is created together with the ancestors that are missing. The search goes upwards to the
nearest path that exists, which has to be a directory; the missing ones are then made from the top
down.

Specification: §4.2, `create_directory`.
-/

namespace TreeOps

/-- The paths of a list up to the first that is a directory, in reverse order. The list goes from a
path upwards, so the result begins with the path to be created first. -/
def missingDirectories (tx : Option Transaction) : List Path → List Path → Operation (List Path)
  | [], missing => pure missing
  | p :: rest, missing => do
    match ← Operation.attempt tx (.query p) with
    | .ok e => if e.isDirectory then pure missing else Operation.fail (.notADirectory p)
    | .error e =>
      if e.code.isNotFound then missingDirectories tx rest (p :: missing)
      else Operation.fail (.ofNative p "query" e)

/-- Create one directory. One that has come into being meanwhile is as good. -/
def createOne (tx : Option Transaction) (dir : Path) : Operation Unit := do
  match ← Operation.attempt tx (.createDirectory dir) with
  | .ok () => Operation.note (.createdDirectory dir)
  | .error e =>
    if e.code.isAlreadyExists then
      let existing ← Operation.perform tx (.query dir) (.ofNative dir "query")
      if existing.isDirectory then pure () else Operation.fail (.notADirectory dir)
    else Operation.fail (.ofNative dir "create directory" e)

/-- Create a directory, given by its canonical path, and its missing ancestors. -/
def createResolved (tx : Option Transaction) (path : Path) : Operation Unit := do
  let missing ← missingDirectories tx path.namedAncestors []
  missing.forM (createOne tx)

/-- Create a directory and its missing ancestors. -/
def createDirectory (tx : Option Transaction) (path : Path) : Operation Unit := do
  let path ← Operation.resolve path
  createResolved tx path

end TreeOps

import PipelineEngine.Text.Cut

/-!
# Paths

Names of files, their parts parted by slashes.  A path that starts with a slash is
absolute; any other is seen from a directory.
-/

namespace PipelineEngine.Path

def isAbsolute (path : String) : Bool := path.toList.head? = some '/'

/-- A path as seen from a directory. -/
def join (directory path : String) : String :=
  if isAbsolute path || directory = "" then path
  else if directory.toList.getLast? = some '/' then directory ++ path
  else directory ++ "/" ++ path

/-- The parts between slashes. -/
def parts (path : String) : List String := piecesText '/' path

/-- The absolute path with the given parts. -/
def ofParts (parts : List String) : String := "/" ++ "/".intercalate parts

end PipelineEngine.Path

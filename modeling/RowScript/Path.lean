/-! # Paths: the names of the directories on the way to a file, apart by slashes -/

namespace RowScript.Path

def isAbsolute (path : String) : Bool := path.startsWith "/"

/-- The names in a path, without those that stay in the same directory. -/
def parts (path : String) : List String :=
  (path.splitOn "/").filter fun s => s != "" && s != "."

/-- Whether a directory is on the way to another one, or is that one itself. Both are relative
to the same place, or neither is. -/
def leadsTo (path target : String) : Bool :=
  isAbsolute path == isAbsolute target && (parts path).isPrefixOf (parts target)

end RowScript.Path

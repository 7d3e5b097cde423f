/-!
# Socket paths

Where a server listens, as paths of the file system: the socket of a server named `program` is
`<temporary directory>/<program>.sock`.
-/

namespace EnvelopeClient.SocketPath

/-- The directory used where none is configured. -/
def defaultDirectory : String := "/tmp"

/-- A path below a directory. An absolute path stands for itself, and a separator is added only
where one is needed. -/
def join (directory path : String) : String :=
  if path.startsWith "/" then path
  else if directory.isEmpty || directory.endsWith "/" then directory ++ path
  else directory ++ "/" ++ path

/-- The socket path of a server. -/
def ofProgram (directory program : String) : String :=
  join directory (program ++ ".sock")

/-- The components of a path that count: neither empty ones nor `.`. -/
def components (path : List Char) : List (List Char) :=
  (path.splitOn '/').filter fun part => part ≠ [] && part ≠ ['.']

/-- The last component of a path, unless the path ends in `..` or has none. -/
def fileName? (path : String) : Option String :=
  match (components path.toList).getLast? with
  | none => none
  | some last => if last = ['.', '.'] then none else some (String.ofList last)

end EnvelopeClient.SocketPath

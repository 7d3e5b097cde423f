import EnvelopeClient.IoFault
import EnvelopeClient.SocketPath

/-!
# A tree of files

Regular files, sockets and directories by path. Whatever stands in front of an entry is a
directory, with or without an entry of its own. `Files.find` walks a path component by component,
and a missing or unsuitable component is the fault the system reports for it.
-/

namespace EnvelopeClient

/-- What a path can lead to. -/
inductive FileNode where
  | directory
  /-- A regular file with its content. -/
  | regular (content : List UInt8)
  /-- A socket, and whether anybody listens on it. -/
  | socket (listening : Bool)

/-- Files by the components of their paths. -/
abbrev Files := List (List (List Char) × FileNode)

namespace Files

/-- The longest name a component may be, in bytes. -/
def nameLimit : Nat := 255

/-- The longest path there may be, in bytes. -/
def pathLimit : Nat := 4095

/-- What is at a path: its entry, or the directory in front of another entry. -/
def nodeAt? (files : Files) (path : List (List Char)) : Option FileNode :=
  match files.lookup path with
  | some node => some node
  | none =>
    if files.any fun (entry, _) => path.isPrefixOf entry then some .directory else none

/-- Walks on from a directory, whose components are given the last one first. An empty component
and `.` stay where they are, `..` goes up. -/
def walk (files : Files) (here : List (List Char)) : List (List Char) → Except IoFault FileNode
  | [] => .ok .directory
  | name :: rest =>
    if name = [] ∨ name = ['.'] then files.walk here rest
    else if name = ['.', '.'] then files.walk (here.drop 1) rest
    else if nameLimit < (String.ofList name).utf8ByteSize then .error (.ofNumber 36)
    else
      match files.nodeAt? (name :: here).reverse with
      | some .directory => files.walk (name :: here) rest
      | some node => if rest = [] then .ok node else .error (.ofNumber 20)
      | none => .error (.ofNumber 2)

/-- What a path leads to. A path that is too long is not looked at. -/
def find (files : Files) (path : String) : Except IoFault FileNode :=
  if pathLimit < path.utf8ByteSize then .error (.ofNumber 36)
  else files.walk [] (path.toList.splitOn '/')

/-- The content of a file. -/
def read (files : Files) (path : String) : Except IoFault (List UInt8) :=
  match files.find path with
  | .ok (.regular content) => .ok content
  | .ok (.socket _) => .error (.ofNumber 6)
  | .ok .directory => .error (.ofNumber 21)
  | .error fault => .error fault

/-- Puts something at a path. -/
def add (files : Files) (path : String) (node : FileNode) : Files :=
  (SocketPath.components path.toList, node) :: files

/-- Nobody listens any more; the sockets stay behind. -/
def stopListening (files : Files) : Files :=
  files.map fun (path, node) =>
    match node with
    | .socket _ => (path, .socket false)
    | node => (path, node)

end Files

end EnvelopeClient

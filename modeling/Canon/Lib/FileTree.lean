import Canon.Lib.Path

/-! # A file system as a tree

    Files and directories without links.  A path is looked up the way the
    operating system does: segment by segment from the root or the working
    directory, where every segment but a leading one, also an empty one or `.`,
    needs a directory to stand on.
-/

inductive FileNode where
  /-- A file; its text is missing when the bytes are not UTF-8. -/
  | file (text : Option Text)
  | dir (entries : List (Text × FileNode))
deriving Repr, Inhabited

namespace FileNode

def isDir : FileNode → Bool
  | dir _ => true
  | file _ => false

def child (node : FileNode) (name : Text) : Option FileNode :=
  match node with
  | dir entries => entries.lookup name
  | file _ => none

def at? (node : FileNode) : List Text → Option FileNode
  | [] => some node
  | name :: names => (node.child name).bind (·.at? names)

end FileNode

structure Fs where
  root : FileNode
  /-- The working directory of the process. -/
  cwd : List Text
deriving Repr, Inhabited

namespace Fs

variable (fs : Fs) (p : FilePath)

/-- One segment of a path, from the directory at `pos`. -/
def enter (pos : List Text) (seg : Text) : Option (List Text) :=
  match fs.root.at? pos with
  | some (.dir _) =>
    if seg = [] || seg = ['.'] then some pos
    else if seg = ['.', '.'] then some pos.dropLast
    else if (fs.root.at? (pos ++ [seg])).isSome then some (pos ++ [seg])
    else none
  | _ => none

def walk (pos : List Text) (segs : List Text) : Option (List Text) :=
  segs.foldlM fs.enter pos

def find : Option FileNode :=
  if p = [] then none
  else (fs.walk (if FilePath.isAbsolute p then [] else fs.cwd) (FilePath.segments p)).bind
    fs.root.at?

def pathExists : Bool := (fs.find p).isSome

def isDir : Bool := ((fs.find p).map FileNode.isDir).getD false

/-- The text of a file, when it is there and is UTF-8. -/
def readToString : Option Text :=
  match fs.find p with
  | some (.file text) => text
  | _ => none

def readDir : Option (List (Text × FileNode)) :=
  match fs.find p with
  | some (.dir entries) => some entries
  | _ => none

/-! ### Looking below a path -/

end Fs

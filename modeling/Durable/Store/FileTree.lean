import Durable.Text.Percent

/-!
# File trees

The directories and the files that exist.  A name is a sequence of bytes, and a
path is the list of the names on the way from the root.  Names and paths are
limited in length, and a file of records needs a journal, which lies beside it.
-/

namespace Durable

abbrev FileName := List UInt8

structure FileTree where
  directories : List (List FileName)
  files : List (List FileName)
  working : List FileName
  deriving DecidableEq, Repr

namespace FileTree

def slash : UInt8 := Text.byte '/'

def longestName : Nat := 255

def longestPath : Nat := 512

def isDirectory (tree : FileTree) (path : List FileName) : Bool :=
  path.isEmpty || tree.directories.contains path

/-- The non-empty names of a path between its slashes, `.` left out. -/
def components (path : List UInt8) : List FileName :=
  (path.splitBy fun a b => a != slash && b != slash).filter
    fun name => name != [slash] && name != Text.bytes "."

/-- One step along a path; `..` goes up. -/
def descend (path : List FileName) (name : FileName) : List FileName :=
  if name = Text.bytes ".." then path.dropLast else path ++ [name]

/-- The length of a path with a slash before every name. -/
def pathLength : List FileName → Nat
  | [] => 0
  | name :: path => name.length + 1 + pathLength path

def startOf (tree : FileTree) (path : List UInt8) : List FileName :=
  if path.head? = some slash then [] else tree.working

/-- Does looking up the last name of a path fail other than by its absence?  It
does when a file lies on the way, and when the name is too long for the directory
that it is looked up in. -/
def isBlocked (tree : FileTree) (path : List FileName) : Bool :=
  let directory := path.dropLast
  tree.files.contains directory
    || (tree.isDirectory directory
      && decide (longestName < (path.getLast?.getD []).length))

/-- Follow a path by its names alone, so that `..` only takes back a name; none
when it grows too long on the way, or when a name cannot be looked up. -/
def resolve? (tree : FileTree) (path : List UInt8) : Option (List FileName) :=
  (components path).foldlM
    (fun path name =>
      let next := descend path name
      if name = Text.bytes ".." then some next
      else if pathLength next < longestPath ∧ !tree.isBlocked next then some next
      else none)
    (tree.startOf path)

/-- Is there something at the end of a path, all names on the way to which lead
through directories? -/
def isFound (tree : FileTree) (path : List UInt8) : Bool :=
  let names := (path.splitBy fun a b => a != slash && b != slash).filter (· != [slash])
  let names := if path.getLast? = some slash then names ++ [Text.bytes "."] else names
  let step (path : List FileName) (name : FileName) : Option (List FileName) :=
    if !tree.isDirectory path then none
    else if name = Text.bytes "." then some path
    else
      let next := descend path name
      if tree.isDirectory next ∨ tree.files.contains next then some next else none
  !path.isEmpty && (names.foldlM step (tree.startOf path)).isSome

/-- Make the directories on a path that are missing; none if a file is in the way
or a name is too long. -/
def makeDirectories? (tree : FileTree) (start : List FileName) (names : List FileName) :
    Option FileTree :=
  match names with
  | [] => some tree
  | name :: rest =>
    let path := descend start name
    if tree.isDirectory path then makeDirectories? tree path rest
    else if tree.files.contains path ∨ longestName < name.length then none
    else makeDirectories? { tree with directories := path :: tree.directories } path rest

/-- The path of a file that lies beside another one. -/
def beside (path : List FileName) (suffix : String) : List FileName :=
  path.dropLast ++ [path.getLast?.getD [] ++ Text.bytes suffix]

/-- Can the journal of a file be written?  Its name and its path must not be too
long, and no directory may have its name or that of a write-ahead log. -/
def admitsJournal (tree : FileTree) (path : List FileName) : Bool :=
  let journal := beside path "-journal"
  decide (pathLength journal ≤ longestPath)
    && decide ((journal.getLast?.getD []).length ≤ longestName)
    && !tree.isDirectory journal && !tree.isDirectory (beside path "-wal")

/-- Open a file for writing, which has to be there unless it may be created; its
directory has to exist in any case. -/
def openFile? (tree : FileTree) (path : List UInt8) (mayCreate : Bool) : Option FileTree := do
  let path ← tree.resolve? path
  if tree.isDirectory path ∨ !tree.admitsJournal path then none
  else if tree.files.contains path then some tree
  else if mayCreate ∧ tree.isDirectory path.dropLast then
    some { tree with files := path :: tree.files }
  else none

end FileTree

end Durable

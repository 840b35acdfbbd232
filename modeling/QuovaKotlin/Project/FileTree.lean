import QuovaKotlin.Project.Path

/-!
# File trees

A value that stands for the files and directories around a working directory. A place is the list
of names that lead to it; no place is both a file and a directory. A file has bytes, which need not
be those of a text.
-/

set_option autoImplicit false

namespace QuovaKotlin

/-- The names that lead from the working directory to a file or directory. -/
abbrev Place := List String

/-- Goes one name further; `..` leads to the directory around. -/
def Place.enter (place : Place) (name : String) : Place :=
  if name = ".." then
    match place.getLast? with
    | none | some ".." => place ++ [name]
    | some "/" => place
    | some _ => place.dropLast
  else place ++ [name]

/-- Where a path starts. Absolute paths start at the place `/`. -/
def Place.origin (path : String) : Place :=
  if Path.isAbsolute path then ["/"] else []

/-- The places that names lead through, with both ends. -/
def Place.along (place : Place) : List String → List Place
  | [] => [place]
  | name :: names => place :: Place.along (place.enter name) names

/-- Whether names lead out of the place where they start. -/
def Place.leaves (names : Place) : Bool :=
  names.head?.any fun name => name = ".." || name = "/"

structure FileTree where
  /-- Every file with its bytes. -/
  files : List (Place × ByteArray) := []
  /-- Every directory but the working directory and those around it. -/
  directories : List Place := []

namespace FileTree

def isDirectory (tree : FileTree) (place : Place) : Bool :=
  place.all (· = "..") || place = ["/"] || tree.directories.contains place

/-- The bytes of a file. -/
def bytesAt? (tree : FileTree) (place : Place) : Option ByteArray :=
  tree.files.lookup place

/-- The text of a file, if its bytes are those of one. -/
def textAt? (tree : FileTree) (place : Place) : Option String :=
  (tree.bytesAt? place).bind String.fromUTF8?

def isFile (tree : FileTree) (place : Place) : Bool :=
  (tree.bytesAt? place).isSome

/-- Follows names one after the other; only a directory can be left. -/
def follow? (tree : FileTree) (place : Place) : List String → Option Place
  | [] => some place
  | name :: names =>
    if tree.isDirectory place then tree.follow? (place.enter name) names else none

/-- The place of the file or directory at a path. -/
def find? (tree : FileTree) (path : String) : Option Place := do
  let place ← tree.follow? (Place.origin path) (Path.names path)
  if Path.isFollowable path &&
      (tree.isDirectory place || (tree.isFile place && ! Path.namesDirectory path)) then
    some place
  else none

/-- Whether a path leads to a file. -/
def leadsToFile (tree : FileTree) (path : String) : Bool :=
  (tree.find? path).any tree.isFile

/-- The text of the file at a path. -/
def read? (tree : FileTree) (path : String) : Option String :=
  (tree.find? path).bind tree.textAt?

/--
Follows names and makes the directories that are not there. A file in the way, or a name that no
directory can have, ends it, and the directories that were made until then stay.
-/
def makeAlong (tree : FileTree) (place : Place) : List String → FileTree × Bool
  | [] => (tree, true)
  | name :: names =>
    let next := place.enter name
    if tree.isDirectory next then tree.makeAlong next names
    else if tree.isFile next || ! Path.isName name then (tree, false)
    else { tree with directories := tree.directories ++ [next] }.makeAlong next names

/-- Makes the directories on the way that `names` lead from a path; tells whether all are there. -/
def makeUnder (tree : FileTree) (path : String) (names : List String) : FileTree × Bool :=
  if Path.isFollowable (Path.extend path names) then
    tree.makeAlong (Place.origin path) (Path.names path ++ names)
  else (tree, false)

/--
Makes sure that a directory is there, and those on the way to it; tells whether it is. A path that
ends in `.` asks for a directory that is there already, and only those around it are made.
-/
def makeDirectory (tree : FileTree) (path : String) : FileTree × Bool :=
  if Path.endsInDot path && Path.isFollowable path then
    let (tree, done) := tree.makeAlong (Place.origin path) (Path.names path).dropLast
    (tree, done && (tree.find? path).any tree.isDirectory)
  else tree.makeUnder path []

/-- The files with `bytes` at `place`. -/
def put (place : Place) (bytes : ByteArray) : List (Place × ByteArray) → List (Place × ByteArray)
  | [] => [(place, bytes)]
  | (p, b) :: files => if p = place then (p, bytes) :: files else (p, b) :: put place bytes files

/-- Writes the file with a name into a directory that is there. -/
def writeIn? (tree : FileTree) (directory : Place) (name text : String) : Option FileTree :=
  let place := directory ++ [name]
  if tree.isDirectory directory && ! tree.isDirectory place && Path.isName name then
    some { tree with files := put place text.toUTF8 tree.files }
  else none

/-- Writes the file at a path into a directory that is there. -/
def write? (tree : FileTree) (path text : String) : Option FileTree := do
  let name ← Path.fileName? path
  let directory ← tree.follow? (Place.origin path) (Path.names path).dropLast
  if Path.isFollowable path && ! Path.namesDirectory path then tree.writeIn? directory name text
  else none

/-- Takes away a file, or a directory with everything in it. -/
def remove (tree : FileTree) (place : Place) : FileTree where
  files := tree.files.filter fun (p, _) => ! place.isPrefixOf p
  directories := tree.directories.filter (! place.isPrefixOf ·)

/-- The files at or under a place: the names from there, and the bytes. -/
def filesUnder (tree : FileTree) (place : Place) : List (Place × ByteArray) :=
  tree.files.filterMap fun (p, bytes) =>
    let names := p.drop place.length
    if place.isPrefixOf p && ! Place.leaves names then some (names, bytes) else none

/-- The texts of the files that are new, or that have other bytes than before. -/
def changes (before after : FileTree) : List (Place × String) :=
  after.files.filterMap fun (place, bytes) =>
    if before.bytesAt? place == some bytes then none
    else (String.fromUTF8? bytes).map (place, ·)

end FileTree

end QuovaKotlin

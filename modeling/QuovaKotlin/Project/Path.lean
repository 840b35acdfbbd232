import QuovaKotlin.Text.Join

/-!
# Paths

A path is kept as it is written, since it is reported that way. What it means is a list of names:
repeated slashes and the name `.` count for nothing.
-/

set_option autoImplicit false

namespace QuovaKotlin.Path

/-- The pieces between slashes; they may be empty. -/
def pieces : List Char → List (List Char)
  | [] => [[]]
  | c :: chars =>
    if c = '/' then [] :: pieces chars
    else
      match pieces chars with
      | [] => [[c]]
      | piece :: others => (c :: piece) :: others

/-- The names on a path, `..` included. -/
def names (path : String) : List String :=
  ((pieces path.toList).map String.ofList).filter fun name => name ≠ "" && name ≠ "."

def isAbsolute (path : String) : Bool :=
  path.toList.head? == some '/'

/-- Whether a file or directory can have a name: it has at most 255 bytes. -/
def isName (name : String) : Bool :=
  name.utf8ByteSize ≤ 255 && name.toList.all (·.toNat ≠ 0)

/-- Whether a path is short enough to be followed: it has less than 4096 bytes. -/
def isFollowable (path : String) : Bool :=
  path.utf8ByteSize < 4096

/-- Whether a path can only be that of a directory, because of how it ends. -/
def namesDirectory (path : String) : Bool :=
  match (pieces path.toList).getLast? with
  | some last => last.isEmpty || last = ['.']
  | none => true

/-- Whether the last name that is written on a path is `.`. -/
def endsInDot (path : String) : Bool :=
  ((pieces path.toList).filter (! ·.isEmpty)).getLast? == some ['.']

/-- A path under another; an absolute path stands for itself. -/
def join (base path : String) : String :=
  if isAbsolute path || base.isEmpty then path
  else if base.toList.getLast? == some '/' then base ++ path
  else base ++ "/" ++ path

/-- The path of the place that `names` lead to from `base`. -/
def extend (base : String) (names : List String) : String :=
  if names.isEmpty then base else join base (Text.joinWith "/" names)

/-- The last name on a path, unless it is `..`. -/
def fileName? (path : String) : Option String :=
  match (names path).getLast? with
  | some name => if name = ".." then none else some name
  | none => none

/--
A file name in front of its last dot, and what is behind the dot. A dot that is the first character
does not count.
-/
def splitName (name : String) : String × Option String :=
  let reversed := name.toList.reverse
  match reversed.dropWhile (· ≠ '.') with
  | _ :: c :: stem =>
    (String.ofList (c :: stem).reverse,
      some (String.ofList (reversed.takeWhile (· ≠ '.')).reverse))
  | _ => (name, none)

/-- The file name without its extension. -/
def stem? (path : String) : Option String :=
  (fileName? path).map fun name => (splitName name).1

/-- The list with another extension on its last name. -/
def withExtension (extension : String) : List String → List String
  | [] => []
  | [name] => [(splitName name).1 ++ "." ++ extension]
  | name :: names => name :: withExtension extension names

/-- Whether a list of names comes before another, name by name. -/
def precedes : List String → List String → Bool
  | [], _ => true
  | _ :: _, [] => false
  | a :: as, b :: bs => a < b || (a == b && precedes as bs)

end QuovaKotlin.Path

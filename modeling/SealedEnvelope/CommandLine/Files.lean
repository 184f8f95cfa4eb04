import SealedEnvelope.Octets
import SealedEnvelope.Text.Utf8

set_option autoImplicit false

/-! # Files

A tree of files as the commands see it. A `Path` is a place in it; a `Route` is what the text of a
path says, which may run through dots and may ask for a directory. `find` follows a route to
something that is there, `place` to where a file can be written; both look at the names one by one,
and the first that cannot be followed decides the fault. `contents?` is the view of a tree;
`contents?_write` and `contents?_remove` say that the two operations change what is at their own
path and nothing else. -/

namespace SealedEnvelope.CommandLine

/-! ## Paths -/

/-- Where paths start. The tree does not say where under the root the working directory lies, so the
    two are directories of their own. -/
inductive Origin where
  | root
  /-- The directory so many levels above the working directory. -/
  | above (levels : Nat)
deriving DecidableEq, Repr

/-- A place in the tree of files: the names that lead down to it, one directory after the other. -/
structure Path where
  origin : Origin
  names : List String
deriving DecidableEq, Repr

namespace Path

/-- What has a name in the directory at a path. -/
def child (p : Path) (name : String) : Path := { p with names := p.names ++ [name] }

/-- The directory that holds what is at a path. The root holds itself. -/
def parent : Path → Path
  | ⟨.root, []⟩ => ⟨.root, []⟩
  | ⟨.above levels, []⟩ => ⟨.above (levels + 1), []⟩
  | ⟨origin, names⟩ => ⟨origin, names.dropLast⟩

/-- One name further: a dot stays where it is, two dots lead to the directory above. -/
def step (p : Path) (name : String) : Path :=
  if name = "." then p else if name = ".." then p.parent else p.child name

/-- The directories that a path leads through, from its origin on. -/
def directories (p : Path) : List Path :=
  (List.range p.names.length).map fun n => { p with names := p.names.take n }

end Path

/-- What the text of a path says. -/
structure Route where
  origin : Origin
  /-- The names between the slashes, dots among them. -/
  names : List String
  /-- A slash at the end asks for a directory. -/
  endsInSlash : Bool
deriving DecidableEq, Repr

namespace Route

/-- The names between slashes, the first of them behind the characters of `name`. -/
def splitFrom (name : List Char) : List Char → List String
  | [] => [String.ofList name.reverse]
  | c :: rest =>
    if c = '/' then String.ofList name.reverse :: splitFrom [] rest else splitFrom (c :: name) rest

/-- The route that a text spells. It starts at the root if it starts with a slash; slashes in a row
    are one. -/
def ofText (text : String) : Route :=
  { origin := if text.toList.head? = some '/' then .root else .above 0
    names := (splitFrom [] text.toList).filter (· ≠ "")
    endsInSlash := text.toList.getLast? = some '/' }

/-- Where a route starts. -/
def start (route : Route) : Path := ⟨route.origin, []⟩

/-- Where a route leads, if it can be followed. -/
def target (route : Route) : Path := route.names.foldl Path.step route.start

/-- The routes to everything that a route leads through, itself included. -/
def stages (route : Route) : List Route :=
  (List.range (route.names.length + 1)).map fun n => { route with names := route.names.take n }

end Route

/-! ## Faults -/

/-- Why a file cannot be read or written. -/
inductive FileFault where
  | notFound
  /-- The path leads through a file. -/
  | notDirectory
  | isDirectory
  | nameTooLong
  /-- The path contains NUL. -/
  | nulInPath
  /-- The file holds no UTF-8. -/
  | notText
deriving DecidableEq, Repr

/-- The fault in words. -/
def FileFault.message : FileFault → String
  | notFound => "No such file or directory (os error 2)"
  | notDirectory => "Not a directory (os error 20)"
  | isDirectory => "Is a directory (os error 21)"
  | nameTooLong => "File name too long (os error 36)"
  | nulInPath => "file name contained an unexpected NUL byte"
  | notText => "stream did not contain valid UTF-8"

/-- The most octets of a name. -/
def nameLimit : Nat := 255

/-- The most octets of the text of a path. -/
def pathLimit : Nat := 4095

/-- Refuses a name that is too long. -/
def checkName (name : String) : Except FileFault Unit :=
  if nameLimit < name.utf8ByteSize then .error .nameTooLong else .ok ()

/-- Refuses a text that is no path. -/
def checkPathText (text : String) : Except FileFault Unit :=
  if text.toList.contains (Char.ofNat 0) then .error .nulInPath
  else if text.isEmpty then .error .notFound
  else if pathLimit < text.utf8ByteSize then .error .nameTooLong
  else .ok ()

/-! ## Trees -/

/-- Files with their contents, and the directories there are. -/
structure Files where
  entries : List (Path × Bytes)
  directories : List Path
deriving DecidableEq, Repr

namespace Files

/-- The contents under a path, in a list of entries. -/
def findIn (p : Path) : List (Path × Bytes) → Option Bytes
  | [] => none
  | (q, contents) :: rest => if q = p then some contents else findIn p rest

/-- The contents of the file at a path. -/
def contents? (files : Files) (p : Path) : Option Bytes := findIn p files.entries

/-- Whether a path leads to a directory. Every origin is one. -/
def isDirectory (files : Files) (p : Path) : Bool :=
  p.names.isEmpty || files.directories.contains p

/-- The tree with the contents of a file set. -/
def write (files : Files) (p : Path) (contents : Bytes) : Files :=
  { files with entries := (p, contents) :: files.entries.filter fun e => e.1 ≠ p }

/-- The tree without the file at a path. -/
def remove (files : Files) (p : Path) : Files :=
  { files with entries := files.entries.filter fun e => e.1 ≠ p }

/-- A tree of files, with all the directories that their paths lead through. -/
def ofList (entries : List (Path × Bytes)) : Files :=
  entries.foldl (fun files e => files.write e.1 e.2) ⟨[], entries.flatMap fun e => e.1.directories⟩

/-- Refuses a path at which there is no directory to look into. -/
def checkDirectory (files : Files) (p : Path) : Except FileFault Unit :=
  if files.isDirectory p then .ok () else .error .notDirectory

/-- Refuses a path at which there is nothing. -/
def checkPresent (files : Files) (p : Path) : Except FileFault Unit :=
  if files.isDirectory p ∨ (files.contents? p).isSome then .ok () else .error .notFound

/-- What a path leads to behind some names, each of which has to be there. -/
def follow (files : Files) : (p : Path) → (names : List String) → Except FileFault Path
  | p, [] => .ok p
  | p, name :: rest => do
    files.checkDirectory p
    checkName name
    files.checkPresent (p.step name)
    files.follow (p.step name) rest

/-- The file or directory that the text of a path leads to. -/
def find (files : Files) (text : String) : Except FileFault Path := do
  checkPathText text
  let route := Route.ofText text
  let p ← files.follow route.start route.names
  if route.endsInSlash then files.checkDirectory p
  return p

/-- The path at which a file can be written, whether there is one or not. -/
def place (files : Files) (text : String) : Except FileFault Path := do
  checkPathText text
  let route := Route.ofText text
  match route.names.getLast? with
  | none => throw .isDirectory
  | some name =>
    let directory ← files.follow route.start route.names.dropLast
    files.checkDirectory directory
    if name = "." ∨ name = ".." ∨ route.endsInSlash then throw .isDirectory
    checkName name
    if files.isDirectory (directory.child name) then throw .isDirectory
    return directory.child name

/-- The contents of the file that a text leads to. A directory is found, but cannot be read. -/
def read (files : Files) (text : String) : Except FileFault Bytes := do
  match files.contents? (← files.find text) with
  | some contents => return contents
  | none => throw .isDirectory

/-- The octets of the file that a text leads to, if they are a text. -/
def readText (files : Files) (text : String) : Except FileFault Bytes := do
  let contents ← files.read text
  if (Text.ofUtf8? contents).isNone then throw .notText
  return contents

/-! ## What an operation changes -/

theorem findIn_filter (p q : Path) (l : List (Path × Bytes)) :
    findIn q (l.filter fun e => e.1 ≠ p) = if p = q then none else findIn q l := by
  induction l with
  | nil => simp [findIn]
  | cons e rest ih =>
    by_cases he : e.1 = p <;> by_cases hq : p = q <;> simp_all [findIn]

/-- Writing a file changes what is at its path and nothing else. -/
theorem contents?_write (files : Files) (p q : Path) (contents : Bytes) :
    (files.write p contents).contents? q = if p = q then some contents else files.contents? q := by
  by_cases h : p = q
  · simp [contents?, write, findIn, h]
  · simp only [contents?, write, findIn, h, if_false, findIn_filter]

/-- Removing a file leaves nothing at its path and everything else as it was. -/
theorem contents?_remove (files : Files) (p q : Path) :
    (files.remove p).contents? q = if p = q then none else files.contents? q :=
  findIn_filter p q files.entries

end Files

end SealedEnvelope.CommandLine

import CssHighlight.Files.Path
import CssHighlight.Text.Quoted

/-!
# File trees

A file tree is a snapshot of the files that a run can see. Looking a path up walks from directory
to directory and follows links, as an operating system does, and fails for the same reasons.
-/
namespace CssHighlight

inductive Entry where
  /-- The bytes of a file and the time of its last change, in nanoseconds. -/
  | file (bytes : ByteArray) (modified : Int)
  | directory
  | link (target : String)
  deriving Inhabited

inductive SystemError where
  | noEntry
  | notDirectory
  | isDirectory
  | nameTooLong
  | tooManyLinks
  deriving DecidableEq, Repr, Inhabited

namespace SystemError

def code : SystemError → Nat
  | .noEntry => 2
  | .notDirectory => 20
  | .isDirectory => 21
  | .nameTooLong => 36
  | .tooManyLinks => 40

def reason : SystemError → String
  | .noEntry => "No such file or directory"
  | .notDirectory => "Not a directory"
  | .isDirectory => "Is a directory"
  | .nameTooLong => "File name too long"
  | .tooManyLinks => "Too many levels of symbolic links"

end SystemError

inductive FileError where
  | system (cause : SystemError) (path : String)
  /-- A path cannot hold the null character. -/
  | nullInPath
  /-- The home directory that a leading `~` stands for is not known. -/
  | unknownHome
  /-- A link leads back to itself. -/
  | linkLoop (path : String)
  /-- Links lead to one another for longer than the stack of the resolution allows. -/
  | tooDeep
  deriving DecidableEq, Repr, Inhabited

def FileError.message : FileError → String
  | .system cause path => s!"[Errno {cause.code}] {cause.reason}: {Text.quoted path}"
  | .nullInPath => "embedded null byte"
  | .unknownHome => "Could not determine home directory."
  | .linkLoop path => "Symlink loop from " ++ Text.quoted path
  | .tooDeep => "maximum recursion depth exceeded"

/-- The entries below the root, each under the names that lead to it. -/
structure FileTree where
  entries : List (List String × Entry)
  deriving Inhabited

/-- The most bytes of a name and of a path. -/
def maxNameBytes : Nat := 255

def maxPathBytes : Nat := 4095

/-- The most links that are followed on the way to one file. -/
def maxLinks : Nat := 40

namespace FileTree

def entry? (tree : FileTree) (place : List String) : Option Entry :=
  if place.isEmpty then some .directory
  else (tree.entries.find? (·.1 == place)).map (·.2)

/-- The names on the way along a path; a slash at the end asks for a directory. -/
def stepsOf (path : String) : List String :=
  let names := Path.namesOf path
  if path.toList.getLast? == some '/' then names ++ ["."] else names

/-- Walks from the directory `here` along the steps, and goes on as `jump` says where a link is
followed. The last step is followed as a link only if `follow` is set. -/
def walkWith (tree : FileTree) (follow : Bool)
    (jump : List String → List String → Except SystemError (List String × Entry))
    (here : List String) : List String → Except SystemError (List String × Entry)
  | [] =>
    match tree.entry? here with
    | some entry => .ok (here, entry)
    | none => .error .noEntry
  | step :: rest =>
    match tree.entry? here with
    | some .directory =>
      if step = "." then tree.walkWith follow jump here rest
      else if step = ".." then tree.walkWith follow jump here.dropLast rest
      else if maxNameBytes < step.utf8ByteSize then .error .nameTooLong
      else
        match tree.entry? (here ++ [step]) with
        | none => .error .noEntry
        | some (.link target) =>
          if rest.isEmpty && !follow then .ok (here ++ [step], .link target)
          else jump (if Path.isRooted target then [] else here) (stepsOf target ++ rest)
        | some _ => tree.walkWith follow jump (here ++ [step]) rest
    | some _ => .error .notDirectory
    | none => .error .noEntry

/-- Walks from a directory along the steps. So many links may be followed on the way. -/
def walk (tree : FileTree) (follow : Bool) :
    Nat → List String → List String → Except SystemError (List String × Entry)
  | 0 => tree.walkWith follow fun _ _ => .error .tooManyLinks
  | links + 1 => tree.walkWith follow (tree.walk follow links)

/-- Puts an entry in a place, and directories above it where there are none. -/
def insert (tree : FileTree) (place : List String) (entry : Entry) : FileTree :=
  let above := (List.range place.length).filterMap fun n =>
    let directory := place.take n
    if (tree.entry? directory).isSome then none else some (directory, Entry.directory)
  ⟨tree.entries.filter (·.1 ≠ place) ++ above ++ [(place, entry)]⟩

def erase (tree : FileTree) (place : List String) : FileTree :=
  ⟨tree.entries.filter fun entry => !place.isPrefixOf entry.1⟩

/-- Goes on to the directory of a name, which is made if there is nothing of that name. -/
def enter (spot : FileTree × List String) (name : String) :
    Except SystemError (FileTree × List String) :=
  let (tree, here) := spot
  match tree.walk true maxLinks here [name] with
  | .ok (place, .directory) => .ok (tree, place)
  | .ok _ => .error .notDirectory
  | .error .noEntry =>
    let place := here ++ [name]
    -- A link to nothing is in the way of a directory.
    if (tree.entry? place).isSome then .error .noEntry
    else .ok (tree.insert place .directory, place)
  | .error cause => .error cause

/-- The place of a file that is opened for writing. There may be nothing of its last name yet. -/
def landing (tree : FileTree) : Nat → List String → List String → Except SystemError (List String)
  | 0, _, _ => .error .tooManyLinks
  | links + 1, here, steps =>
    match tree.walk true maxLinks here steps.dropLast, steps.getLast? with
    | .error cause, _ => .error cause
    | .ok (above, .directory), some name =>
      let place := above ++ [name]
      if name = "." ∨ name = ".." then .error .isDirectory
      else if maxNameBytes < name.utf8ByteSize then .error .nameTooLong
      else
        match tree.entry? place with
        | some .directory => .error .isDirectory
        | some (.link target) =>
          tree.landing links (if Path.isRooted target then [] else above) (stepsOf target)
        | _ => .ok place
    | .ok _, _ => .error .notDirectory

end FileTree

theorem maxLinks_le_thousand : maxLinks ≤ 1000 := by decide

structure Place where
  tree : FileTree
  /-- The names that lead from the root to the working directory. -/
  directory : List String
  home : String
  /-- The home directories of other users, by name. -/
  homes : List (String × String)
  /-- The calls that are left, at the fewest, where a path is resolved or a text is read. Each call
  for a link on the way of a link, or for a value in a value, is open within the one before it. -/
  stack : Nat := 1000
  /-- The links that are followed on the way to a file do not fill the stack. -/
  spare : maxLinks ≤ stack := by exact maxLinks_le_thousand

instance : Inhabited Place :=
  ⟨{ tree := default, directory := [], home := "", homes := [] }⟩

namespace Place

def lookUp (p : Place) (follow : Bool) (path : String) :
    Except FileError (List String × Entry) :=
  if path.toList.contains '\x00' then .error .nullInPath
  else if path = "" then .error (.system .noEntry path)
  else if maxPathBytes < path.utf8ByteSize then .error (.system .nameTooLong path)
  else
    let start := if Path.isRooted path then [] else p.directory
    match p.tree.walk follow maxLinks start (FileTree.stepsOf path) with
    | .ok found => .ok found
    | .error cause => .error (.system cause path)

/-- The entry that a path leads to, links followed. -/
def stat (p : Place) (path : String) : Except FileError Entry :=
  (p.lookUp true path).map (·.2)

/-- The entry that a path names, even if it is a link. -/
def linkStat (p : Place) (path : String) : Except FileError Entry :=
  (p.lookUp false path).map (·.2)

def read (p : Place) (path : String) : Except FileError ByteArray :=
  match p.stat path with
  | .error e => .error e
  | .ok (.file bytes _) => .ok bytes
  | .ok _ => .error (.system .isDirectory path)

/-- Writes a file, and makes the directories on the way to it. Links are followed. Where the way is
barred, nothing changes. -/
def write (p : Place) (path : String) (bytes : ByteArray) (modified : Int) : Place :=
  let names := Path.namesOf path
  let start := if Path.isRooted path then [] else p.directory
  if path.toList.contains '\x00' ∨ maxPathBytes < path.utf8ByteSize then p
  else
    match names.dropLast.foldlM FileTree.enter (p.tree, start) with
    | .error _ => p
    | .ok (tree, above) =>
      match tree.landing maxLinks above (names.drop (names.length - 1)) with
      | .error _ => { p with tree := tree }
      | .ok place => { p with tree := tree.insert place (.file bytes modified) }

/-- Removes a file or a link. -/
def remove (p : Place) (path : String) : Place :=
  match p.lookUp false path with
  | .error _ | .ok (_, .directory) => p
  | .ok (place, _) => { p with tree := p.tree.erase place }

end Place

end CssHighlight

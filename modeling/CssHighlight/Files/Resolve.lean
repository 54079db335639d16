import CssHighlight.Files.Tree

/-!
# Resolved paths

Resolving a path replaces links by what they lead to, and removes double dots behind them. A strict
resolution fails when a name on the way does not exist; otherwise the rest of the path is kept.
-/
namespace CssHighlight

namespace Path

def child (p : Path) (name : String) : Path :=
  { p with names := p.names ++ [name] }

/-- One level up. Above the start of a relative path the names are double dots. -/
def up (p : Path) : Path :=
  if p.isAbsolute then p.parent
  else if p.names.isEmpty ∨ p.names.getLast? = some ".." then p.child ".."
  else p.parent

/-- Removes double dots together with the names in front of them. -/
def collapse (p : Path) : Path :=
  let kept := p.names.foldl (fun done name => if name = ".." then done.tail else name :: done) []
  { p with names := kept.reverse }

end Path

/-- What is left to do on the way along a path. -/
inductive PathStep where
  /-- An empty name stands between two slashes that follow each other. -/
  | enter (name : String)
  /-- The link at this path is resolved when this step is reached. -/
  | resolved (link : Path)
  deriving Inhabited

namespace PathStep

/-- The steps along the target of a link, from the root if it starts there. -/
def ofTarget (target : String) : List PathStep :=
  let names := (target.toList.splitOn '/').map String.ofList
  (if Path.isRooted target then names.drop 1 else names).map PathStep.enter

/-- Goes on from a path along names that are kept as they are. Two slashes behind each other lead
to the root. -/
def keepNames (p : Path) (names : List String) : Path :=
  p.join ("/".intercalate names)

/-- Goes on from a path along the steps, which are kept as they are. `names` are those since the
last link, the latest first. -/
def keep (p : Path) (names : List String) : List PathStep → Path
  | [] => keepNames p names.reverse
  | .enter name :: rest => keep p (name :: names) rest
  | .resolved _ :: rest => keep (keepNames p names.reverse) [] rest

/-- How many links are being resolved, each on the way of the one before it. -/
def pending : List PathStep → Nat
  | [] => 0
  | .enter _ :: rest => pending rest
  | .resolved _ :: rest => pending rest + 1

end PathStep

/-- Steps enough for the target of a link, if the entry is one. -/
def Entry.targetSteps : Entry → Nat
  | .link target => target.length + 2
  | _ => 0

namespace Place

/-- The reason why a link that leads back to itself leads nowhere: a name on its way may not be a
directory. -/
def loopError (p : Place) (path : String) : FileError :=
  match p.stat path with
  | .error cause => cause
  | .ok _ => .system .tooManyLinks path

/-- Resolves the steps from a path without links. `seen` holds the links that were met, with the
paths that they lead to once these are known. A link that is met again before that leads back to
itself: then a strict resolution fails, and another one keeps the rest of the path as it is. A new
link takes a call, which stays open until its target is known. -/
def resolveSteps (p : Place) (strict : Bool) :
    Nat → Path → List (Path × Option Path) → List PathStep → Except FileError Path
  | 0, here, _, _ => .error (.system .tooManyLinks here.toText)
  | _ + 1, here, _, [] => .ok here
  | fuel + 1, here, seen, .resolved link :: rest =>
    p.resolveSteps strict fuel here ((link, some here) :: seen) rest
  | fuel + 1, here, seen, .enter name :: rest =>
    if name = "" ∨ name = "." then p.resolveSteps strict fuel here seen rest
    else if name = ".." then p.resolveSteps strict fuel here.up seen rest
    else
      let next := here.child name
      match p.linkStat next.toText with
      | .error .nullInPath => .error .nullInPath
      | .error e => if strict then .error e else p.resolveSteps strict fuel next seen rest
      | .ok (.link target) =>
        match seen.lookup next with
        | some (some known) => p.resolveSteps strict fuel known seen rest
        | some none =>
          if strict then .error (p.loopError next.toText)
          else .ok (PathStep.keep next [] rest)
        | none =>
          if p.stack ≤ PathStep.pending rest then .error .tooDeep
          else
            p.resolveSteps strict fuel
              (if Path.isRooted target then ⟨"/", []⟩ else here)
              ((next, none) :: seen) (PathStep.ofTarget target ++ .resolved next :: rest)
      | .ok _ => p.resolveSteps strict fuel next seen rest

/-- Steps enough for the target of every link. -/
def linkSteps (p : Place) : Nat :=
  p.tree.entries.foldr (fun entry steps => entry.2.targetSteps + steps) 0

/-- Enough steps for every link of the tree under each of its names. Seen from the working
directory, a link has a name for every number of double dots in front of it, as far as the paths
go. -/
def resolveFuel (p : Place) (steps : List PathStep) : Nat :=
  steps.length + maxPathBytes * p.linkSteps + 1

def resolve (p : Place) (strict : Bool) (path : Path) : Except FileError Path :=
  let steps := path.names.map PathStep.enter
  let start : Path := ⟨if path.isAbsolute then "/" else "", []⟩
  match p.resolveSteps strict (p.resolveFuel steps) start [] steps with
  | .error (.system .tooManyLinks spot) => .error (.linkLoop spot)
  | .error e => .error e
  | .ok found =>
    let resolved := (Path.joinPath ⟨"/", p.directory⟩ found).collapse
    if strict then .ok resolved
    else
      match p.stat resolved.toText with
      | .error (.system .tooManyLinks spot) => .error (.linkLoop spot)
      | _ => .ok resolved

def homeOf (p : Place) (name : String) : Option String :=
  let user := String.ofList (name.toList.drop 1)
  let home := if user = "" then some p.home else p.homes.lookup user
  home.map fun home =>
    let bare := String.ofList (home.toList.reverse.dropWhile (· == '/')).reverse
    if bare = "" then "/" else bare

/-- Puts the home directory in the place of a leading `~` and a user's name. -/
def expandHome (p : Place) (path : Path) : Except FileError Path :=
  match path.root, path.names with
  | "", name :: rest =>
    if name.toList.head? = some '~' then
      match p.homeOf name with
      | none => .error (if name.toList.contains '\x00' then .nullInPath else .unknownHome)
      | some home =>
        if home.toList.head? = some '~' then .error .unknownHome
        else
          let base := Path.ofText home
          .ok { base with names := base.names ++ rest }
    else .ok path
  | _, _ => .ok path

/-- Whether a path exists. A path that is too long is an error. -/
def doesExist (p : Place) (path : String) : Except FileError Bool :=
  match p.stat path with
  | .ok _ => .ok true
  | .error (.system .nameTooLong spot) => .error (.system .nameTooLong spot)
  | .error _ => .ok false

end Place

end CssHighlight

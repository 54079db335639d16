import CssHighlight.CommandLine.Conventional
import CssHighlight.CommandLine.Run

/-!
# The program

Collects the files that a run may look at into a snapshot, runs on it, and prints the outcome.
-/
namespace CssHighlight

def absoluteText (place : List String) : String :=
  "/" ++ "/".intercalate place

def modifiedOf (data : IO.FS.Metadata) : Int :=
  data.modified.sec * 1000000000 + data.modified.nsec.toNat

/-- Adds to a snapshot what stands on the way from a directory along some names. What cannot be
read is left out. -/
partial def record (tree : FileTree) (here : List String) : List String → IO FileTree
  | [] => return tree
  | "." :: rest => record tree here rest
  | ".." :: rest => record tree here.dropLast rest
  | name :: rest => do
    let place := here ++ [name]
    let path := absoluteText place
    match ← ((← IO.currentDir) / path).symlinkMetadata.toBaseIO with
    | .error _ => return tree
    | .ok data =>
      match data.type with
      | .dir => record (tree.insert place .directory) place rest
      | .file =>
        match ← (IO.FS.readBinFile path).toBaseIO with
        | .error _ => return tree
        | .ok bytes => return tree.insert place (.file bytes (modifiedOf data))
      | .symlink =>
        match ← (IO.FS.realPath path).toBaseIO with
        | .error _ => return tree
        | .ok target =>
          let names := Path.namesOf target.toString
          record (← record (tree.insert place (.link target.toString)) [] names) names rest
      | .other => return tree

/-- Adds to a place what stands on the way along a path. -/
def recordPath (p : Place) (path : Path) : IO Place := do
  match p.expandHome path with
  | .error _ => return p
  | .ok path =>
    let here := if path.isAbsolute then [] else p.directory
    return { p with tree := ← record p.tree here path.names }

/-- Adds the settings files above a stylesheet and the keyword file that they name. -/
def recordSettings (p : Place) (i : CommandLine.Invocation) : IO Place := do
  match i.locate p with
  | .error _ => return p
  | .ok path =>
    let mut p := p
    for count in [0 : path.names.length] do
      for source in Config.sources do
        let directory : Path := { path with names := path.names.take count }
        p ← recordPath p (directory.join source.1)
    match i.config p path with
    | .ok { keywordsFile := .str file, .. } => recordPath p (.ofText file)
    | _ => return p

/-- The files that a run may look at. -/
def placeFor (arguments : List String) : IO Place := do
  let directory := Path.namesOf (← IO.currentDir).toString
  let home := (← IO.getEnv "HOME").getD "/"
  let mut p : Place :=
    { tree := ← record ⟨[]⟩ [] directory, directory := directory, home := home, homes := [] }
  match CommandLine.Arguments.read arguments with
  | .error _ => return p
  | .ok a =>
    for file in a.paths do
      p ← recordPath p (.ofText file)
    match CommandLine.Frontend.conventional.read p arguments with
    | .accepted invocation => recordSettings p invocation
    | _ => return p

end CssHighlight

open CssHighlight in
def main (arguments : List String) : IO UInt32 := do
  let limitSetting ← IO.getEnv Stylesheet.limitVariable
  let outcome := CommandLine.run .conventional (← placeFor arguments) limitSetting arguments
  IO.print outcome.output
  IO.eprint outcome.errors
  if let some failure := outcome.unexpected? then IO.eprintln failure.message
  return outcome.exitCode.toUInt32

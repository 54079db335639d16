import CssHighlight.Files.Tree

/-!
# Frontends

A frontend stands between the program and its user. It reads the arguments, checks the paths among
them, prints rows and reports failures. The help text, the version and wrong arguments are its own
affair: then it ends the run before the program has begun. The program relies on no more of it than
the laws at the end.
-/
namespace CssHighlight.CommandLine

/-- What the program is asked for, with the values as they are given. -/
structure Invocation where
  file : String
  dialect : Option String
  fold : Option Bool
  format : String
  keywordsFile : Option String
  verbose : Bool
  deriving DecidableEq, Repr

/-- How a run ends: its exit code, what it prints, and what it prints as errors. -/
structure Ending where
  exitCode : Nat
  output : String
  errors : String
  deriving DecidableEq, Repr, Inhabited

/-- What the arguments come to. -/
inductive Reading where
  /-- The frontend ends the run. -/
  | ended (ending : Ending)
  /-- A path among the arguments cannot be checked. -/
  | failed (cause : FileError)
  | accepted (invocation : Invocation)
  deriving DecidableEq, Repr

structure Frontend where
  read : Place → List String → Reading
  /-- The end of a run for a file or a setting that is not valid, with a message on it. -/
  misuse : String → Ending
  /-- The end of a run for another failure, with a message on it. -/
  plain : String → Ending
  /-- What is printed for a row. -/
  echo : String → String

/-- What a frontend promises for the arguments of a run in a place. -/
structure Frontend.Lawful (f : Frontend) (p : Place) : Prop where
  /-- Only a path to something that exists is accepted. -/
  file {arguments : List String} {i : Invocation} (accepted : f.read p arguments = .accepted i) :
    ∃ entry, p.stat i.file = .ok entry
  /-- A path that the system does not find is refused. Only a null character keeps a path from
  being checked. -/
  failed {arguments : List String} {cause : FileError}
    (failed : f.read p arguments = .failed cause) :
    ∃ argument ∈ arguments, '\x00' ∈ argument.toList
  /-- Information ends a run with success, and wrong arguments end it as a misuse. -/
  ended {arguments : List String} {ending : Ending} (ended : f.read p arguments = .ended ending) :
    ending.exitCode = 0 ∨ ending.exitCode = 2
  /-- The exit code tells a misuse from another failure. -/
  misuse (message : String) : (f.misuse message).exitCode = 2
  plain (message : String) : (f.plain message).exitCode = 1

end CssHighlight.CommandLine

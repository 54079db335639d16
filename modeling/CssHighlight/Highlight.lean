import CssHighlight.Config.Basic
import CssHighlight.Document.Tokens
import CssHighlight.Keyword.Cache
import CssHighlight.Scan.Range

/-!
# Highlighting

Scans that take their dialect, folding and keywords from a configuration.
-/
namespace CssHighlight

/-- Why a scan does not take place. The document stays as it was. -/
inductive ScanError where
  | range (cause : RangeError)
  | config (cause : ConfigError)
  | keywords (cause : KeywordError)
  | lineData (cause : LineDataError)
  deriving Inhabited

def ScanError.message : ScanError → String
  | .range cause => cause.message
  | .config cause => cause.message
  | .keywords cause => cause.message
  | .lineData cause => cause.message

structure ScanSetup where
  config : Config := {}
  /-- Keyword lists that go before those of the configuration. -/
  keywords : Option KeywordSet := none

namespace ScanSetup

/-- The keyword lists: the given ones, else those of the configured file, else the built-in
ones. -/
def keywordSet (p : Place) (given : Option KeywordSet) (settings : Settings) :
    Except KeywordError KeywordSet :=
  match given, settings.keywordsFile with
  | some keywords, _ => .ok keywords
  | none, some path =>
    if path = "" then .ok .builtin
    else (KeywordCache.empty.load p (.ofText path)).2.map LoadedKeywords.keywords
  | none, none => .ok .builtin

def options (p : Place) (s : ScanSetup) : Except ScanError ScanOptions :=
  match s.config.settings .standard with
  | .error cause => .error (.config cause)
  | .ok settings =>
    match keywordSet p s.keywords settings with
    | .error cause => .error (.keywords cause)
    | .ok keywords => .ok ⟨settings.dialect, settings.fold, keywords⟩

end ScanSetup

namespace Document

/-- Styles `length` characters from `start` on, behind a character of style `initStyle`, and
writes the data of the lines that end among them. -/
def scan (p : Place) (s : ScanSetup) (d : Document) (start length : Int) (initStyle : Style) :
    Except ScanError (Document × ScanResult) :=
  match d.checkRange start length with
  | .error cause => .error (.range cause)
  | .ok () =>
    match s.options p with
    | .error cause => .error cause
    | .ok options =>
      match d.scanRange start.toNat length.toNat initStyle options with
      | .error cause => .error (.lineData cause)
      | .ok scanned => .ok scanned

/-- Styles the document from the line that holds `position` to its end, as is needed after an
edit there. -/
def rescan (p : Place) (s : ScanSetup) (d : Document) (position : Int) :
    Except ScanError (Document × ScanResult) :=
  if 0 ≤ position ∧ position ≤ d.length then
    let (start, initStyle) := d.restartPoint position.toNat
    d.scan p s start (d.length - start) initStyle
  else .error (.range ⟨position, 0, d.length⟩)

def scanAll (p : Place) (s : ScanSetup) (d : Document) :
    Except ScanError (Document × ScanResult) :=
  d.scan p s 0 d.length .default

end Document

def tokenize (p : Place) (s : ScanSetup) (text : String) : Except ScanError (List Token) :=
  ((Document.ofText text).scanAll p s).map fun scanned => scanned.1.allTokens

end CssHighlight

import CssHighlight.Keyword.List

/-!
# Keyword sets

The five lists consulted when a run of name characters ends, and the built-in ones.
-/
namespace CssHighlight

inductive KeywordKind where
  | property
  | atRule
  | pseudoClass
  | pseudoElement
  | mathFunction
  deriving DecidableEq, Repr

namespace KeywordKind

def all : List KeywordKind := [.property, .atRule, .pseudoClass, .pseudoElement, .mathFunction]

/-- The key under which a keyword file gives the list. -/
def label : KeywordKind → String
  | .property => "property"
  | .atRule => "at_rule"
  | .pseudoClass => "pseudo_class"
  | .pseudoElement => "pseudo_element"
  | .mathFunction => "math_function"

def ofLabel? (label : String) : Option KeywordKind :=
  all.find? (·.label == label)

end KeywordKind

structure KeywordSet where
  property : KeywordList
  atRule : KeywordList
  pseudoClass : KeywordList
  pseudoElement : KeywordList
  mathFunction : KeywordList
  deriving DecidableEq, Inhabited

namespace KeywordSet

def get (set : KeywordSet) : KeywordKind → KeywordList
  | .property => set.property
  | .atRule => set.atRule
  | .pseudoClass => set.pseudoClass
  | .pseudoElement => set.pseudoElement
  | .mathFunction => set.mathFunction

def put (set : KeywordSet) (list : KeywordList) : KeywordKind → KeywordSet
  | .property => { set with property := list }
  | .atRule => { set with atRule := list }
  | .pseudoClass => { set with pseudoClass := list }
  | .pseudoElement => { set with pseudoElement := list }
  | .mathFunction => { set with mathFunction := list }

namespace Builtin

def properties : String :=
    "accent-color align-content align-items align-self all animation animation-delay " ++
    "animation-direction animation-duration animation-fill-mode animation-iteration-count " ++
    "animation-name animation-play-state animation-timing-function appearance aspect-ratio " ++
    "backdrop-filter backface-visibility background background-attachment " ++
    "background-blend-mode background-clip background-color background-image " ++
    "background-origin background-position background-repeat background-size block-size " ++
    "border border-block border-bottom border-bottom-color border-bottom-left-radius " ++
    "border-bottom-right-radius border-bottom-style border-bottom-width border-collapse " ++
    "border-color border-image border-inline border-left border-left-color " ++
    "border-left-style border-left-width border-radius border-right border-right-color " ++
    "border-right-style border-right-width border-spacing border-style border-top " ++
    "border-top-color border-top-left-radius border-top-right-radius border-top-style " ++
    "border-top-width border-width bottom box-shadow box-sizing break-after break-before " ++
    "break-inside caption-side caret-color clear clip clip-path color color-scheme " ++
    "column-count column-gap column-rule column-span column-width columns contain container " ++
    "container-name container-type content counter-increment counter-reset cursor direction " ++
    "display empty-cells filter flex flex-basis flex-direction flex-flow flex-grow " ++
    "flex-shrink flex-wrap float font font-display font-family font-feature-settings " ++
    "font-kerning font-size font-stretch font-style font-variant font-weight gap grid " ++
    "grid-area grid-auto-columns grid-auto-flow grid-auto-rows grid-column grid-column-end " ++
    "grid-column-start grid-row grid-row-end grid-row-start grid-template " ++
    "grid-template-areas grid-template-columns grid-template-rows height hyphens " ++
    "image-rendering inline-size inset isolation justify-content justify-items justify-self " ++
    "left letter-spacing line-break line-height list-style list-style-image " ++
    "list-style-position list-style-type margin margin-block margin-bottom margin-inline " ++
    "margin-left margin-right margin-top mask max-height max-width min-height min-width " ++
    "mix-blend-mode object-fit object-position opacity order orphans outline outline-color " ++
    "outline-offset outline-style outline-width overflow overflow-wrap overflow-x " ++
    "overflow-y padding padding-block padding-bottom padding-inline padding-left " ++
    "padding-right padding-top page-break-after page-break-before perspective place-content " ++
    "place-items pointer-events position quotes resize right rotate row-gap scale " ++
    "scroll-behavior scroll-margin scroll-padding scroll-snap-align scroll-snap-type src " ++
    "tab-size table-layout text-align text-decoration text-decoration-color " ++
    "text-decoration-line text-indent text-overflow text-shadow text-transform top " ++
    "touch-action transform transform-origin transition transition-delay " ++
    "transition-duration transition-property transition-timing-function translate " ++
    "unicode-bidi unicode-range user-select vertical-align visibility white-space widows " ++
    "width will-change word-break word-spacing word-wrap writing-mode z-index zoom"

/-- Names of at-rules, those of Scss and Less included. -/
def atRules : String :=
    "charset color-profile container counter-style document font-face font-feature-values " ++
    "font-palette-values import keyframes layer media namespace page property scope " ++
    "starting-style supports viewport -moz-document -webkit-keyframes at-root content debug " ++
    "each else error extend for forward function if include mixin return use warn while " ++
    "plugin"

/-- Pseudo-classes; a parenthesis marks those that take arguments. -/
def pseudoClasses : String :=
    "active any-link autofill blank checked current( default defined dir( disabled empty " ++
    "enabled first first-child first-of-type focus focus-visible focus-within fullscreen " ++
    "future has( host( host-context( hover in-range indeterminate invalid is( lang( " ++
    "last-child last-of-type left link local-link modal not( nth-child( nth-last-child( " ++
    "nth-last-of-type( nth-of-type( only-child only-of-type optional out-of-range past " ++
    "paused picture-in-picture placeholder-shown playing read-only read-write required " ++
    "right root scope state( target target-within user-invalid user-valid valid visited " ++
    "where("

/-- Pseudo-elements; a parenthesis marks those that take arguments. -/
def pseudoElements : String :=
    "after backdrop before cue cue( cue-region file-selector-button first-letter first-line " ++
    "grammar-error highlight( marker part( placeholder selection slotted( spelling-error " ++
    "target-text view-transition view-transition-group( view-transition-image-pair( " ++
    "view-transition-new( view-transition-old("

def mathFunctions : String :=
    "abs( acos( asin( atan( atan2( calc( clamp( cos( exp( hypot( log( max( min( mod( pow( " ++
    "rem( round( sign( sin( sqrt( tan( -moz-calc( -webkit-calc("

end Builtin

/-- The built-in lists: current CSS and the at-rules of Scss and Less. -/
def builtin : KeywordSet where
  property := .ofWords (Text.words Builtin.properties)
  atRule := .ofWords (Text.words Builtin.atRules)
  pseudoClass := .ofWords (Text.words Builtin.pseudoClasses)
  pseudoElement := .ofWords (Text.words Builtin.pseudoElements)
  mathFunction := .ofWords (Text.words Builtin.mathFunctions)

end KeywordSet

end CssHighlight

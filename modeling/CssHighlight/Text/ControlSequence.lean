/-!
# Control sequences of terminals

A control sequence is an escape character and a bracket, parameters, and a letter; a terminal takes
it as an order to change colours or to move. Text that comes from outside is printed without such
sequences. What is left when one is taken out is not looked at again.
-/
namespace CssHighlight.Text

/-- Characters between the bracket and the letter of a control sequence. -/
def isParameter (c : Char) : Bool :=
  c.isDigit || c == ';' || c == '?'

/-- The text behind the control sequence that starts here, if one does. -/
def behindSequence? : List Char → Option (List Char)
  | '\x1b' :: '[' :: rest =>
    match rest.dropWhile isParameter with
    | letter :: behind => if letter.isAlpha then some behind else none
    | [] => none
  | _ => none

theorem length_behindSequence?_lt {s behind : List Char} (found : behindSequence? s = some behind) :
    behind.length < s.length := by
  unfold behindSequence? at found
  split at found
  next rest =>
    have shorter := (List.dropWhile_suffix isParameter (l := rest)).length_le
    split at found
    next letter tail dropped =>
      rw [dropped] at shorter
      split at found
      · cases found
        simp only [List.length_cons] at shorter ⊢
        omega
      · cases found
    · cases found
  · cases found

def withoutSequences : List Char → List Char
  | [] => []
  | c :: rest =>
    match found : behindSequence? (c :: rest) with
    | some behind => withoutSequences behind
    | none => c :: withoutSequences rest
termination_by s => s.length
decreasing_by
  · exact length_behindSequence?_lt found
  · simp

def plain (s : String) : String :=
  String.ofList (withoutSequences s.toList)

end CssHighlight.Text

import TypedClient.Text.Blank
/-!
# Comment — documentation blocks

A text becomes a block from `/**` to the closing mark, one line of the block for each line of the text.  A closing mark
inside the text is broken by a backslash, so that the text cannot end the block.
-/
namespace TypedClient
namespace Emit

/-- The characters with every closing mark broken. -/
def breakMarks : List Char → List Char
  | '*' :: '/' :: rest => '*' :: '\\' :: '/' :: breakMarks rest
  | c :: rest => c :: breakMarks rest
  | [] => []

/-- The lines of the text that stand in the block; at least one. -/
def commentLines (text : String) : List (List Char) :=
  match Text.lines (Text.dropEnds Text.isBlank (breakMarks text.toList)) with
  | [] => [[]]
  | lines => lines

/-- One line of the block, without white space at its end. -/
def commentLine (margin line : List Char) : List Char :=
  Text.dropTail Text.isBlank (margin ++ ' ' :: '*' :: ' ' :: line)

/-- **The documentation block of a text**, indented by `indent` blanks. -/
def comment (text : String) (indent : Nat) : String :=
  let margin := List.replicate indent ' '
  let body := (commentLines text).map fun line => String.ofList (commentLine margin line)
  let edge := String.ofList margin
  edge ++ "/**\n" ++ "\n".intercalate body ++ "\n" ++ edge ++ " */"

end Emit
end TypedClient

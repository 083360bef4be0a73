/-
Texts in quotes are told apart.

`readChar` takes one character off a quoted text, be it written as it is or by an escape.  It gives
back the character that was written, and no character is written with a quote in front, so a quoted
text ends where its closing quote stands.  From there on a list of quoted texts is read off its
first member, and lists that are written alike are alike.
-/
import TensorText.Proofs.Json.Writer
import TensorText.Text.Quoted

namespace TensorText.Text

/-! ### Code points -/

/-- What stands behind a member of a list, if these are the members to come. -/
def behind : List String → List Char
  | [] => [']']
  | s :: ss => ',' :: ' ' :: ((quoted s).toList ++ behind ss)

end TensorText.Text

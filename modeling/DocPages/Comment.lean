/-
Documentation comments without their decoration.

A comment reaches us with the marks that made it a comment: three slashes before
each line, or an opening and a closing mark around a block whose lines may have a
gutter of stars.  `Comment.normalize` takes the marks and the blank lines away and
leaves the markup.
-/
import DocPages.Text.Cut

namespace DocPages
namespace Comment

open Text

/-- The mark of a line comment, where there is one. -/
def dropSlashes (line : List Char) : List Char :=
  (stripStart? "///".toList line).getD line

/-- A line inside a block: its closing mark, at most one star of gutter unless the
line opened the block, and slashes that repeat the other style.  Also tells whether
the block stays open. -/
def bareBlockLine (opened : Bool) (line : List Char) : List Char × Bool :=
  let (body, still) :=
    match stripEnd? "*/".toList line with
    | some body => (body, false)
    | none => (line, true)
  let body := if opened then body else (stripStart? ['*'] body).getD body
  (trim (dropSlashes (trimStart body)), still)

/-- One line without decoration, and whether a block is open after it. -/
def bareLine (inBlock : Bool) (line : List Char) : List Char × Bool :=
  let line := trim line
  match stripStart? "/**".toList line with
  | some body => bareBlockLine true body
  | none => if inBlock then bareBlockLine false line else (trim (dropSlashes line), false)

def bareLines (inBlock : Bool) : List (List Char) → List (List Char)
  | [] => []
  | line :: rest =>
    let (bare, still) := bareLine inBlock line
    bare :: bareLines still rest

/-- The lines of a comment that hold more than decoration and blanks. -/
def contentLines (raw : List Char) : List (List Char) :=
  (bareLines false (lines raw)).filter (! ·.isEmpty)

/-- The markup of a raw comment.  It is empty for a comment of decoration only,
which counts as no documentation. -/
def normalize (raw : String) : String :=
  String.ofList (List.intercalate ['\n'] (contentLines raw.toList))

end Comment
end DocPages

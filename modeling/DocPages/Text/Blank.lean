/-
Blank characters and trimming.
-/
import DocPages.Text.Runs

namespace DocPages
namespace Text

/-- The characters with the White_Space property. -/
def blankRuns : List Run :=
  [(0x9, 0xd, 1), (0x20, 0x20, 1), (0x85, 0x85, 1), (0xa0, 0xa0, 1), (0x1680, 0x1680, 1),
   (0x2000, 0x200a, 1), (0x2028, 0x2029, 1), (0x202f, 0x202f, 1), (0x205f, 0x205f, 1),
   (0x3000, 0x3000, 1)]

def isBlank (c : Char) : Bool := covers blankRuns c.toNat

/-- Only blanks, or nothing at all. -/
def allBlank (s : List Char) : Bool := s.all isBlank

def trimStart (s : List Char) : List Char := s.dropWhile isBlank

def trimEnd (s : List Char) : List Char := (s.reverse.dropWhile isBlank).reverse

def trim (s : List Char) : List Char := trimEnd (trimStart s)

end Text
end DocPages

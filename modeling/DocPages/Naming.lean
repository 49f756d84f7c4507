/-
Names for pages and link targets.

A declared name is cut into words where a reader would hear a new word start, and
the words are joined by hyphens.  Joining and cutting again gives the same words.
-/
import DocPages.Text.Case
import DocPages.Text.Cut
import DocPages.Text.Letter

namespace DocPages
namespace Naming

open Text

/-- Does a new word start at `c`, right after `prev`?  At a capital after a small
letter, between letters and ASCII digits, and at the last capital of an acronym
when a small letter follows it. -/
def startsWord (prev c : Char) (next : Option Char) : Bool :=
  (isLower prev && isUpper c)
    || (isAlphabetic prev && c.isDigit)
    || (prev.isDigit && isAlphabetic c)
    || (isUpper prev && isUpper c && next.any isLower)

/-- A finished word, held nearest character first. -/
def finish (word : List Char) : List (List Char) :=
  if word.isEmpty then [] else [word.reverse]

/-- The words of the text, where `word` is what has been read of the current one,
nearest character first.  Characters that are neither letters nor digits only
separate. -/
def wordsFrom (word : List Char) : List Char → List (List Char)
  | [] => finish word
  | c :: rest =>
    if !isAlphanumeric c then finish word ++ wordsFrom [] rest
    else
      match word with
      | [] => wordsFrom [c] rest
      | prev :: _ =>
        if startsWord prev c rest.head? then finish word ++ wordsFrom [c] rest
        else wordsFrom (c :: word) rest

def words (name : String) : List String := (wordsFrom [] name.toList).map String.ofList

/-- The words of a name joined by hyphens, or the name itself if it has none. -/
def hyphenated (name : List Char) : List Char :=
  let parts := wordsFrom [] name
  if parts.isEmpty then name else List.intercalate ['-'] parts

/-- The file name of a page, without its extension. -/
def pageName (name : String) : String := String.ofList (hyphenated name.toList)

/-- The link target of a name. -/
def anchor (name : String) : String := String.ofList (lower (hyphenated name.toList))

/-- Takes away each backtick that is followed by digits, with the digits: they
count type parameters. -/
def dropArity : List Char → List Char
  | [] => []
  | c :: rest =>
    if c == '`' && rest.head?.any isDecimal then dropArity (rest.dropWhile isDecimal)
    else c :: dropArity rest
termination_by s => s.length
decreasing_by
  · have := (List.dropWhile_suffix isDecimal (l := rest)).length_le
    simp
    omega
  · simp

/-- A cross reference as a reader should see it: without the letter that tells its
sort, without arity marks, and with angle brackets. -/
def crossRef (ref : String) : String :=
  let ref := ref.toList
  let name := ((breakOn [':'] ref).map Prod.snd).getD ref
  String.ofList ((dropArity name).map fun c =>
    if c == '\x7b' then '<' else if c == '\x7d' then '>' else c)

/-- The word with its first character as a capital. -/
def capitalize (word : String) : String :=
  match word.toList with
  | [] => ""
  | c :: rest => String.ofList (upperChar c ++ rest)

end Naming
end DocPages

/-
The grammar of comments.

A comment is cut into pieces from the left, and each piece stands for text or for a tag.
The pieces are put together by a grammar of forests, in which tags nest.  Both are given
by rules, which say what a comment means and nothing about how it is read.
-/
import DocPages.Proofs.Markup.RoundTrip

namespace DocPages
namespace Markup

open Text

/-! ## References -/

/-- `s` starts with the name of `c` and a semicolon, and `rest` follows them. -/
def Refers (s : List Char) (c : Char) (rest : List Char) : Prop :=
  ∃ name, Names name c ∧ s = name.toList ++ ';' :: rest

/-- What text stands for, with its references. -/
inductive Decodes : List Char → List Char → Prop where
  | nil : Decodes [] []
  | reference {s rest t : List Char} {c : Char} (href : Refers s c rest) (h : Decodes rest t) :
      Decodes ('&' :: s) (c :: t)
  | ampersand {s t : List Char} (hnone : ∀ c rest, ¬ Refers s c rest) (h : Decodes s t) :
      Decodes ('&' :: s) ('&' :: t)
  | plain {s t : List Char} {c : Char} (hc : c ≠ '&') (h : Decodes s t) :
      Decodes (c :: s) (c :: t)

/-! ## Tags -/

def isQuote (c : Char) : Bool := c == '"' || c == '\''

/-- Characters of a value without quotes. -/
def isBare (c : Char) : Bool := !isBlank c && c != '>'

def Blanks (s : List Char) : Prop := ∀ c ∈ s, isBlank c = true

/-- A value and what follows it.  A quoted value goes to the next quote of its kind. -/
inductive Valued : List Char → String → List Char → Prop where
  | quoted {q : Char} {s raw rest value : List Char} (hq : isQuote q = true)
      (hcut : FirstAt [q] s raw rest) (hvalue : Decodes raw value) :
      Valued (q :: s) (String.ofList value) rest
  | bare {raw rest value : List Char} (hstart : Stops isQuote (raw ++ rest))
      (hraw : ∀ c ∈ raw, isBare c = true) (hrest : Stops isBare rest)
      (hvalue : Decodes raw value) : Valued (raw ++ rest) (String.ofList value) rest

/-- What follows the key of an attribute: an equals sign and a value, or neither. -/
inductive Assigned : List Char → String → List Char → Prop where
  | value {before after s rest : List Char} {value : String} (hbefore : Blanks before)
      (hafter : Blanks after) (hs : Stops isBlank s) (h : Valued s value rest) :
      Assigned (before ++ '=' :: (after ++ s)) value rest
  | missing {before rest : List Char} (hbefore : Blanks before) (hrest : Stops isBlank rest)
      (hnone : Stops (· == '=') rest) : Assigned (before ++ rest) "" rest

/-- What follows the name of a tag to its end: its attributes, and whether it closes
itself.  Blanks, and slashes and equals signs that are none of an attribute, are passed
over. -/
inductive Inside : List Char → Attributes → Bool → List Char → Prop where
  | close {rest : List Char} : Inside ('>' :: rest) [] false rest
  | closeItself {rest : List Char} : Inside ('/' :: '>' :: rest) [] true rest
  | blank {c : Char} {s rest : List Char} {attributes : Attributes} {alone : Bool}
      (hc : isBlank c = true) (h : Inside s attributes alone rest) :
      Inside (c :: s) attributes alone rest
  | slash {s rest : List Char} {attributes : Attributes} {alone : Bool}
      (hs : Stops (· == '>') s) (h : Inside s attributes alone rest) :
      Inside ('/' :: s) attributes alone rest
  | equals {s rest : List Char} {attributes : Attributes} {alone : Bool}
      (h : Inside s attributes alone rest) : Inside ('=' :: s) attributes alone rest
  | keyed {key value : String} {s more rest : List Char} {attributes : Attributes}
      {alone : Bool} (hkey : IsKey key) (hs : Stops isKeyChar s) (hvalue : Assigned s value more)
      (h : Inside more attributes alone rest) :
      Inside (key.toList ++ s) ((key, value) :: attributes) alone rest

/-! ## Pieces -/

/-- What a piece stands for.  A comment within markup stands for no text. -/
inductive Sign where
  | text (content : List Char)
  | opening (name : String) (attributes : Attributes)
  | selfClosing (name : String) (attributes : Attributes)
  | closing (name : String)
  | incomplete

/-- What follows a `<` that starts a tag, a comment or a section of text. -/
def StartsTag (s : List Char) : Prop :=
  "!--".toList <+: s ∨ "![CDATA[".toList <+: s ∨ "/".toList <+: s ∨
    ∃ c, s.head? = some c ∧ isNameStart c = true

/-- The first piece of a comment, what it stands for and what follows it. -/
inductive Reads : List Char → Sign → List Char → Prop where
  /-- The mark that ends it may share hyphens with the one that starts it. -/
  | comment {body before rest : List Char}
      (h : FirstAt "-->".toList ('<' :: ("!--".toList ++ body)) before rest) :
      Reads ('<' :: ("!--".toList ++ body)) (.text []) rest
  | verbatim {body content rest : List Char} (h : FirstAt "]]>".toList body content rest) :
      Reads ('<' :: ("![CDATA[".toList ++ body)) (.text content) rest
  | closing {body name rest : List Char} (h : FirstAt ">".toList body name rest) :
      Reads ('<' :: ("/".toList ++ body)) (.closing (String.ofList (trim name))) rest
  | opening {name : String} {s rest : List Char} {attributes : Attributes} (hname : IsName name)
      (hs : Stops isNameChar s) (h : Inside s attributes false rest) :
      Reads ('<' :: (name.toList ++ s)) (.opening name attributes) rest
  | selfClosing {name : String} {s rest : List Char} {attributes : Attributes}
      (hname : IsName name) (hs : Stops isNameChar s) (h : Inside s attributes true rest) :
      Reads ('<' :: (name.toList ++ s)) (.selfClosing name attributes) rest
  | angle {s : List Char} (h : ¬ StartsTag s) : Reads ('<' :: s) (.text ['<']) s
  | reference {s rest : List Char} {c : Char} (h : Refers s c rest) :
      Reads ('&' :: s) (.text [c]) rest
  | ampersand {s : List Char} (h : ∀ c rest, ¬ Refers s c rest) : Reads ('&' :: s) (.text ['&']) s
  | plain {c : Char} {s : List Char} (h : isPlain c = true) : Reads (c :: s) (.text [c]) s

/-- A tag starts here and does not end. -/
def Incomplete (s : List Char) : Prop :=
  (∃ body, s = '<' :: body ∧ StartsTag body) ∧ ∀ sign rest, ¬ Reads s sign rest

/-- A part of a comment as it is written, and what it stands for. -/
structure Piece where
  written : List Char
  sign : Sign

/-- A comment cut into its pieces.  A tag that does not end takes all that is left. -/
inductive Cut : List Char → List Piece → Prop where
  | nil : Cut [] []
  | piece {written rest : List Char} {sign : Sign} {pieces : List Piece}
      (h : Reads (written ++ rest) sign rest) (hrest : Cut rest pieces) :
      Cut (written ++ rest) (⟨written, sign⟩ :: pieces)
  | incomplete {s : List Char} (h : Incomplete s) : Cut s [⟨s, .incomplete⟩]

/-! ## Forests -/

/-- A forest is a sequence of texts and elements, and an element is a tag that closes
itself or a forest between an opening and a closing tag of one name. -/
inductive Derives : List Sign → List Node → Prop where
  | nil : Derives [] []
  | text {signs : List Sign} {nodes : List Node} (h : Derives signs nodes) (content : List Char) :
      Derives (signs ++ [.text content]) (addText nodes content)
  | selfClosing {signs : List Sign} {nodes : List Node} (h : Derives signs nodes) (name : String)
      (attributes : Attributes) :
      Derives (signs ++ [.selfClosing name attributes]) (nodes ++ [.element name attributes []])
  | element {signs inner : List Sign} {nodes children : List Node} (h : Derives signs nodes)
      (name : String) (attributes : Attributes) (hinner : Derives inner children) :
      Derives (signs ++ .opening name attributes :: (inner ++ [.closing name]))
        (nodes ++ [.element name attributes children])

/-- The tags that these signs leave open, the innermost first, when all others nest. -/
inductive LeavesOpen : List Sign → List String → Prop where
  | flat {signs : List Sign} {nodes : List Node} (h : Derives signs nodes) : LeavesOpen signs []
  | inside {outer signs : List Sign} {names : List String} {nodes : List Node}
      (houter : LeavesOpen outer names) (name : String) (attributes : Attributes)
      (h : Derives signs nodes) :
      LeavesOpen (outer ++ .opening name attributes :: signs) (name :: names)

/-- The fault of a tag that starts at a byte when these tags are open. -/
inductive FaultAt (offset : Nat) : List String → Sign → Fault → Prop where
  | malformed {names : List String} : FaultAt offset names .incomplete (.malformedTag offset)
  | unopened {name : String} : FaultAt offset [] (.closing name) (.unopenedClose name)
  | mismatched {expected found : String} {names : List String} (h : expected ≠ found) :
      FaultAt offset (expected :: names) (.closing found)
        (.mismatchedClose expected found offset)

/-- What pieces come to: the forest that they derive if there is one, else the fault of the
first tag that is not read or not nested, and else the innermost tag that is left open. -/
inductive Outcome (pieces : List Piece) : Except Fault (List Node) → Prop where
  | forest {nodes : List Node} (hcomplete : ∀ piece ∈ pieces, piece.sign ≠ .incomplete)
      (h : Derives (pieces.map Piece.sign) nodes) : Outcome pieces (.ok nodes)
  | fault {before after : List Piece} {piece : Piece} {names : List String} {fault : Fault}
      (hpieces : pieces = before ++ piece :: after)
      (hbefore : LeavesOpen (before.map Piece.sign) names)
      (h : FaultAt (byteLength (before.flatMap Piece.written)) names piece.sign fault) :
      Outcome pieces (.error fault)
  | unclosed {name : String} {names : List String}
      (h : LeavesOpen (pieces.map Piece.sign) (name :: names)) :
      Outcome pieces (.error (.unclosed name))

end Markup
end DocPages

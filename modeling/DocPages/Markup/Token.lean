/-
The tags and the text of a comment.

Reading is forgiving: a `<` that starts no tag and an ampersand that starts no
reference are text, attribute values may lack quotes or be missing, and stray marks
inside a tag are passed over.  A tag that does not end is a `malformed` token, and
nothing is read beyond it.
-/
import DocPages.Markup.Basic
import DocPages.Markup.Entity
import DocPages.Text.Letter

namespace DocPages
namespace Markup

open Text

inductive Token where
  | text (content : List Char)
  | opening (name : String) (attributes : Attributes)
  | selfClosing (name : String) (attributes : Attributes)
  | closing (name : String) (offset : Nat)
  | malformed (offset : Nat)
deriving Repr

def isNameStart (c : Char) : Bool := isAlphabetic c || c == '_'

def isNameChar (c : Char) : Bool := isAlphanumeric c || "_-.:".toList.contains c

/-- Characters of an attribute name. -/
def isKeyChar (c : Char) : Bool := !isBlank c && c != '=' && c != '>' && c != '/'

/-- An attribute value and what follows it; none if its quote is not closed. -/
def readValue (s : List Char) : Option (String × List Char) :=
  let quoted (q : Char) (body : List Char) : Option (String × List Char) :=
    (breakOn [q] body).map fun (raw, rest) => (String.ofList (decode raw), rest)
  let bare (c : Char) : Bool := !isBlank c && c != '>'
  match s with
  | '"' :: body => quoted '"' body
  | '\'' :: body => quoted '\'' body
  | _ => some (String.ofList (decode (s.takeWhile bare)), s.dropWhile bare)

/-- The optional value after an attribute name, empty if there is none. -/
def readAssigned (s : List Char) : Option (String × List Char) :=
  match trimStart s with
  | '=' :: rest => readValue (trimStart rest)
  | rest => some ("", rest)

theorem trimStart_length (s : List Char) : (trimStart s).length ≤ s.length :=
  (List.dropWhile_suffix isBlank).length_le

theorem readValue_length {s rest : List Char} {v : String} (h : readValue s = some (v, rest)) :
    rest.length ≤ s.length := by
  unfold readValue at h
  simp only at h
  split at h
  · simp only [Option.map_eq_some_iff, Prod.mk.injEq, Prod.exists] at h
    obtain ⟨a, b, hab, _, rfl⟩ := h
    simp [breakOn_eq hab]
    omega
  · simp only [Option.map_eq_some_iff, Prod.mk.injEq, Prod.exists] at h
    obtain ⟨a, b, hab, _, rfl⟩ := h
    simp [breakOn_eq hab]
    omega
  · simp only [Option.some.injEq, Prod.mk.injEq] at h
    obtain ⟨_, rfl⟩ := h
    exact (List.dropWhile_suffix _).length_le

theorem readAssigned_length {s rest : List Char} {v : String}
    (h : readAssigned s = some (v, rest)) : rest.length ≤ s.length := by
  have hs := trimStart_length s
  unfold readAssigned at h
  split at h
  · rename_i r hr
    have := readValue_length h
    have := trimStart_length r
    rw [hr] at hs
    simp at hs
    omega
  · simp only [Option.some.injEq, Prod.mk.injEq] at h
    obtain ⟨_, rfl⟩ := h
    exact hs

/-- The attributes of a tag whose name has been passed, whether the tag closes
itself, and what follows it; none if the tag does not end. -/
def readAttributes (s : List Char) : Option (Attributes × Bool × List Char) :=
  match h : trimStart s with
  | [] => none
  | '/' :: '>' :: rest => some ([], true, rest)
  | '>' :: rest => some ([], false, rest)
  | '<' :: _ => none
  | c :: rest =>
    have hs : rest.length < s.length := by
      have := trimStart_length s
      rw [h] at this
      simp at this
      omega
    if isKeyChar c then
      let key := c :: rest.takeWhile isKeyChar
      match ha : readAssigned (rest.dropWhile isKeyChar) with
      | none => none
      | some (value, after) =>
        have : after.length < s.length := by
          have := readAssigned_length ha
          have := (List.dropWhile_suffix isKeyChar (l := rest)).length_le
          omega
        (readAttributes after).map fun (more, selfClosing, rest) =>
          ((String.ofList key, value) :: more, selfClosing, rest)
    else readAttributes rest
termination_by s.length

/-- The tag at the front of `s`, of which the `<` at byte `offset` has been passed,
and what follows it.  A comment gives no text. -/
def readTag (offset : Nat) (s : List Char) : Token × List Char :=
  let orMalformed (r : Option (Token × List Char)) := r.getD (.malformed offset, [])
  match s with
  | '!' :: '-' :: '-' :: body =>
    -- The hyphens of the opening mark may belong to the closing mark.
    orMalformed ((breakOn "-->".toList ('-' :: '-' :: body)).map fun cut => (.text [], cut.2))
  | '/' :: body =>
    orMalformed ((breakOn ['>'] body).map fun cut =>
      (.closing (String.ofList (trim cut.1)) offset, cut.2))
  | _ =>
    match stripStart? "![CDATA[".toList s with
    | some body =>
      orMalformed ((breakOn "]]>".toList body).map fun cut => (.text cut.1, cut.2))
    | none =>
      if s.head?.any isNameStart then
        let name := String.ofList (s.takeWhile isNameChar)
        orMalformed ((readAttributes (s.dropWhile isNameChar)).map fun tag =>
          (if tag.2.1 then .selfClosing name tag.1 else .opening name tag.1, tag.2.2))
      else (.text ['<'], s)

theorem readAttributes_length {s rest : List Char} {a : Attributes} {b : Bool}
    (h : readAttributes s = some (a, b, rest)) : rest.length ≤ s.length := by
  fun_induction readAttributes s generalizing a b rest with
  | case1 => cases h
  | case2 s r hr =>
    have := trimStart_length s
    rw [hr] at this
    simp only [Option.some.injEq, Prod.mk.injEq] at h
    obtain ⟨_, _, rfl⟩ := h
    simp at this
    omega
  | case3 s r hr =>
    have := trimStart_length s
    rw [hr] at this
    simp only [Option.some.injEq, Prod.mk.injEq] at h
    obtain ⟨_, _, rfl⟩ := h
    simp at this
    omega
  | case4 => cases h
  | case5 => cases h
  | case6 =>
    rename_i ih
    simp only [Option.map_eq_some_iff, Prod.mk.injEq, Prod.exists] at h
    obtain ⟨_, _, r', hr, _, _, rfl⟩ := h
    have := ih hr
    omega
  | case7 =>
    rename_i ih
    have := ih h
    omega

theorem readTag_length (offset : Nat) (s : List Char) : (readTag offset s).2.length ≤ s.length := by
  have key : ∀ {α : Type} (r : Option α) (f : α → Token × List Char),
      (∀ a, r = some a → (f a).2.length ≤ s.length) →
        ((r.map f).getD (.malformed offset, [])).2.length ≤ s.length := by
    intro α r f hr
    cases r with
    | none => simp
    | some a => exact hr a rfl
  unfold readTag
  simp only
  split
  · refine key _ _ fun cut h => ?_
    have := congrArg List.length (breakOn_eq h)
    simp at this ⊢
    omega
  · refine key _ _ fun cut h => ?_
    simp [breakOn_eq h]
    omega
  · split
    · rename_i body hb
      refine key _ _ fun cut h => ?_
      simp [stripStart?_eq_some.1 hb, breakOn_eq h]
      omega
    · split
      · refine key _ _ fun ⟨attributes, alone, rest⟩ h => ?_
        have := readAttributes_length h
        have := (List.dropWhile_suffix isNameChar (l := s)).length_le
        simp only
        omega
      · simp

/-- Characters that are text whatever stands around them. -/
def isPlain (c : Char) : Bool := c != '<' && c != '&'

/-- The tokens of `s`, which starts at byte `offset`. -/
def tokensFrom (offset : Nat) (s : List Char) : List Token :=
  match s with
  | [] => []
  | c :: rest =>
    if c = '<' then
      match h : readTag offset rest with
      | (.malformed at_, _) => [.malformed at_]
      | (token, after) =>
        have : after.length < rest.length + 1 := by
          have := readTag_length offset rest
          rw [h] at this
          simp at this
          omega
        token :: tokensFrom (offset + 1 + byteLength rest - byteLength after) after
    else if c = '&' then
      match h : reference? rest with
      | some (d, after) =>
        have := reference?_length h
        .text [d] :: tokensFrom (offset + 1 + byteLength rest - byteLength after) after
      | none => .text ['&'] :: tokensFrom (offset + 1) rest
    else
      have := (List.dropWhile_suffix isPlain (l := rest)).length_le
      let run := c :: rest.takeWhile isPlain
      .text run :: tokensFrom (offset + byteLength run) (rest.dropWhile isPlain)
termination_by s.length

def tokens (s : List Char) : List Token := tokensFrom 0 s

end Markup
end DocPages

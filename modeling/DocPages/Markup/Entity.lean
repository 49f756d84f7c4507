/-
Entity references.

A reference is an ampersand, a name of at most eight bytes and a semicolon.  An
ampersand that starts no known reference stands for itself.
-/
import DocPages.Text.Cut
import DocPages.Text.Digit

namespace DocPages
namespace Markup

open Text

/-- The character that a reference names. -/
def entityChar? (name : List Char) : Option Char :=
  if name = "lt".toList then some '<'
  else if name = "gt".toList then some '>'
  else if name = "amp".toList then some '&'
  else if name = "quot".toList then some '"'
  else if name = "apos".toList then some '\''
  else
    match name with
    | '#' :: 'x' :: digits => (numeral? 16 hexDigit? digits).bind charOfCode?
    | '#' :: 'X' :: digits => (numeral? 16 hexDigit? digits).bind charOfCode?
    | '#' :: digits => (numeral? 10 decimalDigit? digits).bind charOfCode?
    | _ => none

/-- Reads a reference of which the ampersand has been passed: its character and
what follows its semicolon. -/
def reference? (s : List Char) : Option (Char × List Char) :=
  match s.dropWhile (· ≠ ';') with
  | [] => none
  | _ :: rest =>
    let name := s.takeWhile (· ≠ ';')
    if byteLength name ≤ 8 then (entityChar? name).map (·, rest) else none

theorem reference?_length {s rest : List Char} {c : Char} (h : reference? s = some (c, rest)) :
    rest.length < s.length := by
  have hs := (List.dropWhile_suffix (fun c => decide (c ≠ ';')) (l := s)).length_le
  unfold reference? at h
  split at h
  · cases h
  · rename_i d r hd
    simp only at h
    split at h
    · simp only [Option.map_eq_some_iff, Prod.mk.injEq] at h
      obtain ⟨_, _, _, rfl⟩ := h
      rw [hd] at hs
      simp at hs
      omega
    · cases h

/-- The text with every reference replaced by its character. -/
def decode (s : List Char) : List Char :=
  match s with
  | [] => []
  | c :: rest =>
    if c = '&' then
      match h : reference? rest with
      | some (d, after) =>
        have := reference?_length h
        d :: decode after
      | none => c :: decode rest
    else c :: decode rest
termination_by s.length

end Markup
end DocPages

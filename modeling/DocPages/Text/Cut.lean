/-
Cutting text at characters and at substrings.
-/
import DocPages.Text.Blank

namespace DocPages
namespace Text

/-- What follows `mark` in a text that starts with it. -/
def stripStart? : List Char → List Char → Option (List Char)
  | [], s => some s
  | _ :: _, [] => none
  | m :: mark, c :: s => if m = c then stripStart? mark s else none

theorem stripStart?_eq_some {mark s rest : List Char} :
    stripStart? mark s = some rest ↔ s = mark ++ rest := by
  induction mark generalizing s with
  | nil => simp [stripStart?]
  | cons m mark ih =>
    cases s with
    | nil => simp [stripStart?]
    | cons c s =>
      simp only [stripStart?, List.cons_append, List.cons.injEq]
      split
      · rename_i h
        simp [ih, h]
      · rename_i h
        simp [show ¬ c = m from fun e => h e.symm]

/-- What precedes `mark` in a text that ends with it. -/
def stripEnd? (mark s : List Char) : Option (List Char) :=
  (stripStart? mark.reverse s.reverse).map List.reverse

def startsWith (mark s : List Char) : Bool := (stripStart? mark s).isSome

def endsWith (mark s : List Char) : Bool := (stripEnd? mark s).isSome

/-- The pieces between the separators, one more than there are separators. -/
def splitAt (p : Char → Bool) : List Char → List (List Char)
  | [] => [[]]
  | c :: rest =>
    if p c then [] :: splitAt p rest
    else
      match splitAt p rest with
      | [] => [[c]]
      | piece :: pieces => (c :: piece) :: pieces

/-- The lines of a text.  A newline ends a line, so no line follows the last
newline. -/
def lines (s : List Char) : List (List Char) :=
  let pieces := splitAt (· == '\n') s
  if pieces.getLast? == some [] then pieces.dropLast else pieces

/-- What stands before and after the first occurrence of `mark`. -/
def breakOn (mark : List Char) : List Char → Option (List Char × List Char)
  | [] => if mark.isEmpty then some ([], []) else none
  | c :: rest =>
    match stripStart? mark (c :: rest) with
    | some after => some ([], after)
    | none => (breakOn mark rest).map fun cut => (c :: cut.1, cut.2)

theorem breakOn_eq {mark s before after : List Char}
    (h : breakOn mark s = some (before, after)) : s = before ++ mark ++ after := by
  induction s generalizing before after with
  | nil =>
    simp only [breakOn] at h
    split at h
    · cases h
      simp_all
    · cases h
  | cons c rest ih =>
    rw [breakOn] at h
    split at h
    · rename_i t ht
      cases h
      simpa using stripStart?_eq_some.1 ht
    · simp only [Option.map_eq_some_iff, Prod.mk.injEq, Prod.exists] at h
      obtain ⟨b, a, hb, rfl, rfl⟩ := h
      simp [ih hb]

/-- Does `mark` occur anywhere? -/
def occurs (mark s : List Char) : Bool := (breakOn mark s).isSome

/-- Every occurrence of `first :: more`, from the left and without overlap,
replaced by `new`.  The mark is given as a first character and the rest of it,
since an empty mark has no meaning here and would not shorten the text. -/
def replaceAll (first : Char) (more new s : List Char) : List Char :=
  match s with
  | [] => []
  | c :: rest =>
    if c = first then
      match h : stripStart? more rest with
      | some after =>
        have : after.length < rest.length + 1 := by
          simp only [stripStart?_eq_some.1 h, List.length_append]
          omega
        new ++ replaceAll first more new after
      | none => c :: replaceAll first more new rest
    else c :: replaceAll first more new rest
termination_by s.length

/-- The maximal stretches without blanks. -/
def words (s : List Char) : List (List Char) :=
  (splitAt isBlank s).filter (! ·.isEmpty)

/-- Length of a text in UTF-8 bytes. -/
def byteLength (s : List Char) : Nat := s.foldr (fun c n => c.utf8Size + n) 0

end Text
end DocPages

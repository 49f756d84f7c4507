/-
The two styles of documentation comments.

The same lines can be written behind three slashes each, or behind a star each in a block.  Either
way they come out of their decoration as they are, without the blanks at their ends and without
blank lines (`normalize_slashed`, `normalize_block`).
-/
import DocPages.Comment
import DocPages.Proofs.Text.Cutting
import DocPages.Proofs.Text.Pieces

namespace DocPages
namespace Comment

open Text

/-! ## Lines in either style -/

/-- A line of a comment: its indentation and what it says. -/
structure Row where
  indent : List Char
  content : List Char

/-- The line says nothing that could be taken for decoration. -/
structure Row.Ok (row : Row) : Prop where
  indentBlank : allBlank row.indent = true
  indentOneLine : '\n' ∉ row.indent
  oneLine : '\n' ∉ row.content
  unclosed : ¬"*/".toList <:+: row.content
  noSlash : Stops (· == '/') row.content
  noMark : ¬"///".toList <+: trim row.content

def Row.slashed (row : Row) : List Char := row.indent ++ ("///".toList ++ row.content)

def Row.starred (row : Row) : List Char := row.indent ++ '*' :: row.content

/-- The line at the start of its own. -/
def Row.flush (row : Row) : Row := { row with indent := [] }

theorem Row.Ok.flush {row : Row} (h : row.Ok) : row.flush.Ok :=
  { h with indentBlank := rfl, indentOneLine := List.not_mem_nil }

/-- Lines behind three slashes each. -/
def slashed (rows : List Row) : List Char := List.intercalate ['\n'] (rows.map Row.slashed)

/-- Lines behind a star each, between a line that opens the block and one that closes it. -/
def block (first gap last : List Char) (rows : List Row) : List Char :=
  List.intercalate ['\n']
    ((first ++ ("/**".toList ++ gap)) :: (rows.map Row.starred ++ [last ++ "*/".toList]))

/-- What the lines say. -/
def saying (rows : List Row) : String :=
  String.ofList (List.intercalate ['\n']
    ((rows.map fun row => trim row.content).filter (! ·.isEmpty)))

/-! ## One line -/

theorem trim_slashed {row : Row} (h : row.Ok) :
    trim row.slashed = "///".toList ++ trimEnd row.content := by
  have hslash : isBlank '/' = false := by decide
  rw [Row.slashed]
  show trim (row.indent ++ '/' :: (['/'] ++ '/' :: row.content)) = _
  rw [trim_indented h.indentBlank hslash, trimEnd_append_cons hslash]
  rfl

theorem trim_starred {row : Row} (h : row.Ok) : trim row.starred = '*' :: trimEnd row.content :=
  trim_indented h.indentBlank (by decide) row.content

theorem bareLine_slashed {row : Row} (h : row.Ok) :
    bareLine false row.slashed = (trim row.content, false) := by
  have hopening : stripStart? "/**".toList ("///".toList ++ trimEnd row.content) = none := rfl
  unfold bareLine
  simp only [trim_slashed h, hopening, Bool.false_eq_true, if_false, dropSlashes,
    stripStart?_append, Option.getD_some, trim_trimEnd]

/-- A star and a line behind it close no block. -/
theorem stripEnd?_starred {row : Row} (h : row.Ok) :
    stripEnd? "*/".toList ('*' :: trimEnd row.content) = none := by
  rw [Option.eq_none_iff_forall_ne_some]
  intro front hfront
  have hends := stripEnd?_eq_some.1 hfront
  obtain ⟨gap, -, hgap⟩ := exists_trimEnd row.content
  cases front with
  | nil =>
      -- The slash would be the first character of the content.
      have hcontent : trimEnd row.content = ['/'] := (List.cons.inj hends).2
      rw [hcontent] at hgap
      have hfirst := h.noSlash '/' (by rw [hgap]; rfl)
      cases hfirst
  | cons c front =>
      have hcontent : trimEnd row.content = front ++ "*/".toList := (List.cons.inj hends).2
      refine h.unclosed ⟨front, gap, ?_⟩
      rw [← hcontent, ← hgap]

theorem trimEnd_mark (s : List Char) : trimEnd ("///".toList ++ s) = "///".toList ++ trimEnd s :=
  trimEnd_append_cons (c := '/') (by decide) ['/', '/'] s

theorem bareLine_starred {row : Row} (h : row.Ok) :
    bareLine true row.starred = (trim row.content, true) := by
  have hopening : stripStart? "/**".toList ('*' :: trimEnd row.content) = none := rfl
  have hstar : stripStart? ['*'] ('*' :: trimEnd row.content) = some (trimEnd row.content) := rfl
  have hmark : stripStart? "///".toList (trimStart (trimEnd row.content)) = none := by
    rw [Option.eq_none_iff_forall_ne_some]
    intro rest hrest
    refine h.noMark ⟨trimEnd rest, ?_⟩
    rw [← trimEnd_mark, ← stripStart?_eq_some.1 hrest]
    exact trim_trimEnd row.content
  have htrim : trim (trimStart (trimEnd row.content)) = trim row.content := by
    have hstops : Stops isBlank (trimStart (trimEnd row.content)) := stops_dropWhile isBlank _
    rw [trim, trimStart_of_stops hstops]
    exact trim_trimEnd row.content
  unfold bareLine
  simp only [trim_starred h, hopening, if_true, bareBlockLine, stripEnd?_starred h,
    Bool.false_eq_true, if_false, hstar, Option.getD_some, dropSlashes, hmark, Option.getD_none,
    htrim]

theorem bareLine_opening {first gap : List Char} (hfirst : allBlank first = true)
    (hgap : allBlank gap = true) : bareLine false (first ++ ("/**".toList ++ gap)) = ([], true) := by
  have hstar : isBlank '*' = false := by decide
  have hend : trimEnd ("**".toList ++ gap) = "**".toList := by
    have hrun : ∀ c ∈ gap.reverse, isBlank c = true := fun c hc =>
      List.all_eq_true.1 hgap c (List.mem_reverse.1 hc)
    have hstops : Stops isBlank "**".toList.reverse := stops_cons hstar ['*']
    rw [trimEnd, List.reverse_append, dropWhile_append_stops hrun hstops, List.reverse_reverse]
  have htrim : trim (first ++ ("/**".toList ++ gap)) = "/**".toList :=
    (trim_indented hfirst (by decide) ("**".toList ++ gap)).trans (congrArg ('/' :: ·) hend)
  unfold bareLine
  rw [htrim]
  rfl

theorem bareLine_closing {last : List Char} (hlast : allBlank last = true) :
    bareLine true (last ++ "*/".toList) = ([], false) := by
  have htrim : trim (last ++ "*/".toList) = "*/".toList :=
    trim_indented hlast (by decide) ['/']
  unfold bareLine
  rw [htrim]
  rfl

/-! ## All lines -/

theorem bareLines_slashed {rows : List Row} (h : ∀ row ∈ rows, row.Ok) :
    bareLines false (rows.map Row.slashed) = rows.map fun row => trim row.content := by
  induction rows with
  | nil => rfl
  | cons row rest ih =>
      rw [List.map_cons, bareLines, bareLine_slashed (h row List.mem_cons_self)]
      exact congrArg (_ :: ·) (ih fun other hmem => h other (List.mem_cons_of_mem _ hmem))

theorem bareLines_starred {rows : List Row} (h : ∀ row ∈ rows, row.Ok)
    (more : List (List Char)) :
    bareLines true (rows.map Row.starred ++ more) =
      (rows.map fun row => trim row.content) ++ bareLines true more := by
  induction rows with
  | nil => rfl
  | cons row rest ih =>
      rw [List.map_cons, List.cons_append, bareLines, bareLine_starred (h row List.mem_cons_self)]
      exact congrArg (_ :: ·) (ih fun other hmem => h other (List.mem_cons_of_mem _ hmem))

theorem normalize_slashed {rows : List Row} (h : ∀ row ∈ rows, row.Ok) :
    normalize (String.ofList (slashed rows)) = saying rows := by
  have hlines : lines (slashed rows) = rows.map Row.slashed := by
    refine lines_intercalate (List.forall_mem_map.2 fun row hrow => ?_)
      (List.forall_mem_map.2 fun row _ => ?_)
    · have hok := h row hrow
      simp [Row.slashed, hok.indentOneLine, hok.oneLine]
    · simp [Row.slashed]
  rw [normalize, String.toList_ofList, contentLines, hlines, bareLines_slashed h]
  rfl

theorem normalize_block {rows : List Row} (h : ∀ row ∈ rows, row.Ok) {first gap last : List Char}
    (hfirst : allBlank first = true ∧ '\n' ∉ first) (hgap : allBlank gap = true ∧ '\n' ∉ gap)
    (hlast : allBlank last = true ∧ '\n' ∉ last) :
    normalize (String.ofList (block first gap last rows)) = saying rows := by
  have hlines : lines (block first gap last rows) =
      (first ++ ("/**".toList ++ gap)) :: (rows.map Row.starred ++ [last ++ "*/".toList]) := by
    refine lines_intercalate ?_ ?_
    · refine List.forall_mem_cons.2 ⟨by simp [hfirst.2, hgap.2], List.forall_mem_append.2 ⟨?_, ?_⟩⟩
      · refine List.forall_mem_map.2 fun row hrow => ?_
        have hok := h row hrow
        simp [Row.starred, hok.indentOneLine, hok.oneLine]
      · simp [hlast.2]
    · refine List.forall_mem_cons.2 ⟨by simp, List.forall_mem_append.2 ⟨?_, by simp⟩⟩
      exact List.forall_mem_map.2 fun row _ => by simp [Row.starred]
  have hclosing : bareLines true [last ++ "*/".toList] = [[]] := by
    rw [bareLines, bareLine_closing hlast.1]
    rfl
  have hbare : bareLines false
      ((first ++ ("/**".toList ++ gap)) :: (rows.map Row.starred ++ [last ++ "*/".toList])) =
      [] :: ((rows.map fun row => trim row.content) ++ [[]]) := by
    rw [bareLines, bareLine_opening hfirst.1 hgap.1, ← hclosing, ← bareLines_starred h]
  rw [normalize, String.toList_ofList, contentLines, hlines, hbare]
  simp [saying]

end Comment
end DocPages

/-
Tables from lists.

A list of the style `table` at the top level of a comment is written as a table of whole lines:
the header, the separator and one row for each of its items, and an empty line behind them.  What
an item says may run over many lines and hold bars, also those of another table, but its cells
keep it on one line (`newline_notMem_row`) and hide its bars (`columns_row`).  So nothing is left
in the table that trimming or the collapsing of empty lines could change (`tidy_rows`), and each
line of it has two cells: `render_table`.
-/
import DocPages.Proofs.Prose.Lists
import DocPages.Proofs.Text.Marks

namespace DocPages
namespace Prose

open Text Markup

/-! ## Cells -/

/-- The pieces of a line between its bars.  A bar directly behind a backslash is none; `hidden`
tells that the next character would be such a bar. -/
def columnsFrom (hidden : Bool) : List Char → List (List Char)
  | [] => [[]]
  | c :: rest =>
    if c = '|' ∧ hidden = false then [] :: columnsFrom false rest
    else
      match columnsFrom (c == '\\') rest with
      | [] => [[c]]
      | piece :: pieces => (c :: piece) :: pieces

def columns (line : List Char) : List (List Char) := columnsFrom false line

theorem columnsFrom_bar (rest : List Char) :
    columnsFrom false ('|' :: rest) = [] :: columnsFrom false rest := by
  rw [columnsFrom, if_pos ⟨rfl, rfl⟩]

theorem columnsFrom_cons {c : Char} {hidden : Bool} {rest piece : List Char}
    {pieces : List (List Char)} (hc : ¬ (c = '|' ∧ hidden = false))
    (hrest : columnsFrom (c == '\\') rest = piece :: pieces) :
    columnsFrom hidden (c :: rest) = (c :: piece) :: pieces := by
  rw [columnsFrom, if_neg hc, hrest]

theorem cell_cons (c : Char) (s : List Char) :
    cell (c :: s) =
      (if c = '|' then ['\\', '|'] else if c = '\n' then [' '] else [c]) ++ cell s :=
  List.flatMap_cons

/-- A cell ends with the next bar behind it, whatever bars stand in its text. -/
theorem columnsFrom_cell (hidden : Bool) (s rest : List Char) :
    columnsFrom hidden (cell s ++ ' ' :: '|' :: rest) =
      (cell s ++ [' ']) :: columnsFrom false rest := by
  have hblank : ∀ hidden, ¬ (' ' = '|' ∧ hidden = false) := fun hidden h => by
    exact absurd h.1 (by decide)
  induction s generalizing hidden with
  | nil => exact columnsFrom_cons (hblank hidden) (columnsFrom_bar rest)
  | cons c s ih =>
      rw [cell_cons]
      by_cases hbar : c = '|'
      · have hmark : ¬ ('\\' = '|' ∧ hidden = false) := fun h => absurd h.1 (by decide)
        have hhidden : ¬ ('|' = '|' ∧ true = false) := fun h => absurd h.2 (by decide)
        rw [if_pos hbar]
        exact columnsFrom_cons hmark (columnsFrom_cons hhidden (ih _))
      · rw [if_neg hbar]
        by_cases hbreak : c = '\n'
        · rw [if_pos hbreak]
          exact columnsFrom_cons (hblank hidden) (ih _)
        · rw [if_neg hbreak]
          exact columnsFrom_cons (fun h => hbar h.1) (ih _)

theorem newline_notMem_cell (s : List Char) : '\n' ∉ cell s := by
  induction s with
  | nil => exact List.not_mem_nil
  | cons c s ih =>
      rw [cell_cons, List.mem_append, not_or]
      refine ⟨?_, ih⟩
      by_cases hbar : c = '|'
      · rw [if_pos hbar]
        decide
      · rw [if_neg hbar]
        by_cases hbreak : c = '\n'
        · rw [if_pos hbreak]
          decide
        · rw [if_neg hbreak, List.mem_singleton]
          exact Ne.symm hbreak

/-! ## Lines of a table -/

def header : List Char := "| Term | Description |".toList

def separator : List Char := "|------|-------------|".toList

/-- The row of an entry, without its line break. -/
def row (entry : Entry) : List Char :=
  "| ".toList ++ cell (entry.1.getD []) ++ " | ".toList ++ cell entry.2 ++ " |".toList

/-- A line of a table with two cells. -/
structure IsRow (line : List Char) : Prop where
  noBreak : '\n' ∉ line
  starts : line.head? = some '|'
  ends : line.getLast? = some '|'
  cells : ∃ first second, columns line = [[], first, second, []]

theorem isRow_header : IsRow header :=
  ⟨by decide, rfl, by decide, " Term ".toList, " Description ".toList, by decide⟩

theorem isRow_separator : IsRow separator :=
  ⟨by decide, rfl, by decide, "------".toList, "-------------".toList, by decide⟩

/-- Between the bars stand the cells with a blank on either side. -/
theorem columns_row (entry : Entry) :
    columns (row entry) =
      [[], ' ' :: cell (entry.1.getD []) ++ [' '], ' ' :: cell entry.2 ++ [' '], []] := by
  -- The blank in front of a cell is read as if it were of the cell.
  have hpad : ∀ s, ' ' :: cell s = cell (' ' :: s) := fun s => rfl
  have hrow : row entry = '|' :: (cell (' ' :: entry.1.getD []) ++ ' ' :: '|' ::
      (cell (' ' :: entry.2) ++ ' ' :: '|' :: [])) := by
    rw [row, ← hpad, ← hpad]
    simp
  rw [columns, hrow, columnsFrom_bar, columnsFrom_cell, columnsFrom_cell, hpad, hpad]
  rfl

theorem newline_notMem_row (entry : Entry) : '\n' ∉ row entry := by
  have hmarks : '\n' ∉ "| ".toList ∧ '\n' ∉ " | ".toList ∧ '\n' ∉ " |".toList := by decide
  simp only [row, List.mem_append, not_or]
  exact ⟨⟨⟨⟨hmarks.1, newline_notMem_cell _⟩, hmarks.2.1⟩, newline_notMem_cell _⟩, hmarks.2.2⟩

theorem isRow_row (entry : Entry) : IsRow (row entry) where
  noBreak := newline_notMem_row entry
  starts := rfl
  ends := by rw [row, List.getLast?_append]; rfl
  cells := ⟨_, _, columns_row entry⟩

/-! ## What tidying leaves -/

theorem collapseFrom_line {line : List Char} (h : '\n' ∉ line) (s : List Char) :
    collapseFrom 0 (line ++ s) = line ++ collapseFrom 0 s := by
  induction line with
  | nil => rfl
  | cons c rest ih =>
      obtain ⟨hc, hrest⟩ := not_or.1 (List.mem_cons.not.1 h)
      rw [List.cons_append, collapseFrom, if_neg (Ne.symm hc), ih hrest]
      rfl

/-- A line that is not empty starts anew, however many line breaks stand in front of it. -/
theorem collapseFrom_filled {line : List Char} (hne : line ≠ []) (h : '\n' ∉ line) (run : Nat)
    (s : List Char) : collapseFrom run (line ++ s) = line ++ collapseFrom 0 s := by
  cases line with
  | nil => exact absurd rfl hne
  | cons c rest =>
      obtain ⟨hc, hrest⟩ := not_or.1 (List.mem_cons.not.1 h)
      rw [List.cons_append, collapseFrom, if_neg (Ne.symm hc), collapseFrom_line hrest]
      rfl

theorem IsRow.ne_nil {line : List Char} (h : IsRow line) : line ≠ [] := by
  intro hnil
  have hstart := h.starts
  rw [hnil] at hstart
  cases hstart

theorem collapseFrom_rows {lines : List (List Char)} (h : ∀ line ∈ lines, IsRow line)
    {last : List Char} (hlast : IsRow last) (run : Nat) :
    collapseFrom run (wholeLines lines ++ last) = wholeLines lines ++ last := by
  induction lines generalizing run with
  | nil =>
      have hend := collapseFrom_filled hlast.ne_nil hlast.noBreak run []
      rw [List.append_nil] at hend
      rw [wholeLines, List.flatMap_nil, List.nil_append, hend]
      exact List.append_nil _
  | cons line rest ih =>
      have hline : IsRow line := h line List.mem_cons_self
      have hbreak : ∀ s, collapseFrom 0 ('\n' :: s) = '\n' :: collapseFrom 1 s := fun s => rfl
      rw [wholeLines_cons, List.append_assoc, collapseFrom_filled hline.ne_nil hline.noBreak,
        List.cons_append, hbreak, ih fun other hother => h other (List.mem_cons_of_mem _ hother)]

/-- Line breaks around a text between bars are trimmed, and nothing else. -/
theorem trim_barred {s : List Char} (hstart : s.head? = some '|') (hend : s.getLast? = some '|') :
    trim ("\n\n".toList ++ (s ++ "\n\n".toList)) = s := by
  have hbar : isBlank '|' = false := by decide
  have hbreaks : ∀ c ∈ "\n\n".toList, isBlank c = true := by decide
  have hnone : trimEnd "\n\n".toList = [] := by decide
  obtain ⟨front, rfl⟩ := List.getLast?_eq_some_iff.1 hend
  have hstops : Stops isBlank (front ++ ['|']) := by
    intro c hc
    rw [hstart] at hc
    cases hc
    exact hbar
  rw [trim, trimStart, dropWhile_append_stops hbreaks (hstops.append_right (by simp) _),
    List.append_assoc, List.singleton_append, trimEnd_append_cons hbar, hnone]

/-- Tidying takes away the line breaks around rows and leaves the rows as they are. -/
theorem tidy_rows {lines : List (List Char)} (hne : lines ≠ []) (h : ∀ line ∈ lines, IsRow line) :
    tidy ("\n\n".toList ++ (wholeLines lines ++ ['\n'])) ++ ['\n'] = wholeLines lines := by
  obtain ⟨front, last, rfl⟩ : ∃ front last, lines = front ++ [last] :=
    ⟨_, _, (List.dropLast_concat_getLast hne).symm⟩
  have hfront : ∀ line ∈ front, IsRow line :=
    fun line hline => h line (List.mem_append_left _ hline)
  have hlast : IsRow last := h last (List.mem_append_right _ List.mem_cons_self)
  have hlines : wholeLines (front ++ [last]) = wholeLines front ++ last ++ ['\n'] := by
    rw [wholeLines_append, wholeLines_cons, List.append_assoc]
    rfl
  have hbreaks : wholeLines (front ++ [last]) ++ ['\n'] =
      wholeLines front ++ last ++ "\n\n".toList := by
    rw [hlines, List.append_assoc]
    rfl
  have hstart : (wholeLines front ++ last).head? = some '|' := by
    cases front with
    | nil => exact hlast.starts
    | cons line rest =>
        rw [wholeLines_cons, List.append_assoc, List.head?_append,
          (hfront line List.mem_cons_self).starts]
        rfl
  have hend : (wholeLines front ++ last).getLast? = some '|' := by
    rw [List.getLast?_append, hlast.ends]
    rfl
  rw [hbreaks, tidy, trim_barred hstart hend, collapseFrom_rows hfront hlast, hlines]

/-! ## A list as a table -/

/-- What the items of a list hold. -/
def items (children : List Node) : List (List Node) :=
  children.filterMap fun
    | .element "item" _ content => some content
    | _ => none

/-- What the first element of a name holds. -/
def child? (wanted : String) (content : List Node) : Option (List Node) :=
  content.findSome? fun
    | .element name _ inner => if name = wanted then some inner else none
    | .text _ => none

/-- The term and the description of an item.  An item that has neither is its own description. -/
def itemEntry (content : List Node) : Entry :=
  let term := (child? "term" content).map inline
  match child? "description" content with
  | some inner => (term, inline inner)
  | none => (term, if term.isSome then [] else inline content)

theorem childText_eq (wanted : String) (content : List Node) :
    childText wanted content = (child? wanted content).map inline := by
  induction content with
  | nil => rfl
  | cons node rest ih =>
      cases node with
      | text content =>
          rw [childText, ih]
          rfl
      | element name attributes inner =>
          rw [childText, child?, List.findSome?_cons]
          by_cases hname : name = wanted
          · simp only [if_pos hname]
            rfl
          · simp only [if_neg hname]
            exact ih

theorem listEntries_eq (children : List Node) :
    listEntries children = (items children).map itemEntry := by
  induction children with
  | nil => rfl
  | cons node rest ih =>
      cases node with
      | text content =>
          rw [listEntries, ih]
          · rfl
          · exact nofun
      | element name attributes content =>
          by_cases hname : name = "item"
          · subst hname
            rw [listEntries, ih, childText_eq, childText_eq]
            show _ = itemEntry content :: (items rest).map itemEntry
            unfold itemEntry
            cases child? "description" content <;> cases child? "term" content <;> rfl
          · have hskip : items (.element name attributes content :: rest) = items rest := by
              simp [items, hname]
            rw [listEntries, ih, hskip]
            intro _ _ hnode
            cases hnode
            exact hname rfl

theorem tableRow_eq (entry : Entry) : tableRow entry = row entry ++ ['\n'] := by
  have hend : " |\n".toList = " |".toList ++ ['\n'] := rfl
  rw [tableRow, row, hend]
  simp only [List.append_assoc]

/-- The lines that a list of this style is written as. -/
def tableLines (children : List Node) : List (List Char) :=
  header :: separator :: (items children).map fun item => row (itemEntry item)

theorem isRow_tableLines (children : List Node) : ∀ line ∈ tableLines children, IsRow line := by
  intro line hline
  rcases List.mem_cons.1 hline with rfl | hline
  · exact isRow_header
  · rcases List.mem_cons.1 hline with rfl | hline
    · exact isRow_separator
    · obtain ⟨item, _, rfl⟩ := List.mem_map.1 hline
      exact isRow_row _

theorem listText_table (children : List Node) :
    listText "table" (listEntries children) =
      "\n\n".toList ++ (wholeLines (tableLines children) ++ ['\n']) := by
  have hrows : (listEntries children).flatMap tableRow =
      wholeLines ((items children).map fun item => row (itemEntry item)) := by
    rw [listEntries_eq, wholeLines, List.flatMap_map, List.flatMap_map]
    exact List.flatMap_congr fun item _ => tableRow_eq _
  have htop : "| Term | Description |\n|------|-------------|\n".toList =
      wholeLines [header, separator] := by decide
  have hlines : tableLines children =
      [header, separator] ++ (items children).map fun item => row (itemEntry item) := rfl
  show "\n\n".toList ++ ("| Term | Description |\n|------|-------------|\n".toList
    ++ (listEntries children).flatMap tableRow) ++ ['\n'] = _
  rw [hrows, htop, hlines, wholeLines_append, List.append_assoc]

/-- A list of this style writes its table and an empty line, wherever it stands. -/
theorem flatMap_render_table {attributes : Attributes}
    (hstyle : attributes.get? "type" = some "table") (level : Nat) (seen ahead : List String)
    (children : List Node) :
    (nodeBlocks level seen ahead (.element "list" attributes children)).flatMap Block.render =
      wholeLines (tableLines children) ++ ['\n'] := by
  have hblocks : nodeBlocks level seen ahead (.element "list" attributes children) =
      [.paragraph (tidy (listText "table" (listEntries children)))] := by
    show [Block.paragraph (tidy (listText ((attributes.get? "type").getD "bullet")
      (listEntries children)))] = _
    rw [hstyle]
    rfl
  have hgap : ∀ s : List Char, s ++ "\n\n".toList = s ++ ['\n'] ++ ['\n'] := fun s => by
    rw [List.append_assoc]
    rfl
  have hne : tableLines children ≠ [] := List.cons_ne_nil _ _
  rw [hblocks, List.flatMap_singleton, Block.render, listText_table, hgap,
    tidy_rows hne (isRow_tableLines children)]

/-! ## The table among the other lines -/

theorem Block.exists_render_eq (block : Block) : ∃ s, block.render = s ++ ['\n'] := by
  cases block with
  | paragraph content =>
      exact ⟨content ++ ['\n'], by rw [Block.render, List.append_assoc]; rfl⟩
  | heading level title => exact ⟨_, rfl⟩
  | bullet content => exact ⟨_, rfl⟩
  | gap => exact ⟨[], rfl⟩

/-- Blocks are written as whole lines. -/
theorem exists_wholeLines_blocks (written : List Block) :
    ∃ lines, (∀ line ∈ lines, '\n' ∉ line) ∧ written.flatMap Block.render = wholeLines lines := by
  induction written with
  | nil => exact ⟨[], nofun, rfl⟩
  | cons block rest ih =>
      obtain ⟨s, hs⟩ := block.exists_render_eq
      obtain ⟨lines, hlines, hrest⟩ := ih
      have hfirst : ∀ line ∈ splitAt (· == '\n') s, '\n' ∉ line :=
        fun line hline => notMem_of_mem_splitAt hline
      refine ⟨splitAt (· == '\n') s ++ lines, List.forall_mem_append.2 ⟨hfirst, hlines⟩, ?_⟩
      rw [List.flatMap_cons, hs, hrest, wholeLines_append, wholeLines_splitAt]

/-- What the nodes before an element, the element and the nodes after it write. -/
theorem blocks_around (level : Nat) (before after : List Node) (name : String)
    (attributes : Attributes) (children : List Node) :
    blocks level (before ++ .element name attributes children :: after) =
      blocksAmong level [] (name :: elementNames after) before
        ++ nodeBlocks level (elementNames before) (elementNames after)
          (.element name attributes children)
        ++ blocksAmong level (name :: elementNames before) [] after := by
  have hnames : elementNames (.element name attributes children :: after) =
      name :: elementNames after := rfl
  rw [blocks, blocksFrom_eq, blocksAmong_append, hnames, List.append_nil, List.append_nil,
    blocksAmong, List.append_nil, List.append_assoc]
  rfl

/-- A table at the top level stands on lines of its own.  Behind the lines of the nodes before it
come its header, its separator and one row for each item in order, then an empty line, and then
the lines of the nodes after it.  Each of its lines has two cells. -/
theorem render_table {markup : String} {before after children : List Node}
    {attributes : Attributes}
    (hparse : parse markup = .ok (before ++ .element "list" attributes children :: after))
    (hstyle : attributes.get? "type" = some "table") (level : Nat) :
    ∃ above below : List (List Char),
      (blocksAmong (level + 1) [] ("list" :: elementNames after) before).flatMap Block.render =
        wholeLines above ∧
      (blocksAmong (level + 1) ("list" :: elementNames before) [] after).flatMap Block.render =
        wholeLines below ∧
      render markup level =
        .ok (String.ofList (wholeLines (above ++ tableLines children ++ [] :: below))) ∧
      splitAt (· == '\n') (wholeLines (above ++ tableLines children ++ [] :: below)) =
        above ++ tableLines children ++ [] :: below ++ [[]] ∧
      (tableLines children).length = (items children).length + 2 ∧
      ∀ line ∈ tableLines children, IsRow line := by
  obtain ⟨above, habove, hbefore⟩ := exists_wholeLines_blocks
    (blocksAmong (level + 1) [] ("list" :: elementNames after) before)
  obtain ⟨below, hbelow, hafter⟩ := exists_wholeLines_blocks
    (blocksAmong (level + 1) ("list" :: elementNames before) [] after)
  have hrows := isRow_tableLines children
  have htext : (blocks (level + 1)
      (before ++ .element "list" attributes children :: after)).flatMap Block.render =
        wholeLines (above ++ tableLines children ++ [] :: below) := by
    rw [blocks_around, List.flatMap_append, List.flatMap_append, hbefore, hafter,
      flatMap_render_table hstyle, wholeLines_append, wholeLines_append, wholeLines_cons]
    simp only [List.append_assoc, List.singleton_append, List.nil_append]
  have hbreaks : ∀ line ∈ above ++ tableLines children ++ [] :: below, '\n' ∉ line := by
    refine List.forall_mem_append.2 ⟨List.forall_mem_append.2 ⟨habove, ?_⟩, ?_⟩
    · exact fun line hline => (hrows line hline).noBreak
    · exact List.forall_mem_cons.2 ⟨List.not_mem_nil, hbelow⟩
  refine ⟨above, below, hbefore, hafter, ?_, ?_, ?_, hrows⟩
  · rw [render, hparse, ← htext]
    rfl
  · have hsplit := splitAt_wholeLines hbreaks []
    rwa [List.append_nil] at hsplit
  · rw [tableLines, List.length_cons, List.length_cons, List.length_map]

/-- The first item holds a bar, code over two lines and a table of its own. -/
def nestedRows : List Node :=
  [.element "item" []
    [.element "term" [] [.text "a|b"],
      .element "description" []
        [.text "x", .element "code" [] [.text "y\nz"],
          .element "list" [("type", "table")] [.element "item" [] [.text "inner"]]]],
    .element "item" [] [.text "loose"]]

/-- A table between a text and a section. -/
def tableSample : List Node :=
  [.text "Modes:", .element "list" [("type", "table")] nestedRows,
    .element "returns" [] [.text "r"]]

theorem parse_tableSample : parse (print tableSample) = .ok tableSample := by
  have hitem : IsName "item" := ⟨'i', "tem".toList, by decide, by decide, by decide⟩
  have hterm : IsName "term" := ⟨'t', "erm".toList, by decide, by decide, by decide⟩
  have hdescription : IsName "description" :=
    ⟨'d', "escription".toList, by decide, by decide, by decide⟩
  have hcode : IsName "code" := ⟨'c', "ode".toList, by decide, by decide, by decide⟩
  have hlist : IsName "list" := ⟨'l', "ist".toList, by decide, by decide, by decide⟩
  have hreturns : IsName "returns" := ⟨'r', "eturns".toList, by decide, by decide, by decide⟩
  have htype : IsKey "type" := ⟨'t', "ype".toList, by decide, by decide, by decide⟩
  have hkeys : ∀ a ∈ [("type", "table")], IsKey a.1 :=
    fun a ha => List.mem_singleton.1 ha ▸ htype
  have hnone : ∀ a ∈ ([] : Attributes), IsKey a.1 := List.forall_mem_nil _
  have htext : ∀ content : String, content ≠ "" → WellFormed [.text content] :=
    fun content h => ⟨List.isChain_singleton _, h, trivial⟩
  have hinner : WellFormed [.element "item" [] [.text "inner"]] :=
    wellFormed_nil.concat_element hitem hnone (htext "inner" (by decide))
  have hsaid : WellFormed [.text "x", .element "code" [] [.text "y\nz"],
      .element "list" [("type", "table")] [.element "item" [] [.text "inner"]]] :=
    ((htext "x" (by decide)).concat_element hcode hnone (htext "y\nz" (by decide))).concat_element
      hlist hkeys hinner
  have hfirst : WellFormed [.element "term" [] [.text "a|b"], .element "description" []
      [.text "x", .element "code" [] [.text "y\nz"],
        .element "list" [("type", "table")] [.element "item" [] [.text "inner"]]]] :=
    (wellFormed_nil.concat_element hterm hnone (htext "a|b" (by decide))).concat_element
      hdescription hnone hsaid
  have hrows : WellFormed nestedRows :=
    (wellFormed_nil.concat_element hitem hnone hfirst).concat_element hitem hnone
      (htext "loose" (by decide))
  exact parse_print (((htext "Modes:" (by decide)).concat_element hlist hkeys hrows).concat_element
    hreturns hnone (htext "r" (by decide)))

theorem render_table_tableSample :
    (parse (print tableSample) = .ok tableSample ∧
      Attributes.get? [("type", "table")] "type" = some "table") ∧
    (∃ above below : List (List Char),
      render (print tableSample) 1 =
        .ok (String.ofList (wholeLines (above ++ tableLines nestedRows ++ [] :: below))) ∧
      splitAt (· == '\n') (wholeLines (above ++ tableLines nestedRows ++ [] :: below)) =
        above ++ tableLines nestedRows ++ [] :: below ++ [[]] ∧
      (tableLines nestedRows).length = 2 + 2 ∧
      ∀ line ∈ tableLines nestedRows, IsRow line) ∧
    tableLines nestedRows =
      ["| Term | Description |".toList, "|------|-------------|".toList,
        ("| a\\|b | x ```csharp y z ```  \\| Term \\| Description \\|" ++
          " \\|------\\|-------------\\| \\|  \\| inner \\| |").toList,
        "|  | loose |".toList] := by
  have hstyle : Attributes.get? [("type", "table")] "type" = some "table" := rfl
  obtain ⟨above, below, _, _, hwritten⟩ :=
    @render_table _ [.text "Modes:"] _ _ _ parse_tableSample hstyle 1
  exact ⟨⟨parse_tableSample, hstyle⟩, ⟨above, below, hwritten⟩, by decide +kernel⟩

end Prose
end DocPages

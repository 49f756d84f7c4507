/-
The text of a page.

A page is written part by part, and `text` is what its parts come to.  `pieces` tells the
same text as a reader meets it: links, the anchors they lead to, the prose of items, and
plain text between these.  `Piece.markdown` spells a piece without asking how parts are
written, and `text_eq_markdown` says that the two agree on every list of parts.  So what is
read off the pieces of a page stands in its file: `Output.written?_eq`.
-/
import DocPages.Proofs.Page.FileNames

namespace DocPages
namespace Page

/-- What parts are on the page. -/
def text (parts : List Part) : String := String.join (parts.map Part.render)

theorem text_append (a b : List Part) : text (a ++ b) = text a ++ text b := by
  rw [text, List.map_append, String.join_append, ← text, ← text]

theorem text_cons (part : Part) (rest : List Part) :
    text (part :: rest) = part.render ++ text rest := by
  rw [text, List.map_cons, String.join_cons, ← text]

/-! ## Pieces -/

/-- What stands on a page.  A link names a target within the page or the file of another
page. -/
inductive Piece where
  | link (depth : Nat) (label target : String)
  | pageLink (depth : Nat) (label file : String)
  | anchor (target : String)
  | prose (id : ItemId) (content : String)
  | plain (content : String)
deriving Repr, DecidableEq

def Piece.markdown : Piece → String
  | .link depth label target =>
    String.ofList (List.replicate (2 * depth) ' ') ++ "- [" ++ label ++ "](#" ++ target ++ ")\n"
  | .pageLink depth label file =>
    String.ofList (List.replicate (2 * depth) ' ') ++ "- [" ++ label ++ "](" ++ file ++ ".md)\n"
  | .anchor target => "<a id=\"" ++ target ++ "\"></a>\n"
  | .prose _ content => content
  | .plain content => content

def markdown (pieces : List Piece) : String := String.join (pieces.map Piece.markdown)

theorem markdown_cons (piece : Piece) (rest : List Piece) :
    markdown (piece :: rest) = piece.markdown ++ markdown rest := by
  rw [markdown, List.map_cons, String.join_cons, ← markdown]

theorem markdown_append (a b : List Piece) : markdown (a ++ b) = markdown a ++ markdown b := by
  rw [markdown, List.map_append, String.join_append, ← markdown, ← markdown]

theorem markdown_singleton (piece : Piece) : markdown [piece] = piece.markdown := by
  rw [markdown_cons]
  exact String.append_empty

/-- Where a link within the page leads. -/
def Piece.target? : Piece → Option String
  | .link _ _ target => some target
  | _ => none

/-- The label of a link to another page, and the file it leads to. -/
def Piece.pageLink? : Piece → Option (String × String)
  | .pageLink _ label file => some (label, file)
  | _ => none

def Piece.anchor? : Piece → Option String
  | .anchor target => some target
  | _ => none

def Piece.proseId? : Piece → Option ItemId
  | .prose id _ => some id
  | _ => none

/-! ## The pieces of parts -/

def ContentsLine.piece : ContentsLine → Piece
  | .anchor depth kind name => .link depth (kind ++ " " ++ name) (anchorId kind name)
  | .page depth kind name file => .pageLink depth (kind ++ " " ++ name) file

def Part.pieces : Part → List Piece
  | .anchor kind name => [.anchor (anchorId kind name)]
  | .title fullName => [.plain ("# " ++ fullName ++ "\n\n")]
  | .contents lines =>
    .plain "## Table of Contents\n" :: (lines.map ContentsLine.piece ++ [.plain "\n"])
  | .group level name => [.plain (hashes level ++ " " ++ name ++ "\n\n")]
  | .heading level name => [.plain (hashes level ++ " " ++ name ++ "\n\n")]
  | .prose e level showAttributes =>
    [.prose e.id (preamble e.item showAttributes ++ proseText e.item level)]
  | .skipped _ => []

def pieces (parts : List Part) : List Piece := parts.flatMap Part.pieces

theorem ContentsLine.render_eq_markdown (line : ContentsLine) :
    line.render = line.piece.markdown := by
  cases line with
  | anchor depth kind name =>
      rw [render, render.indent, piece, Piece.markdown]
      simp only [String.append_assoc]
  | page depth kind name file =>
      rw [render, render.indent, piece, Piece.markdown]
      simp only [String.append_assoc]

theorem Part.render_eq_markdown (part : Part) : part.render = markdown part.pieces := by
  cases part with
  | contents lines =>
      have hlines : lines.map ContentsLine.render =
          (lines.map ContentsLine.piece).map Piece.markdown := by
        rw [List.map_map]
        exact List.map_congr_left fun line _ => line.render_eq_markdown
      rw [pieces, markdown_cons, markdown_append, markdown_singleton, markdown, ← hlines,
        ← String.append_assoc]
      rfl
  | skipped reason => rfl
  | _ =>
      rw [pieces, markdown_singleton]
      rfl

/-- Parts are written as their pieces are spelled. -/
theorem text_eq_markdown (parts : List Part) : text parts = markdown (pieces parts) := by
  induction parts with
  | nil => rfl
  | cons part rest ih =>
      rw [text_cons, ih, Part.render_eq_markdown, ← markdown_append]
      rfl

/-- What is read off pieces is read off parts if it is so for each part. -/
theorem filterMap_pieces {α : Type} {f : Piece → Option α} {g : Part → Option α}
    (h : ∀ part : Part, part.pieces.filterMap f = (g part).toList) (parts : List Part) :
    (pieces parts).filterMap f = parts.filterMap g := by
  rw [pieces, List.filterMap_flatMap, List.filterMap_eq_flatMap_toList]
  exact List.flatMap_congr fun part _ => h part

theorem filterMap_contents {α : Type} {f : Piece → Option α}
    (hplain : ∀ content, f (.plain content) = none) (lines : List ContentsLine) :
    (Part.contents lines).pieces.filterMap f = lines.filterMap fun line => f line.piece := by
  rw [Part.pieces, List.filterMap_cons_none (hplain _), List.filterMap_append,
    List.filterMap_cons_none (hplain _), List.filterMap_nil, List.append_nil, List.filterMap_map]
  rfl

/-! ## What pages say -/

/-- What stands on the pages, in order. -/
def Output.pieces : Output → List Piece
  | .page _ _ parts => Page.pieces parts
  | .skipped _ => []

theorem Output.written?_eq (output : Output) :
    output.written? = output.named?.map fun named => ⟨named.2, markdown output.pieces⟩ := by
  cases output with
  | page id file parts => exact congrArg (some <| WrittenPage.mk file ·) (text_eq_markdown parts)
  | skipped reason => rfl

/-- What is written for an item: its attributes and base types, and its documentation as it
is rendered at a level or, where that cannot be read, the notice of the fault. -/
inductive ProseOf (o : Options) (item : Item) (level : Nat) : String → Prop where
  | rendered {documentation : String} (h : Prose.render item.markup level = .ok documentation) :
      ProseOf o item level (preamble item o.writeAttributes ++ documentation)
  | faulty {fault : Markup.Fault} (h : Prose.render item.markup level = .error fault) :
      ProseOf o item level (preamble item o.writeAttributes ++ Prose.faultBlock fault item.markup)

theorem proseOf_proseText (o : Options) (item : Item) (level : Nat) :
    ProseOf o item level (preamble item o.writeAttributes ++ proseText item level) := by
  rw [proseText]
  cases h : Prose.render item.markup level with
  | ok documentation => exact .rendered h
  | error fault => exact .faulty h

theorem mem_pieces_prose {parts : List Part} {id : ItemId} {content : String}
    (h : .prose id content ∈ pieces parts) :
    ∃ e level showAttributes, .prose e level showAttributes ∈ parts ∧ id = e.id ∧
      content = preamble e.item showAttributes ++ proseText e.item level := by
  obtain ⟨part, hpart, hpiece⟩ := List.mem_flatMap.1 h
  cases part with
  | prose e level showAttributes =>
      cases List.mem_singleton.1 hpiece
      exact ⟨e, level, showAttributes, hpart, rfl, rfl⟩
  | contents lines =>
      rw [Part.pieces, List.mem_cons, List.mem_append, List.mem_map] at hpiece
      rcases hpiece with hplain | ⟨line, _, hline⟩ | hplain
      · cases hplain
      · cases line <;> cases hline
      · cases List.mem_singleton.1 hplain
  | skipped reason => cases hpiece
  | _ => cases List.mem_singleton.1 hpiece

/-! ## The parts of the text -/

/-- Parts of the text of a page: none of them is a title or contents, anchors are among them
only where there are contents, and prose has attributes above it as the options say. -/
def Part.InText (o : Options) : Part → Prop
  | .anchor .. => o.writeContents = true
  | .prose _ _ showAttributes => showAttributes = o.writeAttributes
  | .title _ | .contents _ => False
  | _ => True

theorem inText_anchorParts (o : Options) (e : Entry) : ∀ part ∈ anchorParts o e, part.InText o := by
  intro part hpart
  rw [anchorParts] at hpart
  split at hpart
  · rename_i ht
    rw [List.mem_singleton.1 hpart]
    exact ht
  · cases hpart

theorem inText_memberParts (o : Options) (level : Nat) (current : Option String)
    (leaves : List Entry) : ∀ part ∈ memberParts o level current leaves, part.InText o := by
  induction leaves generalizing current with
  | nil => exact nofun
  | cons m rest ih =>
      rw [memberParts]
      split
      · exact List.forall_mem_cons.2 ⟨trivial, ih current⟩
      · have hgroup : ∀ part ∈ (if current == some m.item.kind then []
            else ((o.kinds.title m.item.kind).map (Part.group level)).toList), part.InText o := by
          intro part hpart
          split at hpart
          · cases hpart
          · obtain ⟨title, _, rfl⟩ := Option.map_eq_some_iff.1 (Option.mem_toList.1 hpart)
            trivial
        simp only [List.forall_mem_append]
        exact ⟨⟨⟨hgroup, inText_anchorParts o m⟩, by simp [Part.InText]⟩, ih _⟩

mutual
theorem inText_bodyParts (o : Options) (level : Nat) (tree : Outline) :
    ∀ part ∈ bodyParts o level tree, part.InText o := by
  match tree with
  | .node e leaves nested =>
    rw [bodyParts, List.cons_append, List.forall_mem_cons, List.forall_mem_append]
    refine ⟨rfl, inText_memberParts o level none leaves, ?_⟩
    split
    · exact inText_nestedParts o level nested
    · exact nofun

theorem inText_nestedParts (o : Options) (level : Nat) (nested : List Outline) :
    ∀ part ∈ nestedParts o level nested, part.InText o := by
  match nested with
  | [] => exact nofun
  | first :: rest =>
    rw [nestedParts, List.forall_mem_append]
    refine ⟨?_, inText_nestedParts o level rest⟩
    split
    · exact List.forall_mem_singleton.2 trivial
    · rw [List.forall_mem_append, List.forall_mem_append]
      exact ⟨⟨inText_anchorParts o _, List.forall_mem_singleton.2 trivial⟩,
        inText_bodyParts o (level + 1) first⟩
end

end Page
end DocPages

/-
The contents of a page and its anchors.

The contents are written by one recursion over the outline and the text below them by
another, each with its own tests for blank entries.  `targets_contentsLines` and
`anchors_parts` bring both to the list of entries that the page shows, so that every link
within a page has its anchor, in the same order.  `filterMap_links` and `anchors_pieces`
carry this over to the links and anchors that stand in the file of the page.
-/
import DocPages.Proofs.Page.Coverage

namespace DocPages
namespace Page

/-! ## Links and anchors -/

/-- Where a line of the contents leads within its page. -/
def ContentsLine.target? : ContentsLine → Option String
  | .anchor _ kind name => some (anchorId kind name)
  | .page .. => none

def Part.anchor? : Part → Option String
  | .anchor kind name => some (anchorId kind name)
  | _ => none

def Part.contents? : Part → Option (List ContentsLine)
  | .contents lines => some lines
  | _ => none

def Entry.anchor (e : Entry) : String := anchorId e.item.kind e.item.name

/-- Links are written in the contents and nowhere else. -/
theorem filterMap_links {α : Type} {f : Piece → Option α}
    (hanchor : ∀ target, f (.anchor target) = none)
    (hprose : ∀ id content, f (.prose id content) = none)
    (hplain : ∀ content, f (.plain content) = none) (parts : List Part) :
    (pieces parts).filterMap f =
      (parts.filterMap Part.contents?).flatMap fun lines =>
        lines.filterMap fun line => f line.piece := by
  induction parts with
  | nil => rfl
  | cons part rest ih =>
      rw [pieces, List.flatMap_cons, ← pieces, List.filterMap_append, ih]
      cases part with
      | contents lines =>
          rw [filterMap_contents hplain]
          rfl
      | anchor kind name =>
          rw [Part.pieces, List.filterMap_cons_none (hanchor _)]
          rfl
      | prose e level showAttributes =>
          rw [Part.pieces, List.filterMap_cons_none (hprose _ _)]
          rfl
      | skipped reason => rfl
      | _ =>
          rw [Part.pieces, List.filterMap_cons_none (hplain _)]
          rfl

theorem targets_pieces (parts : List Part) :
    (pieces parts).filterMap Piece.target? =
      (parts.filterMap Part.contents?).flatMap (List.filterMap ContentsLine.target?) := by
  rw [filterMap_links (fun _ => rfl) (fun _ _ => rfl) fun _ => rfl]
  refine List.flatMap_congr fun lines _ => List.filterMap_congr fun line _ => ?_
  cases line <;> rfl

theorem anchors_pieces (parts : List Part) :
    (pieces parts).filterMap Piece.anchor? = parts.filterMap Part.anchor? := by
  refine filterMap_pieces (fun part => ?_) parts
  cases part with
  | contents lines =>
      refine (filterMap_contents (fun _ => rfl) lines).trans ?_
      refine List.filterMap_eq_nil_iff.2 fun line _ => ?_
      cases line <;> rfl
  | _ => rfl

/-! ## The contents -/

theorem targets_linked (o : Options) (hi : o.inlineTypes = false) (names : Names) (depth : Nat)
    (nested : List Outline) :
    (nestedLines o names depth nested).filterMap ContentsLine.target? = [] := by
  induction nested with
  | nil => rfl
  | cons first rest ih =>
      rw [nestedLines, List.filterMap_append, ih, List.append_nil, hi]
      split
      · rfl
      · rw [if_neg Bool.false_ne_true]
        split <;> rfl

mutual
theorem targets_contentsLines (o : Options) (names : Names) (depth : Nat) (tree : Outline)
    (hb : tree.entry.isBlank = false) :
    (contentsLines o names depth tree).filterMap ContentsLine.target? =
      (filled (tree.onPage o.inlineTypes)).map Entry.anchor := by
  match tree, hb with
  | .node e leaves nested, hb =>
    rw [Outline.entry] at hb
    rw [contentsLines, Outline.onPage, filled_cons_filled hb, filled_append, List.map_cons,
      List.map_append]
    show e.anchor :: List.filterMap ContentsLine.target? (_ ++ _) = _
    rw [List.filterMap_append, List.filterMap_map]
    congr 2
    · exact congrFun List.filterMap_eq_map (filled leaves)
    · cases hi : o.inlineTypes with
      | true => exact targets_nestedLines o hi names (depth + 1) nested
      | false => exact targets_linked o hi names (depth + 1) nested

theorem targets_nestedLines (o : Options) (hi : o.inlineTypes = true) (names : Names)
    (depth : Nat) (nested : List Outline) :
    (nestedLines o names depth nested).filterMap ContentsLine.target? =
      (filled (metEach nested)).map Entry.anchor := by
  match nested with
  | [] => rfl
  | first :: rest =>
    rw [nestedLines, metEach, List.filterMap_append, targets_nestedLines o hi names depth rest,
      filled_append, List.map_append, hi]
    congr 1
    cases hb : first.entry.isBlank with
    | true =>
        rw [met_of_blank hb, filled_cons_blank hb]
        rfl
    | false =>
        have hlines := targets_contentsLines o names depth first hb
        rw [hi, onPage_true hb] at hlines
        exact hlines
end

/-! ## The text -/

section Anchors

variable (o : Options) (ht : o.writeContents = true)

include ht

theorem anchors_anchorParts (e : Entry) :
    (anchorParts o e).filterMap Part.anchor? = [e.anchor] := by
  rw [anchorParts, ht, if_pos rfl]
  rfl

theorem anchors_memberParts (level : Nat) (current : Option String) (leaves : List Entry) :
    (memberParts o level current leaves).filterMap Part.anchor? =
      (filled leaves).map Entry.anchor := by
  induction leaves generalizing current with
  | nil => rfl
  | cons m rest ih =>
      rw [memberParts]
      cases hskip : m.skip? with
      | some reason =>
          rw [filled_cons_blank (isBlank_of_skip hskip)]
          exact ih current
      | none =>
          rw [filled_cons_filled (isBlank_of_noSkip hskip), List.map_cons]
          simp only [List.filterMap_append, anchors_anchorParts o ht, ih]
          split
          · rfl
          · rw [filterMap_group fun _ _ => rfl]
            rfl

mutual
theorem anchors_bodyParts (level : Nat) (tree : Outline) (hb : tree.entry.isBlank = false) :
    tree.entry.anchor :: (bodyParts o level tree).filterMap Part.anchor? =
      (filled (tree.onPage o.inlineTypes)).map Entry.anchor := by
  match tree, hb with
  | .node e leaves nested, hb =>
    rw [Outline.entry] at hb
    rw [bodyParts, Outline.onPage, filled_cons_filled hb, filled_append, List.map_cons,
      List.map_append, Outline.entry]
    show e.anchor :: List.filterMap Part.anchor? (memberParts o level none leaves ++ _) = _
    rw [List.filterMap_append, anchors_memberParts o ht]
    congr 2
    cases hi : o.inlineTypes with
    | true => exact anchors_nestedParts hi level nested
    | false => rfl

theorem anchors_nestedParts (hi : o.inlineTypes = true) (level : Nat) (nested : List Outline) :
    (nestedParts o level nested).filterMap Part.anchor? =
      (filled (metEach nested)).map Entry.anchor := by
  match nested with
  | [] => rfl
  | first :: rest =>
    rw [nestedParts, metEach, List.filterMap_append, anchors_nestedParts hi level rest,
      filled_append, List.map_append]
    congr 1
    cases hskip : first.entry.skip? with
    | some reason =>
        have hb := isBlank_of_skip hskip
        rw [met_of_blank hb, filled_cons_blank hb]
        rfl
    | none =>
        have hb := isBlank_of_noSkip hskip
        rw [← onPage_true hb, ← hi, ← anchors_bodyParts (level + 1) first hb]
        simp only [List.filterMap_append, anchors_anchorParts o ht]
        rfl
end

end Anchors

/-! ## Pages -/

theorem contents_parts (o : Options) (names : Names) (tree : Outline) :
    (parts o names tree).filterMap Part.contents? =
      if o.writeContents then [contentsLines o names 0 tree] else [] := by
  have hanchor : (anchorParts o tree.entry).filterMap Part.contents? = [] := by
    unfold anchorParts
    split <;> rfl
  have htitle : (if o.writeTitle then [Part.title tree.entry.fullName]
      else []).filterMap Part.contents? = [] := by
    split <;> rfl
  have hbody : (bodyParts o 2 tree).filterMap Part.contents? = [] := by
    rw [List.filterMap_eq_nil_iff]
    intro part hpart
    have hin := inText_bodyParts o 2 tree part hpart
    cases part <;> first | rfl | cases hin
  rw [parts]
  simp only [List.filterMap_append, hanchor, htitle, hbody, List.nil_append, List.append_nil]
  split <;> rfl

theorem anchors_parts (o : Options) (names : Names) (tree : Outline)
    (hb : tree.entry.isBlank = false) :
    (parts o names tree).filterMap Part.anchor? =
      if o.writeContents then (filled (tree.onPage o.inlineTypes)).map Entry.anchor else [] := by
  have htitle : (if o.writeTitle then [Part.title tree.entry.fullName]
      else []).filterMap Part.anchor? = [] := by
    split <;> rfl
  rw [parts]
  simp only [List.filterMap_append, htitle, List.append_nil]
  cases ht : o.writeContents with
  | true =>
      rw [anchors_anchorParts o ht, if_pos rfl, if_pos rfl]
      exact anchors_bodyParts o ht 2 tree hb
  | false =>
      have hanchor : (anchorParts o tree.entry).filterMap Part.anchor? = [] := by
        rw [anchorParts, ht]
        rfl
      rw [hanchor, if_neg Bool.false_ne_true, if_neg Bool.false_ne_true]
      show List.filterMap Part.anchor? (bodyParts o 2 tree) = []
      rw [List.filterMap_eq_nil_iff]
      intro part hpart
      have hin := inText_bodyParts o 2 tree part hpart
      cases part with
      | anchor kind name => exact absurd (ht.symm.trans hin) Bool.false_ne_true
      | _ => rfl

theorem proseIds_parts (o : Options) (names : Names) (tree : Outline)
    (hb : tree.entry.isBlank = false) :
    (parts o names tree).filterMap Part.proseId? =
      (filled (tree.onPage o.inlineTypes)).map Entry.id := by
  rw [proseIds_eq_visits, visits_parts o names tree hb, shownIds_visits]

section Forest

variable {p : Project} (hp : p.IsForest) (o : Options)

include hp

/-- An item that is not blank has a page. -/
theorem exists_page (names : Names) {id : ItemId} (hid : id < p.items.size)
    (hb : isBlankAt p id = false) :
    ∃ file written, Output.page id file written ∈ (write p o names id).2.1 := by
  have hmem : id ∈ pageIds (write p o names id).2.1 := by
    rw [pageIds_write_eq hp hid, hb, if_neg Bool.false_ne_true]
    exact List.mem_cons_self
  obtain ⟨⟨_, file⟩, hnamed, rfl⟩ := List.mem_map.1 hmem
  obtain ⟨output, houtput, hpage⟩ := List.mem_filterMap.1 hnamed
  cases output with
  | page id name written =>
      cases hpage
      exact ⟨_, written, houtput⟩
  | skipped reason => cases hpage

/-- The link target of an item. -/
def anchorAt (p : Project) (id : ItemId) : String := anchorId (kindAt p id) (nameAt p id)

theorem anchors_eq_ids {e : Entry} (he : e.Of p) (hb : e.isBlank = false) (kinds : KindTable)
    (inline : Bool) :
    (filled ((outline p kinds e).onPage inline)).map Entry.anchor =
      ((filled ((outline p kinds e).onPage inline)).map Entry.id).map (anchorAt p) := by
  rw [List.map_map]
  refine List.map_congr_left fun m hm => ?_
  have hshown := (onPage_sublist inline (by rwa [entry_outline])).mem (List.mem_filter.1 hm).1
  have hof := ((mem_met hp kinds he m).1 hshown).1
  rw [Entry.anchor, hof.kind, hof.name]
  rfl

/-- An item that is not blank has a page.  A page with contents holds them once and has all
its links within the page there.  These lead to the anchors on the page, in their order, and
there is one for each item whose prose is on the page.  On a page without contents there are
no anchors.  Links, anchors and prose are those of the file. -/
theorem links_eq_anchors {root : ItemId} (hroot : root < p.items.size) (names : Names) :
    (isBlankAt p root = false →
      ∃ file written, Output.page root file written ∈ (write p o names root).2.1) ∧
    ∀ id file written, Output.page id file written ∈ (write p o names root).2.1 →
      (Output.page id file written).written? = some ⟨file, markdown (pieces written)⟩ ∧
      (o.writeContents = true →
        (∃ lines, written.filterMap Part.contents? = [lines] ∧
          (pieces written).filterMap Piece.target? = lines.filterMap ContentsLine.target?) ∧
        (pieces written).filterMap Piece.target? = (pieces written).filterMap Piece.anchor? ∧
        (pieces written).filterMap Piece.anchor? =
          ((pieces written).filterMap Piece.proseId?).map (anchorAt p)) ∧
      (o.writeContents = false → (pieces written).filterMap Piece.anchor? = []) := by
  obtain ⟨e, he, rfl, hof⟩ := exists_entry hroot
  refine ⟨exists_page hp o names hroot, ?_⟩
  intro id file written hpage
  rw [write_eq he] at hpage
  generalize Names.after names (callGrants p o names e) = given at hpage
  obtain ⟨m, hm, rfl, hb, _, rfl⟩ := exists_entry_of_page hp o _ hpage hof
  have hb' : (outline p o.kinds m).entry.isBlank = false := by rwa [entry_outline]
  refine ⟨(Output.page m.id file _).written?_eq, ?_, ?_⟩
  · intro ht
    have hcontents : (parts o given (outline p o.kinds m)).filterMap Part.contents? =
        [contentsLines o given 0 (outline p o.kinds m)] := by
      rw [contents_parts, ht, if_pos rfl]
    have hanchors : (pieces (parts o given (outline p o.kinds m))).filterMap Piece.anchor? =
        (filled ((outline p o.kinds m).onPage o.inlineTypes)).map Entry.anchor := by
      rw [anchors_pieces, anchors_parts o _ _ hb', ht, if_pos rfl]
    have htargets : (pieces (parts o given (outline p o.kinds m))).filterMap Piece.target? =
        (contentsLines o given 0 (outline p o.kinds m)).filterMap ContentsLine.target? := by
      rw [targets_pieces, hcontents, List.flatMap_singleton]
    refine ⟨⟨_, hcontents, htargets⟩, ?_, ?_⟩
    · rw [htargets, targets_contentsLines o _ 0 _ hb', hanchors]
    · rw [hanchors, proseIds_pieces, proseIds_parts o _ _ hb', anchors_eq_ids hp hm hb]
  · intro ht
    rw [anchors_pieces, anchors_parts o _ _ hb', ht, if_neg Bool.false_ne_true]

end Forest

/-- A class with a field and a nested class.  The nested class has a field too, and a class
without documentation. -/
def typesSample : Project :=
  (Project.Operation.addMember 2 (Item.new "B" "class" " ")).run <|
    (Project.Operation.addMember 2 (Item.new "y" "field" "y")).run <|
    (Project.Operation.addMember 0 (Item.new "C" "class" "c")).run <|
    (Project.Operation.addMember 0 (Item.new "f" "field" "f")).run <|
    (Project.Operation.addTopLevel 0 (Item.new "A" "class" "a")).run <|
    (Project.Operation.namespaceIndex "N" "P").run {}

theorem typesSample_isForest : typesSample.IsForest := by
  refine Project.Reachable.isForest (.step _ (.step _ (.step _ (.step _ (.step _
    (.step _ .empty trivial) ?_) ?_) ?_) ?_) ?_)
  · show 0 < _
    decide +kernel
  · show 0 < _
    decide +kernel
  · show 0 < _
    decide +kernel
  · show 2 < _
    decide +kernel
  · show 2 < _
    decide +kernel

/-- The page of the outer class, which has the nested class on it. -/
def typesPage : WrittenPage :=
  { fileName := "A"
    content :=
      "<a id=\"class-a\"></a>\n# A\n\n" ++
      "## Table of Contents\n- [class A](#class-a)\n  - [field f](#field-f)\n" ++
      "  - [class C](#class-c)\n    - [field y](#field-y)\n\n" ++
      "a\n\n## Fields\n\n<a id=\"field-f\"></a>\n### field f\n\nf\n\n" ++
      "<a id=\"class-c\"></a>\n## C\n\n" ++
      "c\n\n### Fields\n\n<a id=\"field-y\"></a>\n#### field y\n\ny\n\n" }

theorem links_eq_anchors_typesSample :
    typesSample.IsForest ∧ 0 < typesSample.items.size ∧ isBlankAt typesSample 0 = false ∧
      ∃ file written,
        .page 0 file written ∈
          (write typesSample { writeContents := true, inlineTypes := true } {} 0).2.1 ∧
        (Output.page 0 file written).written? = some typesPage ∧
        markdown (pieces written) = typesPage.content ∧
        (pieces written).filterMap Piece.target? = ["class-a", "field-f", "class-c", "field-y"] ∧
        (pieces written).filterMap Piece.anchor? =
          ["class-a", "field-f", "class-c", "field-y"] := by
  have hsize : 0 < typesSample.items.size := by decide +kernel
  have hblank : isBlankAt typesSample 0 = false := by decide +kernel
  obtain ⟨hpage, hlinks⟩ := links_eq_anchors typesSample_isForest
    { writeContents := true, inlineTypes := true } hsize {}
  obtain ⟨file, written, hmem⟩ := hpage hblank
  obtain ⟨hwritten, hcontents, _⟩ := hlinks 0 file written hmem
  obtain ⟨_, htargets, _⟩ := hcontents rfl
  have hcall : (write typesSample { writeContents := true, inlineTypes := true } {} 0).2.1.map
      (fun output => (output.written?, output.pieces.filterMap Piece.anchor?)) =
        [(some typesPage, ["class-a", "field-f", "class-c", "field-y"])] := by
    decide +kernel
  obtain ⟨htext, hanchors⟩ :=
    Prod.mk.inj (List.mem_singleton.1 (hcall ▸ List.mem_map_of_mem hmem))
  refine ⟨typesSample_isForest, hsize, hblank, file, written, hmem, htext, ?_,
    htargets.trans hanchors, hanchors⟩
  exact congrArg WrittenPage.content (Option.some.inj (hwritten.symm.trans htext))

end Page
end DocPages

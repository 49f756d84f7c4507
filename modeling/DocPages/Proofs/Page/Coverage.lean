/-
Nothing is lost and nothing is shown twice.

Writing an item comes to the items of `Met`, in one order whether nested types are part
of the page of their container or have pages of their own.  At each of them it does one
of two things, a `Visit`: it writes the prose, or it skips the item and says why.
`visits_outputs` reads the visits off all pages of a call, and the theorem this file
exists for, `write_covers`, says what that means for the prose, the pages and the log.
What stands in the files as the prose of an item is its documentation: `proseOf_write`.

The members of an item that is no container are not met, even when the item itself is
shown, and `leafSample_unreported` is a project where that can be seen.
-/
import DocPages.Proofs.Page.Rendered

namespace DocPages
namespace Page

open Text

/-! ## Visits -/

inductive Visit where
  | shown (entry : Entry)
  | skipped (reason : Skip)

def Entry.visit (e : Entry) : Visit :=
  match e.skip? with
  | some reason => .skipped reason
  | none => .shown e

theorem Entry.visit_of_filled {e : Entry} (h : e.isBlank = false) : e.visit = .shown e := by
  rw [Entry.visit]
  cases hskip : e.skip? with
  | some reason => exact absurd (isBlank_of_skip hskip) (by rw [h]; exact Bool.false_ne_true)
  | none => rfl

def Visit.log : Visit → Log
  | .shown e =>
    match Markup.parse e.item.markup with
    | .ok _ => []
    | .error fault =>
      [.error ("malformed documentation on " ++ e.fullName ++ ": " ++ fault.message)]
  | .skipped reason => [reason.event]

def Visit.shownId? : Visit → Option ItemId
  | .shown e => some e.id
  | .skipped _ => none

def Part.visit? : Part → Option Visit
  | .prose e _ _ => some (.shown e)
  | .skipped reason => some (.skipped reason)
  | _ => none

def Output.visits : Output → List Visit
  | .page _ _ parts => parts.filterMap Part.visit?
  | .skipped reason => [.skipped reason]

/-- Headings, anchors and contents report nothing, and prose reports its markup's fault at
whatever level it stands. -/
theorem Part.log_eq (part : Part) : part.log = part.visit?.toList.flatMap Visit.log := by
  cases part with
  | prose e level showAttributes =>
      simp only [Part.log, Part.visit?, Option.toList_some, List.flatMap_singleton, Visit.log,
        Prose.render]
      cases Markup.parse e.item.markup <;> rfl
  | skipped reason => rfl
  | _ => rfl

theorem log_filterMap_visit? (parts : List Part) :
    parts.flatMap Part.log = (parts.filterMap Part.visit?).flatMap Visit.log := by
  induction parts with
  | nil => rfl
  | cons part rest ih =>
      rw [List.flatMap_cons, ih, Part.log_eq]
      cases h : part.visit? <;> simp [h]

theorem Output.log_eq (output : Output) : output.log = output.visits.flatMap Visit.log := by
  cases output with
  | page id file parts => exact log_filterMap_visit? parts
  | skipped reason => simp [Output.log, Output.visits, Visit.log]

/-! ## The visits of a page -/

theorem visits_anchorParts (o : Options) (e : Entry) :
    (anchorParts o e).filterMap Part.visit? = [] := by
  unfold anchorParts
  split <;> rfl

/-- The title of a group is no visit, and no link leads to it. -/
theorem filterMap_group {α : Type} {f : Part → Option α}
    (hf : ∀ level title, f (.group level title) = none) (level : Nat) (title : Option String) :
    (title.map (Part.group level)).toList.filterMap f = [] := by
  cases title with
  | none => rfl
  | some title => simp [hf]

theorem visits_memberParts (o : Options) (level : Nat) (current : Option String)
    (leaves : List Entry) :
    (memberParts o level current leaves).filterMap Part.visit? = leaves.map Entry.visit := by
  induction leaves generalizing current with
  | nil => rfl
  | cons m rest ih =>
      rw [memberParts, List.map_cons, Entry.visit]
      cases hskip : m.skip? with
      | some reason =>
          show Visit.skipped reason :: _ = Visit.skipped reason :: _
          rw [ih]
      | none =>
          simp only [List.filterMap_append, visits_anchorParts, ih]
          split
          · rfl
          · rw [filterMap_group fun _ _ => rfl]
            rfl

mutual
theorem visits_bodyParts (o : Options) (level : Nat) (tree : Outline)
    (hb : tree.entry.isBlank = false) :
    (bodyParts o level tree).filterMap Part.visit? =
      (tree.onPage o.inlineTypes).map Entry.visit := by
  match tree, hb with
  | .node e leaves nested, hb =>
    rw [Outline.entry] at hb
    rw [bodyParts, Outline.onPage, List.cons_append, List.map_cons, List.map_append,
      Entry.visit_of_filled hb]
    show Visit.shown e :: List.filterMap Part.visit? (_ ++ _) = _
    rw [List.filterMap_append, visits_memberParts]
    congr 2
    cases hi : o.inlineTypes with
    | true => exact visits_nestedParts o hi level nested
    | false => rfl

/-- Nested types that are part of the page are visited with all that is in them. -/
theorem visits_nestedParts (o : Options) (hi : o.inlineTypes = true) (level : Nat)
    (nested : List Outline) :
    (nestedParts o level nested).filterMap Part.visit? = (metEach nested).map Entry.visit := by
  match nested with
  | [] => rfl
  | first :: rest =>
    rw [nestedParts, metEach, List.filterMap_append, List.map_append,
      visits_nestedParts o hi level rest]
    congr 1
    cases hskip : first.entry.skip? with
    | some reason =>
        rw [met_of_blank (isBlank_of_skip hskip), List.map_singleton, Entry.visit, hskip]
        rfl
    | none =>
        have hb := isBlank_of_noSkip hskip
        have hbody := visits_bodyParts o (level + 1) first hb
        rw [hi, onPage_true hb] at hbody
        simp only [List.filterMap_append, visits_anchorParts, hbody]
        rfl
end

/-- A page is the prose of its item, its members, and the nested types that are part of
it. -/
theorem visits_parts (o : Options) (names : Names) (tree : Outline)
    (hb : tree.entry.isBlank = false) :
    (parts o names tree).filterMap Part.visit? = (tree.onPage o.inlineTypes).map Entry.visit := by
  have htitle : (if o.writeTitle then [Part.title tree.entry.fullName]
      else []).filterMap Part.visit? = [] := by
    split <;> rfl
  have hcontents : (if o.writeContents then [Part.contents (contentsLines o names 0 tree)]
      else []).filterMap Part.visit? = [] := by
    split <;> rfl
  rw [parts]
  simp only [List.filterMap_append, visits_anchorParts, htitle, hcontents, List.nil_append,
    visits_bodyParts o 2 tree hb]

theorem Entry.eq_of_visit {e m : Entry} (h : m.visit = .shown e) : m = e := by
  unfold Entry.visit at h
  split at h
  · cases h
  · exact Visit.shown.inj h

/-- The prose on a page is that of the entries on it. -/
theorem prose_parts {o : Options} {names : Names} {tree : Outline}
    (hb : tree.entry.isBlank = false) {e : Entry} {level : Nat} {showAttributes : Bool}
    (h : .prose e level showAttributes ∈ parts o names tree) :
    e ∈ tree.onPage o.inlineTypes ∧ showAttributes = o.writeAttributes := by
  constructor
  · have hvisit : .shown e ∈ (parts o names tree).filterMap Part.visit? :=
      List.mem_filterMap.2 ⟨_, h, rfl⟩
    rw [visits_parts o names tree hb] at hvisit
    obtain ⟨m, hm, hshown⟩ := List.mem_map.1 hvisit
    exact Entry.eq_of_visit hshown ▸ hm
  · rw [parts, List.mem_append, List.mem_append, List.mem_append] at h
    rcases h with ((hanchor | htitle) | hcontents) | hbody
    · exact inText_anchorParts o tree.entry _ hanchor
    · split at htitle
      · cases List.mem_singleton.1 htitle
      · cases htitle
    · split at hcontents
      · cases List.mem_singleton.1 hcontents
      · cases hcontents
    · exact inText_bodyParts o 2 tree _ hbody

/-! ## The visits of a call -/

mutual
/-- Over all pages, every entry that is met is visited once, in order. -/
theorem visits_outputs (o : Options) (names : Names) (tree : Outline)
    (h : ∀ e ∈ tree.paged o.inlineTypes, (names.find? e.id).isSome = true) :
    (outputs o names tree).flatMap Output.visits = tree.met.map Entry.visit := by
  match tree, h with
  | .node e leaves nested, h =>
    rw [Outline.paged] at h
    rw [outputs, Outline.met]
    cases hskip : e.skip? with
    | some reason => simp [Entry.isBlank, Entry.visit, hskip, Output.visits]
    | none =>
        have hb := isBlank_of_noSkip hskip
        rw [hb, if_neg Bool.false_ne_true] at h ⊢
        obtain ⟨file, hfile⟩ := Option.isSome_iff_exists.1 (h e List.mem_cons_self)
        simp only [hfile, List.flatMap_cons, Output.visits]
        rw [visits_parts o names (.node e leaves nested) hb, Outline.onPage]
        cases hi : o.inlineTypes with
        | true => simp
        | false =>
            rw [hi] at h
            have hnested := visits_outputsEach o names nested
              (fun m hm => h m (List.mem_cons_of_mem _ (by rwa [hi] at hm)))
            simp [hnested]

theorem visits_outputsEach (o : Options) (names : Names) (trees : List Outline)
    (h : ∀ e ∈ pagedEach o.inlineTypes trees, (names.find? e.id).isSome = true) :
    (outputsEach o names trees).flatMap Output.visits = (metEach trees).map Entry.visit := by
  match trees, h with
  | [], _ => rfl
  | first :: rest, h =>
    rw [pagedEach] at h
    rw [outputsEach, metEach, List.flatMap_append, List.map_append,
      visits_outputs o names first (fun e he => h e (List.mem_append_left _ he)),
      visits_outputsEach o names rest (fun e he => h e (List.mem_append_right _ he))]
end

/-! ## Items -/

def Part.proseId? : Part → Option ItemId
  | .prose e _ _ => some e.id
  | _ => none

/-- The items whose prose is on a page, in order. -/
def Output.proseIds : Output → List ItemId
  | .page _ _ parts => parts.filterMap Part.proseId?
  | .skipped _ => []

/-- The items that have a page, in order. -/
def pageIds (written : List Output) : List ItemId :=
  (written.filterMap Output.named?).map Prod.fst

/-- What is reported of an item that writing comes to: why it is skipped, or the fault of
its markup. -/
def reports (p : Project) (id : ItemId) : Log :=
  match p.item? id with
  | none => []
  | some item =>
    if allBlank item.name.toList then
      [.error ("skipping " ++ item.kind ++ " with an empty name")]
    else if allBlank item.markup.toList then
      [.warning ("empty documentation on " ++ p.fullName id)]
    else
      match Markup.parse item.markup with
      | .ok _ => []
      | .error fault =>
        [.error ("malformed documentation on " ++ p.fullName id ++ ": " ++ fault.message)]

theorem proseIds_eq_visits (parts : List Part) :
    parts.filterMap Part.proseId? = (parts.filterMap Part.visit?).filterMap Visit.shownId? := by
  rw [List.filterMap_filterMap]
  congr 1
  funext part
  cases part <;> rfl

theorem Output.proseIds_eq (output : Output) :
    output.proseIds = output.visits.filterMap Visit.shownId? := by
  cases output with
  | page id file parts => exact proseIds_eq_visits parts
  | skipped reason => rfl

/-- The entries that are not blank. -/
def filled (entries : List Entry) : List Entry := entries.filter fun e => !e.isBlank

theorem filled_append (a b : List Entry) : filled (a ++ b) = filled a ++ filled b :=
  List.filter_append a b

theorem filled_cons_blank {e : Entry} (h : e.isBlank = true) (rest : List Entry) :
    filled (e :: rest) = filled rest := by
  rw [filled, List.filter_cons_of_neg (by rw [h]; decide), filled]

theorem filled_cons_filled {e : Entry} (h : e.isBlank = false) (rest : List Entry) :
    filled (e :: rest) = e :: filled rest := by
  rw [filled, List.filter_cons_of_pos (by rw [h]; rfl), filled]

theorem shownIds_visits (entries : List Entry) :
    (entries.map Entry.visit).filterMap Visit.shownId? = (filled entries).map Entry.id := by
  induction entries with
  | nil => rfl
  | cons e rest ih =>
      rw [List.map_cons, List.filterMap_cons, ih, Entry.visit]
      cases hskip : e.skip? with
      | some reason =>
          rw [filled_cons_blank (isBlank_of_skip hskip)]
          rfl
      | none =>
          rw [filled_cons_filled (isBlank_of_noSkip hskip)]
          rfl

theorem Entry.Of.log_visit {p : Project} {e : Entry} (h : e.Of p) :
    e.visit.log = reports p e.id := by
  rw [reports, h.1, ← h.2]
  simp only [Entry.visit, Entry.skip?]
  by_cases hname : allBlank e.item.name.toList = true
  · rw [if_pos hname, if_pos hname]
    rfl
  · rw [if_neg hname, if_neg hname]
    by_cases hmarkup : allBlank e.item.markup.toList = true
    · rw [if_pos hmarkup, if_pos hmarkup]
      rfl
    · rw [if_neg hmarkup, if_neg hmarkup]
      rfl

theorem proseIds_pieces (parts : List Part) :
    (pieces parts).filterMap Piece.proseId? = parts.filterMap Part.proseId? := by
  refine filterMap_pieces (fun part => ?_) parts
  cases part with
  | contents lines =>
      refine (filterMap_contents (fun _ => rfl) lines).trans ?_
      refine List.filterMap_eq_nil_iff.2 fun line _ => ?_
      cases line <;> rfl
  | _ => rfl

theorem Output.proseIds_pieces (output : Output) :
    output.pieces.filterMap Piece.proseId? = output.proseIds := by
  cases output with
  | page id file parts => exact Page.proseIds_pieces parts
  | skipped reason => rfl

section Forest

variable {p : Project} (hp : p.IsForest)

include hp

theorem visits_write {id : ItemId} {e : Entry} (he : entryOf? p id = some e) (hof : e.Of p)
    (o : Options) (names : Names) :
    (write p o names id).2.1.flatMap Output.visits =
      (outline p o.kinds e).met.map Entry.visit := by
  rw [write_eq he]
  exact visits_outputs o _ _ fun m hm => find?_paged hp o names hof hm

theorem proseIds_write {id : ItemId} {e : Entry} (he : entryOf? p id = some e) (hof : e.Of p)
    (o : Options) (names : Names) :
    (write p o names id).2.1.flatMap Output.proseIds =
      ((outline p o.kinds e).met.map Entry.id).filter fun j => !isBlankAt p j := by
  have hmet : ∀ m ∈ (outline p o.kinds e).met, m.Of p := fun m hm =>
    ((mem_met hp o.kinds hof m).1 hm).1
  rw [funext Output.proseIds_eq, ← List.filterMap_flatMap, visits_write hp he hof,
    shownIds_visits, filled, List.filter_map]
  congr 1
  refine List.filter_congr fun m hm => ?_
  rw [Function.comp_apply, (hmet m hm).isBlank]

theorem log_write {id : ItemId} {e : Entry} (he : entryOf? p id = some e) (hof : e.Of p)
    (o : Options) (names : Names) :
    (write p o names id).2.2 =
      (callGrants p o names e).flatMap Grant.log ++
        ((outline p o.kinds e).met.map Entry.id).flatMap (reports p) := by
  have hmet : ∀ m ∈ (outline p o.kinds e).met, m.Of p := fun m hm =>
    ((mem_met hp o.kinds hof m).1 hm).1
  have hvisits := visits_write hp he hof o names
  rw [write_eq he] at hvisits ⊢
  simp only at hvisits ⊢
  rw [funext Output.log_eq, ← List.flatMap_assoc, hvisits, List.flatMap_map, List.flatMap_map]
  congr 1
  exact List.flatMap_congr fun m hm => (hmet m hm).log_visit

/-- The pages of a call are those that it gives names to. -/
theorem ids_callGrants {id : ItemId} {e : Entry} (he : entryOf? p id = some e) (hof : e.Of p)
    (o : Options) (names : Names) :
    (callGrants p o names e).map (fun g => g.entry.id) = pageIds (write p o names id).2.1 := by
  rw [pageIds, named_write hp he hof, List.map_map]
  rfl

theorem pageIds_write {id : ItemId} {e : Entry} (he : entryOf? p id = some e) (hof : e.Of p)
    (o : Options) (names : Names) :
    pageIds (write p o names id).2.1 =
      ((outline p o.kinds e).paged o.inlineTypes).map Entry.id := by
  rw [← ids_callGrants hp he hof, ← entries_grants o.inlineTypes none names.used, List.map_map]
  rfl

/-- The pages of an item are its own and then those of its nested types, in their order. -/
theorem pageIds_write_eq {id : ItemId} (h : id < p.items.size) (o : Options) (names : Names) :
    pageIds (write p o names id).2.1 =
      if isBlankAt p id then []
      else id :: if o.inlineTypes then []
        else (nestedIds p o.kinds id).flatMap fun j => pageIds (write p o names j).2.1 := by
  obtain ⟨e, he, rfl, hof⟩ := exists_entry h
  rw [pageIds_write hp he hof, outline_eq, Outline.paged, hof.isBlank, pagedEach_eq,
    List.flatMap_map, ← ids_nestedOf hp, List.flatMap_map]
  cases isBlankAt p e.id with
  | true => rfl
  | false =>
      cases hi : o.inlineTypes with
      | true => rfl
      | false =>
          simp only [Bool.false_eq_true, if_false, List.map_cons, List.map_flatMap]
          congr 1
          refine List.flatMap_congr fun m hm => ?_
          have hm' := ((mem_nestedOf hp o.kinds).1 hm).2.1
          rw [pageIds_write hp (entryOf?_eq_some.2 ⟨rfl, hm'⟩) hm', hi]

/-- Each page of a call is the page of an entry that has one. -/
theorem exists_entry_of_page (o : Options) (names : Names) {e : Entry} {id : ItemId} {file : String}
    {written : List Part} (h : .page id file written ∈ outputs o names (outline p o.kinds e))
    (he : e.Of p) :
    ∃ m : Entry, m.Of p ∧ m.id = id ∧ m.isBlank = false ∧
      m ∈ (outline p o.kinds e).paged o.inlineTypes ∧
      written = parts o names (outline p o.kinds m) := by
  induction e using outline_induction p o.kinds with
  | step e ih =>
      rw [outline_eq, outputs] at h
      cases hskip : e.skip? with
      | some reason => simp [hskip] at h
      | none =>
          have hb := isBlank_of_noSkip hskip
          have hpaged : (outline p o.kinds e).paged o.inlineTypes =
              e :: if o.inlineTypes then []
                else (nestedOf p o.kinds e.id).flatMap fun m =>
                  (outline p o.kinds m).paged o.inlineTypes := by
            rw [outline_eq, Outline.paged, hb, if_neg Bool.false_ne_true, pagedEach_eq,
              List.flatMap_map]
          rw [hskip] at h
          simp only at h
          rw [hpaged]
          split at h
          · cases h
          · rcases List.mem_cons.1 h with hown | hnested
            · cases hown
              exact ⟨e, he, rfl, hb, List.mem_cons_self, by rw [outline_eq]⟩
            · split at hnested
              · cases hnested
              · rename_i hi
                rw [outputsEach_eq, List.flatMap_map, List.mem_flatMap] at hnested
                obtain ⟨x, hx, hpage⟩ := hnested
                obtain ⟨m, hm, hid, hmb, hmem, hparts⟩ :=
                  ih x hx hpage ((mem_nestedOf hp o.kinds).1 hx).2.1
                refine ⟨m, hm, hid, hmb, List.mem_cons_of_mem _ ?_, hparts⟩
                rw [if_neg hi]
                exact List.mem_flatMap.2 ⟨x, hx, hmem⟩

/-- What is written as the prose of an item on a page of a call is the prose of that item. -/
theorem proseOf_write {e : Entry} {id : ItemId} (he : entryOf? p id = some e) (hof : e.Of p)
    (o : Options) (names : Names) {shown : ItemId} {content : String}
    (h : .prose shown content ∈ (write p o names id).2.1.flatMap Output.pieces) :
    ∃ item level, p.item? shown = some item ∧ ProseOf o item level content := by
  obtain ⟨output, houtput, hpiece⟩ := List.mem_flatMap.1 h
  cases output with
  | skipped reason => cases hpiece
  | page root file written =>
      rw [write_eq he] at houtput
      obtain ⟨m, hm, rfl, hb, _, rfl⟩ := exists_entry_of_page hp o _ houtput hof
      obtain ⟨x, level, _, hprose, rfl, rfl⟩ := mem_pieces_prose hpiece
      have hb' : (outline p o.kinds m).entry.isBlank = false := by rwa [entry_outline]
      obtain ⟨hx, rfl⟩ := prose_parts hb' hprose
      have hmet := (mem_met hp o.kinds hm x).1 ((onPage_sublist o.inlineTypes hb').mem hx)
      exact ⟨x.item, level, hmet.1.1, proseOf_proseText o x.item level⟩

/-- Writing comes to each item of `Met` once, in an order that is the same whether nested
types have pages of their own or not.  It writes the prose of those that are not blank and
reports why the others are skipped.  Each item that is shown with its members has a page,
before those nested in it, unless nested types are part of the page of the root.  The files
are what the pages say, and each prose on them is that of its item. -/
theorem write_covers {root : ItemId} (hroot : root < p.items.size) (kinds : KindTable) :
    ∃ met : List ItemId, met.Nodup ∧ (∀ id, id ∈ met ↔ Met p root id) ∧
      ∀ (o : Options) (names : Names), o.kinds = kinds →
        (write p o names root).2.1.flatMap Output.proseIds =
          met.filter (fun id => !isBlankAt p id) ∧
        (∃ gs : List Grant,
          gs.map (fun g => g.entry.id) = pageIds (write p o names root).2.1 ∧
            (write p o names root).2.2 = gs.flatMap Grant.log ++ met.flatMap (reports p)) ∧
        pageIds (write p o names root).2.1 =
          (if isBlankAt p root then []
          else root :: if o.inlineTypes then []
            else (nestedIds p kinds root).flatMap fun id => pageIds (write p o names id).2.1) ∧
        (o.inlineTypes = false →
          (pageIds (write p o names root).2.1).Nodup ∧
            ∀ id, id ∈ pageIds (write p o names root).2.1 ↔ Opened p root id) ∧
        (∀ output ∈ (write p o names root).2.1, output.written? =
          output.named?.map fun named => ⟨named.2, markdown output.pieces⟩) ∧
        ((write p o names root).2.1.flatMap Output.pieces).filterMap Piece.proseId? =
          met.filter (fun id => !isBlankAt p id) ∧
        ∀ id content, .prose id content ∈ (write p o names root).2.1.flatMap Output.pieces →
          ∃ item level, p.item? id = some item ∧ ProseOf o item level content := by
  obtain ⟨e, he, rfl, hof⟩ := exists_entry hroot
  refine ⟨(outline p kinds e).met.map Entry.id, nodup_met hp kinds hof,
    mem_ids_met hp kinds hof, ?_⟩
  rintro o names rfl
  refine ⟨proseIds_write hp he hof o names,
    ⟨_, ids_callGrants hp he hof o names, log_write hp he hof o names⟩,
    pageIds_write_eq hp hroot o names, ?_, fun output _ => output.written?_eq, ?_,
    fun _ _ => proseOf_write hp he hof o names⟩
  · intro hi
    rw [pageIds_write hp he hof, hi]
    exact ⟨((paged_sublist false _).map Entry.id).nodup (nodup_met hp o.kinds hof),
      mem_ids_paged hp o.kinds hof⟩
  · rw [List.filterMap_flatMap, funext Output.proseIds_pieces]
    exact proseIds_write hp he hof o names

end Forest

/-- A class with a field and a nested class without documentation.  The field has a member
without documentation too, and the nested class has a documented one. -/
def leafSample : Project :=
  (Project.Operation.addMember 3 (Item.new "x" "field" "x")).run <|
    (Project.Operation.addMember 0 (Item.new "B" "class" " ")).run <|
    (Project.Operation.addMember 1 (Item.new "g" "field" " ")).run <|
    (Project.Operation.addMember 0 (Item.new "f" "field" "f")).run <|
    (Project.Operation.addTopLevel 0 (Item.new "A" "class" "a")).run <|
    (Project.Operation.namespaceIndex "N" "P").run {}

theorem leafSample_isForest : leafSample.IsForest := by
  refine Project.Reachable.isForest (.step _ (.step _ (.step _ (.step _ (.step _
    (.step _ .empty trivial) ?_) ?_) ?_) ?_) ?_)
  · show 0 < _
    decide +kernel
  · show 0 < _
    decide +kernel
  · show 1 < _
    decide +kernel
  · show 0 < _
    decide +kernel
  · show 3 < _
    decide +kernel

theorem write_covers_leafSample :
    leafSample.IsForest ∧ 0 < leafSample.items.size ∧
      ∃ met : List ItemId, met.Nodup ∧ (∀ id, id ∈ met ↔ Met leafSample 0 id) ∧
        (write leafSample {} {} 0).2.1.flatMap Output.proseIds =
          met.filter (fun id => !isBlankAt leafSample id) ∧
        (∃ gs : List Grant,
          gs.map (fun g => g.entry.id) = pageIds (write leafSample {} {} 0).2.1 ∧
            (write leafSample {} {} 0).2.2 =
              gs.flatMap Grant.log ++ met.flatMap (reports leafSample)) ∧
        (write leafSample {} {} 0).2.1.filterMap Output.written? =
          [⟨"A", "# A\n\na\n\n## Fields\n\n### field f\n\nf\n\n"⟩] ∧
        (write leafSample {} {} 0).2.1.flatMap Output.pieces =
          [.plain "# A\n\n", .prose 0 "a\n\n", .plain "## Fields\n\n",
            .plain "### field f\n\n", .prose 1 "f\n\n"] ∧
        ∃ item level, leafSample.item? 1 = some item ∧ ProseOf {} item level "f\n\n" := by
  have hsize : 0 < leafSample.items.size := by decide +kernel
  have hpieces : (write leafSample {} {} 0).2.1.flatMap Output.pieces =
      [.plain "# A\n\n", .prose 0 "a\n\n", .plain "## Fields\n\n",
        .plain "### field f\n\n", .prose 1 "f\n\n"] := by decide +kernel
  obtain ⟨met, hnodup, hmem, hwrite⟩ := write_covers leafSample_isForest hsize .default
  obtain ⟨hprose, hlog, _, _, _, _, hof⟩ := hwrite {} {} rfl
  refine ⟨leafSample_isForest, hsize, met, hnodup, hmem, hprose, hlog, by decide +kernel, hpieces,
    hof 1 "f\n\n" ?_⟩
  rw [hpieces]
  decide

/-- The field is shown and its member is blank, but only the nested class is reported. -/
theorem leafSample_unreported :
    leafSample.IsForest ∧ (write leafSample {} {} 0).2.1.flatMap Output.proseIds = [0, 1] ∧
      leafSample.parent? 2 = some 1 ∧ isBlankAt leafSample 2 = true ∧
      (write leafSample {} {} 0).2.2 = [.warning "empty documentation on A.B"] := by
  refine ⟨leafSample_isForest, ?_, ?_, ?_, ?_⟩ <;> decide +kernel

end Page
end DocPages

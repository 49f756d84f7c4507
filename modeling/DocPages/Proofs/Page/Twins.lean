/-
Items that say the same have pages that say the same.

A page is made from an outline, and of the places of its items an outline keeps what is
needed to look up file names.  Twins are outlines that differ in these places alone.  Their
pages ask for the same names in the same order and have the same parts, whatever other
items the two projects hold.  `twin_outline` makes twins from items that say the same,
`write_twin` compares calls for them, and `content_write` calls for one item with other
names in use.
-/
import DocPages.Proofs.Page.Links
import DocPages.Proofs.Project.FullNames
import Mathlib.Data.List.Forall2

namespace DocPages

/-- What an item says, without its place among the others. -/
def Item.bare (item : Item) : Item := { item with members := [], parent := none }

theorem Item.name_eq {a b : Item} (h : a.bare = b.bare) : a.name = b.name := by
  show a.bare.name = b.bare.name
  rw [h]

/-- Two items say the same, and so do their members, in order. -/
inductive Project.Alike (p q : Project) : ItemId → ItemId → Prop where
  | item {i j : ItemId} {a b : Item} (hi : p.item? i = some a) (hj : q.item? j = some b)
      (same : a.bare = b.bare) (members : List.Forall₂ (Project.Alike p q) a.members b.members) :
      Project.Alike p q i j

theorem Project.Alike.items {p q : Project} {i j : ItemId} (h : p.Alike q i j) :
    ∃ a b, p.item? i = some a ∧ q.item? j = some b ∧ a.bare = b.bare ∧
      List.Forall₂ (p.Alike q) a.members b.members := by
  cases h with
  | item hi hj same members => exact ⟨_, _, hi, hj, same, members⟩

namespace Page

/-! ## Lists in step -/

section

variable {α β γ : Type} {R : α → β → Prop}

theorem map_eq_of_forall₂ {f : α → γ} {g : β → γ} {xs : List α} {ys : List β}
    (h : List.Forall₂ R xs ys) (hfg : ∀ x y, R x y → f x = g y) : xs.map f = ys.map g := by
  induction h with
  | nil => rfl
  | cons hhead _ ih => rw [List.map_cons, List.map_cons, hfg _ _ hhead, ih]

theorem flatMap_eq_of_forall₂ {f : α → List γ} {g : β → List γ} {xs : List α} {ys : List β}
    (h : List.Forall₂ R xs ys) (hfg : ∀ x y, R x y → f x = g y) :
    xs.flatMap f = ys.flatMap g := by
  rw [List.flatMap_def, List.flatMap_def, map_eq_of_forall₂ h hfg]

theorem filterMap_eq_of_forall₂ {f : α → Option γ} {g : β → Option γ} {xs : List α}
    {ys : List β} (h : List.Forall₂ R xs ys) (hfg : ∀ x y, R x y → f x = g y) :
    xs.filterMap f = ys.filterMap g := by
  induction h with
  | nil => rfl
  | cons hhead _ ih => rw [List.filterMap_cons, List.filterMap_cons, hfg _ _ hhead, ih]

theorem forall₂_of_mem {S : α → β → Prop} {xs : List α} {ys : List β} (h : List.Forall₂ R xs ys)
    (hS : ∀ x ∈ xs, ∀ y ∈ ys, R x y → S x y) : List.Forall₂ S xs ys := by
  obtain ⟨hlength, hzip⟩ := List.forall₂_iff_zip.1 h
  refine List.forall₂_iff_zip.2 ⟨hlength, fun {x y} hxy => ?_⟩
  exact hS x (List.of_mem_zip hxy).1 y (List.of_mem_zip hxy).2 (hzip hxy)

theorem forall₂_append {xs xs' : List α} {ys ys' : List β} (hlength : xs.length = ys.length) :
    List.Forall₂ R (xs ++ xs') (ys ++ ys') ↔ List.Forall₂ R xs ys ∧ List.Forall₂ R xs' ys' := by
  constructor
  · intro h
    have hfront := List.forall₂_take xs.length h
    have hback := List.forall₂_drop xs.length h
    rw [List.take_left, hlength, List.take_left] at hfront
    rw [List.drop_left, hlength, List.drop_left] at hback
    exact ⟨hfront, hback⟩
  · exact fun ⟨hfront, hback⟩ => List.rel_append hfront hback

/-- Sorting keeps lists in step, if their entries have the same kinds and names. -/
theorem forall₂_sortBy (kinds : KindTable) {kind name : α → String} {kind' name' : β → String}
    {xs : List α} {ys : List β} (h : List.Forall₂ R xs ys)
    (hk : ∀ x y, R x y → kind x = kind' y) (hn : ∀ x y, R x y → name x = name' y) :
    List.Forall₂ R (kinds.sortBy kind name xs) (kinds.sortBy kind' name' ys) := by
  obtain ⟨hlength, hzip⟩ := List.forall₂_iff_zip.1 h
  have hpairs : ∀ z ∈ xs.zip ys, R z.1 z.2 := fun z hz => hzip hz
  have hleft : (kinds.sortBy (kind ∘ Prod.fst) (name ∘ Prod.fst) (xs.zip ys)).map Prod.fst =
      kinds.sortBy kind name ((xs.zip ys).map Prod.fst) :=
    map_sortBy kinds kind name (fun _ _ => rfl) fun _ _ => rfl
  have hright : (kinds.sortBy (kind ∘ Prod.fst) (name ∘ Prod.fst) (xs.zip ys)).map Prod.snd =
      kinds.sortBy kind' name' ((xs.zip ys).map Prod.snd) :=
    map_sortBy kinds kind' name' (fun z hz => hk _ _ (hpairs z hz)) fun z hz =>
      hn _ _ (hpairs z hz)
  rw [List.map_fst_zip (Nat.le_of_eq hlength)] at hleft
  rw [List.map_snd_zip (Nat.le_of_eq hlength.symm)] at hright
  rw [← hleft, ← hright, List.forall₂_map_left_iff, List.forall₂_map_right_iff,
    List.forall₂_same]
  intro z hz
  exact hpairs z ((List.mergeSort_perm _ _).mem_iff.1 hz)

end

/-! ## Twins -/

/-- Two entries say the same. -/
structure Entry.Twin (e e' : Entry) : Prop where
  bare : e.item.bare = e'.item.bare
  fullName : e.fullName = e'.fullName

inductive Outline.Twin : Outline → Outline → Prop where
  | node {e e' : Entry} {leaves leaves' : List Entry} {nested nested' : List Outline}
      (he : e.Twin e') (hleaves : List.Forall₂ Entry.Twin leaves leaves')
      (hnested : List.Forall₂ Outline.Twin nested nested') :
      Outline.Twin (.node e leaves nested) (.node e' leaves' nested')

namespace Entry.Twin

variable {e e' : Entry} (h : e.Twin e')

include h

theorem name : e.item.name = e'.item.name := Item.name_eq h.bare

theorem kind : e.item.kind = e'.item.kind := by
  show e.item.bare.kind = e'.item.bare.kind
  rw [h.bare]

theorem markup : e.item.markup = e'.item.markup := by
  show e.item.bare.markup = e'.item.bare.markup
  rw [h.bare]

theorem container : e.item.container = e'.item.container := by
  show e.item.bare.container = e'.item.bare.container
  rw [h.bare]

theorem attributes : e.item.attributes = e'.item.attributes := by
  show e.item.bare.attributes = e'.item.bare.attributes
  rw [h.bare]

theorem baseTypes : e.item.baseTypes = e'.item.baseTypes := by
  show e.item.bare.baseTypes = e'.item.bare.baseTypes
  rw [h.bare]

theorem skip? : e.skip? = e'.skip? := by
  unfold Entry.skip?
  rw [h.name, h.kind, h.markup, h.fullName]

theorem isBlank : e.isBlank = e'.isBlank := by
  rw [Entry.isBlank, h.skip?, Entry.isBlank]

end Entry.Twin

theorem Entry.Twin.refl (e : Entry) : e.Twin e := ⟨rfl, rfl⟩

mutual
theorem Outline.Twin.refl : ∀ tree : Outline, tree.Twin tree
  | .node e _ nested =>
    .node (.refl e) (List.forall₂_same.2 fun m _ => .refl m) (twinEach_refl nested)

theorem twinEach_refl : ∀ trees : List Outline, List.Forall₂ Outline.Twin trees trees
  | [] => .nil
  | first :: rest => .cons (.refl first) (twinEach_refl rest)
end

theorem Outline.Twin.entry {tree tree' : Outline} (h : tree.Twin tree') :
    tree.entry.Twin tree'.entry := by
  cases h with
  | node he => exact he

/-! ## Outlines of items that say the same -/

/-- Entries of two projects whose items say the same and stand at the same path. -/
structure Matching (p q : Project) (e e' : Entry) : Prop where
  alike : p.Alike q e.id e'.id
  path : p.path e.id = q.path e'.id
  left : e.Of p
  right : e'.Of q

theorem Matching.twin {p q : Project} {e e' : Entry} (h : Matching p q e e') : e.Twin e' := by
  obtain ⟨halike, hpath, ⟨hitem, hname⟩, hitem', hname'⟩ := h
  obtain ⟨a, b, hi, hj, same, _⟩ := halike.items
  cases hitem.symm.trans hi
  cases hitem'.symm.trans hj
  refine ⟨same, ?_⟩
  rw [hname, hname', Project.fullName, Project.fullName, hpath]

section

variable {p q : Project} (hp : p.IsForest) (hq : q.IsForest)

include hp hq

theorem matching_members {e e' : Entry} (h : Matching p q e e') :
    List.Forall₂ (Matching p q) (memberEntries p e.id) (memberEntries q e'.id) := by
  have halike : List.Forall₂ (p.Alike q) (p.members e.id) (q.members e'.id) := by
    obtain ⟨a, b, hi, hj, _, members⟩ := h.alike.items
    rw [Project.members, Project.members, hi, hj]
    exact members
  rw [← ids_memberEntries hp, ← ids_memberEntries hq, List.forall₂_map_left_iff,
    List.forall₂_map_right_iff] at halike
  refine forall₂_of_mem halike fun m hm m' hm' hsame => ?_
  obtain ⟨hmem, hof⟩ := (mem_memberEntries hp).1 hm
  obtain ⟨hmem', hof'⟩ := (mem_memberEntries hq).1 hm'
  have hname : m.item.name = m'.item.name := by
    obtain ⟨a, b, hi, hj, same, _⟩ := hsame.items
    cases hof.1.symm.trans hi
    cases hof'.1.symm.trans hj
    exact Item.name_eq same
  refine ⟨hsame, ?_, hof, hof'⟩
  rw [hp.path_member hmem hof.1, hq.path_member hmem' hof'.1, h.path, hname]

theorem twin_outline (kinds : KindTable) {e e' : Entry} (h : Matching p q e e') :
    (outline p kinds e).Twin (outline q kinds e') := by
  induction e using outline_induction p kinds generalizing e' with
  | step e ih =>
      have hmembers := matching_members hp hq h
      have hsorted : ∀ keep : Entry → Bool,
          (∀ m m', Matching p q m m' → (keep m = true ↔ keep m' = true)) →
          List.Forall₂ (Matching p q) (sortEntries kinds ((memberEntries p e.id).filter keep))
            (sortEntries kinds ((memberEntries q e'.id).filter keep)) := fun keep hkeep =>
        forall₂_sortBy kinds (List.rel_filter (fun {m m'} hm => hkeep m m' hm) hmembers)
          (fun m m' hm => hm.twin.kind) fun m m' hm => hm.twin.name
      rw [outline_eq, outline_eq]
      refine .node h.twin ?_ ?_
      · exact (hsorted _ fun m m' hm => by rw [hm.twin.container]).imp fun m m' hm => hm.twin
      · rw [List.forall₂_map_left_iff, List.forall₂_map_right_iff]
        have hnested := hsorted (·.item.container) fun m m' hm => by rw [hm.twin.container]
        exact forall₂_of_mem hnested fun m hm m' _ hsame => ih m hm hsame

end

/-! ## Names of twins -/

/-- Two pages ask for the same name, and get the same. -/
structure Grant.Twin (g g' : Grant) : Prop where
  entry : g.entry.Twin g'.entry
  wanted : g.wanted = g'.wanted
  name : g.name = g'.name

theorem Grant.Twin.log {g g' : Grant} (h : g.Twin g') : g.log = g'.log := by
  rw [Grant.log, Grant.log, h.wanted, h.name, h.entry.fullName]

theorem names_eq {gs gs' : List Grant} (h : List.Forall₂ Grant.Twin gs gs') :
    gs.map Grant.name = gs'.map Grant.name :=
  map_eq_of_forall₂ h fun _ _ hg => hg.name

mutual
theorem twin_grants (inline : Bool) (above : Option String) (used : List String)
    {tree tree' : Outline} (h : tree.Twin tree') :
    List.Forall₂ Grant.Twin (grants inline above used tree) (grants inline above used tree') := by
  match tree, tree', h with
  | .node e _ nested, .node e' _ nested', .node he _ hnested =>
    have hwanted : wantedName above e = wantedName above e' := by
      unfold wantedName
      rw [he.name]
    rw [grants, grants, he.isBlank, hwanted]
    split
    · exact .nil
    · refine .cons ⟨he, rfl, rfl⟩ ?_
      split
      · exact .nil
      · exact twin_grantsEach inline _ _ hnested

theorem twin_grantsEach (inline : Bool) (above : Option String) (used : List String)
    {trees trees' : List Outline} (h : List.Forall₂ Outline.Twin trees trees') :
    List.Forall₂ Grant.Twin (grantsEach inline above used trees)
      (grantsEach inline above used trees') := by
  match trees, trees', h with
  | [], [], .nil => exact .nil
  | first :: rest, first' :: rest', .cons hfirst hrest =>
    have hgrants := twin_grants inline above used hfirst
    rw [grantsEach, grantsEach]
    simp only [names_eq hgrants]
    exact List.rel_append hgrants (twin_grantsEach inline above _ hrest)
end

theorem length_paged {inline : Bool} {tree tree' : Outline} (h : tree.Twin tree') :
    (tree.paged inline).length = (tree'.paged inline).length := by
  rw [← entries_grants inline none [], ← entries_grants inline none [], List.length_map,
    List.length_map, (twin_grants inline none [] h).length_eq]

/-! ## Parts of twins -/

/-- Two parts are written in the same way and report the same. -/
def Part.Twin (a b : Part) : Prop := a.render = b.render ∧ a.log = b.log

theorem Part.Twin.refl (a : Part) : a.Twin a := ⟨rfl, rfl⟩

theorem twins_refl (parts : List Part) : List.Forall₂ Part.Twin parts parts :=
  List.forall₂_same.2 fun part _ => .refl part

theorem Entry.Twin.prose {e e' : Entry} (h : e.Twin e') (level : Nat) (showAttributes : Bool) :
    (Part.prose e level showAttributes).Twin (.prose e' level showAttributes) := by
  have hpreamble : preamble e.item showAttributes = preamble e'.item showAttributes := by
    unfold preamble
    rw [h.attributes, h.baseTypes]
  have htext : proseText e.item level = proseText e'.item level := by
    unfold proseText
    rw [h.markup]
  refine ⟨congrArg₂ (· ++ ·) hpreamble htext, ?_⟩
  simp only [Part.log, h.markup, h.fullName]

theorem Entry.Twin.anchorParts {e e' : Entry} (h : e.Twin e') (o : Options) :
    anchorParts o e = anchorParts o e' := by
  rw [Page.anchorParts, Page.anchorParts, h.kind, h.name]

theorem twin_memberParts (o : Options) (level : Nat) (current : Option String)
    {leaves leaves' : List Entry} (h : List.Forall₂ Entry.Twin leaves leaves') :
    List.Forall₂ Part.Twin (memberParts o level current leaves)
      (memberParts o level current leaves') := by
  induction h generalizing current with
  | nil => exact .nil
  | cons hm _ ih =>
      rw [memberParts, memberParts, hm.skip?]
      split
      · exact .cons (.refl _) (ih current)
      · rw [hm.kind, hm.name, hm.anchorParts]
        refine List.rel_append (List.rel_append (twins_refl _) ?_) (ih _)
        exact .cons (.refl _) (.cons (hm.prose _ _) .nil)

mutual
theorem twin_bodyParts (o : Options) (level : Nat) {tree tree' : Outline} (h : tree.Twin tree') :
    List.Forall₂ Part.Twin (bodyParts o level tree) (bodyParts o level tree') := by
  match tree, tree', h with
  | .node e leaves nested, .node e' leaves' nested', .node he hleaves hnested =>
    rw [bodyParts, bodyParts]
    refine .cons (he.prose _ _) (List.rel_append (twin_memberParts o level none hleaves) ?_)
    split
    · exact twin_nestedParts o level hnested
    · exact .nil

theorem twin_nestedParts (o : Options) (level : Nat) {trees trees' : List Outline}
    (h : List.Forall₂ Outline.Twin trees trees') :
    List.Forall₂ Part.Twin (nestedParts o level trees) (nestedParts o level trees') := by
  match trees, trees', h with
  | [], [], .nil => exact .nil
  | first :: rest, first' :: rest', .cons hfirst hrest =>
    rw [nestedParts, nestedParts, hfirst.entry.skip?, hfirst.entry.kind, hfirst.entry.name,
      hfirst.entry.anchorParts]
    refine List.rel_append ?_ (twin_nestedParts o level hrest)
    split
    · exact .cons (.refl _) .nil
    · exact List.rel_append (twins_refl _) (twin_bodyParts o (level + 1) hfirst)
end

/-! ## Contents of twins -/

/-- The pages of two entries have file names for which `L` holds. -/
def Named (L : String → String → Prop) (A B : Names) (e e' : Entry) : Prop :=
  ∃ file file', A.find? e.id = some file ∧ B.find? e'.id = some file' ∧ L file file'

theorem leafLines_eq (depth : Nat) {leaves leaves' : List Entry}
    (h : List.Forall₂ Entry.Twin leaves leaves') :
    (leaves.filter fun m => !m.isBlank).map
        (fun m => ContentsLine.anchor depth m.item.kind m.item.name) =
      (leaves'.filter fun m => !m.isBlank).map
        fun m => ContentsLine.anchor depth m.item.kind m.item.name := by
  have hshown : List.Forall₂ Entry.Twin (leaves.filter fun m => !m.isBlank)
      (leaves'.filter fun m => !m.isBlank) :=
    List.rel_filter (fun {m m'} hm => by simp only [hm.isBlank]) h
  exact map_eq_of_forall₂ hshown fun m m' hm => by rw [hm.kind, hm.name]

mutual
/-- Contents that hold the nested types ask for no file names. -/
theorem contentsLines_inline {o : Options} (hi : o.inlineTypes = true) (A B : Names) (depth : Nat)
    {tree tree' : Outline} (h : tree.Twin tree') :
    contentsLines o A depth tree = contentsLines o B depth tree' := by
  match tree, tree', h with
  | .node e leaves nested, .node e' leaves' nested', .node he hleaves hnested =>
    simp only [contentsLines, he.kind, he.name, leafLines_eq (depth + 1) hleaves,
      nestedLines_inline hi A B (depth + 1) hnested]

theorem nestedLines_inline {o : Options} (hi : o.inlineTypes = true) (A B : Names) (depth : Nat)
    {trees trees' : List Outline} (h : List.Forall₂ Outline.Twin trees trees') :
    nestedLines o A depth trees = nestedLines o B depth trees' := by
  match trees, trees', h with
  | [], [], .nil => rfl
  | first :: rest, first' :: rest', .cons hfirst hrest =>
    simp only [nestedLines, hi, if_true, hfirst.entry.isBlank,
      contentsLines_inline hi A B depth hfirst, nestedLines_inline hi A B depth hrest]
end

theorem paged_cons (inline : Bool) {tree : Outline} (h : tree.entry.isBlank = false) :
    ∃ more, tree.paged inline = tree.entry :: more := by
  cases tree with
  | node e leaves nested =>
      have hb : e.isBlank = false := h
      rw [Outline.paged, hb, if_neg Bool.false_ne_true]
      exact ⟨_, rfl⟩

/-- Contents that link to the nested types name their files. -/
theorem nestedLines_eq {o : Options} (hi : o.inlineTypes = false) {A B : Names} (depth : Nat)
    {trees trees' : List Outline} (h : List.Forall₂ Outline.Twin trees trees')
    (hnamed : List.Forall₂ (Named Eq A B) (pagedEach false trees) (pagedEach false trees')) :
    nestedLines o A depth trees = nestedLines o B depth trees' := by
  induction h with
  | nil => rfl
  | @cons first first' rest rest' hfirst _ ih =>
      rw [pagedEach, pagedEach, forall₂_append (length_paged hfirst)] at hnamed
      rw [nestedLines, nestedLines, ih hnamed.2]
      congr 1
      simp only [hi, hfirst.entry.isBlank, hfirst.entry.kind, hfirst.entry.name]
      cases hb : first'.entry.isBlank with
      | true => rfl
      | false =>
          obtain ⟨more, hmore⟩ := paged_cons false (hfirst.entry.isBlank.trans hb)
          obtain ⟨more', hmore'⟩ := paged_cons false hb
          have hhead := hnamed.1
          rw [hmore, hmore'] at hhead
          obtain ⟨⟨file, _, hfile, hfile', rfl⟩, -⟩ := List.forall₂_cons.1 hhead
          simp only [hfile, hfile', Bool.false_eq_true, if_false]

theorem contentsLines_eq {o : Options} {A B : Names} (depth : Nat) {tree tree' : Outline}
    (h : tree.Twin tree') (hb : tree.entry.isBlank = false)
    (hnamed : List.Forall₂ (Named Eq A B) (tree.paged o.inlineTypes)
      (tree'.paged o.inlineTypes)) :
    contentsLines o A depth tree = contentsLines o B depth tree' := by
  cases hi : o.inlineTypes with
  | true => exact contentsLines_inline hi A B depth h
  | false =>
      cases h with
      | @node e e' leaves leaves' nested nested' he hleaves hnested =>
          have hb : e.isBlank = false := hb
          rw [hi, Outline.paged, Outline.paged, ← he.isBlank, hb] at hnamed
          simp only [contentsLines, he.kind, he.name, leafLines_eq (depth + 1) hleaves]
          rw [nestedLines_eq hi (depth + 1) hnested (List.forall₂_cons.1 hnamed).2]

/-! ## What is written of twins -/

theorem twin_parts {o : Options} {A B : Names} {tree tree' : Outline} (h : tree.Twin tree')
    (hcontents : o.writeContents = true →
      contentsLines o A 0 tree = contentsLines o B 0 tree') :
    List.Forall₂ Part.Twin (parts o A tree) (parts o B tree') := by
  have htoc : (if o.writeContents then [Part.contents (contentsLines o A 0 tree)] else []) =
      if o.writeContents then [Part.contents (contentsLines o B 0 tree')] else [] := by
    split
    · rename_i hc
      rw [hcontents hc]
    · rfl
  simp only [parts, h.entry.anchorParts, h.entry.fullName, htoc]
  exact List.rel_append (twins_refl _) (twin_bodyParts o 2 h)

/-- Two pages with the same parts and with file names for which `L` holds, or the same
reason why there is none. -/
inductive Output.Twin (L : String → String → Prop) : Output → Output → Prop where
  | page {i j : ItemId} {file file' : String} {written written' : List Part}
      (hfile : L file file') (hparts : List.Forall₂ Part.Twin written written') :
      Output.Twin L (.page i file written) (.page j file' written')
  | skipped (reason : Skip) : Output.Twin L (.skipped reason) (.skipped reason)

variable {o : Options} {L : String → String → Prop} {A B : Names}

mutual
/-- Pages with contents have to have the same names, as contents hold names. -/
theorem twin_outputs (hL : o.writeContents = true → ∀ file file', L file file' → file = file')
    {tree tree' : Outline} (h : tree.Twin tree')
    (hnamed : List.Forall₂ (Named L A B) (tree.paged o.inlineTypes)
      (tree'.paged o.inlineTypes)) :
    List.Forall₂ (Output.Twin L) (outputs o A tree) (outputs o B tree') := by
  match tree, tree', h with
  | .node e leaves nested, .node e' leaves' nested', .node he hleaves hnested =>
    rw [outputs, outputs, he.skip?]
    cases hskip : e'.skip? with
    | some reason => exact .cons (.skipped reason) .nil
    | none =>
        have hb' := isBlank_of_noSkip hskip
        have hb := he.isBlank.trans hb'
        have hcontents : o.writeContents = true →
            contentsLines o A 0 (.node e leaves nested) =
              contentsLines o B 0 (.node e' leaves' nested') := fun hc =>
          contentsLines_eq 0 (.node he hleaves hnested) hb <| hnamed.imp
            fun m m' ⟨file, file', hfile, hfile', hsame⟩ =>
              ⟨file, file', hfile, hfile', hL hc _ _ hsame⟩
        have hparts := twin_parts (.node he hleaves hnested) hcontents
        rw [Outline.paged, Outline.paged, hb, hb'] at hnamed
        obtain ⟨⟨file, file', hfile, hfile', hsame⟩, hrest⟩ := List.forall₂_cons.1 hnamed
        simp only [hfile, hfile']
        refine .cons (.page hsame hparts) ?_
        split
        · exact .nil
        · rename_i hi
          rw [if_neg hi, if_neg hi] at hrest
          exact twin_outputsEach hL hnested hrest

theorem twin_outputsEach
    (hL : o.writeContents = true → ∀ file file', L file file' → file = file')
    {trees trees' : List Outline} (h : List.Forall₂ Outline.Twin trees trees')
    (hnamed : List.Forall₂ (Named L A B) (pagedEach o.inlineTypes trees)
      (pagedEach o.inlineTypes trees')) :
    List.Forall₂ (Output.Twin L) (outputsEach o A trees) (outputsEach o B trees') := by
  match trees, trees', h with
  | [], [], .nil => exact .nil
  | first :: rest, first' :: rest', .cons hfirst hrest =>
    rw [pagedEach, pagedEach, forall₂_append (length_paged hfirst)] at hnamed
    rw [outputsEach, outputsEach]
    exact List.rel_append (twin_outputs hL hfirst hnamed.1)
      (twin_outputsEach hL hrest hnamed.2)
end

theorem Output.Twin.content {a b : Output} (h : a.Twin L b) :
    a.written?.map WrittenPage.content = b.written?.map WrittenPage.content := by
  cases h with
  | page hfile hparts =>
      have hrender := map_eq_of_forall₂ hparts fun _ _ hpart => hpart.1
      simp only [Output.written?, Option.map_some, hrender]
  | skipped reason => rfl

theorem Output.Twin.written? {a b : Output} (h : a.Twin Eq b) : a.written? = b.written? := by
  cases h with
  | page hfile hparts =>
      have hrender := map_eq_of_forall₂ hparts fun _ _ hpart => hpart.1
      simp only [Output.written?, hrender, hfile]
  | skipped reason => rfl

theorem Output.Twin.log {a b : Output} (h : a.Twin L b) : a.log = b.log := by
  cases h with
  | page hfile hparts => exact flatMap_eq_of_forall₂ hparts fun _ _ hpart => hpart.2
  | skipped reason => rfl

/-! ## Calls -/

section

variable {p q : Project} (hp : p.IsForest) (hq : q.IsForest) (o : Options)

include hp hq

theorem named_callGrants {e e' : Entry} (he : e.Of p) (he' : e'.Of q)
    (h : List.Forall₂ Grant.Twin (callGrants p o A e) (callGrants q o B e')) :
    List.Forall₂ (Named Eq (Names.after A (callGrants p o A e))
        (Names.after B (callGrants q o B e')))
      ((outline p o.kinds e).paged o.inlineTypes)
      ((outline q o.kinds e').paged o.inlineTypes) := by
  rw [← entries_grants o.inlineTypes none A.used, ← entries_grants o.inlineTypes none B.used,
    List.forall₂_map_left_iff, List.forall₂_map_right_iff]
  exact forall₂_of_mem h fun g hg g' hg' hsame =>
    ⟨g.name, g'.name, find?_callGrants hp o A he hg, find?_callGrants hq o B he' hg', hsame.name⟩

/-- Calls for items that say the same, with the same names in use. -/
theorem write_twin (hused : A.used = B.used) {e e' : Entry} (h : Matching p q e e') :
    (write p o A e.id).1.used = (write q o B e'.id).1.used ∧
      (write p o A e.id).2.1.filterMap Output.written? =
        (write q o B e'.id).2.1.filterMap Output.written? ∧
      (write p o A e.id).2.2 = (write q o B e'.id).2.2 := by
  have htree := twin_outline hp hq o.kinds h
  have hgrants : List.Forall₂ Grant.Twin (callGrants p o A e) (callGrants q o B e') := by
    rw [callGrants, callGrants, hused]
    exact twin_grants o.inlineTypes none B.used htree
  have houtputs := twin_outputs (fun _ _ _ => id) htree
    (named_callGrants hp hq o h.left h.right hgrants)
  rw [write_eq (entryOf?_eq_some.2 ⟨rfl, h.left⟩), write_eq (entryOf?_eq_some.2 ⟨rfl, h.right⟩)]
  refine ⟨?_, ?_, ?_⟩
  · simp only [Names.after, names_eq hgrants, hused]
  · exact filterMap_eq_of_forall₂ houtputs fun _ _ hout => hout.written?
  · exact congrArg₂ (· ++ ·) (flatMap_eq_of_forall₂ hgrants fun _ _ hg => hg.log)
      (flatMap_eq_of_forall₂ houtputs fun _ _ hout => hout.log)

theorem writeAll_twin (hused : A.used = B.used) {entries entries' : List Entry}
    (h : List.Forall₂ (Matching p q) entries entries') :
    writeAll p o A (entries.map Entry.id) = writeAll q o B (entries'.map Entry.id) := by
  induction h generalizing A B with
  | nil => rfl
  | cons hfirst _ ih =>
      obtain ⟨hnext, hwritten, hlog⟩ := write_twin hp hq o hused hfirst
      simp only [List.map_cons, writeAll, hwritten, hlog, ih hnext]

end

/-- Without contents, the names in use show in the names of the files alone. -/
theorem content_write {p : Project} (hp : p.IsForest) {o : Options}
    (hc : o.writeContents = false) (A B : Names) (id : ItemId) :
    ((write p o A id).2.1.filterMap Output.written?).map WrittenPage.content =
      ((write p o B id).2.1.filterMap Output.written?).map WrittenPage.content := by
  rcases Nat.lt_or_ge id p.items.size with hid | hid
  · obtain ⟨e, he, rfl, hof⟩ := exists_entry hid
    have hnamed : List.Forall₂ (Named (fun _ _ => True) (Names.after A (callGrants p o A e))
        (Names.after B (callGrants p o B e))) ((outline p o.kinds e).paged o.inlineTypes)
        ((outline p o.kinds e).paged o.inlineTypes) := by
      refine List.forall₂_same.2 fun m hm => ?_
      obtain ⟨file, hfile⟩ := Option.isSome_iff_exists.1 (find?_paged hp o A hof hm)
      obtain ⟨file', hfile'⟩ := Option.isSome_iff_exists.1 (find?_paged hp o B hof hm)
      exact ⟨file, file', hfile, hfile', trivial⟩
    have houtputs := twin_outputs (fun h => absurd (hc.symm.trans h) Bool.false_ne_true)
      (.refl _) hnamed
    rw [write_eq he, write_eq he, List.map_filterMap, List.map_filterMap]
    exact filterMap_eq_of_forall₂ houtputs fun _ _ hout => hout.content
  · rw [write_outside hid, write_outside hid]

end Page
end DocPages

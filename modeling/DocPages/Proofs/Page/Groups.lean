/-
Members in groups.

The members of an item are written in one pass over the sorted list, which starts a group
whenever the kind changes and passes over what is blank.  `groups` says what is to be seen
without that pass: each kind that has a member to show, with these members by name.  That the
two agree is `body_grouped`, and it rests on sorting leaving the items of a kind together.

A heading has at most six marks, so from level six on the heading of a member has as many as
the title of its group: `nestedSample_flat`.
-/
import DocPages.Proofs.Kind.Sorting
import DocPages.Proofs.Page.Outlines
import DocPages.Proofs.Page.Rendered

namespace DocPages
namespace Page

/-! ## Groups -/

/-- The members of an item that hold nothing further. -/
def leafEntries (p : Project) (id : ItemId) : List Entry :=
  ((p.members id).filterMap (entryOf? p)).filter fun m => !m.item.container

/-- The kinds of items in the order of their groups. -/
def groupKinds (t : KindTable) (kinds : List String) : List String := (t.order ++ kinds).eraseDups

def byName (members : List Entry) : List Entry :=
  members.mergeSort fun a b => decide (a.item.name ≤ b.item.name)

/-- The kinds of the members that are shown, each with these members. -/
def groups (t : KindTable) (members : List Entry) : List (String × List Entry) :=
  let shown := members.filter fun m => !m.isBlank
  let kinds := (groupKinds t (members.map (·.item.kind))).filter (shown.map (·.item.kind)).contains
  kinds.map fun k => (k, byName (shown.filter (·.item.kind == k)))

/-- A member below its heading. -/
def memberBlock (o : Options) (level : Nat) (m : Entry) : List Part :=
  anchorParts o m ++
    [.heading (level + 1) (o.kinds.heading m.item.name m.item.kind),
      .prose m (level + 1) o.writeAttributes]

/-- The title of a kind, if it has one, and the members of that kind. -/
def groupParts (o : Options) (level : Nat) (g : String × List Entry) : List Part :=
  ((o.kinds.title g.1).map (Part.group level)).toList ++ g.2.flatMap (memberBlock o level)

/-- Parts that are written, and not only reported. -/
def Part.isWritten : Part → Bool
  | .skipped _ => false
  | _ => true

theorem text_filter_isWritten (parts : List Part) :
    text (parts.filter Part.isWritten) = text parts := by
  induction parts with
  | nil => rfl
  | cons part rest ih =>
      rw [text_cons]
      cases part with
      | skipped reason =>
          simp only [List.filter_cons, Part.isWritten, Bool.false_eq_true, if_false]
          exact ih.trans (String.empty_append).symm
      | _ =>
          simp only [List.filter_cons, Part.isWritten, if_true]
          rw [text_cons, ih]

/-! ## One pass over the members -/

theorem isWritten_anchorParts (o : Options) (m : Entry) :
    (anchorParts o m).filter Part.isWritten = anchorParts o m := by
  unfold anchorParts
  split <;> rfl

theorem isWritten_title (o : Options) (level : Nat) (kind : String) :
    ((o.kinds.title kind).map (Part.group level)).toList.filter Part.isWritten =
      ((o.kinds.title kind).map (Part.group level)).toList := by
  cases o.kinds.title kind <;> rfl

/-- A blank member neither starts nor ends a group. -/
theorem memberParts_filter (o : Options) (level : Nat) (current : Option String)
    (members : List Entry) :
    (memberParts o level current members).filter Part.isWritten =
      memberParts o level current (members.filter fun m => !m.isBlank) := by
  induction members generalizing current with
  | nil => rfl
  | cons m rest ih =>
      rw [memberParts]
      cases hskip : m.skip? with
      | some reason =>
          simp only [List.filter_cons, Part.isWritten, isBlank_of_skip hskip, Bool.not_true,
            Bool.false_eq_true, if_false]
          exact ih current
      | none =>
          rw [List.filter_cons_of_pos (by simp [isBlank_of_noSkip hskip]), memberParts, hskip]
          simp only [List.filter_append, isWritten_anchorParts, ih]
          congr 3
          split
          · rfl
          · exact isWritten_title o level m.item.kind

/-- Members that can be shown, all of one kind. -/
def OfKind (k : String) (members : List Entry) : Prop :=
  ∀ m ∈ members, m.isBlank = false ∧ m.item.kind = k

theorem skip?_eq_none {m : Entry} (h : m.isBlank = false) : m.skip? = none := by
  rwa [Entry.isBlank, Option.isSome_eq_false_iff, Option.isNone_iff_eq_none] at h

theorem memberParts_open {o : Options} {level : Nat} {k : String} {members : List Entry}
    (h : OfKind k members) (rest : List Entry) :
    memberParts o level (some k) (members ++ rest) =
      members.flatMap (memberBlock o level) ++ memberParts o level (some k) rest := by
  induction members with
  | nil => rfl
  | cons m members ih =>
      obtain ⟨hblank, hkind⟩ := h m List.mem_cons_self
      rw [List.cons_append, memberParts, skip?_eq_none hblank, List.flatMap_cons]
      simp only [hkind, beq_self_eq_true, if_true, List.nil_append, memberBlock]
      rw [ih fun m hm => h m (List.mem_cons_of_mem _ hm)]
      simp only [List.append_assoc]

/-- The first member of another kind starts a group, which goes on to the last. -/
theorem memberParts_group {o : Options} {level : Nat} {current : Option String} {k : String}
    {members : List Entry} (h : OfKind k members) (hne : members ≠ []) (hcur : current ≠ some k)
    (rest : List Entry) :
    memberParts o level current (members ++ rest) =
      groupParts o level (k, members) ++ memberParts o level (some k) rest := by
  cases members with
  | nil => exact absurd rfl hne
  | cons m members =>
      obtain ⟨hblank, hkind⟩ := h m List.mem_cons_self
      have hnew : (current == some k) = false := beq_eq_false_iff_ne.2 hcur
      rw [List.cons_append, memberParts, skip?_eq_none hblank, groupParts, List.flatMap_cons]
      simp only [hkind, hnew, Bool.false_eq_true, if_false, memberBlock]
      rw [memberParts_open fun m hm => h m (List.mem_cons_of_mem _ hm)]
      simp only [List.append_assoc]

theorem memberParts_groups {o : Options} {level : Nat} {current : Option String}
    {gs : List (String × List Entry)} (h : ∀ g ∈ gs, OfKind g.1 g.2 ∧ g.2 ≠ [])
    (hnodup : (gs.map Prod.fst).Nodup) (hcur : ∀ g ∈ gs, current ≠ some g.1) :
    memberParts o level current (gs.flatMap Prod.snd) = gs.flatMap (groupParts o level) := by
  induction gs generalizing current with
  | nil => rfl
  | cons g rest ih =>
      obtain ⟨hkind, hne⟩ := h g List.mem_cons_self
      rw [List.map_cons, List.nodup_cons] at hnodup
      rw [List.flatMap_cons, List.flatMap_cons,
        memberParts_group hkind hne (hcur g List.mem_cons_self),
        ih (fun g hg => h g (List.mem_cons_of_mem _ hg)) hnodup.2]
      rintro g' hg' heq
      rw [Option.some.injEq] at heq
      exact hnodup.1 (heq ▸ List.mem_map_of_mem hg')

/-! ## The sorted members are the groups -/

theorem idxOf_eraseDups (l : List String) :
    l.eraseDups.Pairwise fun a b => l.idxOf a < l.idxOf b := by
  induction l using List.reverseRecOn with
  | nil => exact List.Pairwise.nil
  | append_singleton l last ih =>
      have hleft : l.eraseDups.Pairwise fun a b => (l ++ [last]).idxOf a < (l ++ [last]).idxOf b := by
        refine ih.imp_of_mem fun ha hb hlt => ?_
        rwa [List.idxOf_append, List.idxOf_append, if_pos (List.mem_eraseDups.1 ha),
          if_pos (List.mem_eraseDups.1 hb)]
      rw [List.eraseDups_append]
      by_cases h : last ∈ l
      · simpa [List.removeAll, h] using hleft
      · have hlast : ([last].removeAll l).eraseDups = [last] := by
          simp [List.removeAll, h, List.eraseDups_cons]
        rw [hlast, List.pairwise_append]
        refine ⟨hleft, List.pairwise_singleton _ _, ?_⟩
        rintro a ha b hb
        rw [List.mem_singleton] at hb
        have ha' := List.mem_eraseDups.1 ha
        rw [hb, List.idxOf_append, List.idxOf_append, if_pos ha', if_neg h]
        exact Nat.lt_add_left _ (List.idxOf_lt_length_iff.2 ha')

/-- A list in which the values of the kinds ascend is made of its kinds, each with the items of
that kind. -/
theorem eq_flatMap_kinds {α : Type} {kind : α → String} {f : String → Nat} {ks : List String}
    {l : List α} (hl : l.Pairwise fun a b => f (kind a) ≤ f (kind b))
    (hks : ks.Pairwise fun k k' => f k < f k') (hmem : ∀ a ∈ l, kind a ∈ ks) :
    l = ks.flatMap fun k => l.filter fun a => kind a == k := by
  induction ks generalizing l with
  | nil => exact List.eq_nil_iff_forall_not_mem.2 fun a ha => List.not_mem_nil (hmem a ha)
  | cons k rest ih =>
      have hlt : ∀ k' ∈ rest, f k < f k' := fun k' hk' => List.rel_of_pairwise_cons hks hk'
      have hother : ∀ k' ∈ rest, k' ≠ k := fun k' hk' heq => Nat.lt_irrefl _ (heq ▸ hlt k' hk')
      -- No kind of the list comes before the first one.
      have hsplit : l = l.filter (fun a => kind a == k) ++ l.filter fun a => kind a != k := by
        have hparts := KindTable.eq_filter_append hl (f k)
        have hbelow : l.filter (fun a => f (kind a) < f k) = [] := by
          refine List.filter_eq_nil_iff.2 fun a ha => ?_
          rw [decide_eq_true_eq, Nat.not_lt]
          rcases List.mem_cons.1 (hmem a ha) with heq | hrest
          · exact Nat.le_of_eq (congrArg f heq.symm)
          · exact Nat.le_of_lt (hlt _ hrest)
        have hat : l.filter (fun a => f (kind a) = f k) = l.filter fun a => kind a == k := by
          refine List.filter_congr fun a ha => ?_
          rw [Bool.eq_iff_iff, decide_eq_true_eq, beq_iff_eq]
          refine ⟨fun heq => ?_, fun heq => congrArg f heq⟩
          refine (List.mem_cons.1 (hmem a ha)).resolve_right fun hrest => ?_
          exact Nat.lt_irrefl _ (heq ▸ hlt _ hrest)
        have habove : l.filter (fun a => f k < f (kind a)) = l.filter fun a => kind a != k := by
          refine List.filter_congr fun a ha => ?_
          rw [Bool.eq_iff_iff, decide_eq_true_eq, bne_iff_ne]
          refine ⟨fun hgt heq => Nat.lt_irrefl _ (heq ▸ hgt), fun hne => ?_⟩
          exact hlt _ ((List.mem_cons.1 (hmem a ha)).resolve_left hne)
        rwa [hbelow, hat, habove, List.nil_append] at hparts
      have hrest := ih (hl.filter fun a => kind a != k) hks.of_cons fun a ha => by
        rw [List.mem_filter, bne_iff_ne] at ha
        exact (List.mem_cons.1 (hmem a ha.1)).resolve_left ha.2
      rw [List.flatMap_cons]
      refine hsplit.trans (congrArg _ (hrest.trans (List.flatMap_congr fun k' hk' => ?_)))
      rw [List.filter_filter]
      refine List.filter_congr fun a _ => ?_
      rw [Bool.eq_iff_iff, Bool.and_eq_true, beq_iff_eq, bne_iff_ne]
      exact and_iff_left_of_imp fun heq => heq ▸ hother k' hk'

/-- The members that are shown stand in the order of their groups. -/
theorem sortEntries_filter (t : KindTable) (members : List Entry) :
    (sortEntries t members).filter (fun m => !m.isBlank) = (groups t members).flatMap Prod.snd := by
  have hsorts : t.Sorts (fun m : Entry => m.item.kind) (fun m => m.item.name) members
      (sortEntries t members) := KindTable.sorts_sortBy members
  have hshown := hsorts.place_le.filter fun m => !m.isBlank
  have hkinds := (idxOf_eraseDups (t.order ++ members.map (·.item.kind))).filter
    ((members.filter fun m => !m.isBlank).map (·.item.kind)).contains
  refine (eq_flatMap_kinds hshown hkinds fun m hm => ?_).trans ?_
  · rw [List.mem_filter] at hm
    have hm' := hsorts.perm.mem_iff.1 hm.1
    rw [List.mem_filter, List.mem_eraseDups, List.contains_iff_mem]
    refine ⟨List.mem_append_right _ (List.mem_map_of_mem hm'), List.mem_map_of_mem ?_⟩
    exact List.mem_filter.2 ⟨hm', hm.2⟩
  · rw [groups, List.flatMap_map]
    exact List.flatMap_congr fun k _ => hsorts.filter_kind _ k

theorem ofKind_groups {t : KindTable} {members : List Entry} {g : String × List Entry}
    (h : g ∈ groups t members) : OfKind g.1 g.2 ∧ g.2 ≠ [] := by
  simp only [groups, List.mem_map, List.mem_filter, List.contains_iff_mem] at h
  obtain ⟨k, ⟨_, m, ⟨hm, hkind⟩⟩, rfl⟩ := h
  have hmem : ∀ m', m' ∈ byName ((members.filter fun m => !m.isBlank).filter
      (·.item.kind == k)) ↔ (m' ∈ members ∧ m'.isBlank = false) ∧ m'.item.kind = k := by
    intro m'
    rw [byName, List.mem_mergeSort, List.mem_filter, List.mem_filter, beq_iff_eq,
      Bool.not_eq_true']
  refine ⟨fun m' hm' => ?_, List.ne_nil_of_mem ((hmem m).2 ⟨?_, hkind⟩)⟩
  · obtain ⟨⟨_, hblank⟩, hk⟩ := (hmem m').1 hm'
    exact ⟨hblank, hk⟩
  · rwa [Bool.not_eq_true'] at hm

theorem nodup_groups (t : KindTable) (members : List Entry) :
    ((groups t members).map Prod.fst).Nodup := by
  rw [groups, List.map_map, groupKinds]
  have hkinds := (idxOf_eraseDups (t.order ++ members.map (·.item.kind))).filter
    ((members.filter fun m => !m.isBlank).map (·.item.kind)).contains
  have hnodup := hkinds.imp fun {a b} hlt (heq : a = b) => Nat.lt_irrefl _ (heq ▸ hlt)
  simpa [Function.comp_def, List.Nodup] using hnodup

theorem memberParts_sortEntries (o : Options) (level : Nat) (members : List Entry) :
    (memberParts o level none (sortEntries o.kinds members)).filter Part.isWritten =
      (groups o.kinds members).flatMap (groupParts o level) := by
  rw [memberParts_filter, sortEntries_filter,
    memberParts_groups (fun _ => ofKind_groups) (nodup_groups _ _) fun g _ h => by cases h]

/-! ## The text of an item -/

theorem length_hashes (level : Nat) : (hashes level).length = max 1 (min level 6) := by
  rw [hashes, Prose.hashes, String.length_ofList, List.length_replicate]

/-- In a forest every member stands behind its container. -/
theorem leavesOf_eq {p : Project} (hp : p.IsForest) (kinds : KindTable) (id : ItemId) :
    leavesOf p kinds id = sortEntries kinds (leafEntries p id) := by
  have hall : memberEntries p id = (p.members id).filterMap (entryOf? p) := by
    refine List.filter_eq_self.2 fun e he => ?_
    obtain ⟨m, hm, he⟩ := List.mem_filterMap.1 he
    rw [decide_eq_true_eq, (entryOf?_id he).1]
    exact hp.lt_of_mem_members hm
  rw [leavesOf, hall, leafEntries]

section Body

variable {p : Project} (hp : p.IsForest) {id : ItemId} {e : Entry} (he : entryOf? p id = some e)
  (o : Options) (level : Nat)

/-- The types that are part of the page of the item they are nested in. -/
def inlined (p : Project) (o : Options) (level : Nat) (id : ItemId) : List Part :=
  if o.inlineTypes then nestedParts o level ((nestedOf p o.kinds id).map (outline p o.kinds))
  else []

include hp he

theorem filter_bodyParts :
    (bodyParts o level (outline p o.kinds e)).filter Part.isWritten =
      .prose e level o.writeAttributes ::
        ((groups o.kinds (leafEntries p id)).flatMap (groupParts o level) ++
          (inlined p o level id).filter Part.isWritten) := by
  obtain ⟨rfl, _, _⟩ := entryOf?_eq_some.1 he
  rw [outline_eq, bodyParts, leavesOf_eq hp, List.cons_append, List.filter_cons_of_pos rfl,
    List.filter_append, memberParts_sortEntries]
  rfl

theorem text_bodyParts :
    text (bodyParts o level (outline p o.kinds e)) =
      (Part.prose e level o.writeAttributes).render ++
        text ((groups o.kinds (leafEntries p id)).flatMap (groupParts o level)) ++
          text (inlined p o level id) := by
  rw [← text_filter_isWritten, filter_bodyParts hp he, text_cons, text_append,
    text_filter_isWritten, String.append_assoc]

/-- Between the prose of an item and the types that are nested in it stand its members: each
kind that has a member to show, its title if it has one, and then these members by name, each
with a heading of the next level.  The headings are longer by a mark than the titles where
there is a mark to add. -/
theorem body_grouped :
    (bodyParts o level (outline p o.kinds e)).filter Part.isWritten =
        .prose e level o.writeAttributes ::
          ((groups o.kinds (leafEntries p id)).flatMap (groupParts o level) ++
            (inlined p o level id).filter Part.isWritten) ∧
      text (bodyParts o level (outline p o.kinds e)) =
        (Part.prose e level o.writeAttributes).render ++
          text ((groups o.kinds (leafEntries p id)).flatMap (groupParts o level)) ++
            text (inlined p o level id) ∧
      ((hashes (level + 1)).length = (hashes level).length + 1 ↔ 1 ≤ level ∧ level ≤ 5) := by
  refine ⟨filter_bodyParts hp he o level, text_bodyParts hp he o level, ?_⟩
  rw [length_hashes, length_hashes]
  omega

end Body

/-- Classes nested four deep, and in the innermost fields, a method without documentation and
a member of a kind that is not listed. -/
def nestedSample : Project :=
  (Project.Operation.addMember 4 (Item.new "x" "field" "x")).run <|
    (Project.Operation.addMember 4 (Item.new "q" "output-field" "q")).run <|
    (Project.Operation.addMember 4 (Item.new "m" "method" " ")).run <|
    (Project.Operation.addMember 4 (Item.new "y" "field" "y")).run <|
    (Project.Operation.addMember 3 (Item.new "E" "class" "e")).run <|
    (Project.Operation.addMember 2 (Item.new "D" "class" "d")).run <|
    (Project.Operation.addMember 1 (Item.new "C" "class" "c")).run <|
    (Project.Operation.addMember 0 (Item.new "B" "class" "b")).run <|
    (Project.Operation.addTopLevel 0 (Item.new "A" "class" "a")).run <|
    (Project.Operation.namespaceIndex "N" "P").run {}

theorem nestedSample_isForest : nestedSample.IsForest := by
  refine Project.Reachable.isForest (.step _ (.step _ (.step _ (.step _ (.step _ (.step _ (.step _
    (.step _ (.step _ (.step _ .empty trivial) ?_) ?_) ?_) ?_) ?_) ?_) ?_) ?_) ?_)
  · show 0 < _
    decide +kernel
  · show 0 < _
    decide +kernel
  · show 1 < _
    decide +kernel
  · show 2 < _
    decide +kernel
  · show 3 < _
    decide +kernel
  all_goals
    show 4 < _
    decide +kernel

/-- The innermost class. -/
def innermost : Entry :=
  { id := 4
    item := { Item.new "E" "class" "e" with members := [5, 6, 7, 8], parent := some 3 }
    fullName := "A.B.C.D.E" }

/-- A member of it. -/
def innermostMember (id : ItemId) (name kind markup : String) : Entry :=
  { id
    item := { Item.new name kind markup with parent := some 4 }
    fullName := "A.B.C.D.E." ++ name }

theorem entryOf?_innermost : entryOf? nestedSample 4 = some innermost := by
  decide +kernel

theorem groups_innermost :
    groups .default (leafEntries nestedSample 4) =
      [("field", [innermostMember 8 "x" "field" "x", innermostMember 5 "y" "field" "y"]),
        ("output-field", [innermostMember 7 "q" "output-field" "q"])] := by
  let shown := [innermostMember 5 "y" "field" "y", innermostMember 7 "q" "output-field" "q",
    innermostMember 8 "x" "field" "x"]
  have hshown : (leafEntries nestedSample 4).filter (fun m => !m.isBlank) = shown := by
    decide +kernel
  have hkinds : (groupKinds .default ((leafEntries nestedSample 4).map (·.item.kind))).filter
      (shown.map (·.item.kind)).contains = ["field", "output-field"] := by
    decide +kernel
  have hfields : shown.filter (·.item.kind == "field") =
      [innermostMember 5 "y" "field" "y", innermostMember 8 "x" "field" "x"] := by decide +kernel
  have hother : shown.filter (·.item.kind == "output-field") =
      [innermostMember 7 "q" "output-field" "q"] := by decide +kernel
  have hsorted : byName [innermostMember 5 "y" "field" "y", innermostMember 8 "x" "field" "x"] =
      [innermostMember 8 "x" "field" "x", innermostMember 5 "y" "field" "y"] := by
    simp [byName, List.mergeSort, List.MergeSort.Internal.splitInTwo, innermostMember, Item.new]
  rw [groups, hshown, hkinds, List.map_cons, List.map_singleton, hfields, hother, hsorted, byName,
    List.mergeSort_singleton]

theorem body_grouped_nestedSample :
    nestedSample.IsForest ∧ entryOf? nestedSample 4 = some innermost ∧
      text (bodyParts { inlineTypes := true } 2 (outline nestedSample .default innermost)) =
        "e\n\n## Fields\n\n### field x\n\nx\n\n### field y\n\ny\n\n### q\n\nq\n\n" := by
  have h := (body_grouped nestedSample_isForest entryOf?_innermost { inlineTypes := true } 2).2.1
  refine ⟨nestedSample_isForest, entryOf?_innermost, h.trans ?_⟩
  rw [groups_innermost]
  decide +kernel

/-- Where the innermost class is written, the headings of its members have six marks, as the
title above them has. -/
theorem nestedSample_flat :
    entryOf? nestedSample 4 = some innermost ∧ hashes (6 + 1) = hashes 6 ∧
      text (bodyParts { inlineTypes := true } 6 (outline nestedSample .default innermost)) =
        "e\n\n###### Fields\n\n###### field x\n\nx\n\n###### field y\n\ny\n\n###### q\n\nq\n\n" := by
  have h := text_bodyParts nestedSample_isForest entryOf?_innermost { inlineTypes := true } 6
  refine ⟨entryOf?_innermost, by decide, h.trans ?_⟩
  rw [groups_innermost]
  decide +kernel

end Page
end DocPages

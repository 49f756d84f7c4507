/-
Rules give each item its kind once.

The items still to be visited are a list that grows while it is worked off, and the
project changes at each visit.  In a forest every item comes up exactly once, so a rule
never sees a kind that another rule has given.  `visited_perm` says so of the order of the
visits, and `worksOff_visited` that the list is empty after as many turns as there are
items.  The theorem this file exists for is `generate_pointwise`: a pass is one function
from item to item, applied everywhere.
-/
import DocPages.Proofs.Page.Outlines
import DocPages.Proofs.Project.FullNames
import DocPages.Proofs.Text.Cutting

namespace DocPages

/-! ## Spellings of an attribute -/

namespace Attribute

/-- The name has something in front of the word `Attribute` at its end. -/
def Suffixed (name : String) : Prop := ∃ front, front ≠ "" ∧ name = front ++ "Attribute"

/-- A name may be written as it is or with the word `Attribute` behind it.  A name that
already ends with the word is only written with it. -/
def Spells (stem name : String) : Prop :=
  name = stem ∧ ¬ Suffixed stem ∨ stem ≠ "" ∧ name = stem ++ "Attribute"

/-- Two spellings of one attribute. -/
def Same (a b : String) : Prop := ∃ stem, Spells stem a ∧ Spells stem b

theorem stem_of_suffixed {front name : String} (hne : front ≠ "")
    (hname : name = front ++ "Attribute") : stem name = front := by
  have hstrip : Text.stripEnd? "Attribute".toList name.toList = some front.toList := by
    rw [Text.stripEnd?_eq_some, hname, String.toList_append]
  unfold stem
  rw [hstrip]
  cases hf : front.toList with
  | nil => exact absurd (String.toList_eq_nil_iff.1 hf) hne
  | cons c rest =>
      show String.ofList (c :: rest) = front
      rw [← hf, String.ofList_toList]

theorem stem_of_not_suffixed {name : String} (h : ¬ Suffixed name) : stem name = name := by
  unfold stem
  split
  · rename_i c rest hstrip
    have hname := Text.stripEnd?_eq_some.1 hstrip
    refine absurd ⟨String.ofList (c :: rest), ?_, ?_⟩ h
    · rw [Ne, ← String.toList_inj, String.toList_ofList]
      exact List.cons_ne_nil c rest
    · rw [← String.toList_inj, String.toList_append, String.toList_ofList, hname]
  · rfl

theorem spells_iff {base name : String} : Spells base name ↔ stem name = base := by
  constructor
  · rintro (⟨rfl, hplain⟩ | ⟨hne, hname⟩)
    · exact stem_of_not_suffixed hplain
    · exact stem_of_suffixed hne hname
  · rintro rfl
    by_cases h : Suffixed name
    · obtain ⟨front, hne, hname⟩ := h
      rw [stem_of_suffixed hne hname]
      exact .inr ⟨hne, hname⟩
    · rw [stem_of_not_suffixed h]
      exact .inl ⟨rfl, h⟩

theorem same_iff {a b : String} : Same a b ↔ stem a = stem b := by
  constructor
  · rintro ⟨base, ha, hb⟩
    rw [spells_iff.1 ha, spells_iff.1 hb]
  · intro h
    exact ⟨stem b, spells_iff.2 h, spells_iff.2 rfl⟩

end Attribute

/-! ## Where each item is visited -/

namespace Project

/-- No item is inside two items at the top. -/
theorem eq_of_within_top {p : Project} {a b j : ItemId} (ha : p.parent? a = none)
    (hb : p.parent? b = none) (hja : p.Within j a) (hjb : p.Within j b) : a = b := by
  have hunique : Relator.RightUnique fun inner outer => p.parent? inner = some outer := by
    intro x y z hy hz
    exact Option.some.inj (hy.symm.trans hz)
  have key : ∀ {a b : ItemId}, p.parent? a = none → p.Within a b → a = b := by
    intro a b ha hab
    rcases Relation.ReflTransGen.cases_head_iff.1 hab with rfl | ⟨c, hc, _⟩
    · rfl
    · rw [ha] at hc
      cases hc
  rcases Relation.ReflTransGen.total_of_right_unique hunique hja hjb with hab | hba
  · exact key ha hab
  · exact (key hb hba).symm

namespace IsForest

variable {p : Project} (hp : p.IsForest)

include hp

theorem exists_top_within {j : ItemId} (hj : j < p.items.size) :
    ∃ top ∈ p.topLevel, p.Within j top := by
  induction j using Nat.strong_induction_on with
  | _ j ih =>
      cases hparent : p.parent? j with
      | none => exact ⟨j, (hp.top_iff j).2 ⟨hj, hparent⟩, .refl⟩
      | some owner =>
          have hlt := hp.parent_lt owner j hparent
          obtain ⟨top, htop, hwithin⟩ := ih owner hlt (Nat.lt_trans hlt hj)
          exact ⟨top, htop, .head hparent hwithin⟩

theorem topLevel_nodup : p.topLevel.Nodup :=
  List.Nodup.of_append_left (hp.owned_perm.nodup_iff.2 List.nodup_range)

theorem lt_size_of_mem_members {i j : ItemId} (h : j ∈ p.members i) : j < p.items.size := by
  by_contra hge
  have hparent := (hp.member_iff i j).1 h
  rw [parent?_eq_none (Nat.le_of_not_lt hge)] at hparent
  cases hparent

/-- What is inside each item at the top is, taken together, every item once. -/
theorem perm_of_within {tops : List ItemId} (htops : tops.Perm p.topLevel)
    {below : ItemId → List ItemId}
    (hmem : ∀ top ∈ tops, ∀ j, j ∈ below top ↔ p.Within j top)
    (hnodup : ∀ top ∈ tops, (below top).Nodup) :
    (tops.flatMap below).Perm (List.range p.items.size) := by
  have htop : ∀ top ∈ tops, top < p.items.size ∧ p.parent? top = none := fun top h =>
    (hp.top_iff top).1 (htops.mem_iff.1 h)
  have hnodupAll : (tops.flatMap below).Nodup := by
    rw [List.nodup_flatMap]
    refine ⟨hnodup, ?_⟩
    refine (htops.nodup_iff.2 hp.topLevel_nodup).imp_of_mem fun {a b} ha hb hne => ?_
    intro j hja hjb
    exact hne (eq_of_within_top (htop a ha).2 (htop b hb).2 ((hmem a ha j).1 hja)
      ((hmem b hb j).1 hjb))
  rw [List.perm_ext_iff_of_nodup hnodupAll List.nodup_range]
  intro j
  rw [List.mem_flatMap, List.mem_range]
  constructor
  · rintro ⟨top, h, hj⟩
    rcases Relation.ReflTransGen.cases_head_iff.1 ((hmem top h j).1 hj) with rfl | ⟨owner, ho, _⟩
    · exact (htop _ h).1
    · exact hp.lt_size_of_mem_members ((hp.member_iff owner j).2 ho)
  · intro hj
    obtain ⟨top, h, hwithin⟩ := hp.exists_top_within hj
    have htops := htops.mem_iff.2 h
    exact ⟨top, htops, (hmem top htops j).2 hwithin⟩

end IsForest
end Project

namespace KindRules

section Forest

variable {p : Project} (hp : p.IsForest)

include hp

/-- In a forest all members are visited. -/
theorem reach_eq (id : ItemId) :
    reach p id = id :: (p.members id).reverse.flatMap (reach p) := by
  have hall : (p.members id).filter (fun m => decide (id < m) && decide (m < p.items.size)) =
      p.members id := by
    rw [List.filter_eq_self]
    intro m hm
    simp [hp.lt_of_mem_members hm, hp.lt_size_of_mem_members hm]
  rw [reach]
  simp only [hall, List.flatMap_def, List.attach_map_val]

/-- What holds of an item if it holds of its members holds of every item. -/
theorem member_induction {motive : ItemId → Prop}
    (step : ∀ id, (∀ m ∈ p.members id, motive m) → motive id) (id : ItemId) : motive id := by
  induction hn : p.items.size - id using Nat.strong_induction_on generalizing id with
  | _ n ih =>
      refine step id fun m hm => ih _ ?_ m rfl
      have hlt := hp.lt_of_mem_members hm
      rw [← hn]
      exact Nat.sub_lt_sub_left (Nat.lt_trans hlt (hp.lt_size_of_mem_members hm)) hlt

theorem mem_reach {id j : ItemId} : j ∈ reach p id ↔ p.Within j id := by
  induction id using member_induction hp with
  | step id ih =>
      rw [reach_eq hp, List.mem_cons, List.mem_flatMap]
      constructor
      · rintro (rfl | ⟨m, hm, hj⟩)
        · exact .refl
        · rw [List.mem_reverse] at hm
          exact ((ih m hm).1 hj).tail ((hp.member_iff id m).1 hm)
      · intro hwithin
        rcases Relation.ReflTransGen.cases_tail hwithin with rfl | ⟨m, hjm, hm⟩
        · exact .inl rfl
        · have hmem := (hp.member_iff id m).2 hm
          exact .inr ⟨m, List.mem_reverse.2 hmem, (ih m hmem).2 hjm⟩

theorem nodup_reach (id : ItemId) : (reach p id).Nodup := by
  induction id using member_induction hp with
  | step id ih =>
      rw [reach_eq hp, List.nodup_cons, List.nodup_flatMap]
      refine ⟨?_, ?_, ?_⟩
      · intro hid
        obtain ⟨m, hm, hwithin⟩ := List.mem_flatMap.1 hid
        have hle := hp.le_of_within ((mem_reach hp).1 hwithin)
        exact absurd (hp.lt_of_mem_members (List.mem_reverse.1 hm)) (Nat.not_lt_of_le hle)
      · intro m hm
        exact ih m (List.mem_reverse.1 hm)
      · refine (List.nodup_reverse.2 (hp.members_nodup id)).imp_of_mem fun {a b} ha hb hne => ?_
        intro j hja hjb
        have hparent : ∀ m ∈ (p.members id).reverse, p.parent? m = some id := fun m hm =>
          (hp.member_iff id m).1 (List.mem_reverse.1 hm)
        exact hne (hp.eq_of_within (hparent a ha) (hparent b hb) ((mem_reach hp).1 hja)
          ((mem_reach hp).1 hjb))

/-- Every item is visited, and none twice. -/
theorem visited_perm : (visited p).Perm (List.range p.items.size) :=
  hp.perm_of_within (List.reverse_perm p.topLevel) (fun _ _ _ => mem_reach hp)
    fun top _ => nodup_reach hp top

theorem mem_visited {j : ItemId} : j ∈ visited p ↔ j < p.items.size := by
  rw [(visited_perm hp).mem_iff, List.mem_range]

theorem nodup_visited : (visited p).Nodup :=
  (visited_perm hp).nodup_iff.2 List.nodup_range

end Forest

/-! ## The list of pending items -/

/-- Works off a list of pending items in a number of turns.  Each turn takes the next
item, applies the rules to it, and puts the members it has then in its place, the last
one in front. -/
inductive WorksOff (rules : List KindRule) : Project → List ItemId → Nat → Project → Prop where
  | done (p : Project) : WorksOff rules p [] 0 p
  | turn {p q : Project} {id : ItemId} {rest : List ItemId} {n : Nat}
      (h : WorksOff rules (reclassify rules p id).1
        (((reclassify rules p id).1.members id).reverse ++ rest) n q) :
      WorksOff rules p (id :: rest) (n + 1) q

theorem reclassifyAll_append (rules : List KindRule) (p : Project) (a b : List ItemId) :
    (reclassifyAll rules p (a ++ b)).1 =
      (reclassifyAll rules (reclassifyAll rules p a).1 b).1 := by
  induction a generalizing p with
  | nil => rfl
  | cons id rest ih =>
      rw [List.cons_append, reclassifyAll, reclassifyAll]
      exact ih _

theorem worksOff_flatMap {rules : List KindRule} {p q : Project} {n : Nat}
    {ids rest : List ItemId}
    (hids : ∀ id ∈ ids, ∀ (p' : Project) (rest : List ItemId) (n : Nat), p'.shape = p.shape →
      WorksOff rules (reclassifyAll rules p' (reach p id)).1 rest n q →
      WorksOff rules p' (id :: rest) ((reach p id).length + n) q)
    (p' : Project) (hshape : p'.shape = p.shape)
    (h : WorksOff rules (reclassifyAll rules p' (ids.flatMap (reach p))).1 rest n q) :
    WorksOff rules p' (ids ++ rest) ((ids.flatMap (reach p)).length + n) q := by
  induction ids generalizing p' with
  | nil => simpa [reclassifyAll] using h
  | cons id more ih =>
      rw [List.flatMap_cons, reclassifyAll_append] at h
      rw [List.cons_append, List.flatMap_cons, List.length_append, Nat.add_assoc]
      refine hids id List.mem_cons_self p' _ _ hshape ?_
      exact ih (fun m hm => hids m (List.mem_cons_of_mem _ hm)) _
        ((Project.shape_reclassifyAll rules p' _).trans hshape) h

/-- An item and all that it holds are worked off before what was pending behind it. -/
theorem worksOff_reach {rules : List KindRule} {p q : Project} (hp : p.IsForest) (id : ItemId)
    (p' : Project) (rest : List ItemId) (n : Nat) (hshape : p'.shape = p.shape)
    (h : WorksOff rules (reclassifyAll rules p' (reach p id)).1 rest n q) :
    WorksOff rules p' (id :: rest) ((reach p id).length + n) q := by
  induction id using member_induction hp generalizing p' rest n with
  | step id ih =>
      rw [reach_eq hp, reclassifyAll] at h
      have hone := (Project.shape_reclassify rules p' id).trans hshape
      rw [reach_eq hp, List.length_cons, Nat.add_right_comm]
      refine .turn ?_
      rw [Project.members_of_shape hone]
      refine worksOff_flatMap (fun m hm => ?_) _ hone h
      exact ih m (List.mem_reverse.1 hm)

theorem worksOff_visited (rules : List KindRule) {p : Project} (hp : p.IsForest) :
    WorksOff rules p p.topLevel.reverse p.items.size (reclassifyAll rules p (visited p)).1 := by
  have hlength : (visited p).length = p.items.size := by
    rw [(visited_perm hp).length_eq, List.length_range]
  have h : WorksOff rules p (p.topLevel.reverse ++ [])
      ((p.topLevel.reverse.flatMap (reach p)).length + 0)
      (reclassifyAll rules p (visited p)).1 :=
    worksOff_flatMap (fun id _ => worksOff_reach hp id) p rfl (.done _)
  rw [List.append_nil, Nat.add_zero, ← visited, hlength] at h
  exact h

/-! ## One function from item to item -/

/-- The item with the kind that the first rule which fits gives it. -/
def reclassified (rules : List KindRule) (item : Item) : Item :=
  match rules.find? (·.fits item) with
  | some r => { item with kind := r.newKind }
  | none => item

theorem item?_reclassify (rules : List KindRule) (p : Project) (id i : ItemId) :
    (reclassify rules p id).1.item? i =
      if id = i then (p.item? i).map (reclassified rules) else p.item? i := by
  have hset : ∀ kind, (p.setKind id kind).item? i =
      if id = i then (p.item? i).map fun item => { item with kind } else p.item? i :=
    fun kind => Array.getElem?_modify
  unfold reclassify
  by_cases hi : id = i
  · subst hi
    cases hitem : p.item? id with
    | none => simp [hitem]
    | some item =>
        rw [Option.bind_some, if_pos rfl, Option.map_some, reclassified]
        cases rules.find? (·.fits item) with
        | none => exact hitem
        | some r =>
            show (p.setKind id r.newKind).item? id = _
            rw [hset, if_pos rfl, hitem, Option.map_some]
  · rw [if_neg hi]
    split
    · rfl
    · rw [hset, if_neg hi]

theorem item?_reclassifyAll (rules : List KindRule) (p : Project) {ids : List ItemId}
    (hids : ids.Nodup) (i : ItemId) :
    (reclassifyAll rules p ids).1.item? i =
      if i ∈ ids then (p.item? i).map (reclassified rules) else p.item? i := by
  induction ids generalizing p with
  | nil => simp [reclassifyAll]
  | cons id rest ih =>
      obtain ⟨hnot, hrest⟩ := List.nodup_cons.1 hids
      rw [reclassifyAll]
      refine (ih _ hrest).trans ?_
      rw [item?_reclassify]
      -- An item that comes up again would be given its second kind here.
      by_cases hi : id = i
      · rw [← hi, if_neg hnot, if_pos rfl, if_pos List.mem_cons_self]
      · have hmem : i ∈ id :: rest ↔ i ∈ rest := by
          rw [List.mem_cons, or_iff_right (Ne.symm hi)]
        simp only [if_neg hi, hmem]

theorem namespaces_reclassifyAll (rules : List KindRule) (p : Project) (ids : List ItemId) :
    (reclassifyAll rules p ids).1.namespaces = p.namespaces :=
  congrArg Prod.fst (Project.shape_reclassifyAll rules p ids)

/-! ## What a pass does -/

/-- A rule is for the items of its kind that carry its attribute, under any spelling. -/
def IsFor (r : KindRule) (item : Item) : Prop :=
  item.kind = r.oldKind ∧ ∃ a ∈ item.attributes, Attribute.Same a.name r.attributeName

/-- The kind that an item has under a list of rules: the new kind of the first rule that
is for it, or its own kind if there is none. -/
def KindUnder (rules : List KindRule) (item : Item) (kind : String) : Prop :=
  (∃ before r after, rules = before ++ r :: after ∧ (∀ s ∈ before, ¬ IsFor s item) ∧
      IsFor r item ∧ kind = r.newKind) ∨
    (∀ r ∈ rules, ¬ IsFor r item) ∧ kind = item.kind

theorem fits_iff {r : KindRule} {item : Item} : r.fits item = true ↔ IsFor r item := by
  simp only [KindRule.fits, Item.hasAttribute, Bool.and_eq_true, beq_iff_eq, List.any_eq_true,
    IsFor, Attribute.same_iff]

theorem reclassified_eq (rules : List KindRule) (item : Item) :
    ∃ kind, KindUnder rules item kind ∧ reclassified rules item = { item with kind } := by
  unfold reclassified
  cases hrule : rules.find? (·.fits item) with
  | none =>
      refine ⟨item.kind, .inr ⟨fun r hr => ?_, rfl⟩, rfl⟩
      have := List.find?_eq_none.1 hrule r hr
      rwa [fits_iff] at this
  | some r =>
      obtain ⟨hfits, before, after, hsplit, hbefore⟩ := List.find?_eq_some_iff_append.1 hrule
      have hnot : ∀ s ∈ before, ¬ IsFor s item := fun s hs => by
        have := hbefore s hs
        rwa [Bool.not_eq_true', ← Bool.not_eq_true, fits_iff] at this
      exact ⟨r.newKind, .inl ⟨before, r, after, hsplit, hnot, fits_iff.1 hfits, rfl⟩, rfl⟩

/-- A rule whose new kind is only white space. -/
def IsBlankRule (r : KindRule) : Prop := Text.allBlank r.newKind.toList = true

instance : DecidablePred IsBlankRule := fun r =>
  inferInstanceAs (Decidable (Text.allBlank r.newKind.toList = true))

theorem generate_of_blank {plugin : KindRules} (p : Project)
    (h : ∃ r ∈ plugin.rules, IsBlankRule r) :
    (plugin.generate p).failure.isSome = true ∧ (plugin.generate p).project = p := by
  unfold generate
  cases hrule : plugin.rules.find? (!·.hasNewKind) with
  | some r => exact ⟨rfl, rfl⟩
  | none =>
      obtain ⟨r, hr, hblank⟩ := h
      have hnone := List.find?_eq_none.1 hrule r hr
      rw [IsBlankRule] at hblank
      simp [KindRule.hasNewKind, hblank] at hnone

theorem generate_of_filled {plugin : KindRules} (p : Project)
    (h : ¬ ∃ r ∈ plugin.rules, IsBlankRule r) :
    (plugin.generate p).failure = none ∧
      (plugin.generate p).project = (reclassifyAll plugin.rules p (visited p)).1 := by
  unfold generate
  cases hrule : plugin.rules.find? (!·.hasNewKind) with
  | none => exact ⟨rfl, rfl⟩
  | some r =>
      have hr := List.find?_some hrule
      refine absurd ⟨r, List.mem_of_find?_eq_some hrule, ?_⟩ h
      simpa [KindRule.hasNewKind, IsBlankRule] using hr

theorem item?_reclassifyAll_visited (rules : List KindRule) {p : Project} (hp : p.IsForest)
    (i : ItemId) :
    (reclassifyAll rules p (visited p)).1.item? i = (p.item? i).map (reclassified rules) := by
  rw [item?_reclassifyAll rules p (nodup_visited hp)]
  split
  · rfl
  · rename_i hi
    rw [mem_visited hp] at hi
    rw [Project.item?, Array.getElem?_eq_none (Nat.le_of_not_lt hi)]
    rfl

/-- A pass over a forest fails if and only if a rule has no new kind, and then it changes
nothing.  Otherwise it works off every item in one turn each; an item gets the kind that it
has under the rules and keeps all else, and namespaces and full names stay as they were. -/
theorem generate_pointwise {p : Project} (hp : p.IsForest) (plugin : KindRules) :
    ((plugin.generate p).failure.isSome = true ↔ ∃ r ∈ plugin.rules, IsBlankRule r) ∧
    ((∃ r ∈ plugin.rules, IsBlankRule r) → (plugin.generate p).project = p) ∧
    ((¬ ∃ r ∈ plugin.rules, IsBlankRule r) →
      WorksOff plugin.rules p p.topLevel.reverse p.items.size (plugin.generate p).project ∧
      (plugin.generate p).project.namespaces = p.namespaces ∧
      (plugin.generate p).project.items.size = p.items.size ∧
      (∀ i item, p.item? i = some item →
        ∃ kind, KindUnder plugin.rules item kind ∧
          (plugin.generate p).project.item? i = some { item with kind }) ∧
      ∀ i, (plugin.generate p).project.fullName i = p.fullName i) := by
  refine ⟨⟨fun hfail => ?_, fun h => (generate_of_blank p h).1⟩,
    fun h => (generate_of_blank p h).2, fun h => ?_⟩
  · by_contra h
    rw [(generate_of_filled p h).1] at hfail
    cases hfail
  · rw [(generate_of_filled p h).2]
    have hitems := item?_reclassifyAll_visited plugin.rules hp
    refine ⟨worksOff_visited plugin.rules hp, namespaces_reclassifyAll _ _ _,
      Project.size_of_shape (Project.shape_reclassifyAll _ _ _), ?_, ?_⟩
    · intro i item hitem
      obtain ⟨kind, hkind, heq⟩ := reclassified_eq plugin.rules item
      exact ⟨kind, hkind, by rw [hitems, hitem, Option.map_some, heq]⟩
    · intro i
      have hkept : ∀ item, (reclassified plugin.rules item).name = item.name ∧
          (reclassified plugin.rules item).parent = item.parent := by
        intro item
        obtain ⟨_, _, heq⟩ := reclassified_eq plugin.rules item
        rw [heq]
        exact ⟨rfl, rfl⟩
      rw [Project.fullName, Project.fullName, Project.path_congr fun j _ => ?_]
      rw [hitems, Option.map_map]
      exact congrArg (Option.map · _) (funext fun item => by
        rw [Function.comp_apply, (hkept item).1, (hkept item).2])

/-- A node with two fields and a nested node with one, spelled with the suffix and
without. -/
def nodeSample : Project :=
  (Project.addFile {} "P" "F"
    [{ names := ["Node"], kind := .classType, rawComment := "/// n" },
     { names := ["in", "out"], kind := .field, rawComment := "/// f", parent := some 0,
       attributes := [⟨"PortAttribute", []⟩] },
     { names := ["Inner"], kind := .classType, rawComment := "/// i", parent := some 0,
       attributes := [⟨"Hidden", []⟩] },
     { names := ["x"], kind := .field, rawComment := "/// x", parent := some 2 }]).1

/-- The second rule would fit what the first one makes. -/
def portRules : KindRules :=
  { rules := [⟨"field", "Port", "port"⟩, ⟨"port", "Port", "lost"⟩,
      ⟨"class", "HiddenAttribute", "hidden-class"⟩] }

theorem generate_pointwise_nodeSample :
    nodeSample.IsForest ∧ (¬ ∃ r ∈ portRules.rules, IsBlankRule r) ∧
      WorksOff portRules.rules nodeSample nodeSample.topLevel.reverse 5
        (portRules.generate nodeSample).project ∧
      (∀ i, (portRules.generate nodeSample).project.fullName i = nodeSample.fullName i) ∧
      (portRules.generate nodeSample).project.items.toList.map Item.kind =
        ["class", "port", "port", "hidden-class", "field"] := by
  have hp : nodeSample.IsForest := Project.empty_isForest.addFile "P" "F" _
  have hfilled : ¬ ∃ r ∈ portRules.rules, IsBlankRule r := by decide
  obtain ⟨hworks, -, -, -, hnames⟩ := (generate_pointwise hp portRules).2.2 hfilled
  have hsize : nodeSample.items.size = 5 := by decide +kernel
  exact ⟨hp, hfilled, hsize ▸ hworks, hnames, by decide +kernel⟩

end KindRules
end DocPages

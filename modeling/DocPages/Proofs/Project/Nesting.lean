/-
The stack of open types is tree recursion.

The declarations of a file are a forest written down in pre-order, each with the index
of the one around it.  `addTrees` builds a project by recursion over that forest: it
knows for each declaration which item its members go to, and it does not look at the
members of a declaration that is dropped.  The theorem this file exists for is
`addFile_eq_addTrees`: the one pass over the list, with its stack of types that may still
get members, does the same.
-/
import DocPages.Proofs.Project.Placement
import Mathlib.Logic.Relation

namespace DocPages

inductive DeclTree where
  | node (d : Declaration) (members : List DeclTree)

namespace DeclTree

mutual
/-- A declaration, then what is inside it. -/
def preorder : DeclTree → List Declaration
  | .node d members => d :: preorders members

def preorders : List DeclTree → List Declaration
  | [] => []
  | t :: rest => preorder t ++ preorders rest
end

mutual
/-- Each declaration names the one around it by its place in the pre-order, which is
counted from `index`, and only containers hold others. -/
def Linked (parent : Option Nat) (index : Nat) : DeclTree → Prop
  | .node d members =>
    d.parent = parent ∧ (d.kind.isContainer = false → members = []) ∧
      LinkedAll (some index) (index + 1) members

def LinkedAll (parent : Option Nat) (index : Nat) : List DeclTree → Prop
  | [] => True
  | t :: rest => Linked parent index t ∧ LinkedAll parent (index + (preorder t).length) rest
end

end DeclTree

open DeclTree

namespace Project

/-! ## Lists in pre-order -/

/-- One declaration of a list is inside another, at whatever depth. -/
def Inside (ds : List Declaration) : Nat → Nat → Prop :=
  Relation.TransGen fun outer inner => ds[inner]?.bind Declaration.parent = some outer

/-- Each declaration is at the top, or in the one before it if that is a container, or in
one that the one before it is inside. -/
def InPreOrder (ds : List Declaration) : Prop :=
  ∀ i d, ds[i]? = some d → d.parent = none ∨
    ∃ last before outer, last + 1 = i ∧ ds[last]? = some before ∧ d.parent = some outer ∧
      (outer = last ∧ before.kind.isContainer = true ∨ Inside ds outer last)

/-! ## Every list in pre-order is a forest -/

/-- The containers that a declaration leaves open, from its parent outwards. -/
def keptOpen (chain : List Nat) (d : Declaration) : List Nat :=
  match d.parent with
  | none => []
  | some outer => chain.dropWhile (· ≠ outer)

theorem keptOpen_append {inner kept : List Nat} {outer : Nat} {d : Declaration}
    (hd : d.parent = some outer) (hnot : outer ∉ inner) :
    keptOpen (inner ++ outer :: kept) d = outer :: kept := by
  have hinner : ∀ a ∈ inner, decide (a ≠ outer) = true := by
    intro a ha
    exact decide_eq_true (fun e => hnot (e ▸ ha))
  rw [keptOpen, hd]
  simp only
  rw [List.dropWhile_append_of_pos hinner]
  simp

/-- The containers that are open after a declaration, the innermost first. -/
def openAfter (chain : List Nat) (index : Nat) (d : Declaration) : List Nat :=
  if d.kind.isContainer then index :: keptOpen chain d else keptOpen chain d

/-- Each declaration of the list is at the top or in a container that is open. -/
def Continues (chain : List Nat) (index : Nat) : List Declaration → Prop
  | [] => True
  | d :: rest =>
    (∀ outer, d.parent = some outer → outer ∈ chain) ∧
      Continues (openAfter chain index d) (index + 1) rest

/-- The list is a forest for each open container, the innermost first, and then one for the
top level. -/
def Splits : List Nat → Nat → List Declaration → Prop
  | [], index, ds => ∃ forest, LinkedAll none index forest ∧ ds = preorders forest
  | outer :: chain, index, ds =>
    ∃ forest more, LinkedAll (some outer) index forest ∧ ds = preorders forest ++ more ∧
      Splits chain (index + (preorders forest).length) more

theorem splits_append {inner chain : List Nat} {index : Nat} {ds : List Declaration}
    (h : Splits chain index ds) : Splits (inner ++ chain) index ds := by
  induction inner with
  | nil => exact h
  | cons outer rest ih => exact ⟨[], ds, by rw [LinkedAll]; trivial, by rw [preorders]; rfl, ih⟩

/-- What follows a declaration is its members, if it is a container, and then what follows
them. -/
theorem exists_node {chain : List Nat} {index : Nat} {d : Declaration} {ds : List Declaration}
    (h : Splits (if d.kind.isContainer then index :: chain else chain) (index + 1) ds) :
    ∃ members more, Linked d.parent index (.node d members) ∧
      d :: ds = preorder (.node d members) ++ more ∧
      Splits chain (index + (preorder (.node d members)).length) more := by
  by_cases hc : d.kind.isContainer = true
  · rw [if_pos hc] at h
    obtain ⟨members, more, hlinked, rfl, hmore⟩ := h
    refine ⟨members, more, ?_, ?_, ?_⟩
    · rw [Linked]
      exact ⟨rfl, fun hn => absurd (hc.symm.trans hn) nofun, hlinked⟩
    · rw [preorder, List.cons_append]
    · rw [preorder, List.length_cons, Nat.add_comm _ 1, ← Nat.add_assoc]
      exact hmore
  · rw [if_neg hc] at h
    refine ⟨[], ds, ?_, ?_, ?_⟩
    · rw [Linked, LinkedAll]
      exact ⟨rfl, fun _ => rfl, trivial⟩
    · rw [preorder, preorders]
      rfl
    · rw [preorder, preorders]
      exact h

theorem splits_of_continues {chain : List Nat} {index : Nat} {ds : List Declaration}
    (h : Continues chain index ds) : Splits chain index ds := by
  induction ds generalizing chain index with
  | nil =>
      have htop : Splits [] index [] := ⟨[], by rw [LinkedAll]; trivial, by rw [preorders]⟩
      rw [← List.append_nil chain]
      exact splits_append htop
  | cons d rest ih =>
      obtain ⟨hparent, hrest⟩ := h
      obtain ⟨members, more, hlinked, heq, hmore⟩ := exists_node (ih hrest)
      cases hd : d.parent with
      | none =>
          rw [keptOpen, hd] at hmore
          rw [hd] at hlinked
          obtain ⟨forest, hforest, rfl⟩ := hmore
          rw [← List.append_nil chain]
          refine splits_append ⟨.node d members :: forest, ?_, ?_⟩
          · rw [LinkedAll]
            exact ⟨hlinked, hforest⟩
          · rw [heq, preorders]
      | some outer =>
          obtain ⟨inner, kept, rfl, hnot⟩ := List.eq_append_cons_of_mem (hparent outer hd)
          rw [keptOpen_append hd hnot] at hmore
          rw [hd] at hlinked
          obtain ⟨forest, more', hforest, rfl, hmore'⟩ := hmore
          refine splits_append ⟨.node d members :: forest, more', ?_, ?_, ?_⟩
          · rw [LinkedAll]
            exact ⟨hlinked, hforest⟩
          · rw [heq, preorders, List.append_assoc]
          · rw [preorders, List.length_append, ← Nat.add_assoc]
            exact hmore'

/-- With each container its own containers stand further out in the chain. -/
def ClosedChain (ds : List Declaration) : List Nat → Prop
  | [] => True
  | inner :: chain => (∀ outer, Inside ds outer inner → outer ∈ chain) ∧ ClosedChain ds chain

theorem ClosedChain.of_append {ds : List Declaration} {inner chain : List Nat}
    (h : ClosedChain ds (inner ++ chain)) : ClosedChain ds chain := by
  induction inner with
  | nil => exact h
  | cons _ _ ih => exact ih h.2

/-- A declaration leaves open all the containers it is inside. -/
theorem closed_keptOpen {ds : List Declaration} {chain : List Nat} {index : Nat}
    {d : Declaration} (hd : ds[index]? = some d)
    (hparent : ∀ outer, d.parent = some outer → outer ∈ chain) (hc : ClosedChain ds chain) :
    ClosedChain ds (keptOpen chain d) ∧
      ∀ outer, Inside ds outer index → outer ∈ keptOpen chain d := by
  have hlink : ∀ outer, ds[index]?.bind Declaration.parent = some outer ↔
      d.parent = some outer := by
    intro outer
    rw [hd, Option.bind_some]
  cases hp : d.parent with
  | none =>
      rw [keptOpen, hp]
      refine ⟨trivial, ?_⟩
      intro outer hin
      cases hin with
      | single h => exact absurd ((hlink _).1 h) (by rw [hp]; exact nofun)
      | tail _ h => exact absurd ((hlink _).1 h) (by rw [hp]; exact nofun)
  | some parent =>
      obtain ⟨inner, kept, rfl, hnot⟩ := List.eq_append_cons_of_mem (hparent parent hp)
      have hclosed := hc.of_append
      rw [keptOpen_append hp hnot]
      refine ⟨hclosed, ?_⟩
      intro outer hin
      cases hin with
      | single h =>
          have := (hlink _).1 h
          rw [hp, Option.some.injEq] at this
          rw [this]
          exact List.mem_cons_self
      | @tail between _ hin' h =>
          have := (hlink _).1 h
          rw [hp, Option.some.injEq] at this
          subst this
          exact List.mem_cons_of_mem _ (hclosed.1 outer hin')

theorem continues_of_inPreOrder {ds : List Declaration} (h : InPreOrder ds) {chain : List Nat}
    {done rest : List Declaration} (hds : ds = done ++ rest) (hc : ClosedChain ds chain)
    (hopen : ∀ last before outer, last + 1 = done.length → ds[last]? = some before →
      (outer = last ∧ before.kind.isContainer = true ∨ Inside ds outer last) → outer ∈ chain) :
    Continues chain done.length rest := by
  induction rest generalizing done chain with
  | nil => trivial
  | cons d rest ih =>
      have hd : ds[done.length]? = some d := by
        rw [hds, List.getElem?_append_right (Nat.le_refl _), Nat.sub_self]
        rfl
      have hparent : ∀ outer, d.parent = some outer → outer ∈ chain := by
        intro outer houter
        rcases h done.length d hd with hnone | ⟨last, before, outer', hlast, hbefore, hp, hin⟩
        · rw [hnone] at houter
          cases houter
        · rw [houter, Option.some.injEq] at hp
          exact hopen last before outer hlast hbefore (hp ▸ hin)
      obtain ⟨hclosed, hinside⟩ := closed_keptOpen hd hparent hc
      have hds' : ds = (done ++ [d]) ++ rest := by
        rw [hds, List.append_assoc]
        rfl
      have hlen : (done ++ [d]).length = done.length + 1 := by
        rw [List.length_append, List.length_singleton]
      refine ⟨hparent, hlen ▸ ih hds' ?_ ?_⟩
      · unfold openAfter
        split
        · exact ⟨hinside, hclosed⟩
        · exact hclosed
      · intro last before outer hlast hbefore hin
        have hindex : last = done.length := by omega
        subst hindex
        rw [hd, Option.some.injEq] at hbefore
        subst hbefore
        unfold openAfter
        rcases hin with ⟨rfl, hcont⟩ | hin
        · rw [if_pos hcont]
          exact List.mem_cons_self
        · split
          · exact List.mem_cons_of_mem _ (hinside outer hin)
          · exact hinside outer hin

theorem continues_nil {ds : List Declaration} (h : InPreOrder ds) : Continues [] 0 ds := by
  have hc : Continues [] ([] : List Declaration).length ds :=
    continues_of_inPreOrder h rfl trivial
      (fun last before outer hlast => absurd hlast (Nat.succ_ne_zero last))
  exact hc

theorem exists_forest {ds : List Declaration} (h : InPreOrder ds) :
    ∃ forest, LinkedAll none 0 forest ∧ ds = preorders forest :=
  splits_of_continues (continues_nil h)

/-! ## Recursion over the forest -/

mutual
/-- Adds a declaration and what is inside it to the container `parent`, or to the top of
its namespace.  The members of another part of a type go to the item of the first part,
and other members to the first item made.  Without such an item they are dropped. -/
def addTree (package path : String) (parent : Option ItemId) (r : Project × Nat × Log) :
    DeclTree → Project × Nat × Log
  | .node d members =>
    let markup := Comment.normalize d.rawComment
    match r.1.earlierPart d parent with
    | some id =>
      addTrees package path (some id)
        (r.1.mergePart id (itemFor d (d.names.headD "") markup), r.2.1,
          r.2.2 ++ [.debug (path ++ ": merging another part of " ++ r.1.fullName id)]) members
    | none =>
      if markup.isEmpty then r
      else
        let added := (r.1.attachAll package d parent markup (filledNames d.names),
          r.2.1 + (filledNames d.names).length, r.2.2 ++ blankNameErrors path d)
        match filledNames d.names with
        | [] => added
        | _ :: _ => addTrees package path (some r.1.items.size) added members

def addTrees (package path : String) (parent : Option ItemId) (r : Project × Nat × Log) :
    List DeclTree → Project × Nat × Log
  | [] => r
  | t :: rest => addTrees package path parent (addTree package path parent r t) rest
end

namespace Building

def result (b : Building) : Project × Nat × Log := (b.project, b.created, b.log)

def ofResult (r : Project × Nat × Log) (stack : List OpenType) : Building :=
  { project := r.1, stack, created := r.2.1, log := r.2.2 }

/-! ## The stack -/

/-- A stack that leads down to `base` once the types declared from `first` on are gone. -/
def Above (first : Nat) (base stack : List OpenType) : Prop :=
  ∃ fresh, stack = fresh ++ base ∧ ∀ top ∈ fresh, first ≤ top.1

theorem Above.refl (first : Nat) (base : List OpenType) : Above first base base :=
  ⟨[], rfl, nofun⟩

theorem Above.cons {first index : Nat} {base stack : List OpenType} {item : Option ItemId}
    (h : Above (index + 1) ((index, item) :: base) stack) (hle : first ≤ index) :
    Above first base stack := by
  obtain ⟨fresh, rfl, hfresh⟩ := h
  refine ⟨fresh ++ [(index, item)], by simp, ?_⟩
  intro top htop
  rcases List.mem_append.1 htop with hold | hnew
  · have := hfresh top hold
    omega
  · rw [List.mem_singleton.1 hnew]
    exact hle

/-- The stack that a declaration with this parent finds: the parent is on top of it, and at
the top level it is empty.  The slot is where the declaration goes: nowhere if it is
`some none`, since then the parent was dropped. -/
inductive Opens : Option Nat → Option (Option ItemId) → List OpenType → Prop where
  | top : Opens none none []
  | inside (index : Nat) (item : Option ItemId) (outer : List OpenType) :
      Opens (some index) (some item) ((index, item) :: outer)

/-- Popping until the parent is found leaves what was there when its body began. -/
theorem dropWhile_of_above {first : Nat} {parent : Option Nat} {slot : Option (Option ItemId)}
    {base stack : List OpenType} (ho : Opens parent slot base) (ha : Above first base stack)
    (hlt : ∀ index, parent = some index → index < first) :
    (stack.dropWhile fun top => some top.1 != parent) = base := by
  obtain ⟨fresh, rfl, hfresh⟩ := ha
  have hall : ∀ top ∈ fresh, (some top.1 != parent) = true := by
    intro top htop
    rw [bne_iff_ne]
    intro heq
    have h₁ := hlt top.1 heq.symm
    have h₂ := hfresh top htop
    omega
  rw [List.dropWhile_append_of_pos hall]
  cases ho with
  | top => rfl
  | inside index item outer => simp

/-! ## One declaration -/

/-- Recursion over a tree whose slot may be that of a dropped container. -/
def addTreeAt (package path : String) (slot : Option (Option ItemId)) (r : Project × Nat × Log)
    (t : DeclTree) : Project × Nat × Log :=
  match slot with
  | none => addTree package path none r t
  | some (some id) => addTree package path (some id) r t
  | some none => r

def addTreesAt (package path : String) (slot : Option (Option ItemId))
    (r : Project × Nat × Log) (ts : List DeclTree) : Project × Nat × Log :=
  match slot with
  | none => addTrees package path none r ts
  | some (some id) => addTrees package path (some id) r ts
  | some none => r

theorem addTreesAt_nil (package path : String) (slot : Option (Option ItemId))
    (r : Project × Nat × Log) : addTreesAt package path slot r [] = r := by
  rcases slot with _ | _ | id
  · rw [addTreesAt, addTrees]
  · rfl
  · rw [addTreesAt, addTrees]

theorem addTreesAt_cons (package path : String) (slot : Option (Option ItemId))
    (r : Project × Nat × Log) (t : DeclTree) (rest : List DeclTree) :
    addTreesAt package path slot r (t :: rest) =
      addTreesAt package path slot (addTreeAt package path slot r t) rest := by
  rcases slot with _ | _ | id
  · rw [addTreesAt, addTrees]
    rfl
  · rfl
  · rw [addTreesAt, addTrees]
    rfl

theorem isContainer_of_earlierPart {p : Project} {d : Declaration} {parent : Option ItemId}
    {id : ItemId} (h : p.earlierPart d parent = some id) : d.kind.isContainer = true := by
  unfold earlierPart at h
  split at h
  · assumption
  · cases h

theorem enter_eq (b : Building) (index : Nat) (d : Declaration) (item : Option ItemId) :
    b.enter index d item =
      ofResult b.result (if d.kind.isContainer then (index, item) :: b.stack else b.stack) := by
  unfold enter
  split <;> rfl

/-- A declaration in its place does what the recursion does before it turns to the members,
and it leaves on the stack the item that the members go to. -/
theorem place_node (package path : String) (index : Nat) (d : Declaration)
    (parent : Option ItemId) (b : Building) :
    ∃ r item,
      b.place package path index d parent =
        ofResult r (if d.kind.isContainer then (index, item) :: b.stack else b.stack) ∧
      ∀ members, addTree package path parent b.result (.node d members) =
        addTreesAt package path (some item) r members := by
  rw [place_eq]
  cases hpart : b.project.earlierPart d parent with
  | some id =>
      let merged := b.project.mergePart id
        (itemFor d (d.names.headD "") (Comment.normalize d.rawComment))
      let note := Event.debug (path ++ ": merging another part of " ++ b.project.fullName id)
      refine ⟨(merged, b.created, b.log ++ [note]), some id, ?_, ?_⟩
      · rw [isContainer_of_earlierPart hpart]
        rfl
      · intro members
        rw [addTree]
        simp only [result, hpart]
        rfl
  | none =>
      by_cases hm : (Comment.normalize d.rawComment).isEmpty = true
      · refine ⟨b.result, none, ?_, ?_⟩
        · simp only [hm, if_true]
          exact enter_eq b index d none
        · intro members
          rw [addTree]
          simp only [result, hpart, hm, if_true]
          rfl
      · simp only [hm, if_false, Bool.false_eq_true]
        refine ⟨_, _, enter_eq _ index d _, ?_⟩
        intro members
        rw [addTree]
        simp only [result, hpart, hm, if_false, Bool.false_eq_true]
        cases filledNames d.names <;> rfl

theorem step_node (package path : String) (index : Nat) (d : Declaration)
    {slot : Option (Option ItemId)} {base : List OpenType} {b : Building}
    (ho : Opens d.parent slot base)
    (hpop : (b.stack.dropWhile fun top => some top.1 != d.parent) = base) :
    ∃ r item,
      b.step package path index d =
        ofResult r (if d.kind.isContainer then (index, item) :: base else base) ∧
      ∀ members, addTreeAt package path slot b.result (.node d members) =
        addTreesAt package path (some item) r members := by
  unfold step
  simp only [hpop]
  generalize d.parent = parent at ho
  cases ho with
  | top => exact place_node package path index d none { b with stack := [] }
  | inside outer item rest =>
      cases item with
      | some id =>
          exact place_node package path index d (some id)
            { b with stack := (outer, some id) :: rest }
      | none => exact ⟨b.result, none, enter_eq _ index d none, fun members => rfl⟩

/-! ## The whole forest -/

mutual
theorem steps_preorder (package path : String) {first index : Nat} {parent : Option Nat}
    {slot : Option (Option ItemId)} {base : List OpenType} {b : Building} {t : DeclTree}
    (ho : Opens parent slot base) (ha : Above first base b.stack)
    (hlt : ∀ outer, parent = some outer → outer < first) (hle : first ≤ index)
    (ht : Linked parent index t) (rest : List Declaration) :
    ∃ stack, Above first base stack ∧
      b.steps package path index (preorder t ++ rest) =
        (ofResult (addTreeAt package path slot b.result t) stack).steps package path
          (index + (preorder t).length) rest := by
  match t, ht with
  | .node d members, ht =>
    rw [Linked] at ht
    obtain ⟨rfl, hleaf, hmembers⟩ := ht
    obtain ⟨r, item, hstep, hrec⟩ :=
      step_node package path index d ho (dropWhile_of_above ho ha hlt)
    rw [preorder, List.cons_append, steps, hstep, hrec members, List.length_cons]
    by_cases hc : d.kind.isContainer = true
    · rw [if_pos hc]
      obtain ⟨stack, hstack, hsteps⟩ := steps_preorders package path
        (Opens.inside index item base) (Above.refl (index + 1) ((index, item) :: base))
        (b := ofResult r ((index, item) :: base)) (by rintro _ ⟨⟩; omega) (Nat.le_refl _)
        hmembers rest
      refine ⟨stack, hstack.cons hle, hsteps.trans ?_⟩
      rw [Nat.add_assoc, Nat.add_comm 1]
      rfl
    · rw [if_neg hc, hleaf (Bool.not_eq_true _ ▸ hc), preorders, addTreesAt_nil]
      exact ⟨base, Above.refl first base, rfl⟩

theorem steps_preorders (package path : String) {first index : Nat} {parent : Option Nat}
    {slot : Option (Option ItemId)} {base : List OpenType} {b : Building} {ts : List DeclTree}
    (ho : Opens parent slot base) (ha : Above first base b.stack)
    (hlt : ∀ outer, parent = some outer → outer < first) (hle : first ≤ index)
    (hts : LinkedAll parent index ts) (rest : List Declaration) :
    ∃ stack, Above first base stack ∧
      b.steps package path index (preorders ts ++ rest) =
        (ofResult (addTreesAt package path slot b.result ts) stack).steps package path
          (index + (preorders ts).length) rest := by
  match ts, hts with
  | [], _ =>
    rw [addTreesAt_nil]
    exact ⟨b.stack, ha, rfl⟩
  | t :: more, hts =>
    rw [LinkedAll] at hts
    obtain ⟨stack, hstack, hsteps⟩ := steps_preorder package path ho ha hlt hle hts.1
      (preorders more ++ rest)
    obtain ⟨stack', hstack', hsteps'⟩ := steps_preorders package path ho
      (b := ofResult (addTreeAt package path slot b.result t) stack) hstack hlt
      (Nat.le_trans hle (Nat.le_add_right _ _)) hts.2 rest
    refine ⟨stack', hstack', ?_⟩
    rw [preorders, List.append_assoc, hsteps, hsteps', addTreesAt_cons, List.length_append,
      Nat.add_assoc]
    rfl
end

end Building

/-- Over a forest that is linked from the start of the list, the pass is the recursion. -/
theorem addFile_preorders (p : Project) (package path : String) {forest : List DeclTree}
    (h : LinkedAll none 0 forest) :
    p.addFile package path (preorders forest) =
      addTrees package path none (p, 0, []) forest := by
  obtain ⟨stack, _, hsteps⟩ := Building.steps_preorders package path Building.Opens.top
    (b := { project := p }) (Building.Above.refl 0 []) nofun (Nat.le_refl 0) h []
  rw [List.append_nil] at hsteps
  rw [addFile, hsteps]
  rfl

/-- Declarations in pre-order are a forest, and adding them is recursion over that forest:
the project, the count and the log are the same.  The count is the number of new items. -/
theorem addFile_eq_addTrees {ds : List Declaration} (h : InPreOrder ds) (p : Project)
    (package path : String) :
    (∃ forest, LinkedAll none 0 forest ∧ ds = preorders forest) ∧
      (∀ forest, LinkedAll none 0 forest → ds = preorders forest →
        p.addFile package path ds = addTrees package path none (p, 0, []) forest) ∧
      (p.addFile package path ds).1.items.size =
        p.items.size + (p.addFile package path ds).2.1 := by
  refine ⟨exists_forest h, ?_, size_addFile p package path ds⟩
  rintro forest hforest rfl
  exact addFile_preorders p package path hforest

/-- A documented type, an undocumented one in it with a documented field, and a field that
is back in the first. -/
def nestedSample : List Declaration :=
  [{ names := ["A"], kind := .classType, rawComment := "/// a" },
   { names := ["B"], kind := .structType, parent := some 0 },
   { names := ["x"], kind := .field, rawComment := "/// x", parent := some 1 },
   { names := ["y", " "], kind := .field, rawComment := "/// y", parent := some 0 }]

theorem inPreOrder_nestedSample : InPreOrder nestedSample := by
  intro i d h
  rcases i with _ | _ | _ | _ | i <;> cases h
  · exact .inl rfl
  · exact .inr ⟨0, _, 0, rfl, rfl, rfl, .inl ⟨rfl, rfl⟩⟩
  · exact .inr ⟨1, _, 1, rfl, rfl, rfl, .inl ⟨rfl, rfl⟩⟩
  · exact .inr ⟨2, _, 0, rfl, rfl, rfl, .inr (.tail (.single rfl) (b := 1) rfl)⟩

theorem addFile_eq_addTrees_nestedSample :
    InPreOrder nestedSample ∧
      (∃ forest, LinkedAll none 0 forest ∧ nestedSample = preorders forest) ∧
      (∀ forest, LinkedAll none 0 forest → nestedSample = preorders forest →
        addFile {} "P" "F" nestedSample = addTrees "P" "F" none ({}, 0, []) forest) ∧
      (addFile {} "P" "F" nestedSample).1.items.size =
        0 + (addFile {} "P" "F" nestedSample).2.1 :=
  ⟨inPreOrder_nestedSample, addFile_eq_addTrees inPreOrder_nestedSample {} "P" "F"⟩

end Project
end DocPages

/-
What one declaration can do to a project.

A declaration is dropped, or it is another part of a type that is there already, or it
makes items in the type it is declared in.  `Turn` lists these, and `turn_step` says that
every step of building a file is one of them.  A turn keeps the items that are there but
for their members and what a part adds (`Turn.exists_item`), makes only items of its own
(`Turn.item_cases`), and puts these last among their siblings (`siblings_attachAll`).
Whatever turns keep holds after a whole file (`steps_keeps`).
-/
import DocPages.Proofs.Project.Forest

namespace DocPages

namespace Item

variable (item part : Item)

theorem merge_name : (item.merge part).name = item.name := rfl

theorem merge_kind : (item.merge part).kind = item.kind := rfl

theorem merge_container : (item.merge part).container = item.container := rfl

theorem merge_parent : (item.merge part).parent = item.parent := rfl

end Item

namespace Project

/-- What a type declaration says of its type. -/
def partOf (d : Declaration) : Item :=
  itemFor d (d.names.headD "") (Comment.normalize d.rawComment)

namespace Building

/-! ## Turns -/

/-- The types that stay open for a declaration: its own, and those around it. -/
def openFor (d : Declaration) (stack : List OpenType) : List OpenType :=
  stack.dropWhile fun top => some top.1 != d.parent

/-- The item that a declaration is a member of, if it is not at the top of its
namespace. -/
inductive GoesTo (d : Declaration) : List OpenType → Option ItemId → Prop where
  | top {opened : List OpenType} (h : d.parent = none) : GoesTo d opened none
  | member {index : Nat} {id : ItemId} {outer : List OpenType} (h : d.parent = some index) :
      GoesTo d ((index, some id) :: outer) (some id)

/-- What a declaration does when these types are open for it. -/
inductive Turn (package : String) (index : Nat) (d : Declaration) :
    Project → List OpenType → Project → List OpenType → Prop where
  | pass {p : Project} {opened : List OpenType} : Turn package index d p opened p opened
  | drop {p : Project} {opened : List OpenType} :
      Turn package index d p opened p ((index, none) :: opened)
  | merge {p : Project} {opened : List OpenType} {parent : Option ItemId} {id : ItemId}
      (hto : GoesTo d opened parent) (h : p.earlierPart d parent = some id) :
      Turn package index d p opened (p.mergePart id (partOf d)) ((index, some id) :: opened)
  | make {p : Project} {opened : List OpenType} {parent : Option ItemId}
      (hto : GoesTo d opened parent) (hnew : p.earlierPart d parent = none)
      (hmarkup : Comment.normalize d.rawComment ≠ "") :
      Turn package index d p opened
        (p.attachAll package d parent (Comment.normalize d.rawComment) (filledNames d.names))
        (if d.kind.isContainer then
          (index, (filledNames d.names).head?.map fun _ => p.items.size) :: opened
        else opened)

theorem turn_enter_none (package : String) (index : Nat) (d : Declaration) (b : Building) :
    Turn package index d b.project b.stack (b.enter index d none).project
      (b.enter index d none).stack := by
  unfold enter
  split
  · exact .drop
  · exact .pass

theorem turn_place (package path : String) (index : Nat) (d : Declaration) (b : Building)
    {parent : Option ItemId} (hto : GoesTo d b.stack parent) :
    Turn package index d b.project b.stack (b.place package path index d parent).project
      (b.place package path index d parent).stack := by
  rw [place_eq]
  split
  · rename_i id hid
    exact .merge hto hid
  · rename_i hnone
    split
    · exact turn_enter_none package index d b
    · rename_i hmarkup
      have hmake := @Turn.make package index d b.project b.stack parent hto hnone
        (by simpa using hmarkup)
      unfold enter
      split
      · rename_i hc
        rwa [if_pos hc] at hmake
      · rename_i hc
        rwa [if_neg hc] at hmake

theorem turn_step (package path : String) (index : Nat) (d : Declaration) (b : Building) :
    Turn package index d b.project (openFor d b.stack) (b.step package path index d).project
      (b.step package path index d).stack := by
  have htop : ∀ top, (openFor d b.stack).head? = some top → d.parent = some top.1 := by
    intro top htop
    have hnot := List.head?_dropWhile_not (fun top => some top.1 != d.parent) b.stack
    rw [openFor] at htop
    rw [htop] at hnot
    exact (by simpa using hnot : some top.1 = d.parent).symm
  unfold step
  simp only
  split
  · rename_i hparent
    exact turn_place package path index d { b with stack := openFor d b.stack } (.top hparent)
  · rename_i item outer hparent hstack
    have hto : GoesTo d (openFor d b.stack) (some item) := by
      rw [openFor, hstack]
      exact .member (htop _ (by rw [openFor, hstack]; rfl))
    exact turn_place package path index d { b with stack := openFor d b.stack } hto
  · exact turn_enter_none package index d { b with stack := openFor d b.stack }
  · exact .pass

theorem openFor_suffix (d : Declaration) (stack : List OpenType) : openFor d stack <:+ stack :=
  List.dropWhile_suffix _

/-- The ids that are open belong to items of the project. -/
def OpenIn (p : Project) (opened : List OpenType) : Prop :=
  ∀ top ∈ opened, ∀ id, top.2 = some id → id < p.items.size

theorem GoesTo.mem {d : Declaration} {opened : List OpenType} {id : ItemId}
    (h : GoesTo d opened (some id)) : ∃ top ∈ opened, top.2 = some id := by
  cases h with
  | member => exact ⟨_, List.mem_cons_self, rfl⟩

theorem GoesTo.lt {d : Declaration} {opened : List OpenType} {parent : Option ItemId}
    (h : GoesTo d opened parent) {p : Project} (hopen : OpenIn p opened) :
    ∀ id, parent = some id → id < p.items.size := by
  rintro id rfl
  obtain ⟨top, htop, hid⟩ := h.mem
  exact hopen top htop id hid

/-- What every turn keeps, and what may be forgotten of the open types, holds after all
declarations of a file. -/
theorem steps_keeps {I : Project → List OpenType → Prop} {package path : String}
    {ds : List Declaration}
    (hturn : ∀ d ∈ ds, ∀ index p opened q opened', p.IsForest → OpenIn p opened →
      Turn package index d p opened q opened' → I p opened → I q opened')
    (hpop : ∀ p opened stack, opened <:+ stack → I p stack → I p opened)
    {b : Building} (hb : b.Sound) (h : I b.project b.stack) (index : Nat) :
    I (b.steps package path index ds).project (b.steps package path index ds).stack := by
  induction ds generalizing b index with
  | nil => exact h
  | cons d rest ih =>
      have hkept := openFor_suffix d b.stack
      have hstep := hturn d List.mem_cons_self index _ _ _ _ hb.isForest
        (fun top htop => hb.open_lt top (hkept.mem htop)) (turn_step package path index d b)
        (hpop _ _ _ hkept h)
      exact ih (fun e he => hturn e (List.mem_cons_of_mem _ he)) (hb.step package path index d)
        hstep (index + 1)

end Building

/-- The same for what is said of the project alone once the file is done. -/
theorem addFile_keeps {I : Project → List OpenType → Prop} {package path : String}
    {ds : List Declaration}
    (hturn : ∀ d ∈ ds, ∀ index p opened q opened', p.IsForest → Building.OpenIn p opened →
      Building.Turn package index d p opened q opened' → I p opened → I q opened')
    (hpop : ∀ p opened stack, opened <:+ stack → I p stack → I p opened)
    {p : Project} (hp : p.IsForest) (h : I p []) : I (p.addFile package path ds).1 [] := by
  have hstart : Building.Sound { project := p } := ⟨hp, nofun⟩
  exact hpop _ _ _ List.nil_suffix (Building.steps_keeps hturn hpop hstart h 0)

/-! ## Siblings -/

section Siblings

variable {p : Project}

/-- The namespace of a new item at the top is the first of its name, or a new one behind
all others. -/
theorem namespaces_attach_top (p : Project) (package inNamespace : String) (item : Item) :
    ∃ front target back, (∀ ns ∈ front, ns.name ≠ inNamespace) ∧ target.name = inNamespace ∧
      (p.namespaces.toList = front ++ target :: back ∨
        p.namespaces.toList = front ∧ back = [] ∧
          target = { name := inNamespace, package, directory := inNamespace }) ∧
      (p.attach package inNamespace none item).1.namespaces.toList =
        front ++ { target with items := target.items ++ [p.items.size] } :: back := by
  have hmodify : ∀ (front back : List Namespace) (target : Namespace) (f : Namespace → Namespace),
      (front ++ target :: back).modify front.length f = front ++ f target :: back := by
    intro front back target f
    induction front with
    | nil => rfl
    | cons ns rest ih => rw [List.cons_append, List.length_cons, List.modify_succ_cons, ih]; rfl
  simp only [attach, addTopLevel, push, Array.toList_modify, size_namespaceIndex]
  unfold namespaceIndex
  split
  · rename_i index hindex
    obtain ⟨hlt, hname, hfirst⟩ := Array.findIdx?_eq_some_iff_getElem.1 hindex
    have hlt' : index < p.namespaces.toList.length := by simpa using hlt
    have hsplit : p.namespaces.toList =
        p.namespaces.toList.take index ++ p.namespaces[index] :: p.namespaces.toList.drop (index + 1) := by
      rw [← Array.getElem_toList, ← List.drop_eq_getElem_cons hlt', List.take_append_drop]
    have hlength : (p.namespaces.toList.take index).length = index := by
      rw [List.length_take, Nat.min_eq_left (Nat.le_of_lt hlt')]
    refine ⟨_, _, _, ?_, by simpa using hname, .inl hsplit, ?_⟩
    · intro ns hns
      obtain ⟨j, hj, rfl⟩ := List.mem_take_iff_getElem.1 hns
      have hjlt := Nat.lt_of_lt_of_le hj (Nat.min_le_left _ _)
      simpa using hfirst j hjlt
    · have := hmodify (p.namespaces.toList.take index) (p.namespaces.toList.drop (index + 1))
        p.namespaces[index] fun ns => { ns with items := ns.items ++ [p.items.size] }
      rwa [hlength, ← hsplit] at this
  · rename_i hnone
    refine ⟨p.namespaces.toList, _, [], ?_, rfl, .inr ⟨rfl, rfl, rfl⟩, ?_⟩
    · intro ns hns
      simpa using Array.findIdx?_eq_none_iff.1 hnone ns (Array.mem_toList_iff.1 hns)
    · rw [Array.toList_push]
      exact hmodify p.namespaces.toList [] _ _

theorem siblings_none (p : Project) (name : String) :
    p.siblings name none =
      ((p.namespaces.toList.find? (·.name == name)).map Namespace.items).getD [] := by
  rw [siblings, Array.find?_toList]

/-- A new item goes last among its siblings, and all others keep theirs. -/
theorem siblings_attach (package inNamespace : String) {parent : Option ItemId}
    (hparent : ∀ id, parent = some id → id < p.items.size) (item : Item) (name : String)
    (owner : Option ItemId) :
    (p.attach package inNamespace parent item).1.siblings name owner =
      p.siblings name owner ++
        if owner = parent ∧ (parent = none → name = inNamespace) then [p.items.size] else [] := by
  cases parent with
  | some parent =>
      cases owner with
      | none => simp [attach, siblings, addMember, push]
      | some owner =>
          refine (members_addMember item (hparent parent rfl) owner).trans ?_
          rw [siblings]
          by_cases howner : owner = parent
          · simp [howner]
          · simp [howner]
  | none =>
      cases owner with
      | some owner =>
          rw [if_neg (fun h => by cases h.1), List.append_nil]
          refine (members_push (p.namespaceIndex inNamespace package).1 item none owner).trans ?_
          unfold namespaceIndex
          split <;> rfl
      | none =>
          obtain ⟨front, target, back, hfront, htarget, hold, hnew⟩ :=
            namespaces_attach_top p package inNamespace item
          rw [siblings_none, siblings_none, hnew]
          by_cases hname : name = inNamespace
          · subst hname
            have hnone : front.find? (·.name == name) = none := by
              rw [List.find?_eq_none]
              intro ns hns
              simpa using hfront ns hns
            rcases hold with hold | ⟨hold, rfl, rfl⟩
            · simp [hold, List.find?_append, hnone, htarget]
            · simp [hold, List.find?_append, hnone]
          · have hne : (target.name == name) = false := by
              rw [htarget, beq_eq_false_iff_ne]
              exact Ne.symm hname
            rcases hold with hold | ⟨hold, rfl, rfl⟩
            · simp [hold, List.find?_append, hne, hname]
            · simp [hold, List.find?_append, hne, hname]

theorem siblings_attachAll (package : String) (d : Declaration) {parent : Option ItemId}
    (hparent : ∀ id, parent = some id → id < p.items.size) (markup : String)
    (names : List String) (name : String) (owner : Option ItemId) :
    (p.attachAll package d parent markup names).siblings name owner =
      p.siblings name owner ++
        if owner = parent ∧ (parent = none → name = d.inNamespace) then
          List.range' p.items.size names.length
        else [] := by
  induction names generalizing p with
  | nil => simp [attachAll]
  | cons first rest ih =>
      have hsize := size_attach p package d.inNamespace parent (itemFor d first markup)
      rw [attachAll, List.foldl_cons]
      refine (ih fun id hid => ?_).trans ?_
      · rw [hsize]
        exact Nat.lt_succ_of_lt (hparent id hid)
      · rw [siblings_attach package d.inNamespace hparent, hsize, List.append_assoc]
        split
        · rfl
        · rfl

theorem siblings_mergePart (p : Project) (id : ItemId) (part : Item) (name : String)
    (owner : Option ItemId) :
    (p.mergePart id part).siblings name owner = p.siblings name owner := by
  cases owner with
  | none => rfl
  | some owner => exact members_of_shape (shape_mergePart p id part) owner

end Siblings

/-! ## Items -/

section Items

variable {p : Project}

theorem item?_mergePart (p : Project) (id : ItemId) (part : Item) (other : ItemId) :
    (p.mergePart id part).item? other =
      if id = other then (p.item? other).map (·.merge part) else p.item? other :=
  Array.getElem?_modify

/-- An item that is there gets at most another member. -/
theorem item?_attach_of_some (package inNamespace : String) (parent : Option ItemId)
    (new : Item) {id : ItemId} {item : Item} (h : p.item? id = some item) :
    ∃ members, (p.attach package inNamespace parent new).1.item? id =
      some { item with members } := by
  have hlt : id < p.items.size := (Array.getElem?_eq_some_iff.1 h).1
  have hpush : ∀ owner, (p.push new owner).1.item? id = some item := by
    intro owner
    rw [item?_push_of_lt new owner hlt, ← h, item?, Array.getElem?_eq_getElem hlt]
  cases parent with
  | none =>
      have hfound : (p.namespaceIndex inNamespace package).1.items = p.items := by
        unfold namespaceIndex
        split <;> rfl
      refine ⟨item.members, ?_⟩
      have := hpush none
      simpa [attach, addTopLevel, push, item?, hfound] using this
  | some owner =>
      rw [attach, item?_addMember, hpush]
      split
      · exact ⟨_, rfl⟩
      · exact ⟨item.members, rfl⟩

theorem item?_attach_new (package inNamespace : String) {parent : Option ItemId}
    (hparent : ∀ id, parent = some id → id < p.items.size) (new : Item) :
    (p.attach package inNamespace parent new).1.item? p.items.size =
      some { new with parent, members := [] } := by
  have hpush : ∀ (q : Project) owner, (q.push new owner).1.item? q.items.size =
      some { new with parent := owner, members := [] } := fun q owner => Array.getElem?_push_size
  cases parent with
  | none =>
      have := hpush (p.namespaceIndex inNamespace package).1 none
      rwa [size_namespaceIndex] at this
  | some owner =>
      rw [attach, item?_addMember, if_neg (Nat.ne_of_lt (hparent owner rfl)), hpush]

theorem item?_attachAll_of_some (package : String) (d : Declaration) (parent : Option ItemId)
    (markup : String) (names : List String) {id : ItemId} {item : Item}
    (h : p.item? id = some item) :
    ∃ members, (p.attachAll package d parent markup names).item? id =
      some { item with members } := by
  induction names generalizing p item with
  | nil => exact ⟨item.members, h⟩
  | cons name rest ih =>
      obtain ⟨members, hstep⟩ :=
        item?_attach_of_some package d.inNamespace parent (itemFor d name markup) h
      obtain ⟨members', hrest⟩ := ih hstep
      exact ⟨members', hrest⟩

theorem item?_attachAll_first (package : String) (d : Declaration) {parent : Option ItemId}
    (hparent : ∀ id, parent = some id → id < p.items.size) (markup : String)
    {names : List String} {name : String} (h : names.head? = some name) :
    ∃ members, (p.attachAll package d parent markup names).item? p.items.size =
      some { itemFor d name markup with parent, members } := by
  obtain ⟨rest, rfl⟩ := List.head?_eq_some_iff.1 h
  have hfirst := item?_attach_new package d.inNamespace hparent (itemFor d name markup)
  obtain ⟨members, hrest⟩ := item?_attachAll_of_some package d parent markup rest hfirst
  exact ⟨members, hrest⟩

/-- The new items are those of the names, in their order. -/
theorem item?_attachAll_new (package : String) (d : Declaration) {parent : Option ItemId}
    (hparent : ∀ id, parent = some id → id < p.items.size) (markup : String)
    {names : List String} {id : ItemId} (hid : p.items.size ≤ id) {item : Item}
    (h : (p.attachAll package d parent markup names).item? id = some item) :
    ∃ name members, names[id - p.items.size]? = some name ∧
      item = { itemFor d name markup with parent, members } := by
  induction names generalizing p with
  | nil =>
      have hlt : id < p.items.size := (Array.getElem?_eq_some_iff.1 h).1
      exact absurd hid (Nat.not_le_of_lt hlt)
  | cons first rest ih =>
      have hsize := size_attach p package d.inNamespace parent (itemFor d first markup)
      have hparent' : ∀ owner, parent = some owner →
          owner < (p.attach package d.inNamespace parent (itemFor d first markup)).1.items.size := by
        intro owner howner
        rw [hsize]
        exact Nat.lt_succ_of_lt (hparent owner howner)
      rcases Nat.eq_or_lt_of_le hid with rfl | hlt
      · have hhead : (first :: rest).head? = some first := rfl
        obtain ⟨members, hfirst⟩ := item?_attachAll_first package d hparent markup hhead
        refine ⟨first, members, by rw [Nat.sub_self]; rfl, ?_⟩
        exact Option.some.inj (h.symm.trans hfirst)
      · obtain ⟨name, members, hname, hitem⟩ := ih hparent' (by rw [hsize]; exact hlt) h
        refine ⟨name, members, ?_, hitem⟩
        rw [hsize] at hname
        rw [← hname, ← Nat.succ_pred_eq_of_pos (Nat.sub_pos_of_lt hlt), List.getElem?_cons_succ]
        rfl

end Items

namespace Building

/-! ## What a turn does to the items -/

/-- An item after a declaration and the same item before: it has other members, or the
declaration is another part of it. -/
inductive Carries (d : Declaration) (item : Item) : Item → Prop where
  | members (members : List ItemId) : Carries d item { item with members }
  | merge : Carries d item (item.merge (partOf d))

section Carries

variable {d : Declaration} {item new : Item} (h : Carries d item new)

include h

theorem Carries.name : new.name = item.name := by
  cases h with
  | members => rfl
  | merge => exact item.merge_name (partOf d)

theorem Carries.kind : new.kind = item.kind := by
  cases h with
  | members => rfl
  | merge => exact item.merge_kind (partOf d)

theorem Carries.container : new.container = item.container := by
  cases h with
  | members => rfl
  | merge => exact item.merge_container (partOf d)

theorem Carries.parent : new.parent = item.parent := by
  cases h with
  | members => rfl
  | merge => exact item.merge_parent (partOf d)

end Carries

section Turn

variable {package : String} {index : Nat} {d : Declaration} {p q : Project}
  {opened opened' : List OpenType} (h : Turn package index d p opened q opened')

include h

/-- An item that is there keeps all but its members and what another part of it adds. -/
theorem Turn.exists_item {id : ItemId} {item : Item} (hitem : p.item? id = some item) :
    ∃ new, q.item? id = some new ∧ Carries d item new := by
  cases h with
  | pass => exact ⟨item, hitem, .members item.members⟩
  | drop => exact ⟨item, hitem, .members item.members⟩
  | merge =>
      rw [item?_mergePart, hitem]
      split
      · exact ⟨_, rfl, .merge⟩
      · exact ⟨item, rfl, .members item.members⟩
  | make =>
      obtain ⟨members, hnew⟩ := item?_attachAll_of_some package d _ _ _ hitem
      exact ⟨_, hnew, .members members⟩

/-- An item after a turn was there before, or the declaration made it. -/
theorem Turn.item_cases (hopen : OpenIn p opened) {id : ItemId} {new : Item}
    (hnew : q.item? id = some new) :
    (∃ item, p.item? id = some item ∧ Carries d item new) ∨
    p.items.size ≤ id ∧ Comment.normalize d.rawComment ≠ "" ∧
      ∃ parent name members, GoesTo d opened parent ∧ p.earlierPart d parent = none ∧
        (filledNames d.names)[id - p.items.size]? = some name ∧
        new = { itemFor d name (Comment.normalize d.rawComment) with parent, members } := by
  rcases Nat.lt_or_ge id p.items.size with hlt | hge
  · have hitem : p.item? id = some p.items[id] := Array.getElem?_eq_getElem hlt
    obtain ⟨new', hnew', hkept⟩ := h.exists_item hitem
    rw [hnew, Option.some.injEq] at hnew'
    subst hnew'
    exact .inl ⟨_, hitem, hkept⟩
  · have hnone : p.item? id = none := Array.getElem?_eq_none hge
    cases h with
    | pass => rw [hnone] at hnew; cases hnew
    | drop => rw [hnone] at hnew; cases hnew
    | merge =>
        rw [item?_mergePart, hnone] at hnew
        split at hnew <;> cases hnew
    | @make parent hto hearlier hmarkup =>
        obtain ⟨name, members, hname, hitem⟩ :=
          item?_attachAll_new package d (hto.lt hopen) _ hge hnew
        exact .inr ⟨hge, hmarkup, parent, name, members, hto, hearlier, hname, hitem⟩

theorem Turn.mem_siblings (hopen : OpenIn p opened) {name : String} {owner : Option ItemId}
    {id : ItemId} (hid : id ∈ p.siblings name owner) : id ∈ q.siblings name owner := by
  cases h with
  | pass => exact hid
  | drop => exact hid
  | merge => rwa [siblings_mergePart]
  | make hto _ _ =>
      rw [siblings_attachAll package d (hto.lt hopen)]
      exact List.mem_append_left _ hid

/-- A new sibling is new in the project, and stands where the declaration goes. -/
theorem Turn.siblings_cases (hopen : OpenIn p opened) {name : String} {owner : Option ItemId}
    {id : ItemId} (hid : id ∈ q.siblings name owner) :
    id ∈ p.siblings name owner ∨
      p.items.size ≤ id ∧ GoesTo d opened owner ∧ (owner = none → name = d.inNamespace) := by
  cases h with
  | pass => exact .inl hid
  | drop => exact .inl hid
  | merge =>
      rw [siblings_mergePart] at hid
      exact .inl hid
  | make hto _ _ =>
      rw [siblings_attachAll package d (hto.lt hopen), List.mem_append] at hid
      refine hid.imp_right fun hnew => ?_
      split at hnew
      · rename_i hwhere
        obtain ⟨rfl, hname⟩ := hwhere
        exact ⟨(List.mem_range'_1.1 hnew).1, hto, hname⟩
      · cases hnew

end Turn

end Building

/-! ## Containers -/

/-- The item is there and holds members. -/
def IsContainer (p : Project) (id : ItemId) : Prop :=
  ∃ item, p.item? id = some item ∧ item.container = true

theorem isContainerWord_word (kind : DeclKind) :
    Item.isContainerWord kind.word = kind.isContainer := by
  cases kind <;> decide

theorem container_itemFor (d : Declaration) (name markup : String) :
    (itemFor d name markup).container = d.kind.isContainer :=
  isContainerWord_word d.kind

/-- The item of an earlier part is a sibling of the same name and kind. -/
theorem exists_of_earlierPart {p : Project} {d : Declaration} {parent : Option ItemId}
    {id : ItemId} (h : p.earlierPart d parent = some id) :
    d.kind.isContainer = true ∧ id ∈ p.siblings d.inNamespace parent ∧
      ∃ item, p.item? id = some item ∧ item.container = true ∧
        d.names.head? = some item.name ∧ item.kind = d.kind.word := by
  unfold earlierPart at h
  split at h
  · rename_i hc
    obtain ⟨name, hname, hfind⟩ := Option.bind_eq_some_iff.1 h
    have hfits := List.find?_some hfind
    rw [Option.any_eq_true] at hfits
    obtain ⟨item, hitem, hsame⟩ := hfits
    simp only [Bool.and_eq_true, beq_iff_eq] at hsame
    obtain ⟨⟨hcontainer, rfl⟩, hkind⟩ := hsame
    exact ⟨hc, List.mem_of_find?_eq_some hfind, item, hitem, hcontainer, hname, hkind⟩
  · cases h

/-- Without an earlier part there is no such sibling. -/
theorem not_exists_of_earlierPart {p : Project} {d : Declaration} {parent : Option ItemId}
    (h : p.earlierPart d parent = none) (hc : d.kind.isContainer = true) {name : String}
    (hname : d.names.head? = some name) {id : ItemId} (hid : id ∈ p.siblings d.inNamespace parent)
    {item : Item} (hitem : p.item? id = some item) :
    ¬ (item.container = true ∧ item.name = name ∧ item.kind = d.kind.word) := by
  rw [earlierPart, if_pos hc, hname, Option.bind_some] at h
  have hnone := List.find?_eq_none.1 h id hid
  rintro ⟨hcontainer, rfl, hkind⟩
  simp [hitem, hcontainer, hkind] at hnone

namespace Building

/-- Only containers hold members, and only containers are open. -/
structure Housed (p : Project) (opened : List OpenType) : Prop where
  owners : ∀ id item owner, p.item? id = some item → item.parent = some owner →
    p.IsContainer owner
  opened : ∀ top ∈ opened, ∀ id, top.2 = some id → p.IsContainer id

section

variable {package : String} {index : Nat} {d : Declaration} {p q : Project}
  {opened opened' : List OpenType}

theorem Turn.isContainer (h : Turn package index d p opened q opened') {id : ItemId}
    (hid : p.IsContainer id) : q.IsContainer id := by
  obtain ⟨item, hitem, hc⟩ := hid
  obtain ⟨new, hnew, hcarries⟩ := h.exists_item hitem
  exact ⟨new, hnew, hcarries.container.trans hc⟩

/-- The type that a turn opens, if it has an item. -/
theorem Turn.opened_cases (h : Turn package index d p opened q opened')
    (hopen : OpenIn p opened) {top : OpenType} (htop : top ∈ opened') {id : ItemId} (hid : top.2 = some id) :
    top ∈ opened ∨ top = (index, some id) ∧ d.kind.isContainer = true ∧ q.IsContainer id := by
  cases h with
  | pass => exact .inl htop
  | drop =>
      rcases List.mem_cons.1 htop with rfl | htop
      · cases hid
      · exact .inl htop
  | merge hto hearlier =>
      rcases List.mem_cons.1 htop with rfl | htop
      · cases hid
        obtain ⟨hc, _, item, hitem, hcontainer, _⟩ := exists_of_earlierPart hearlier
        have hturn := @Turn.merge package index d p opened _ id hto hearlier
        exact .inr ⟨rfl, hc, hturn.isContainer ⟨item, hitem, hcontainer⟩⟩
      · exact .inl htop
  | @make parent hto hnew hmarkup =>
      split at htop
      · rename_i hc
        rcases List.mem_cons.1 htop with rfl | htop
        · obtain ⟨name, hname, hsize⟩ := Option.map_eq_some_iff.1 hid
          obtain ⟨members, hitem⟩ := item?_attachAll_first package d (hto.lt hopen)
            (Comment.normalize d.rawComment) hname
          rw [hsize] at hitem
          have hcontainer := container_itemFor d name (Comment.normalize d.rawComment)
          exact .inr ⟨Prod.ext rfl hid, hc, _, hitem, hcontainer.trans hc⟩
        · exact .inl htop
      · exact .inl htop

theorem Housed.turn (hp : Housed p opened) (hopen : OpenIn p opened)
    (h : Turn package index d p opened q opened') : Housed q opened' := by
  refine ⟨?_, ?_⟩
  · intro id new owner hnew howner
    rcases h.item_cases hopen hnew with ⟨item, hitem, hcarries⟩ | hmade
    · rw [hcarries.parent] at howner
      exact h.isContainer (hp.owners id item owner hitem howner)
    · obtain ⟨_, _, parent, name, members, hto, _, _, rfl⟩ := hmade
      obtain rfl : parent = some owner := howner
      obtain ⟨top, htop, hid⟩ := hto.mem
      exact h.isContainer (hp.opened top htop owner hid)
  · intro top htop id hid
    rcases h.opened_cases hopen htop hid with hold | ⟨_, _, hc⟩
    · exact h.isContainer (hp.opened top hold id hid)
    · exact hc

theorem Housed.pop (hp : Housed p opened') (h : opened <:+ opened') : Housed p opened :=
  ⟨hp.owners, fun top htop => hp.opened top (h.mem htop)⟩

end

end Building

/-! ## Files one after the other -/

/-- A file as it is added to a project. -/
structure SourceFile where
  package : String
  path : String
  declarations : List Declaration

def addSourceFile (p : Project) (file : SourceFile) : Project :=
  (p.addFile file.package file.path file.declarations).1

/-- The project of some files. -/
def build (files : List SourceFile) : Project := files.foldl addSourceFile {}

theorem isForest_foldl (files : List SourceFile) {p : Project} (hp : p.IsForest) :
    (files.foldl addSourceFile p).IsForest := by
  induction files generalizing p with
  | nil => exact hp
  | cons file rest ih => exact ih (hp.addFile _ _ _)

theorem isForest_build (files : List SourceFile) : (build files).IsForest :=
  isForest_foldl files empty_isForest

theorem foldl_keeps {I : Project → Prop} {files : List SourceFile}
    (hfile : ∀ file ∈ files, ∀ p : Project, p.IsForest → I p → I (p.addSourceFile file))
    {p : Project} (hp : p.IsForest) (h : I p) : I (files.foldl addSourceFile p) := by
  induction files generalizing p with
  | nil => exact h
  | cons file rest ih =>
      exact ih (fun f hf => hfile f (List.mem_cons_of_mem _ hf)) (hp.addFile _ _ _)
        (hfile file List.mem_cons_self p hp h)

/-- Members of what files make belong to containers. -/
theorem housed_build (files : List SourceFile) : Building.Housed (build files) [] := by
  have hempty : Building.Housed {} [] := ⟨by simp [item?], nofun⟩
  refine foldl_keeps (I := fun p => Building.Housed p []) (fun file _ p hp h => ?_)
    empty_isForest hempty
  exact addFile_keeps (fun _ _ _ _ _ _ _ _ hopen hturn h => h.turn hopen hturn)
    (fun _ _ _ hsuffix h => h.pop hsuffix) hp h

end Project
end DocPages

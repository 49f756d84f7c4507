/-
Which type declarations share an item.

`placements` lists what building some files does with their type declarations: the key of
each, what it says of its type, and the item it went to.  The placements account for all
that the types of a project say (`Accounts`), step by step and then file by file, so that
two declarations share an item exactly if their keys agree.  The number of type parameters
is not in the key, as headers are read without them.
-/
import DocPages.Proofs.Declaration.Headers
import DocPages.Proofs.Project.Keys
import DocPages.Proofs.Project.Nesting
import DocPages.Proofs.Project.Sources

namespace DocPages
namespace Project

/-! ## Turns and keys -/

namespace Building

/-- The item of the declaration at that index, right after its turn. -/
def placedAt (index : Nat) : List OpenType → Option ItemId
  | (i, item) :: _ => if i = index then item else none
  | [] => none

theorem placedAt_of_lt {index : Nat} {opened : List OpenType}
    (h : ∀ top ∈ opened, top.1 < index) : placedAt index opened = none := by
  cases opened with
  | nil => rfl
  | cons top rest => exact if_neg (Nat.ne_of_lt (h top List.mem_cons_self))

theorem placedAt_cons (index : Nat) (item : Option ItemId) (opened : List OpenType) :
    placedAt index ((index, item) :: opened) = item := if_pos rfl

section

variable {package : String} {index : Nat} {d : Declaration} {p q : Project}
  {opened opened' : List OpenType}

theorem Turn.keyed (h : Turn package index d p opened q opened') (hopen : OpenIn p opened)
    {owner : Option ItemId} {key : TypeKey} (hkey : Keyed p owner key) : Keyed q owner key := by
  induction hkey with
  | top inNamespace => exact .top inNamespace
  | inside howner hid hitem ih =>
      obtain ⟨new, hnew, hcarries⟩ := h.exists_item hitem
      rw [← hcarries.name, ← hcarries.kind]
      exact .inside ih (h.mem_siblings hopen hid) hnew

/-- The name that a type declaration makes an item under is its only one. -/
theorem filledNames_single {names : List String} {name : String} (h : ∃ only, names = [only])
    (hname : (filledNames names).head? = some name) : names = [name] := by
  obtain ⟨only, rfl⟩ := h
  have hmem : name ∈ [only] := (List.mem_filter.1 (List.mem_of_head? hname)).1
  rw [List.mem_singleton.1 hmem]

/-- A type declaration that has an item says the name and kind of this item, and stands
where the item stands. -/
theorem Turn.placed (h : Turn package index d p opened q opened') (hopen : OpenIn p opened)
    (hd : d.kind.isContainer = true → ∃ name, d.names = [name])
    (hbelow : ∀ top ∈ opened, top.1 < index) {id : ItemId}
    (hid : placedAt index opened' = some id) :
    ∃ parent item, GoesTo d opened parent ∧ id ∈ q.siblings d.inNamespace parent ∧
      q.item? id = some item ∧ item.container = true ∧ item.name = d.names.headD "" ∧
      item.kind = d.kind.word := by
  cases h with
  | pass => rw [placedAt_of_lt hbelow] at hid; cases hid
  | drop => rw [placedAt_cons] at hid; cases hid
  | @merge parent found hto hearlier =>
      rw [placedAt_cons] at hid
      cases hid
      obtain ⟨_, hmem, item, hitem, hc, hname, hkind⟩ := exists_of_earlierPart hearlier
      have hcarries : Carries d item (item.merge (partOf d)) := .merge
      refine ⟨parent, item.merge (partOf d), hto, ?_, ?_, hcarries.container.trans hc, ?_,
        hcarries.kind.trans hkind⟩
      · rwa [siblings_mergePart]
      · rw [item?_mergePart, if_pos rfl, hitem, Option.map_some]
      · rw [List.headD_eq_head?_getD, hname, Option.getD_some]
        exact hcarries.name
  | @make parent hto hnew hmarkup =>
      split at hid
      · rename_i hc
        rw [placedAt_cons] at hid
        obtain ⟨name, hname, rfl⟩ := Option.map_eq_some_iff.1 hid
        obtain ⟨members, hitem⟩ := item?_attachAll_first package d (hto.lt hopen)
          (Comment.normalize d.rawComment) hname
        have hcontainer := container_itemFor d name (Comment.normalize d.rawComment)
        refine ⟨parent, _, hto, ?_, hitem, hcontainer.trans hc, ?_, rfl⟩
        · have hlength : 0 < (filledNames d.names).length :=
            List.length_pos_of_mem (List.mem_of_head? hname)
          rw [siblings_attachAll package d (hto.lt hopen), if_pos ⟨rfl, fun _ => rfl⟩]
          exact List.mem_append_right _ (List.mem_range'_1.2 ⟨Nat.le_refl _, by omega⟩)
        · rw [filledNames_single (hd hc) hname]
          rfl
      · rw [placedAt_of_lt hbelow] at hid
        cases hid

/-- What is known of a type grows by the declaration that goes to its item, and by no
other. -/
theorem Turn.type?_eq (h : Turn package index d p opened q opened') (hopen : OpenIn p opened)
    (hd : d.kind.isContainer = true → ∃ name, d.names = [name])
    (hbelow : ∀ top ∈ opened, top.1 < index) (id : ItemId) :
    q.type? id =
      withParts (p.type? id) (if placedAt index opened' = some id then [partOf d] else []) := by
  cases h with
  | pass => rw [placedAt_of_lt hbelow, if_neg nofun]; rfl
  | drop => rw [placedAt_cons, if_neg nofun]; rfl
  | @merge parent found hto hearlier =>
      obtain ⟨_, _, item, hitem, hc, _⟩ := exists_of_earlierPart hearlier
      rw [placedAt_cons, type?_mergePart ⟨item, hitem, hc⟩]
      simp only [Option.some.injEq]
  | @make parent hto hnew hmarkup =>
      by_cases hc : d.kind.isContainer = true
      · obtain ⟨only, honly⟩ := hd hc
        rw [if_pos hc, placedAt_cons]
        exact type?_attachAll_single package (hto.lt hopen) hc honly id
      · rw [if_neg hc, placedAt_of_lt hbelow, if_neg nofun]
        exact type?_attachAll_member package d _ _ (hto.lt hopen) hc

end

/-! ## Placements -/

/-- The indices of the open types are past, and their items have the keys of their
declarations. -/
structure Traced (ds : List Declaration) (index : Nat) (p : Project) (opened : List OpenType) :
    Prop where
  past : ∀ top ∈ opened, top.1 < index
  keyed : ∀ top ∈ opened, ∀ id, top.2 = some id → Keyed p (some id) (typeKey ds top.1)

theorem Traced.pop {ds : List Declaration} {index : Nat} {p : Project}
    {opened stack : List OpenType} (h : Traced ds index p stack) (hs : opened <:+ stack) :
    Traced ds index p opened :=
  ⟨fun top htop => h.past top (hs.mem htop), fun top htop => h.keyed top (hs.mem htop)⟩

/-- The key of a declaration is that of the place it goes to, with its own name and kind. -/
theorem Traced.typeKey_eq {ds : List Declaration} {index : Nat} {p : Project}
    {opened : List OpenType} (h : Traced ds index p opened) {d : Declaration}
    (hd : ds[index]? = some d) {parent : Option ItemId} (hto : GoesTo d opened parent) :
    ∃ outer, Keyed p parent outer ∧ (parent = none → outer.inNamespace = d.inNamespace) ∧
      typeKey ds index = outer.inside (d.names.headD "") d.kind.word := by
  cases hto with
  | top hparent =>
      refine ⟨.top d.inNamespace, .top d.inNamespace, fun _ => rfl, ?_⟩
      rw [typeKey, hd]
      simp only [hparent]
  | @member j id outer hparent =>
      have hlt : j < index := h.past (j, some id) List.mem_cons_self
      refine ⟨typeKey ds j, h.keyed (j, some id) List.mem_cons_self id rfl, nofun, ?_⟩
      rw [typeKey, hd]
      simp only [hparent, if_pos hlt]

end Building

/-- The item is a type of that key. -/
def TypeAt (p : Project) (key : TypeKey) (id : ItemId) : Prop :=
  Keyed p (some id) key ∧ p.IsContainer id

/-- A type declaration that was not dropped: its key, what it says of its type, and the
item it went to. -/
structure Placement where
  key : TypeKey
  part : Item
  id : ItemId
deriving Repr, DecidableEq

/-- What some placements say of the type of an item, in their order. -/
def partsOf (placed : List Placement) (id : ItemId) : List Item :=
  (placed.filter (·.id = id)).map Placement.part

/-- The placements account for all that types of the first project have become in the
second. -/
structure Accounts (p : Project) (placed : List Placement) (q : Project) : Prop where
  keeps : ∀ key id, p.TypeAt key id → q.TypeAt key id
  types : ∀ x ∈ placed, q.TypeAt x.key x.id
  parts : ∀ id, q.type? id = withParts (p.type? id) (partsOf placed id)

theorem Accounts.refl (p : Project) : Accounts p [] p :=
  ⟨fun _ _ h => h, nofun, fun _ => rfl⟩

theorem Accounts.append {p q r : Project} {a b : List Placement} (h : Accounts p a q)
    (h' : Accounts q b r) : Accounts p (a ++ b) r where
  keeps key id hid := h'.keeps key id (h.keeps key id hid)
  types x hx := by
    rcases List.mem_append.1 hx with ha | hb
    · exact h'.keeps x.key x.id (h.types x ha)
    · exact h'.types x hb
  parts id := by
    rw [h'.parts, h.parts, partsOf, partsOf, partsOf, List.filter_append, List.map_append,
      withParts_append]

namespace Building

/-- The placement that a turn makes, if it makes one. -/
def placement (ds : List Declaration) (index : Nat) (d : Declaration) (opened : List OpenType) :
    List Placement :=
  ((placedAt index opened).map fun id => ⟨typeKey ds index, partOf d, id⟩).toList

theorem partsOf_placement (ds : List Declaration) (index : Nat) (d : Declaration)
    (opened : List OpenType) (id : ItemId) :
    partsOf (placement ds index d opened) id =
      if placedAt index opened = some id then [partOf d] else [] := by
  unfold placement partsOf
  cases placedAt index opened with
  | none => rfl
  | some found => by_cases h : found = id <;> simp [h]

section

variable {package : String} {index : Nat} {ds : List Declaration} {d : Declaration}
  {p q : Project} {opened opened' : List OpenType}

theorem Turn.typeAt (h : Turn package index d p opened q opened') (hopen : OpenIn p opened)
    (htraced : Traced ds index p opened) (hds : SingleNamed ds) (hd : ds[index]? = some d)
    {id : ItemId} (hid : placedAt index opened' = some id) : q.TypeAt (typeKey ds index) id := by
  obtain ⟨parent, item, hto, hmem, hitem, hc, hname, hkind⟩ :=
    h.placed hopen (hds d (List.mem_of_getElem? hd)) htraced.past hid
  obtain ⟨outer, howner, hns, hkey⟩ := htraced.typeKey_eq hd hto
  refine ⟨?_, item, hitem, hc⟩
  rw [hkey, ← hname, ← hkind]
  refine .inside (h.keyed hopen howner) ?_ hitem
  cases parent with
  | some parent => exact hmem
  | none => rwa [hns rfl]

theorem Turn.accounts (h : Turn package index d p opened q opened') (hopen : OpenIn p opened)
    (htraced : Traced ds index p opened) (hds : SingleNamed ds) (hd : ds[index]? = some d) :
    Accounts p (placement ds index d opened') q where
  keeps _ _ hid := ⟨h.keyed hopen hid.1, h.isContainer hid.2⟩
  types x hx := by
    obtain ⟨id, hid, rfl⟩ := Option.map_eq_some_iff.1 (Option.mem_toList.1 hx)
    exact h.typeAt hopen htraced hds hd hid
  parts id := by
    rw [partsOf_placement]
    exact h.type?_eq hopen (hds d (List.mem_of_getElem? hd)) htraced.past id

theorem Turn.opened_eq (h : Turn package index d p opened q opened') :
    opened' = opened ∨ ∃ item, opened' = (index, item) :: opened := by
  cases h with
  | pass => exact .inl rfl
  | drop => exact .inr ⟨_, rfl⟩
  | merge => exact .inr ⟨_, rfl⟩
  | make =>
      split
      · exact .inr ⟨_, rfl⟩
      · exact .inl rfl

theorem Turn.traced (h : Turn package index d p opened q opened') (hopen : OpenIn p opened)
    (htraced : Traced ds index p opened) (hds : SingleNamed ds) (hd : ds[index]? = some d) :
    Traced ds (index + 1) q opened' := by
  have hold : Traced ds (index + 1) q opened :=
    ⟨fun top htop => Nat.lt_succ_of_lt (htraced.past top htop),
      fun top htop id hid => h.keyed hopen (htraced.keyed top htop id hid)⟩
  rcases h.opened_eq with heq | ⟨item, rfl⟩
  · rwa [heq]
  · refine ⟨fun top htop => ?_, fun top htop id hid => ?_⟩
    · rcases List.mem_cons.1 htop with rfl | hrest
      · exact Nat.lt_succ_self index
      · exact hold.past top hrest
    · rcases List.mem_cons.1 htop with rfl | hrest
      · exact (h.typeAt hopen htraced hds hd ((placedAt_cons index item opened).trans hid)).1
      · exact hold.keyed top hrest id hid

end

/-- The placements of the declarations from an index on. -/
def placements (package path : String) (ds : List Declaration) (b : Building) (index : Nat) :
    List Declaration → List Placement
  | [] => []
  | d :: rest =>
    let next := b.step package path index d
    placement ds index d next.stack ++ placements package path ds next (index + 1) rest

theorem of_drop_eq_cons {ds rest : List Declaration} {d : Declaration} {index : Nat}
    (h : ds.drop index = d :: rest) : ds[index]? = some d ∧ ds.drop (index + 1) = rest := by
  refine ⟨?_, ?_⟩
  · rw [← Nat.add_zero index, ← List.getElem?_drop, h]
    rfl
  · rw [← List.drop_drop, h]
    rfl

theorem accounts_steps (package path : String) {ds : List Declaration} (hds : SingleNamed ds)
    (rest : List Declaration) {b : Building} {index : Nat} (hb : b.Sound)
    (htraced : Traced ds index b.project b.stack) (hrest : ds.drop index = rest) :
    Accounts b.project (b.placements package path ds index rest)
      (b.steps package path index rest).project := by
  induction rest generalizing b index with
  | nil => exact .refl _
  | cons d rest ih =>
      obtain ⟨hd, hnext⟩ := of_drop_eq_cons hrest
      have hkept := openFor_suffix d b.stack
      have hopen : OpenIn b.project (openFor d b.stack) :=
        fun top htop => hb.open_lt top (hkept.mem htop)
      have hturn := turn_step package path index d b
      exact (hturn.accounts hopen (htraced.pop hkept) hds hd).append
        (ih (hb.step package path index d) (hturn.traced hopen (htraced.pop hkept) hds hd) hnext)

end Building

/-- The placements of a file that is added to a project. -/
def placementsIn (p : Project) (file : SourceFile) : List Placement :=
  Building.placements file.package file.path file.declarations { project := p } 0
    file.declarations

def placementsFrom (p : Project) : List SourceFile → List Placement
  | [] => []
  | file :: rest => p.placementsIn file ++ placementsFrom (p.addSourceFile file) rest

theorem accounts_foldl {files : List SourceFile}
    (hfiles : ∀ file ∈ files, SingleNamed file.declarations) {p : Project} (hp : p.IsForest) :
    Accounts p (p.placementsFrom files) (files.foldl addSourceFile p) := by
  induction files generalizing p with
  | nil => exact .refl p
  | cons file rest ih =>
      have hstart : Building.Sound { project := p } := ⟨hp, nofun⟩
      have hnone : Building.Traced file.declarations 0 p [] := ⟨nofun, nofun⟩
      have hfile : Accounts p (p.placementsIn file) (p.addSourceFile file) :=
        Building.accounts_steps file.package file.path (hfiles file List.mem_cons_self) _ hstart
          hnone rfl
      exact hfile.append
        (ih (fun f hf => hfiles f (List.mem_cons_of_mem _ hf)) (hp.addFile _ _ _))

/-- The placements of the files that a project is built of. -/
def placements (files : List SourceFile) : List Placement := placementsFrom {} files

section

variable {files : List SourceFile} (hfiles : ∀ file ∈ files, SingleNamed file.declarations)
  {x y : Placement} (hx : x ∈ placements files)

include hfiles hx

theorem id_eq_iff_of_mem_placements (hy : y ∈ placements files) : x.id = y.id ↔ x.key = y.key := by
  have hforest := isForest_build files
  have htypes := (accounts_foldl hfiles empty_isForest).types
  have hone := oneOfEach_foldl hfiles empty_isForest oneOfEach_empty
  obtain ⟨hxkey, hxc⟩ := htypes x hx
  obtain ⟨hykey, hyc⟩ := htypes y hy
  constructor
  · intro h
    rw [h] at hxkey
    exact hxkey.unique hforest hykey nofun
  · intro h
    rw [h] at hxkey
    refine Option.some.inj (hxkey.eq_of_key hforest (housed_build files) hone hykey ?_ ?_)
    · rintro _ ⟨⟩
      exact hxc
    · rintro _ ⟨⟩
      exact hyc

/-- The item of a type says what the declarations of its key say, merged in their order. -/
theorem contents_of_mem_placements :
    ∃ first rest item, ((placements files).filter (·.key = x.key)).map Placement.part =
        first :: rest ∧
      (build files).item? x.id = some item ∧ item.container = true ∧
      item.contents = rest.foldl Item.merge first := by
  have hsame : (placements files).filter (·.key = x.key) =
      (placements files).filter (·.id = x.id) := by
    refine List.filter_congr fun y hy => ?_
    rw [decide_eq_decide]
    exact (id_eq_iff_of_mem_placements hfiles hy hx).symm
  have hmem : x.part ∈ partsOf (placements files) x.id :=
    List.mem_map_of_mem (List.mem_filter.2 ⟨hx, by simp⟩)
  have hparts := (accounts_foldl hfiles empty_isForest).parts x.id
  rw [hsame]
  cases hlist : partsOf (placements files) x.id with
  | nil => rw [hlist] at hmem; cases hmem
  | cons first rest =>
      have htype : (build files).type? x.id = some (rest.foldl Item.merge first) := by
        rw [← withParts_some]
        exact hparts.trans (congrArg (withParts _) hlist)
      obtain ⟨item, hitem, hcontents⟩ := Option.map_eq_some_iff.1 htype
      obtain ⟨hitem, hc⟩ := Option.filter_eq_some_iff.1 hitem
      exact ⟨first, rest, item, hlist, hitem, hc, hcontents⟩

end

/-! ## Documented types -/

/-- The declaration is documented, and so are all types around it. -/
inductive Documented (ds : List Declaration) : Nat → Prop where
  | top {i : Nat} {d : Declaration} (hd : ds[i]? = some d) (hparent : d.parent = none)
      (hdoc : Comment.normalize d.rawComment ≠ "") : Documented ds i
  | member {i j : Nat} {d : Declaration} (hd : ds[i]? = some d) (hparent : d.parent = some j)
      (hdoc : Comment.normalize d.rawComment ≠ "") (houter : Documented ds j) : Documented ds i

namespace Building

/-- A documented type with a name has an item after its turn. -/
theorem placedAt_place (package path : String) (index : Nat) {d : Declaration}
    (hc : d.kind.isContainer = true) (hdoc : Comment.normalize d.rawComment ≠ "")
    (hnames : filledNames d.names ≠ []) (parent : Option ItemId) (b : Building) :
    ∃ id, placedAt index (b.place package path index d parent).stack = some id := by
  rw [place_eq]
  split
  · exact ⟨_, placedAt_cons _ _ _⟩
  · obtain ⟨name, rest, hname⟩ := List.exists_cons_of_ne_nil hnames
    refine ⟨b.project.items.size, ?_⟩
    rw [if_neg (by simpa using hdoc), enter, if_pos hc, placedAt_cons, hname]
    rfl

/-- A declaration opens its type, if it declares one, and nothing else. -/
def OpensOnly (index : Nat) (d : Declaration) (opened opened' : List OpenType) : Prop :=
  ∃ item, opened' = if d.kind.isContainer then (index, item) :: opened else opened

theorem opens_enter (index : Nat) (d : Declaration) (item : Option ItemId) (b : Building) :
    OpensOnly index d b.stack (b.enter index d item).stack := by
  rw [enter_eq]
  exact ⟨item, rfl⟩

theorem opens_place (package path : String) (index : Nat) (d : Declaration)
    (parent : Option ItemId) (b : Building) :
    OpensOnly index d b.stack (b.place package path index d parent).stack := by
  obtain ⟨_, item, hplace, _⟩ := place_node package path index d parent b
  rw [hplace]
  exact ⟨item, rfl⟩

/-- The types whose members may follow, in a file in pre-order. -/
theorem map_openFor (d : Declaration) (stack : List OpenType) :
    (openFor d stack).map Prod.fst = keptOpen (stack.map Prod.fst) d := by
  unfold openFor keptOpen
  cases d.parent with
  | none => rw [List.dropWhile_eq_nil_iff.2 (by simp), List.map_nil]
  | some outer =>
      simp only [List.dropWhile_map]
      congr 2
      funext top
      by_cases htop : top.1 = outer <;> simp [htop]

section

variable (package path : String) {index : Nat} {ds : List Declaration} {d : Declaration}
  {b : Building}

theorem openFor_eq_cons {outer : Nat} (hparent : d.parent = some outer)
    (h : outer ∈ b.stack.map Prod.fst) :
    ∃ item rest, openFor d b.stack = (outer, item) :: rest := by
  have hnot := List.head?_dropWhile_not (fun top : OpenType => some top.1 != d.parent) b.stack
  cases hopen : openFor d b.stack with
  | nil =>
      obtain ⟨top, htop, rfl⟩ := List.mem_map.1 h
      have := List.dropWhile_eq_nil_iff.1 hopen top htop
      simp [hparent] at this
  | cons top rest =>
      rw [openFor] at hopen
      rw [hopen] at hnot
      obtain rfl : top.1 = outer := by simpa [hparent] using hnot
      exact ⟨top.2, rest, rfl⟩

theorem opens_step (index : Nat)
    (h : ∀ outer, d.parent = some outer → outer ∈ b.stack.map Prod.fst) :
    OpensOnly index d (openFor d b.stack) (b.step package path index d).stack := by
  unfold step
  simp only
  split
  · exact opens_place package path index d none { b with stack := openFor d b.stack }
  · exact opens_place package path index d _ { b with stack := openFor d b.stack }
  · exact opens_enter index d none { b with stack := openFor d b.stack }
  · rename_i outer hparent hnil
    obtain ⟨item, rest, hcons⟩ := openFor_eq_cons hparent (h outer hparent)
    rw [openFor, hnil] at hcons
    cases hcons

/-- The open types that are documented have their items. -/
def Fed (ds : List Declaration) (opened : List OpenType) : Prop :=
  ∀ top ∈ opened, Documented ds top.1 → ∃ id, top.2 = some id

theorem placedAt_step (hfed : Fed ds b.stack)
    (h : ∀ outer, d.parent = some outer → outer ∈ b.stack.map Prod.fst)
    (hd : ds[index]? = some d) (hc : d.kind.isContainer = true)
    (hnames : filledNames d.names ≠ []) (hdoc : Documented ds index) :
    ∃ id, placedAt index (b.step package path index d).stack = some id := by
  cases hdoc with
  | top hd' hparent hdoc =>
      cases hd.symm.trans hd'
      unfold step
      simp only [hparent]
      exact placedAt_place package path index hc hdoc hnames none _
  | member hd' hparent hdoc houter =>
      cases hd.symm.trans hd'
      obtain ⟨item, rest, hopen⟩ := openFor_eq_cons hparent (h _ hparent)
      have hmem : (_, item) ∈ b.stack := (openFor_suffix d b.stack).mem (hopen ▸ List.mem_cons_self)
      obtain ⟨id, rfl⟩ := hfed _ hmem houter
      rw [openFor] at hopen
      unfold step
      simp only [hparent] at hopen ⊢
      rw [hopen]
      exact placedAt_place package path index hc hdoc hnames (some id) _

theorem Fed.step (hfed : Fed ds b.stack)
    (h : ∀ outer, d.parent = some outer → outer ∈ b.stack.map Prod.fst)
    (hd : ds[index]? = some d)
    (hnames : d.kind.isContainer = true → filledNames d.names ≠ []) :
    Fed ds (b.step package path index d).stack := by
  have hold : Fed ds (openFor d b.stack) :=
    fun top htop => hfed top ((openFor_suffix d b.stack).mem htop)
  obtain ⟨item, hopens⟩ := opens_step package path index h
  by_cases hc : d.kind.isContainer = true
  · rw [if_pos hc] at hopens
    rw [hopens]
    intro top htop htopdoc
    rcases List.mem_cons.1 htop with rfl | hrest
    · obtain ⟨id, hid⟩ := placedAt_step package path hfed h hd hc (hnames hc) htopdoc
      rw [hopens, placedAt_cons] at hid
      exact ⟨id, hid⟩
    · exact hold top hrest htopdoc
  · rw [if_neg hc] at hopens
    rwa [hopens]

theorem map_stack_step (index : Nat)
    (h : ∀ outer, d.parent = some outer → outer ∈ b.stack.map Prod.fst) :
    (b.step package path index d).stack.map Prod.fst =
      openAfter (b.stack.map Prod.fst) index d := by
  obtain ⟨item, hopens⟩ := opens_step package path index h
  rw [hopens, openAfter, ← map_openFor]
  split <;> rfl

/-- In a file in pre-order, every documented type is placed. -/
theorem exists_placement (hnames : ∀ d ∈ ds, d.kind.isContainer = true → filledNames d.names ≠ [])
    (rest : List Declaration) {i : Nat} (hrest : ds.drop index = rest) (hfed : Fed ds b.stack)
    (hcontinues : Continues (b.stack.map Prod.fst) index rest) (hi : index ≤ i)
    (hd : ds[i]? = some d) (hc : d.kind.isContainer = true) (hdoc : Documented ds i) :
    ∃ x ∈ b.placements package path ds index rest, x.key = typeKey ds i ∧ x.part = partOf d := by
  induction rest generalizing b index with
  | nil =>
      have hlt := (List.getElem?_eq_some_iff.1 hd).1
      exact absurd (Nat.le_trans (List.drop_eq_nil_iff.1 hrest) hi) (Nat.not_le_of_lt hlt)
  | cons first rest ih =>
      obtain ⟨hfirst, hnext⟩ := of_drop_eq_cons hrest
      obtain ⟨hparent, hmore⟩ := hcontinues
      rcases Nat.eq_or_lt_of_le hi with rfl | hlt
      · cases hfirst.symm.trans hd
        obtain ⟨id, hid⟩ := placedAt_step package path hfed hparent hd hc
          (hnames d (List.mem_of_getElem? hd) hc) hdoc
        refine ⟨⟨typeKey ds index, partOf d, id⟩, List.mem_append_left _ ?_, rfl, rfl⟩
        rw [placement, hid]
        exact List.mem_singleton_self _
      · have hfed' := hfed.step package path hparent hfirst
          (hnames first (List.mem_of_getElem? hfirst))
        rw [← map_stack_step package path index hparent] at hmore
        obtain ⟨x, hx, hplaced⟩ := ih hnext hfed' hmore hlt
        exact ⟨x, List.mem_append_right _ hx, hplaced⟩

end

end Building

theorem mem_placementsFrom {files : List SourceFile} {file : SourceFile} (h : file ∈ files)
    (p : Project) : ∃ q : Project, q.placementsIn file ⊆ p.placementsFrom files := by
  induction files generalizing p with
  | nil => cases h
  | cons first rest ih =>
      rcases List.mem_cons.1 h with rfl | hrest
      · exact ⟨p, List.subset_append_left _ _⟩
      · obtain ⟨q, hq⟩ := ih hrest (p.addSourceFile first)
        exact ⟨q, List.Subset.trans hq (List.subset_append_right _ _)⟩

/-! ## From texts to items -/

/-- A source text as it is handed to a project. -/
structure SourceText where
  package : String
  path : String
  text : String

/-- The declarations of a text, if it scans. -/
def SourceText.file? (source : SourceText) : Option SourceFile :=
  match Declaration.scan source.text with
  | .ok declarations => some { package := source.package, path := source.path, declarations }
  | .error _ => none

def filesOf (sources : List SourceText) : List SourceFile := sources.filterMap SourceText.file?

theorem scan_of_mem_filesOf {sources : List SourceText} {file : SourceFile}
    (h : file ∈ filesOf sources) : ∃ text, Declaration.scan text = .ok file.declarations := by
  obtain ⟨source, _, hfile⟩ := List.mem_filterMap.1 h
  unfold SourceText.file? at hfile
  split at hfile
  · rename_i declarations hscan
    cases hfile
    exact ⟨source.text, hscan⟩
  · cases hfile

theorem singleNamed_filesOf (sources : List SourceText) :
    ∀ file ∈ filesOf sources, SingleNamed file.declarations := by
  intro file hfile
  obtain ⟨text, hscan⟩ := scan_of_mem_filesOf hfile
  exact Declaration.forall_of_scan (fun _ _ hmade => hmade.single) hscan

theorem isBlankName_of_isWord {name : String} (h : Declaration.IsWord name.toList) :
    isBlankName name = false := by
  obtain ⟨c, rest, hname, hc, _⟩ := h.exists_cons
  have hblank := Declaration.not_isBlank_of_isIdentChar (Declaration.isIdentChar_of_isIdentStart hc)
  rw [isBlankName, hname, Text.allBlank, List.all_cons, hblank, Bool.false_and]

/-- A scanned type has a name that is not blank. -/
theorem filledNames_of_mem_filesOf {sources : List SourceText} {file : SourceFile}
    (h : file ∈ filesOf sources) :
    ∀ d ∈ file.declarations, d.kind.isContainer = true → filledNames d.names ≠ [] := by
  intro d hd hc
  obtain ⟨text, hscan⟩ := scan_of_mem_filesOf h
  obtain ⟨name, hname⟩ := singleNamed_filesOf sources file h d hd hc
  have hword := Declaration.isWord_of_scan hscan d hd name (hname ▸ List.mem_singleton_self _)
  rw [hname, filledNames, List.filter_cons_of_pos (by rw [isBlankName_of_isWord hword]; rfl)]
  exact List.cons_ne_nil _ _

/-- Two type declarations share an item exactly if they have the same key, and the item
says what all declarations of this key say.  Type parameters are in no key: a header reads
the same with and without them. -/
theorem sharedItem_iff (sources : List SourceText) :
    (∀ x ∈ placements (filesOf sources), ∀ y ∈ placements (filesOf sources),
      x.id = y.id ↔ x.key = y.key) ∧
    (∀ x ∈ placements (filesOf sources), ∃ first rest item,
      ((placements (filesOf sources)).filter (·.key = x.key)).map Placement.part =
        first :: rest ∧
      (build (filesOf sources)).item? x.id = some item ∧ item.container = true ∧
      item.contents = rest.foldl Item.merge first) ∧
    (∀ file ∈ filesOf sources, InPreOrder file.declarations →
      ∀ i d, file.declarations[i]? = some d → d.kind.isContainer = true →
      Documented file.declarations i →
      ∃ x ∈ placements (filesOf sources), x.key = typeKey file.declarations i ∧
        x.part = partOf d) ∧
    ∀ kind, Declaration.IsTypeKind kind → ∀ name (parameters : List Declaration.Name) bases,
      Declaration.readTypeHeader (kind.word.toList ++ ' ' ::
          (Declaration.genericText name (parameters.map Declaration.Name.chars) ++
            Declaration.basesText bases)) =
        Declaration.readTypeHeader (Declaration.typeHeader kind name bases) := by
  have hsingle := singleNamed_filesOf sources
  refine ⟨fun x hx y hy => id_eq_iff_of_mem_placements hsingle hx hy,
    fun x hx => contents_of_mem_placements hsingle hx, ?_,
    fun kind hkind name parameters bases =>
      Declaration.readTypeHeader_generic hkind name parameters bases⟩
  intro file hfile hpre i d hd hc hdoc
  obtain ⟨q, hq⟩ := mem_placementsFrom hfile {}
  obtain ⟨x, hx, hplaced⟩ := Building.exists_placement file.package file.path
    (b := { project := q }) (filledNames_of_mem_filesOf hfile) file.declarations rfl nofun
    (continues_nil hpre) (Nat.zero_le i) hd hc hdoc
  exact ⟨x, hq hx, hplaced⟩

/-- Two types of one name with different numbers of type parameters, each with a field. -/
def aritySource : SourceText where
  package := "P"
  path := "Result.cs"
  text := "/// a\nclass Result \x7b\n/// x\nint x;\n\x7d\n" ++
    "/// b\nclass Result<T> : Base \x7b\n/// y\nT y;\n\x7d\n"

/-- The second type is taken for another part of the first. -/
theorem arities_share_item :
    (placements (filesOf [aritySource])).map Placement.id = [0, 0] ∧
    build (filesOf [aritySource]) =
      { namespaces := #[{ name := "", package := "P", directory := "", items := [0] }]
        items := #[
          { name := "Result", kind := "class", markup := "a\nb", baseTypes := ["Base"],
            container := true, members := [1, 2] },
          { name := "x", kind := "field", markup := "x", container := false, parent := some 0 },
          { name := "y", kind := "field", markup := "y", container := false,
            parent := some 0 }] } := by
  decide +kernel

end Project
end DocPages

/-
What one declaration adds to a project.

A declaration makes one item for each of its names that is not blank, and reports each
of the others.  `Building.addNames_eq` says so in one equation, so that nothing after
this file has to follow the recursion over the names.
-/
import DocPages.Project.Build

namespace DocPages
namespace Project

/-! ## Sizes -/

theorem size_addMember (p : Project) (parent : ItemId) (item : Item) :
    (p.addMember parent item).1.items.size = p.items.size + 1 := by
  simp [addMember, push]

theorem size_addTopLevel (p : Project) (index : Nat) (item : Item) :
    (p.addTopLevel index item).1.items.size = p.items.size + 1 := by
  simp [addTopLevel, push]

theorem size_namespaceIndex (p : Project) (name package : String) :
    (p.namespaceIndex name package).1.items.size = p.items.size := by
  unfold namespaceIndex
  split <;> rfl

theorem size_mergePart (p : Project) (id : ItemId) (part : Item) :
    (p.mergePart id part).items.size = p.items.size := by
  simp [mergePart]

theorem namespaceIndex_lt (p : Project) (name package : String) :
    (p.namespaceIndex name package).2 < (p.namespaceIndex name package).1.namespaces.size := by
  unfold namespaceIndex
  split
  · rename_i index hindex
    obtain ⟨hlt, _⟩ := Array.findIdx?_eq_some_iff_getElem.1 hindex
    exact hlt
  · simp

/-! ## One item in its place -/

/-- Adds an item to its container or, without one, to the top of its namespace, which is
made if there is none. -/
def attach (p : Project) (package inNamespace : String) (parent : Option ItemId) (item : Item) :
    Project × ItemId :=
  match parent with
  | some parent => p.addMember parent item
  | none =>
    (p.namespaceIndex inNamespace package).1.addTopLevel
      (p.namespaceIndex inNamespace package).2 item

theorem attach_snd (p : Project) (package inNamespace : String) (parent : Option ItemId)
    (item : Item) : (p.attach package inNamespace parent item).2 = p.items.size := by
  cases parent with
  | none => exact size_namespaceIndex p inNamespace package
  | some parent => rfl

theorem size_attach (p : Project) (package inNamespace : String) (parent : Option ItemId)
    (item : Item) : (p.attach package inNamespace parent item).1.items.size = p.items.size + 1 := by
  cases parent with
  | none =>
      rw [attach, size_addTopLevel, size_namespaceIndex]
  | some parent => exact size_addMember p parent item

/-! ## All names of a declaration -/

def filledNames (names : List String) : List String := names.filter (!isBlankName ·)

/-- Adds one item for each of the names, all with the same contents. -/
def attachAll (p : Project) (package : String) (d : Declaration) (parent : Option ItemId)
    (markup : String) (names : List String) : Project :=
  names.foldl (fun p name => (p.attach package d.inNamespace parent (itemFor d name markup)).1) p

theorem size_attachAll (p : Project) (package : String) (d : Declaration)
    (parent : Option ItemId) (markup : String) (names : List String) :
    (p.attachAll package d parent markup names).items.size = p.items.size + names.length := by
  induction names generalizing p with
  | nil => rfl
  | cons name rest ih =>
      rw [attachAll, List.foldl_cons]
      refine (ih _).trans ?_
      rw [size_attach, List.length_cons]
      omega

def blankNameError (path : String) (d : Declaration) : Event :=
  .error (path ++ ": skipping " ++ d.kind.word ++ " with an empty name")

/-- The errors for the names that make no item. -/
def blankNameErrors (path : String) (d : Declaration) : Log :=
  (d.names.filter isBlankName).map fun _ => blankNameError path d

namespace Building

theorem addNames_blank (package path : String) (d : Declaration) (parent : Option ItemId)
    (markup : String) (b : Building) {name : String} (rest : List String)
    (h : isBlankName name = true) :
    addNames package path d parent markup b (name :: rest) =
      addNames package path d parent markup (b.report (blankNameError path d)) rest := by
  rw [addNames, if_pos h]
  rfl

theorem addNames_filled (package path : String) (d : Declaration) (parent : Option ItemId)
    (markup : String) (b : Building) {name : String} (rest : List String)
    (h : isBlankName name = false) :
    addNames package path d parent markup b (name :: rest) =
      ((addNames package path d parent markup
          { b with
            project := (b.project.attach package d.inNamespace parent (itemFor d name markup)).1
            created := b.created + 1 } rest).1,
        some b.project.items.size) := by
  rw [addNames, h, ← attach_snd b.project package d.inNamespace parent (itemFor d name markup)]
  cases parent <;> rfl

/-- The first item is the next one of the project, if there is one at all. -/
theorem addNames_eq (package path : String) (d : Declaration) (parent : Option ItemId)
    (markup : String) (b : Building) (names : List String) :
    addNames package path d parent markup b names =
      ({ b with
          project := b.project.attachAll package d parent markup (filledNames names)
          created := b.created + (filledNames names).length
          log := b.log ++ (names.filter isBlankName).map fun _ => blankNameError path d },
        (filledNames names).head?.map fun _ => b.project.items.size) := by
  induction names generalizing b with
  | nil => simp [addNames, filledNames, attachAll]
  | cons name rest ih =>
      by_cases h : isBlankName name = true
      · rw [addNames_blank package path d parent markup b rest h, ih]
        simp [filledNames, report, h]
      · rw [Bool.not_eq_true] at h
        rw [addNames_filled package path d parent markup b rest h, ih]
        simp [filledNames, attachAll, h]
        omega

/-- A declaration whose container is known is another part of a type that is there
already, or it is dropped for want of documentation, or it makes items. -/
theorem place_eq (package path : String) (index : Nat) (d : Declaration)
    (parent : Option ItemId) (b : Building) :
    b.place package path index d parent =
      match b.project.earlierPart d parent with
      | some id =>
        { b with
          project := b.project.mergePart id
            (itemFor d (d.names.headD "") (Comment.normalize d.rawComment))
          stack := (index, some id) :: b.stack
          log := b.log ++
            [.debug (path ++ ": merging another part of " ++ b.project.fullName id)] }
      | none =>
        if (Comment.normalize d.rawComment).isEmpty then b.enter index d none
        else
          ({ b with
              project := b.project.attachAll package d parent (Comment.normalize d.rawComment)
                (filledNames d.names)
              created := b.created + (filledNames d.names).length
              log := b.log ++ blankNameErrors path d } : Building).enter index d
            ((filledNames d.names).head?.map fun _ => b.project.items.size) := by
  unfold place
  cases b.project.earlierPart d parent with
  | some id => rfl
  | none =>
      simp only [addNames_eq]
      rfl

/-! ## The count of items -/

theorem size_place (package path : String) (index : Nat) (d : Declaration)
    (parent : Option ItemId) (b : Building) :
    (b.place package path index d parent).project.items.size + b.created =
      b.project.items.size + (b.place package path index d parent).created := by
  rw [place_eq]
  split
  · simp only [size_mergePart]
  · split
    · unfold enter
      split <;> rfl
    · unfold enter
      split <;> simp only [size_attachAll] <;> omega

theorem size_step (package path : String) (index : Nat) (d : Declaration) (b : Building) :
    (b.step package path index d).project.items.size + b.created =
      b.project.items.size + (b.step package path index d).created := by
  unfold step
  simp only
  split
  · exact size_place package path index d none { b with stack := _ }
  · exact size_place package path index d _ { b with stack := _ }
  · unfold enter
    split <;> rfl
  · rfl

theorem size_steps (package path : String) (index : Nat) (ds : List Declaration)
    (b : Building) :
    (b.steps package path index ds).project.items.size + b.created =
      b.project.items.size + (b.steps package path index ds).created := by
  induction ds generalizing b index with
  | nil => rfl
  | cons d rest ih =>
      have hstep := size_step package path index d b
      have hrest := ih (index + 1) (b.step package path index d)
      rw [steps]
      omega

end Building

/-- A file adds as many items as it reports. -/
theorem size_addFile (p : Project) (package path : String) (ds : List Declaration) :
    (p.addFile package path ds).1.items.size =
      p.items.size + (p.addFile package path ds).2.1 := by
  have h := Building.size_steps package path 0 ds { project := p }
  rw [Nat.add_zero] at h
  exact h

end Project
end DocPages

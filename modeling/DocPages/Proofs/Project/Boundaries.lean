/-
Where one file ends does not matter.

The types that the declarations of one file leave open lie below all that later ones put on
the stack, and no later declaration names one of them as its parent.  So a list of
declarations does the same at the start of a file and behind another list, where its indexes
count on from that list.  `Behind` is what the two runs keep in common at every step, and the
theorem this file exists for is `addFile_append`.
-/
import DocPages.Proofs.Project.Turns
import Mathlib.Data.List.TakeWhile

namespace DocPages

/-- The declaration in a file that has `n` declarations more in front. -/
def Declaration.behind (n : Nat) (d : Declaration) : Declaration :=
  { d with parent := d.parent.map (· + n) }

namespace Project

section

variable (n : Nat) (d : Declaration)

theorem itemFor_behind : itemFor (d.behind n) = itemFor d := rfl

theorem earlierPart_behind (p : Project) (parent : Option ItemId) :
    p.earlierPart (d.behind n) parent = p.earlierPart d parent := rfl

theorem attachAll_behind (p : Project) (package : String) (parent : Option ItemId)
    (markup : String) (names : List String) :
    p.attachAll package (d.behind n) parent markup names =
      p.attachAll package d parent markup names := rfl

end

/-- The warning of a declaration whose parent, at this index, is not open. -/
def notOpenWarning (path : String) (d : Declaration) (index : Nat) : Event :=
  .warning (path ++ ": " ++ d.kind.word ++ " " ++ ", ".intercalate d.names
    ++ " is declared inside #" ++ toString index ++ " which is not open, skipping")

/-- Two reports are the same, but that a warning counts the declarations from `n` before
where the other does. -/
inductive Renumbered (path : String) (n : Nat) : Event → Event → Prop where
  | same {e : Event} (h : e.level ≠ .warn) : Renumbered path n e e
  | notOpen (d : Declaration) (index : Nat) :
      Renumbered path n (notOpenWarning path d index) (notOpenWarning path d (index + n))

theorem renumbered_same {path : String} {n : Nat} {log : Log} (h : ∀ e ∈ log, e.level ≠ .warn) :
    List.Forall₂ (Renumbered path n) log log :=
  List.forall₂_same.2 fun e he => .same (h e he)

namespace Building

theorem steps_append (package path : String) (b : Building) (index : Nat)
    (first second : List Declaration) :
    b.steps package path index (first ++ second) =
      (b.steps package path index first).steps package path (index + first.length) second := by
  induction first generalizing b index with
  | nil => rfl
  | cons d rest ih =>
      rw [List.cons_append, steps, ih, steps, List.length_cons, Nat.add_assoc, Nat.add_comm 1]

/-! ## What a file leaves open -/

theorem stack_lt_step (package path : String) {b : Building} {index : Nat}
    (h : ∀ top ∈ b.stack, top.1 < index) (d : Declaration) :
    ∀ top ∈ (b.step package path index d).stack, top.1 < index + 1 := by
  have hopened : ∀ top ∈ openFor d b.stack, top.1 < index + 1 := fun top htop =>
    Nat.lt_succ_of_lt (h top ((openFor_suffix d b.stack).mem htop))
  have hpushed : ∀ item, ∀ top ∈ (index, item) :: openFor d b.stack, top.1 < index + 1 :=
    fun item => List.forall_mem_cons.2 ⟨Nat.lt_succ_self index, hopened⟩
  have hturn := turn_step package path index d b
  generalize (b.step package path index d).project = p at hturn
  generalize (b.step package path index d).stack = stack at hturn ⊢
  cases hturn with
  | pass => exact hopened
  | drop => exact hpushed none
  | merge => exact hpushed _
  | make =>
      split
      · exact hpushed _
      · exact hopened

theorem stack_lt_steps (package path : String) {b : Building} {index : Nat}
    (h : ∀ top ∈ b.stack, top.1 < index) (ds : List Declaration) :
    ∀ top ∈ (b.steps package path index ds).stack, top.1 < index + ds.length := by
  induction ds generalizing b index with
  | nil => exact h
  | cons d rest ih =>
      rw [List.length_cons, Nat.add_comm rest.length, ← Nat.add_assoc]
      exact ih (stack_lt_step package path h d)

/-! ## Two runs side by side -/

/-- An open type in a file that has `n` declarations more in front. -/
def later (n : Nat) (top : OpenType) : OpenType := (top.1 + n, top.2)

/-- The run `b` is where `b'` is, with `n` declarations more in front, which made `count`
items, reported `log` and may have left types open. -/
structure Behind (path : String) (n count : Nat) (log : Log) (b b' : Building) : Prop where
  project : b.project = b'.project
  created : b.created = count + b'.created
  stack : ∃ old, (∀ top ∈ old, top.1 < n) ∧ b.stack = b'.stack.map (later n) ++ old
  log : ∃ more, b.log = log ++ more ∧ List.Forall₂ (Renumbered path n) b'.log more

variable {path : String} {n count : Nat} {log : Log} {b b' : Building}

theorem Behind.report (h : Behind path n count log b b') {e e' : Event}
    (he : Renumbered path n e' e) :
    Behind path n count log (b.report e) (b'.report e') := by
  obtain ⟨more, hlog, hmore⟩ := h.log
  refine ⟨h.project, h.created, h.stack, more ++ [e], ?_, ?_⟩
  · rw [Building.report, hlog, List.append_assoc]
  · exact List.rel_append hmore (.cons he .nil)

theorem Behind.push (h : Behind path n count log b b') (index : Nat) (item : Option ItemId) :
    Behind path n count log { b with stack := (index + n, item) :: b.stack }
      { b' with stack := (index, item) :: b'.stack } := by
  obtain ⟨old, hold, hstack⟩ := h.stack
  refine ⟨h.project, h.created, ⟨old, hold, ?_⟩, h.log⟩
  rw [hstack]
  rfl

theorem Behind.enter (h : Behind path n count log b b') (index : Nat) (d : Declaration)
    (item : Option ItemId) :
    Behind path n count log (b.enter (index + n) (d.behind n) item) (b'.enter index d item) := by
  unfold Building.enter
  rw [show (d.behind n).kind = d.kind from rfl]
  split
  · exact h.push index item
  · exact h

/-- Both runs change the project alike and report the same. -/
theorem Behind.change (h : Behind path n count log b b') (p : Project) (made : Nat)
    {events : Log} (hevents : ∀ e ∈ events, e.level ≠ .warn) :
    Behind path n count log
      { b with project := p, created := b.created + made, log := b.log ++ events }
      { b' with project := p, created := b'.created + made, log := b'.log ++ events } := by
  obtain ⟨more, hlog, hmore⟩ := h.log
  refine ⟨rfl, ?_, h.stack, more ++ events, ?_, List.rel_append hmore (renumbered_same hevents)⟩
  · simp only [h.created, Nat.add_assoc]
  · simp only [hlog, List.append_assoc]

theorem Behind.place (h : Behind path n count log b b') (package : String) (index : Nat)
    (d : Declaration) (parent : Option ItemId) :
    Behind path n count log (b.place package path (index + n) (d.behind n) parent)
      (b'.place package path index d parent) := by
  rw [place_eq, place_eq, h.project, earlierPart_behind]
  simp only [itemFor_behind, attachAll_behind]
  cases b'.project.earlierPart d parent with
  | some id =>
      have hmerging : ∀ e ∈ ([.debug (path ++ ": merging another part of "
          ++ b'.project.fullName id)] : Log), e.level ≠ .warn := List.forall_mem_singleton.2 nofun
      have hchange := h.change (b'.project.mergePart id (partOf d)) 0 hmerging
      exact hchange.push index (some id)
  | none =>
      have hblank : ∀ e ∈ blankNameErrors path d, e.level ≠ .warn := by
        intro e he
        obtain ⟨_, _, rfl⟩ := List.mem_map.1 he
        exact nofun
      have hchange := h.change (b'.project.attachAll package d parent
        (Comment.normalize d.rawComment) (filledNames d.names)) (filledNames d.names).length hblank
      simp only [show (d.behind n).rawComment = d.rawComment from rfl]
      split
      · exact h.enter index d none
      · exact hchange.enter index d _

/-- Nothing that lies below `n` is the parent of a declaration behind `n` others.  When its
parent is not on the stack, the older types are gone as well. -/
theorem openFor_later (d : Declaration) {old : List OpenType} (hold : ∀ top ∈ old, top.1 < n)
    (stack : List OpenType) :
    ∃ old', (∀ top ∈ old', top.1 < n) ∧ (openFor d stack = [] → old' = []) ∧
      openFor (d.behind n) (stack.map (later n) ++ old) =
        (openFor d stack).map (later n) ++ old' := by
  induction stack with
  | nil =>
      refine ⟨[], nofun, fun _ => rfl, List.dropWhile_eq_nil_iff.2 fun top htop => ?_⟩
      rw [bne_iff_ne]
      intro heq
      obtain ⟨index, _, hindex⟩ := Option.map_eq_some_iff.1 heq.symm
      have := hold top htop
      omega
  | cons top rest ih =>
      have hsame : (some (later n top).1 != (d.behind n).parent) = (some top.1 != d.parent) := by
        rw [Declaration.behind, later, Bool.eq_iff_iff, bne_iff_ne, bne_iff_ne]
        cases d.parent <;> simp
      unfold openFor at ih ⊢
      rw [List.map_cons, List.cons_append, List.dropWhile_cons, List.dropWhile_cons, hsame]
      split
      · exact ih
      · exact ⟨old, hold, nofun, rfl⟩

theorem Behind.step (h : Behind path n count log b b') (package : String) (index : Nat)
    (d : Declaration) :
    Behind path n count log (b.step package path (index + n) (d.behind n))
      (b'.step package path index d) := by
  obtain ⟨old, hold, hstack⟩ := h.stack
  obtain ⟨old', hold', hempty, hopened⟩ := openFor_later d hold b'.stack
  rw [← hstack] at hopened
  have hpopped : Behind path n count log { b with stack := openFor (d.behind n) b.stack }
      { b' with stack := openFor d b'.stack } :=
    ⟨h.project, h.created, ⟨old', hold', hopened⟩, h.log⟩
  unfold Building.step
  rw [show (b.stack.dropWhile fun top => some top.1 != (d.behind n).parent) =
    openFor (d.behind n) b.stack from rfl,
    show (b'.stack.dropWhile fun top => some top.1 != d.parent) = openFor d b'.stack from rfl]
  generalize openFor d b'.stack = opened' at hopened hempty hpopped ⊢
  generalize openFor (d.behind n) b.stack = opened at hopened hpopped ⊢
  subst hopened
  rw [show (d.behind n).parent = d.parent.map (· + n) from rfl]
  cases d.parent with
  | none => exact hpopped.place package index d none
  | some parent =>
      match opened' with
      | [] =>
          rw [hempty rfl] at hpopped ⊢
          exact hpopped.report (.notOpen d parent)
      | (outer, some item) :: _ => exact hpopped.place package index d (some item)
      | (outer, none) :: _ => exact hpopped.enter index d none

theorem Behind.steps (h : Behind path n count log b b') (package : String) (index : Nat)
    (ds : List Declaration) :
    Behind path n count log
      (b.steps package path (index + n) (ds.map (Declaration.behind n)))
      (b'.steps package path index ds) := by
  induction ds generalizing b b' index with
  | nil => exact h
  | cons d rest ih =>
      rw [List.map_cons, Building.steps, Building.steps, Nat.add_right_comm]
      exact ih (h.step package index d) (index + 1)

end Building

/-- Two lists of declarations do the same in one file as in two files, whatever parents they
name.  The project and the count are the same, and so are the reports, but that those of the
second list count its declarations from the start of the file. -/
theorem addFile_append (p : Project) (package path : String) (first second : List Declaration) :
    let one := p.addFile package path first
    let two := one.1.addFile package path second
    let joined := p.addFile package path (first ++ second.map (Declaration.behind first.length))
    joined.1 = two.1 ∧ joined.2.1 = one.2.1 + two.2.1 ∧
      ∃ more, joined.2.2 = one.2.2 ++ more ∧
        List.Forall₂ (Renumbered path first.length) two.2.2 more := by
  intro one two joined
  let b := Building.steps package path { project := p } 0 first
  have hempty : ∀ top ∈ ({ project := p } : Building).stack, top.1 < 0 := nofun
  have hold : ∀ top ∈ b.stack, top.1 < 0 + first.length :=
    Building.stack_lt_steps package path hempty first
  rw [Nat.zero_add] at hold
  have hstart : Building.Behind path first.length b.created b.log b { project := b.project } :=
    ⟨rfl, rfl, ⟨b.stack, hold, rfl⟩, [], (List.append_nil _).symm, .nil⟩
  have hall := hstart.steps package 0 second
  rw [← Building.steps_append] at hall
  exact ⟨hall.project, hall.created, hall.log⟩

/-- A field whose parent is not in its own file stays out of the type that is still open from
the file before. -/
example :
    (addFile {} "P" "F"
      [{ names := ["A"], kind := .classType, rawComment := "/// a" },
       Declaration.behind 1
        { names := ["x"], kind := .field, rawComment := "/// x", parent := some 0 }]).2 =
      (1, [.warning "F: field x is declared inside #1 which is not open, skipping"]) := by
  decide +kernel

end Project
end DocPages

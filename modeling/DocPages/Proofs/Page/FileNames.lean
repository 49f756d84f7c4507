/-
How file names are given out.

Names are given out one at a time, in the order of the pages, and a name that is given
out is gone for all later pages.  `Granted` says which name a page gets, and `InTurn` that
each page of a list got its name so.  `write_eq` tells a call apart into the names it
gives out, the pages it writes and what it reports, and no proof after this file unfolds
the naming.
-/
import DocPages.Page.Writer
import DocPages.Proofs.Page.Outlines

namespace DocPages
namespace Page

open Names

/-! ## One name -/

/-- What a page is called that wants a name when others are taken: the wanted name if it
is free, and else the one with the least number from two on that is. -/
def Granted (taken : List String) (wanted name : String) : Prop :=
  wanted ∉ taken ∧ name = wanted ∨
    wanted ∈ taken ∧ ∃ n, 2 ≤ n ∧ name = wanted ++ "-" ++ toString n ∧ name ∉ taken ∧
      ∀ m, 2 ≤ m → m < n → wanted ++ "-" ++ toString m ∈ taken

theorem Granted.notMem {taken : List String} {wanted name : String}
    (h : Granted taken wanted name) : name ∉ taken := by
  rcases h with ⟨hfree, rfl⟩ | ⟨_, n, _, _, hfree, _⟩
  · exact hfree
  · exact hfree

theorem Granted.of_mem_iff {taken others : List String} {wanted name : String}
    (h : Granted taken wanted name) (hmem : ∀ s, s ∈ taken ↔ s ∈ others) :
    Granted others wanted name := by
  simpa only [Granted, hmem] using h

theorem suffixed_injective (wanted : String) : Function.Injective (suffixed wanted) := by
  intro m n h
  rw [suffixed, suffixed, String.append_right_inj] at h
  have hdigits := congrArg String.toList h
  rw [Nat.toString_eq_repr, Nat.toString_eq_repr, Nat.toList_repr, Nat.toList_repr] at hdigits
  have hvalue := congrArg (fun digits => Nat.ofDigitChars 10 digits 0) hdigits
  simpa only [Nat.ofDigitChars_ten_toDigits] using hvalue

theorem suffixed_ne (wanted : String) (n : Nat) : suffixed wanted n ≠ wanted := by
  intro h
  have hlength := congrArg String.length h
  rw [suffixed, String.length_append, String.length_append] at hlength
  have : "-".length = 1 := by decide
  omega

/-- One more number is tried than names are in use, so one of them makes a free name. -/
theorem exists_free_number (used : List String) (wanted : String) :
    ∃ n ∈ List.range' 2 (used.length + 1), suffixed wanted n ∉ used := by
  by_contra hall
  have hsub : (List.range' 2 (used.length + 1)).map (suffixed wanted) ⊆ used := by
    intro s hs
    obtain ⟨n, hn, rfl⟩ := List.mem_map.1 hs
    by_contra hfree
    exact hall ⟨n, hn, hfree⟩
  have hnodup : ((List.range' 2 (used.length + 1)).map (suffixed wanted)).Nodup :=
    (List.nodup_range' 1).map (suffixed_injective wanted)
  have hle := hnodup.length_le_of_subset hsub
  rw [List.length_map, List.length_range'] at hle
  omega

theorem granted_firstFree (used : List String) (wanted : String) :
    Granted used wanted (firstFree used wanted) := by
  unfold firstFree
  by_cases htaken : wanted ∈ used
  · rw [if_pos (by simpa using htaken)]
    simp only
    cases hfind : (List.range' 2 (used.length + 1)).find?
        (fun n => !used.contains (suffixed wanted n)) with
    | none =>
        obtain ⟨n, hn, hfree⟩ := exists_free_number used wanted
        have := List.find?_eq_none.1 hfind n hn
        simp [hfree] at this
    | some n =>
        obtain ⟨hfree, hmem, hleast⟩ := List.find?_range'_eq_some.1 hfind
        refine .inr ⟨htaken, n, (List.mem_range'_1.1 hmem).1, rfl, ?_, ?_⟩
        · simpa [suffixed] using hfree
        · intro m hm hlt
          simpa [suffixed] using hleast m hm hlt
  · rw [if_neg (by simpa using htaken)]
    exact .inl ⟨htaken, rfl⟩

theorem Granted.eq_iff {taken : List String} {wanted name : String}
    (h : Granted taken wanted name) : name = wanted ↔ wanted ∉ taken := by
  rcases h with ⟨hfree, rfl⟩ | ⟨htaken, n, _, rfl, _, _⟩
  · exact iff_of_true rfl hfree
  · exact iff_of_false (suffixed_ne wanted n) (not_not_intro htaken)

/-! ## The names of one call -/

/-- A page with the name it wanted and the name it got. -/
structure Grant where
  entry : Entry
  wanted : String
  name : String

/-- The name that a page wants, below a page of that name if there is one. -/
def wantedName (above : Option String) (e : Entry) : String :=
  match above with
  | some parent => parent ++ "-" ++ Naming.pageName e.item.name
  | none => Naming.pageName e.item.name

/-- A page that does not get the name it wants is reported. -/
def Grant.log (g : Grant) : Log :=
  if g.name = g.wanted then []
  else
    [.error (g.entry.fullName ++ ": " ++ g.wanted ++ ".md is already taken, writing " ++ g.name
      ++ ".md")]

mutual
/-- What the pages of an outline are called, below a page of that name, when the names
`used` are gone. -/
def grants (inline : Bool) (above : Option String) (used : List String) : Outline → List Grant
  | .node e _ nested =>
    if e.isBlank then []
    else
      let name := firstFree used (wantedName above e)
      ⟨e, wantedName above e, name⟩ ::
        (if inline then [] else grantsEach inline (some name) (name :: used) nested)

def grantsEach (inline : Bool) (above : Option String) (used : List String) :
    List Outline → List Grant
  | [] => []
  | first :: rest =>
    let gs := grants inline above used first
    gs ++ grantsEach inline above ((gs.map Grant.name).reverse ++ used) rest
end

/-- The names after some more have been given out. -/
def Names.after (names : Names) (gs : List Grant) : Names :=
  ⟨(gs.map Grant.name).reverse ++ names.used,
    (gs.map fun g => (g.entry.id, g.name)).reverse ++ names.chosen⟩

theorem after_append (names : Names) (a b : List Grant) :
    Names.after names (a ++ b) = Names.after (Names.after names a) b := by
  simp [Names.after]

theorem after_cons (names : Names) (g : Grant) (gs : List Grant) :
    Names.after names (g :: gs) = Names.after (Names.after names [g]) gs :=
  after_append names [g] gs

theorem assign_eq (names : Names) (e : Entry) (wanted : String) :
    names.assign e wanted =
      (Names.after names [⟨e, wanted, firstFree names.used wanted⟩],
        firstFree names.used wanted,
        Grant.log ⟨e, wanted, firstFree names.used wanted⟩) := by
  unfold Names.assign Grant.log
  simp only [beq_iff_eq]
  rfl

mutual
theorem assignAll_eq (o : Options) (above : Option String) (names : Names) (tree : Outline) :
    names.assignAll o above tree =
      (Names.after names (grants o.inlineTypes above names.used tree),
        (grants o.inlineTypes above names.used tree).flatMap Grant.log) := by
  match tree with
  | .node e leaves nested =>
    rw [Names.assignAll, grants]
    split
    · rfl
    · simp only [assign_eq]
      cases hi : o.inlineTypes with
      | true =>
          simp only [if_true, List.flatMap_cons, List.flatMap_nil, List.append_nil]
          rfl
      | false =>
          simp only [Bool.false_eq_true, if_false, assignEach_eq, hi, List.flatMap_cons]
          rw [after_cons names _ (grantsEach _ _ _ nested)]
          rfl

theorem assignEach_eq (o : Options) (above : Option String) (names : Names)
    (trees : List Outline) :
    names.assignEach o above trees =
      (Names.after names (grantsEach o.inlineTypes above names.used trees),
        (grantsEach o.inlineTypes above names.used trees).flatMap Grant.log) := by
  match trees with
  | [] => rfl
  | first :: rest =>
    rw [Names.assignEach, grantsEach]
    simp only [assignAll_eq o above names first, assignEach_eq, after_append, List.flatMap_append]
    rfl
end

mutual
theorem entries_grants (inline : Bool) (above : Option String) (used : List String)
    (tree : Outline) : (grants inline above used tree).map Grant.entry = tree.paged inline := by
  match tree with
  | .node e leaves nested =>
    rw [grants, Outline.paged]
    split
    · rfl
    · cases inline with
      | true => rfl
      | false =>
          rw [List.map_cons]
          congr 1
          exact entries_grantsEach false _ _ nested

theorem entries_grantsEach (inline : Bool) (above : Option String) (used : List String)
    (trees : List Outline) :
    (grantsEach inline above used trees).map Grant.entry = pagedEach inline trees := by
  match trees with
  | [] => rfl
  | first :: rest =>
    rw [grantsEach, pagedEach, List.map_append, entries_grants inline above used first,
      entries_grantsEach inline above _ rest]
end

/-! ## Names are given out in turn -/

/-- Each page gets its name when those before it have theirs. -/
def InTurn (taken : List String) : List Grant → Prop
  | [] => True
  | g :: rest => Granted taken g.wanted g.name ∧ InTurn (g.name :: taken) rest

theorem inTurn_append {taken : List String} {a b : List Grant} :
    InTurn taken (a ++ b) ↔ InTurn taken a ∧ InTurn ((a.map Grant.name).reverse ++ taken) b := by
  induction a generalizing taken with
  | nil => simp [InTurn]
  | cons g rest ih => simp [InTurn, ih, and_assoc]

theorem InTurn.granted {taken : List String} {before after : List Grant} {g : Grant}
    (h : InTurn taken (before ++ g :: after)) :
    Granted (taken ++ before.map Grant.name) g.wanted g.name := by
  have hg := (inTurn_append.1 h).2.1
  refine hg.of_mem_iff fun s => ?_
  rw [List.mem_append, List.mem_append, List.mem_reverse, or_comm]

theorem InTurn.nodup {taken : List String} {gs : List Grant} (h : InTurn taken gs)
    (htaken : taken.Nodup) : ((gs.map Grant.name).reverse ++ taken).Nodup := by
  induction gs generalizing taken with
  | nil => exact htaken
  | cons g rest ih =>
      have hnodup := ih h.2 (List.nodup_cons.2 ⟨h.1.notMem, htaken⟩)
      simpa using hnodup

mutual
theorem inTurn_grants (inline : Bool) (above : Option String) (used : List String)
    (tree : Outline) : InTurn used (grants inline above used tree) := by
  match tree with
  | .node e leaves nested =>
    rw [grants]
    split
    · trivial
    · refine ⟨granted_firstFree used _, ?_⟩
      cases inline with
      | true => trivial
      | false => exact inTurn_grantsEach false _ _ nested

theorem inTurn_grantsEach (inline : Bool) (above : Option String) (used : List String)
    (trees : List Outline) : InTurn used (grantsEach inline above used trees) := by
  match trees with
  | [] => trivial
  | first :: rest =>
    rw [grantsEach]
    exact inTurn_append.2
      ⟨inTurn_grants inline above used first, inTurn_grantsEach inline above _ rest⟩
end

/-! ## What a call comes to -/

theorem find?_after {gs : List Grant} (hgs : (gs.map fun g => g.entry.id).Nodup) {g : Grant}
    (hg : g ∈ gs) (names : Names) : (Names.after names gs).find? g.entry.id = some g.name := by
  obtain ⟨before, after, rfl⟩ := List.append_of_mem hg
  rw [Names.find?, List.lookup_eq_some_iff]
  refine ⟨(after.map fun g => (g.entry.id, g.name)).reverse,
    (before.map fun g => (g.entry.id, g.name)).reverse ++ names.chosen, ?_, ?_⟩
  · simp [Names.after]
  · -- Later pages of the call are of other items.
    intro pair hpair
    obtain ⟨x, hx, rfl⟩ := List.mem_map.1 (List.mem_reverse.1 hpair)
    rw [List.map_append, List.map_cons] at hgs
    have hne := (List.nodup_cons.1 (List.Nodup.of_append_right hgs)).1
    rw [bne_iff_ne]
    intro heq
    exact hne (List.mem_map.2 ⟨x, hx, heq.symm⟩)

/-- The item of a page and the name of its file. -/
def Output.named? : Output → Option (ItemId × String)
  | .page id file _ => some (id, file)
  | .skipped _ => none

mutual
theorem named_outputs (o : Options) (names : Names) (tree : Outline)
    (h : ∀ e ∈ tree.paged o.inlineTypes, (names.find? e.id).isSome = true) :
    (outputs o names tree).filterMap Output.named? =
      (tree.paged o.inlineTypes).map fun e => (e.id, (names.find? e.id).getD "") := by
  match tree with
  | .node e leaves nested =>
    rw [Outline.paged] at h ⊢
    rw [outputs]
    cases hskip : e.skip? with
    | some reason => simp [Entry.isBlank, hskip, Output.named?]
    | none =>
        rw [isBlank_of_noSkip hskip, if_neg Bool.false_ne_true] at h ⊢
        obtain ⟨file, hfile⟩ := Option.isSome_iff_exists.1 (h e List.mem_cons_self)
        simp only [hfile]
        show (e.id, file) :: _ = (e.id, (names.find? e.id).getD "") :: _
        rw [hfile]
        congr 1
        cases hi : o.inlineTypes with
        | true => rfl
        | false =>
            rw [hi] at h
            have hnested := named_outputsEach o names nested
              (fun m hm => h m (List.mem_cons_of_mem _ (by rwa [hi] at hm)))
            rwa [hi] at hnested

theorem named_outputsEach (o : Options) (names : Names) (trees : List Outline)
    (h : ∀ e ∈ pagedEach o.inlineTypes trees, (names.find? e.id).isSome = true) :
    (outputsEach o names trees).filterMap Output.named? =
      (pagedEach o.inlineTypes trees).map fun e => (e.id, (names.find? e.id).getD "") := by
  match trees with
  | [] => rfl
  | first :: rest =>
    rw [pagedEach] at h
    rw [outputsEach, pagedEach, List.filterMap_append, List.map_append,
      named_outputs o names first (fun e he => h e (List.mem_append_left _ he)),
      named_outputsEach o names rest (fun e he => h e (List.mem_append_right _ he))]
end

theorem outputsEach_eq (o : Options) (names : Names) (trees : List Outline) :
    outputsEach o names trees = trees.flatMap (outputs o names) := by
  induction trees with
  | nil => rfl
  | cons first rest ih => rw [outputsEach, ih, List.flatMap_cons]

/-- The names that a call gives out. -/
def callGrants (p : Project) (o : Options) (names : Names) (e : Entry) : List Grant :=
  grants o.inlineTypes none names.used (outline p o.kinds e)

/-- A call gives out names, then it writes pages, and it reports in that order. -/
theorem write_eq {p : Project} {id : ItemId} {e : Entry} (he : entryOf? p id = some e)
    (o : Options) (names : Names) :
    write p o names id =
      (Names.after names (callGrants p o names e),
        outputs o (Names.after names (callGrants p o names e)) (outline p o.kinds e),
        (callGrants p o names e).flatMap Grant.log ++
          (outputs o (Names.after names (callGrants p o names e))
            (outline p o.kinds e)).flatMap Output.log) := by
  unfold write
  simp only [he, assignAll_eq]
  rfl

section Forest

variable {p : Project} (hp : p.IsForest)

include hp

theorem nodup_ids_callGrants (o : Options) (names : Names) {e : Entry} (he : e.Of p) :
    ((callGrants p o names e).map fun g => g.entry.id).Nodup := by
  have hids : (callGrants p o names e).map (fun g => g.entry.id) =
      ((outline p o.kinds e).paged o.inlineTypes).map Entry.id := by
    rw [← entries_grants o.inlineTypes none names.used, List.map_map]
    rfl
  rw [hids]
  exact ((paged_sublist o.inlineTypes _).map Entry.id).nodup (nodup_met hp o.kinds he)

theorem find?_callGrants (o : Options) (names : Names) {e : Entry} (he : e.Of p) {g : Grant}
    (hg : g ∈ callGrants p o names e) :
    (Names.after names (callGrants p o names e)).find? g.entry.id = some g.name :=
  find?_after (nodup_ids_callGrants hp o names he) hg names

theorem find?_paged (o : Options) (names : Names) {e : Entry} (he : e.Of p) {m : Entry}
    (hm : m ∈ (outline p o.kinds e).paged o.inlineTypes) :
    ((Names.after names (callGrants p o names e)).find? m.id).isSome = true := by
  rw [← entries_grants o.inlineTypes none names.used] at hm
  obtain ⟨g, hg, rfl⟩ := List.mem_map.1 hm
  rw [find?_callGrants hp o names he hg]
  rfl

/-- The pages of a call are those that get names, under their names. -/
theorem named_write {id : ItemId} {e : Entry} (he : entryOf? p id = some e) (hof : e.Of p)
    (o : Options) (names : Names) :
    (write p o names id).2.1.filterMap Output.named? =
      (callGrants p o names e).map fun g => (g.entry.id, g.name) := by
  rw [write_eq he, named_outputs o _ _ fun m hm => find?_paged hp o names hof hm,
    ← entries_grants o.inlineTypes none names.used, List.map_map]
  refine List.map_congr_left fun g hg => ?_
  rw [Function.comp_apply, find?_callGrants hp o names hof hg, Option.getD_some]

end Forest

end Page
end DocPages

/-
A disk on which any change may fail.

What a run asks of a disk can fail because of what is on the disk, or by a mishap that has
nothing to do with it.  The pattern of the mishaps is a parameter.  A mishap may leave some
folders that were made before it, or a file with some part of its text.  A journal keeps
what was asked and how it went.
-/
import DocPages.Proofs.Files.Folders

namespace DocPages

open DocPages.Path

/-- What a run asks a disk to change. -/
inductive Request where
  | folder (path : String)
  | file (path content : String)
deriving Repr, DecidableEq

def Request.path : Request → String
  | .folder path => path
  | .file path _ => path

structure Mishap where
  failure : FileFailure
  /-- How many folders above the one asked for are not made either. -/
  short : Nat := 0
  /-- The text of a file that was started.  Without it the file is left alone. -/
  left : Option String := none

/-- A request and why it failed, if it did. -/
structure JournalEntry where
  request : Request
  failure : Option FileFailure
deriving Repr, DecidableEq

structure FaultyDisk where
  disk : Disk
  /-- The mishap that meets a request if it is the `n`th. -/
  mishaps : Nat → Request → Option Mishap := fun _ _ => none
  journal : List JournalEntry := []

namespace Disk

/-- Does what is asked, unless the disk does not allow it. -/
def perform (d : Disk) : Request → Option FileFailure × Disk
  | .folder path =>
    match d.makeFolders path with
    | (.ok _, d) => (none, d)
    | (.error e, d) => (some e, d)
  | .file path content =>
    match d.write path (.text content) with
    | .ok d => (none, d)
    | .error e => (some e, d)

/-- What a mishap leaves behind. -/
def leftBy (d : Disk) (m : Mishap) : Request → Disk
  | .folder path => (d.ensureFolders (d.start path) ((above path).drop m.short)).2
  | .file path _ =>
    match m.left with
    | none => d
    | some text => (d.perform (.file path text)).2

end Disk

namespace FaultyDisk

def answer (s : FaultyDisk) (r : Request) : Option FileFailure × Disk :=
  match s.mishaps s.journal.length r with
  | none => s.disk.perform r
  | some m => (some m.failure, s.disk.leftBy m r)

/-- The disk after a request. -/
def ask (s : FaultyDisk) (r : Request) : FaultyDisk :=
  { s with disk := (s.answer r).2, journal := s.journal ++ [⟨r, (s.answer r).1⟩] }

def outcome : Option FileFailure → Except FileFailure Unit
  | none => .ok ()
  | some e => .error e

instance : FileSystem (StateM FaultyDisk) where
  isFile path := do return (← get).disk.isFile path
  isFolder path := do return (← get).disk.isFolder path
  readFile path := do return (← get).disk.readFile path
  filesBelow path := do return (← get).disk.filesBelow path
  makeFolders path := modifyGet fun s => (outcome (s.answer (.folder path)).1, s.ask (.folder path))
  writeFile path content :=
    modifyGet fun s => (outcome (s.answer (.file path content)).1, s.ask (.file path content))

theorem makeFolders_bind {α : Type} (path : String)
    (f : Except FileFailure Unit → StateM FaultyDisk α) (s : FaultyDisk) :
    (FileSystem.makeFolders path >>= f) s =
      f (outcome (s.answer (.folder path)).1) (s.ask (.folder path)) :=
  rfl

theorem writeFile_bind {α : Type} (path content : String)
    (f : Except FileFailure Unit → StateM FaultyDisk α) (s : FaultyDisk) :
    (FileSystem.writeFile path content >>= f) s =
      f (outcome (s.answer (.file path content)).1) (s.ask (.file path content)) :=
  rfl

end FaultyDisk

namespace Disk

/-! ## One request -/

/-- What was asked for is there. -/
def Has (d : Disk) : Request → Prop
  | .folder path =>
    (path = "" ∨ checked path = .ok ()) ∧ d.Open (d.start path) (meant (pieces path))
  | .file path content => d.readFile path = .ok content

theorem bind_eq_ok {α β : Type} {x : Except FileFailure α} {f : α → Except FileFailure β} {b : β} :
    (x >>= f) = .ok b ↔ ∃ a, x = .ok a ∧ f a = .ok b := by
  cases x with
  | error e => exact iff_of_false nofun nofun
  | ok a => exact ⟨fun h => ⟨a, rfl, h⟩, fun ⟨_, ha, h⟩ => by cases ha; exact h⟩

/-- A path is followed to its location if it is followed at all. -/
theorem location_of_followAll {d : Disk} {path : String} {l : Location}
    (h : d.followAll (d.start path) (pieces path) = .ok l) : l = d.location path := by
  rw [location_eq]
  exact (passable_of_followAll h).2

theorem write_eq_ok {d d' : Disk} {path : String} {content : FileContent}
    (h : d.write path content = .ok d') :
    checked path = .ok () ∧ d.followAll (d.start path) (pieces path) = .ok (d.location path) ∧
      d.node? (d.location path) ≠ some .folder ∧ d' = d.put (d.location path) (.file content) := by
  obtain ⟨_, hchecked, h⟩ := bind_eq_ok.1 h
  obtain ⟨l, hfollow, h⟩ := bind_eq_ok.1 h
  have hl := location_of_followAll hfollow
  subst hl
  split at h
  · cases h
  · rename_i hnode
    cases h
    exact ⟨hchecked, hfollow, hnode, rfl⟩

theorem readFile_eq_ok {d : Disk} {path content : String} :
    d.readFile path = .ok content ↔
      checked path = .ok () ∧ d.followAll (d.start path) (pieces path) = .ok (d.location path) ∧
        d.node? (d.location path) = some (.file (.text content)) := by
  constructor
  · intro h
    obtain ⟨⟨l, n⟩, hfind, h⟩ := bind_eq_ok.1 h
    obtain ⟨_, hchecked, hfind⟩ := bind_eq_ok.1 hfind
    obtain ⟨l', hfollow, hfind⟩ := bind_eq_ok.1 hfind
    have hl := location_of_followAll hfollow
    subst hl
    split at hfind
    · rename_i hnode
      cases hfind
      cases n with
      | folder => cases h
      | file found =>
          cases found with
          | binary => cases h
          | text =>
              cases h
              exact ⟨hchecked, hfollow, hnode⟩
    · cases hfind
  · rintro ⟨hchecked, hfollow, hnode⟩
    have hfind : d.find path = .ok (d.location path, .file (.text content)) := by
      refine bind_eq_ok.2 ⟨(), hchecked, bind_eq_ok.2 ⟨_, hfollow, ?_⟩⟩
      rw [hnode]
    exact bind_eq_ok.2 ⟨_, hfind, rfl⟩

/-- Two requests that are not for the same file. -/
def Apart (d : Disk) : Request → Request → Prop
  | .file a _, .file b _ => d.location a ≠ d.location b
  | _, _ => True

theorem checked_eq_ok {path : String} :
    checked path = .ok () ↔ path ≠ "" ∧ '\x00' ∉ path.toList := by
  unfold checked
  by_cases hempty : path = ""
  · simp [hempty]
  · rw [if_neg (by simpa using hempty)]
    by_cases hnul : '\x00' ∈ path.toList
    · simp [hempty, hnul]
    · simp [hempty, hnul]

/-- The folder of a file that is there is there. -/
theorem has_folder_of_has_file {d : Disk} {folder name content : String} (hname : IsName name)
    (h : d.Has (.file (join folder name) content)) : d.Has (.folder folder) := by
  obtain ⟨hchecked, hfollow, _⟩ := readFile_eq_ok.1 h
  obtain ⟨front, hpieces, hfront⟩ := pieces_join hname.relative folder
  have hway := (passable_of_followAll hfollow).1
  rw [hpieces, meant_append, hfront, hname.meant_eq, start_join hname, passable_append] at hway
  refine ⟨?_, hway.1, hway.2.1⟩
  by_cases hempty : folder = ""
  · exact .inl hempty
  · refine .inr (checked_eq_ok.2 ⟨hempty, fun hnul => (checked_eq_ok.1 hchecked).2 ?_⟩)
    unfold join
    rw [if_neg (by simp [hname.relative])]
    split <;> simp [hnul]

/-- What was asked for before a request stays, unless it is the same file. -/
structure Keeps (d d' : Disk) (r : Request) : Prop where
  grows : Grows d d'
  others : ∀ other, d.Apart other r → d.Has other → d'.Has other

theorem Has.of_grows {d d' : Disk} (h : Grows d d') {r : Request}
    (hnode : ∀ path content, r = .file path content →
      d'.node? (d.location path) = d.node? (d.location path))
    (hr : d.Has r) : d'.Has r := by
  cases r with
  | folder path =>
      refine ⟨hr.1, ?_⟩
      rw [h.start]
      exact hr.2.grows h
  | file path content =>
      obtain ⟨hchecked, hfollow, hfile⟩ := readFile_eq_ok.1 hr
      refine readFile_eq_ok.2 ⟨hchecked, ?_, ?_⟩
      · rw [h.start, h.location]
        exact followAll_grows h hfollow
      · rw [h.location, hnode path content rfl]
        exact hfile

theorem Extends.keeps {d d' : Disk} (h : Extends d d') (r : Request) : Keeps d d' r where
  grows := h.grows
  others other _ hother := by
    refine hother.of_grows h.grows fun path content hfile => ?_
    subst hfile
    have hnode := (readFile_eq_ok.1 hother).2.2
    rw [hnode, h.kept _ _ hnode]

theorem keeps_put {d : Disk} {path : String} (h : d.node? (d.location path) ≠ some .folder)
    (found : FileContent) (content : String) :
    Keeps d (d.put (d.location path) (.file found)) (.file path content) := by
  have hput := node?_put h (.file found)
  have hgrows : Grows d (d.put (d.location path) (.file found)) := by
    refine ⟨rfl, fun l hl => ?_, fun l old hl => ?_⟩
    · rw [hput, if_neg]
      · exact hl
      · rintro rfl
        exact h hl
    · rw [hput]
      split
      · exact ⟨found, rfl⟩
      · exact ⟨old, hl⟩
  refine ⟨hgrows, fun other hapart hother => hother.of_grows hgrows fun a _ ha => ?_⟩
  subst ha
  rw [hput, if_neg hapart]

/-- A request keeps the others, and if it does not fail, what was asked for is there. -/
theorem perform_spec (d : Disk) (r : Request) :
    Keeps d (d.perform r).2 r ∧ ((d.perform r).1 = none → (d.perform r).2.Has r) := by
  cases r with
  | folder path =>
      obtain ⟨hext, hopen⟩ := makeFolders_spec d path
      have hchecked : (d.makeFolders path).1 = .ok () → path = "" ∨ checked path = .ok () := by
        unfold makeFolders
        split
        · rename_i hempty
          exact fun _ => .inl (by simpa using hempty)
        · split
          · exact nofun
          · rename_i hok
            exact fun _ => .inr hok
      simp only [perform]
      generalize d.makeFolders path = made at hext hopen hchecked ⊢
      obtain ⟨_ | _, d'⟩ := made
      · exact ⟨hext.keeps _, nofun⟩
      · refine ⟨hext.keeps _, fun _ => ⟨hchecked rfl, ?_⟩⟩
        rw [hext.grows.start]
        exact hopen rfl
  | file path content =>
      unfold perform
      simp only
      split
      · rename_i d' hwrite
        obtain ⟨hchecked, hfollow, hnode, rfl⟩ := write_eq_ok hwrite
        have hkeeps := keeps_put hnode (.text content) content
        refine ⟨hkeeps, fun _ => readFile_eq_ok.2 ⟨hchecked, ?_, ?_⟩⟩
        · rw [hkeeps.grows.start, hkeeps.grows.location]
          exact followAll_grows hkeeps.grows hfollow
        · rw [hkeeps.grows.location, node?_put hnode, if_pos rfl]
      · exact ⟨(Extends.refl d).keeps _, nofun⟩

theorem keeps_leftBy (d : Disk) (m : Mishap) (r : Request) : Keeps d (d.leftBy m r) r := by
  cases r with
  | folder path => exact (ensureFolders_spec d _ _).1.keeps _
  | file path content =>
      unfold leftBy
      simp only
      split
      · exact (Extends.refl d).keeps _
      · obtain ⟨hgrows, hothers⟩ := (d.perform_spec (.file path _)).1
        refine ⟨hgrows, fun other hapart => hothers other ?_⟩
        cases other <;> exact hapart

end Disk

namespace FaultyDisk

theorem answer_spec (s : FaultyDisk) (r : Request) :
    s.disk.Keeps (s.ask r).disk r ∧ ((s.answer r).1 = none → (s.ask r).disk.Has r) := by
  unfold ask answer
  split
  · exact s.disk.perform_spec r
  · exact ⟨s.disk.keeps_leftBy _ r, nofun⟩

/-! ## Requests one after the other -/

/-- The disk after some requests. -/
def asked (s : FaultyDisk) (rs : List Request) : FaultyDisk := rs.foldl ask s

/-- What the journal says about some requests. -/
def told (s : FaultyDisk) : List Request → List JournalEntry
  | [] => []
  | r :: rest => ⟨r, (s.answer r).1⟩ :: told (s.ask r) rest

theorem journal_asked (s : FaultyDisk) (rs : List Request) :
    (s.asked rs).journal = s.journal ++ s.told rs := by
  induction rs generalizing s with
  | nil => exact (List.append_nil _).symm
  | cons r rest ih =>
      rw [asked, List.foldl_cons]
      refine (ih (s.ask r)).trans ?_
      rw [ask, told, List.append_assoc]
      rfl

theorem asked_append (s : FaultyDisk) (a b : List Request) :
    s.asked (a ++ b) = (s.asked a).asked b :=
  List.foldl_append

theorem told_append (s : FaultyDisk) (a b : List Request) :
    s.told (a ++ b) = s.told a ++ (s.asked a).told b := by
  induction a generalizing s with
  | nil => rfl
  | cons r rest ih =>
      rw [List.cons_append, told, ih, told]
      rfl

theorem mishaps_asked (s : FaultyDisk) (rs : List Request) : (s.asked rs).mishaps = s.mishaps := by
  induction rs generalizing s with
  | nil => rfl
  | cons r rest ih => exact ih (s.ask r)

theorem apart_congr {d d' : Disk} (h : d.Grows d') {a b : Request} :
    d'.Apart a b ↔ d.Apart a b := by
  cases a <;> cases b <;> simp only [Disk.Apart, h.location]

/-- What was asked for stays through all requests that are not for the same file. -/
theorem keeps_asked (s : FaultyDisk) (rs : List Request) :
    s.disk.Grows (s.asked rs).disk ∧
      ∀ other, (∀ r ∈ rs, s.disk.Apart other r) → s.disk.Has other →
        (s.asked rs).disk.Has other := by
  induction rs generalizing s with
  | nil => exact ⟨(Disk.Extends.refl _).grows, fun _ _ h => h⟩
  | cons r rest ih =>
      obtain ⟨hkeeps, _⟩ := s.answer_spec r
      obtain ⟨hgrows, hothers⟩ := ih (s.ask r)
      refine ⟨hkeeps.grows.trans hgrows, fun other hapart hother => hothers other ?_ ?_⟩
      · intro r' hr'
        exact (apart_congr hkeeps.grows).2 (hapart r' (List.mem_cons_of_mem _ hr'))
      · exact hkeeps.others other (hapart r List.mem_cons_self) hother

/-- In the end all is there that was asked for without a failure, if no file was asked for
twice. -/
theorem has_of_told {s : FaultyDisk} {rs : List Request} (h : rs.Pairwise s.disk.Apart)
    {r : Request} (hr : ⟨r, none⟩ ∈ s.told rs) : (s.asked rs).disk.Has r := by
  induction rs generalizing s with
  | nil => cases hr
  | cons first rest ih =>
      obtain ⟨hfirst, hrest⟩ := List.pairwise_cons.1 h
      obtain ⟨hkeeps, hhas⟩ := s.answer_spec first
      rcases List.mem_cons.1 hr with heq | hr
      · obtain ⟨rfl, hnone⟩ := JournalEntry.mk.inj heq
        refine (keeps_asked (s.ask r) rest).2 r (fun r' hr' => ?_) (hhas hnone.symm)
        exact (apart_congr hkeeps.grows).2 (hfirst r' hr')
      · exact ih (hrest.imp fun hab => (apart_congr hkeeps.grows).2 hab) hr

/-! ## Mishaps elsewhere

The disk `e` has all that was asked for.  A run that is met by mishaps has less, but what
it asks for later can still be made. -/

/-- A disk has what is asked for, and the path of a folder does not end with a dot. -/
def Supports (e : Disk) (r : Request) : Prop :=
  e.Has r ∧ ∀ path, r = .folder path → Disk.lastPiece? path ≠ some ['.']

theorem grows_write_smaller {d d' e : Disk} (h : d.Grows e) {path content : String}
    (he : e.Has (.file path content)) {found : FileContent} (hw : d.write path found = .ok d') :
    d'.Grows e := by
  obtain ⟨_, _, hnode, rfl⟩ := Disk.write_eq_ok hw
  have hfile := (Disk.readFile_eq_ok.1 he).2.2
  rw [h.location] at hfile
  have hput := Disk.node?_put hnode (.file found)
  refine ⟨h.workingFolder, fun l hl => ?_, fun l old hl => ?_⟩
  · rw [hput] at hl
    split at hl
    · cases hl
    · exact h.folders l hl
  · rw [hput] at hl
    split at hl
    · rename_i heq
      exact ⟨_, heq ▸ hfile⟩
    · exact h.files l old hl

theorem perform_file_smaller {d e : Disk} (h : d.Grows e) {path content : String}
    (he : e.Has (.file path content)) (text : String) :
    (d.perform (.file path text)).2.Grows e := by
  simp only [Disk.perform]
  split
  · rename_i hwrite
    exact grows_write_smaller h he hwrite
  · exact h

theorem answer_smaller {s : FaultyDisk} {e : Disk} (h : s.disk.Grows e) {r : Request}
    (he : Supports e r) : (s.ask r).disk.Grows e := by
  obtain ⟨hhas, hdot⟩ := he
  unfold ask answer
  cases r with
  | folder path =>
      split
      · have hmade := (Disk.makeFolders_smaller h hhas.1 (hdot path rfl) hhas.2).2
        simp only [Disk.perform]
        generalize s.disk.makeFolders path = made at hmade ⊢
        obtain ⟨_ | _, d'⟩ := made <;> exact hmade
      · -- What was made before the mishap leads to a folder that `e` has.
        exact Disk.ensureFolders_above_smaller h hhas.2 _
  | file path content =>
      split
      · exact perform_file_smaller h hhas content
      · simp only [Disk.leftBy]
        split
        · exact h
        · exact perform_file_smaller h hhas _

theorem asked_smaller {s : FaultyDisk} {e : Disk} (h : s.disk.Grows e) {rs : List Request}
    (he : ∀ r ∈ rs, Supports e r) : (s.asked rs).disk.Grows e := by
  induction rs generalizing s with
  | nil => exact h
  | cons r rest ih =>
      exact ih (answer_smaller h (he r List.mem_cons_self))
        fun r' hr' => he r' (List.mem_cons_of_mem _ hr')

/-- A folder that is not met by a mishap is made. -/
theorem answer_folder {s : FaultyDisk} {e : Disk} (h : s.disk.Grows e) {path : String}
    (he : Supports e (.folder path)) (hmishap : ∀ n, s.mishaps n (.folder path) = none) :
    (s.answer (.folder path)).1 = none := by
  have hmade := (Disk.makeFolders_smaller h he.1.1 (he.2 path rfl) he.1.2).1
  rw [answer, hmishap]
  simp only [Disk.perform]
  generalize s.disk.makeFolders path = made at hmade ⊢
  obtain ⟨_ | _, d'⟩ := made
  · cases hmade
  · rfl

/-- A file in a folder that is there is written if it is not met by a mishap. -/
theorem answer_file {s : FaultyDisk} {e : Disk} (h : s.disk.Grows e) {folder name content : String}
    (hname : IsName name) (hfolder : s.disk.Has (.folder folder))
    (he : e.Has (.file (join folder name) content))
    (hmishap : ∀ n, s.mishaps n (.file (join folder name) content) = none) :
    (s.answer (.file (join folder name) content)).1 = none := by
  obtain ⟨hchecked, hfollow, hfile⟩ := Disk.readFile_eq_ok.1 he
  obtain ⟨front, hpieces, hfront⟩ := pieces_join hname.relative folder
  have hopen : s.disk.Open (s.disk.start folder) (meant front) := hfront ▸ hfolder.2
  have hfit : Disk.Fits (.normal name) := by
    have hway := (Disk.passable_of_followAll hfollow).1
    rw [hpieces, meant_append, hname.meant_eq] at hway
    exact (Disk.passable_append.1 hway).2.2.1
  have hthere : ∃ l, s.disk.followAll (s.disk.start (join folder name))
      (pieces (join folder name)) = .ok l := by
    refine ⟨Disk.goOn (Disk.dest (s.disk.start folder) (meant front)) (.normal name), ?_⟩
    rw [Disk.start_join hname, hpieces, Disk.followAll_append hopen.followAll, hname.pieces_eq,
      Disk.followAll_cons_of_ok (Disk.follow_of_some hname.1 hopen.2 hfit)]
    rfl
  obtain ⟨l, hl⟩ := hthere
  have hnode : s.disk.node? l ≠ some .folder := by
    intro hfolder
    rw [Disk.location_of_followAll hl] at hfolder
    have := h.folders _ hfolder
    rw [h.location] at hfile
    rw [hfile] at this
    cases this
  have hwrite : s.disk.write (join folder name) (.text content) =
      .ok (s.disk.put l (.file (.text content))) := by
    refine Disk.bind_eq_ok.2 ⟨(), hchecked, Disk.bind_eq_ok.2 ⟨l, hl, ?_⟩⟩
    split
    · rename_i hfound
      exact absurd hfound hnode
    · rfl
  rw [answer, hmishap]
  simp only [Disk.perform, hwrite]

end FaultyDisk
end DocPages

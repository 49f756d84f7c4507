/-
What a run of the site asks a disk for.

The pages of a namespace are one batch.  The folder of a batch is asked for first, and if it
is made, then all its pages, whatever becomes of them.  `write_run` says that a run comes to
these requests and counts how they went.
-/
import DocPages.Proofs.Files.Mishaps
import DocPages.Proofs.Page.PlainNames
import DocPages.Site

namespace DocPages
namespace Site

open FaultyDisk

/-! ## Batches -/

/-- The pages of a namespace and the folder they go to. -/
structure Batch where
  folder : String
  pages : List WrittenPage

/-- The paths of the pages with what is written there. -/
def Batch.files (b : Batch) : List (String × String) :=
  b.pages.map fun page => (file b.folder page, page.content)

def batches (p : Project) (o : Page.Options) (root : String) : List Batch :=
  p.namespaces.toList.map fun ns => ⟨folder root ns, (pages p o ns).1⟩

/-- All pages that a run handles. -/
def handled (p : Project) (o : Page.Options) (root : String) : List (String × String) :=
  (batches p o root).flatMap Batch.files

def fileRequest (f : String × String) : Request := .file f.1 f.2

def file? : Request → Option (String × String)
  | .folder _ => none
  | .file path content => some (path, content)

/-- The files that were asked for without a failure. -/
def granted (entries : List JournalEntry) : List (String × String) :=
  (entries.filter (·.failure = none)).filterMap fun e => file? e.request

/-- The pages of scanned sources have file names that go down. -/
theorem isName_file {p : Project} (hp : p.FromSources) {o : Page.Options} {root : String}
    {b : Batch} (hb : b ∈ batches p o root) {page : WrittenPage} (hpage : page ∈ b.pages) :
    Path.IsName (page.fileName ++ ".md") := by
  obtain ⟨ns, _, rfl⟩ := List.mem_map.1 hb
  have hwhole : p.NamesAll Page.Whole := fun id item hitem hslash =>
    absurd ((hp.names id item hitem).inside '/' hslash) (by decide)
  have hmem : page.fileName ∈ Page.fileNames (pages p o ns).1 := List.mem_map_of_mem hpage
  exact Page.isName_of_whole (Page.whole_fileNames hp.isForest hwhole o _ _ hmem)

/-! ## The requests of a run -/

def Batch.requests (b : Batch) (s : FaultyDisk) : List Request :=
  if b.pages.isEmpty then []
  else
    .folder b.folder ::
      (if (s.answer (.folder b.folder)).1 = none then b.files.map fileRequest else [])

def requests (s : FaultyDisk) : List Batch → List Request
  | [] => []
  | b :: rest => b.requests s ++ requests (s.asked (b.requests s)) rest

theorem granted_append (a b : List JournalEntry) : granted (a ++ b) = granted a ++ granted b := by
  rw [granted, List.filter_append, List.filterMap_append]
  rfl

/-- A run that made some requests has counted how those for files went. -/
structure Counts (s : FaultyDisk) (rs : List Request) (total : Nat)
    (run : (Report × Log) × FaultyDisk) : Prop where
  state : run.2 = s.asked rs
  written : run.1.1.written = (granted (s.told rs)).length
  all : run.1.1.written + run.1.1.failed = total

/-- What one answer counts for. -/
def tally : Option FileFailure → Report
  | none => ⟨1, 0⟩
  | some _ => ⟨0, 1⟩

theorem writePages_cons (folder : String) (page : WrittenPage) (rest : List WrittenPage)
    (s : FaultyDisk) :
    ∃ event, (writePages folder (page :: rest) : StateM FaultyDisk (Report × Log)) s =
      let r := fileRequest (file folder page, page.content)
      let more := (writePages folder rest : StateM FaultyDisk (Report × Log)) (s.ask r)
      (((tally (s.answer r).1).add more.1.1, event :: more.1.2), more.2) := by
  rw [writePages, writeFile_bind]
  simp only [fileRequest]
  cases (s.answer (.file (file folder page) page.content)).1 with
  | none => exact ⟨_, rfl⟩
  | some e => exact ⟨_, rfl⟩

theorem granted_told_cons (s : FaultyDisk) (r : Request) (rest : List Request) :
    granted (s.told (r :: rest)) =
      (if (s.answer r).1 = none then (file? r).toList else []) ++
        granted ((s.ask r).told rest) := by
  rw [told, granted, List.filter_cons]
  split
  · rename_i h
    rw [if_pos (by simpa using h), List.filterMap_cons]
    cases file? r <;> rfl
  · rename_i h
    rw [if_neg (by simpa using h)]
    rfl

theorem writePages_run (folder : String) (pages : List WrittenPage) (s : FaultyDisk) :
    Counts s ((Batch.mk folder pages).files.map fileRequest) pages.length
      ((writePages folder pages : StateM FaultyDisk (Report × Log)) s) := by
  induction pages generalizing s with
  | nil => exact ⟨rfl, rfl, rfl⟩
  | cons page rest ih =>
      obtain ⟨event, heq⟩ := writePages_cons folder page rest s
      rw [heq]
      obtain ⟨hstate, hwritten, hall⟩ :=
        ih (s.ask (fileRequest (file folder page, page.content)))
      refine ⟨hstate, ?_, ?_⟩
      · rw [Batch.files, List.map_cons, List.map_cons, granted_told_cons, List.length_append]
        rw [Batch.files] at hwritten
        simp only [Report.add, hwritten]
        congr 1
        cases (s.answer (fileRequest (file folder page, page.content))).1 <;> rfl
      · simp only [Report.add, List.length_cons]
        cases (s.answer (fileRequest (file folder page, page.content))).1 <;>
          simp only [tally] <;> omega

theorem writeNamespace_run (p : Project) (o : Page.Options) (root : String) (ns : Namespace)
    (s : FaultyDisk) :
    Counts s ((Batch.mk (folder root ns) (pages p o ns).1).requests s) (pages p o ns).1.length
      ((writeNamespace p o root ns : StateM FaultyDisk (Report × Log)) s) := by
  unfold writeNamespace
  generalize pages p o ns = found
  obtain ⟨written, log⟩ := found
  simp only [Batch.requests]
  split
  · rename_i hempty
    rw [List.isEmpty_iff.1 hempty]
    exact ⟨rfl, rfl, rfl⟩
  · rw [makeFolders_bind]
    cases hfolder : (s.answer (.folder (folder root ns))).1 with
    | some e =>
        rw [if_neg nofun]
        refine ⟨rfl, ?_, Nat.zero_add _⟩
        rw [granted_told_cons, hfolder]
        rfl
    | none =>
        rw [if_pos rfl]
        obtain ⟨hstate, hwritten, hall⟩ :=
          writePages_run (folder root ns) written (s.ask (.folder (folder root ns)))
        refine ⟨hstate, ?_, hall⟩
        rw [granted_told_cons, hfolder]
        exact hwritten

theorem writeNamespaces_run (p : Project) (o : Page.Options) (root : String)
    (namespaces : List Namespace) (s : FaultyDisk) :
    let bs := namespaces.map fun ns => Batch.mk (folder root ns) (pages p o ns).1
    Counts s (requests s bs) (bs.flatMap Batch.files).length
      ((writeNamespaces p o root namespaces : StateM FaultyDisk (Report × Log)) s) := by
  induction namespaces generalizing s with
  | nil => exact ⟨rfl, rfl, rfl⟩
  | cons ns rest ih =>
      intro bs
      let b : Batch := ⟨folder root ns, (pages p o ns).1⟩
      obtain ⟨hfirst, hwritten, hall⟩ := writeNamespace_run p o root ns s
      obtain ⟨hstate, hmore, htotal⟩ := ih (s.asked (b.requests s))
      have hrun : (writeNamespaces p o root (ns :: rest) : StateM FaultyDisk (Report × Log)) s =
          let first := (writeNamespace p o root ns : StateM FaultyDisk (Report × Log)) s
          let more := (writeNamespaces p o root rest : StateM FaultyDisk (Report × Log)) first.2
          ((first.1.1.add more.1.1, first.1.2 ++ more.1.2), more.2) := rfl
      rw [hrun]
      simp only [hfirst]
      refine ⟨?_, ?_, ?_⟩
      · refine hstate.trans ?_
        rw [← asked_append]
        rfl
      · show (_ + _ : Nat) = (granted (s.told (b.requests s ++ _))).length
        rw [told_append, granted_append, List.length_append, hwritten, hmore]
      · show (_ + _ : Nat) + (_ + _) = (b.files ++ _).length
        rw [Nat.add_add_add_comm, hall, htotal, List.length_append, Batch.files, List.length_map]
        rfl

/-- A run makes its requests and counts how they went. -/
theorem write_run (p : Project) (o : Page.Options) (root : String) (s : FaultyDisk) :
    Counts s (requests s (batches p o root)) (handled p o root).length
      ((write p o root : StateM FaultyDisk (Report × Log)) s) := by
  obtain ⟨hstate, hwritten, hall⟩ := writeNamespaces_run p o root p.namespaces.toList s
  exact ⟨hstate, hwritten, hall⟩

/-- The journal of a run that starts with an empty one. -/
theorem journal_write (p : Project) (o : Page.Options) (root : String) (d : Disk)
    (mishaps : Nat → Request → Option Mishap) :
    let start : FaultyDisk := { disk := d, mishaps }
    ((write p o root : StateM FaultyDisk (Report × Log)) start).2.journal =
      start.told (requests start (batches p o root)) := by
  intro start
  rw [(write_run p o root start).state, journal_asked]
  rfl

/-! ## What was asked and what was granted -/

theorem mem_told {s : FaultyDisk} {rs : List Request} {e : JournalEntry} (h : e ∈ s.told rs) :
    e.request ∈ rs := by
  induction rs generalizing s with
  | nil => cases h
  | cons r rest ih =>
      rcases List.mem_cons.1 h with rfl | h
      · exact List.mem_cons_self
      · exact List.mem_cons_of_mem _ (ih h)

theorem exists_told {rs : List Request} {r : Request} (h : r ∈ rs) (s : FaultyDisk) :
    ∃ failure, ⟨r, failure⟩ ∈ s.told rs := by
  induction rs generalizing s with
  | nil => cases h
  | cons first rest ih =>
      rcases List.mem_cons.1 h with rfl | h
      · exact ⟨_, List.mem_cons_self⟩
      · obtain ⟨failure, hmem⟩ := ih h (s.ask first)
        exact ⟨failure, List.mem_cons_of_mem _ hmem⟩

theorem mem_granted {entries : List JournalEntry} {f : String × String} :
    f ∈ granted entries ↔ ⟨fileRequest f, none⟩ ∈ entries := by
  rw [granted, List.mem_filterMap]
  constructor
  · rintro ⟨⟨request, failure⟩, hmem, hfile⟩
    obtain ⟨hentry, hnone⟩ := List.mem_filter.1 hmem
    cases request with
    | folder path => cases hfile
    | file path content =>
        cases hfile
        rw [decide_eq_true_eq] at hnone
        subst hnone
        exact hentry
  · intro h
    exact ⟨_, List.mem_filter.2 ⟨h, rfl⟩, rfl⟩

theorem granted_sublist (s : FaultyDisk) (rs : List Request) :
    (granted (s.told rs)).Sublist (rs.filterMap file?) := by
  induction rs generalizing s with
  | nil => exact .slnil
  | cons r rest ih =>
      have hcons : (r :: rest).filterMap file? = (file? r).toList ++ rest.filterMap file? := by
        rw [List.filterMap_cons]
        cases file? r <;> rfl
      rw [granted_told_cons, hcons]
      refine List.Sublist.append ?_ (ih (s.ask r))
      split
      · exact .refl _
      · exact List.nil_sublist _

theorem filterMap_fileRequest (fs : List (String × String)) :
    (fs.map fileRequest).filterMap file? = fs := by
  rw [List.filterMap_map]
  exact List.filterMap_some

theorem Batch.requests_sublist (b : Batch) (s : FaultyDisk) :
    ((b.requests s).filterMap file?).Sublist b.files := by
  unfold requests
  split
  · exact List.nil_sublist _
  · rw [List.filterMap_cons_none rfl]
    split
    · rw [filterMap_fileRequest]
    · exact List.nil_sublist _

theorem requests_sublist (s : FaultyDisk) (bs : List Batch) :
    ((requests s bs).filterMap file?).Sublist (bs.flatMap Batch.files) := by
  induction bs generalizing s with
  | nil => exact .slnil
  | cons b rest ih =>
      rw [requests, List.filterMap_append, List.flatMap_cons]
      exact (b.requests_sublist s).append (ih _)

/-- A request is for the folder of a batch that has pages, or for one of its pages. -/
theorem request_cases {s : FaultyDisk} {bs : List Batch} {r : Request} (h : r ∈ requests s bs) :
    ∃ b ∈ bs, b.pages ≠ [] ∧ (r = .folder b.folder ∨ ∃ f ∈ b.files, r = fileRequest f) := by
  induction bs generalizing s with
  | nil => cases h
  | cons b rest ih =>
      rcases List.mem_append.1 h with h | h
      · refine ⟨b, List.mem_cons_self, ?_⟩
        unfold Batch.requests at h
        split at h
        · cases h
        · rename_i hempty
          refine ⟨by simpa using hempty, (List.mem_cons.1 h).imp_right fun h => ?_⟩
          split at h
          · obtain ⟨f, hf, rfl⟩ := List.mem_map.1 h
            exact ⟨f, hf, rfl⟩
          · cases h
      · obtain ⟨b', hb', hr⟩ := ih h
        exact ⟨b', List.mem_cons_of_mem _ hb', hr⟩

/-- The requests of a batch are made in some state of the run. -/
theorem exists_batch {bs : List Batch} {b : Batch} (h : b ∈ bs) (s : FaultyDisk) :
    ∃ before after, requests s bs = before ++ b.requests (s.asked before) ++ after := by
  induction bs generalizing s with
  | nil => cases h
  | cons first rest ih =>
      rcases List.mem_cons.1 h with rfl | h
      · exact ⟨[], _, rfl⟩
      · obtain ⟨before, after, heq⟩ := ih h (s.asked (first.requests s))
        refine ⟨first.requests s ++ before, after, ?_⟩
        rw [requests, heq, asked_append, List.append_assoc, List.append_assoc, List.append_assoc]

/-- A folder is asked for if it has pages, and all its pages are if it is made. -/
theorem asks_for_all {bs : List Batch} {b : Batch} (h : b ∈ bs) (hb : b.pages ≠ [])
    (s : FaultyDisk) :
    ∃ failure, ⟨.folder b.folder, failure⟩ ∈ s.told (requests s bs) ∧
      (failure = none →
        ∀ f ∈ b.files, ∃ failure', ⟨fileRequest f, failure'⟩ ∈ s.told (requests s bs)) := by
  obtain ⟨before, after, heq⟩ := exists_batch h s
  have hsub : (s.asked before).told (b.requests (s.asked before)) ⊆ s.told (requests s bs) := by
    rw [heq, told_append, told_append]
    exact fun e he => List.mem_append_left _ (List.mem_append_right _ he)
  have hempty : ¬ b.pages.isEmpty = true := by simpa using hb
  rw [Batch.requests, if_neg hempty] at hsub
  refine ⟨_, hsub List.mem_cons_self, fun hnone f hf => ?_⟩
  rw [if_pos hnone] at hsub
  obtain ⟨failure', hmem⟩ :=
    exists_told (List.mem_map_of_mem hf) ((s.asked before).ask (.folder b.folder))
  exact ⟨failure', hsub (List.mem_cons_of_mem _ hmem)⟩

end Site
end DocPages

/-
A run accounts for all of its pages, whatever fails.

Pages of one folder have different names, and if the folders are different then all pages
have different places.  So no page is written over another, and what was granted is on the
disk in the end.  A failure takes with it the pages of its own folder, or its own page, and
no others.
-/
import DocPages.Proofs.Site.Requests

namespace DocPages
namespace Site

open FaultyDisk DocPages.Path

variable {p : Project} {o : Page.Options} {root : String}

/-! ## The places of pages -/

section Pages

variable (hp : p.FromSources)

include hp

theorem nodup_pages {b : Batch} (hb : b ∈ batches p o root) :
    (b.pages.map WrittenPage.fileName).Nodup := by
  obtain ⟨ns, _, rfl⟩ := List.mem_map.1 hb
  exact Page.nodup_fileNames hp.isForest o _

theorem location_file (d : Disk) {b : Batch} (hb : b ∈ batches p o root) {page : WrittenPage}
    (hpage : page ∈ b.pages) :
    d.location (file b.folder page) = d.location b.folder ++ [page.fileName ++ ".md"] :=
  Disk.location_join (isName_file hp hb hpage) d b.folder

/-- Pages have different places if their folders have. -/
theorem nodup_locations {d : Disk}
    (hfolders : (p.namespaces.toList.map fun ns => d.location (folder root ns)).Nodup) :
    ((handled p o root).map fun f => d.location f.1).Nodup := by
  have hbatches : (batches p o root).Pairwise fun a b =>
      d.location a.folder ≠ d.location b.folder := by
    rw [batches, List.pairwise_map]
    exact List.pairwise_map.1 hfolders
  have hmap : (handled p o root).map (fun f => d.location f.1) =
      (batches p o root).flatMap fun b =>
        b.pages.map fun page => d.location (file b.folder page) := by
    rw [handled, List.map_flatMap]
    refine List.flatMap_congr fun b _ => ?_
    rw [Batch.files, List.map_map]
    rfl
  rw [hmap, List.nodup_flatMap]
  constructor
  · intro b hb
    rw [List.map_congr_left fun page hpage => location_file hp d hb hpage]
    have hnames := (nodup_pages hp hb).map
      (f := fun name => d.location b.folder ++ [name ++ ".md"]) fun m n heq => by simpa using heq
    rwa [List.map_map] at hnames
  · refine hbatches.imp_of_mem fun {a b} ha hb hne l hla hlb => hne ?_
    obtain ⟨x, hx, rfl⟩ := List.mem_map.1 hla
    obtain ⟨y, hy, heq⟩ := List.mem_map.1 hlb
    rw [location_file hp d ha hx, location_file hp d hb hy] at heq
    exact (List.append_inj' heq rfl).1.symm

end Pages

/-- Folders are told apart by their places, since different paths may lead to one. -/
example :
    let d : Disk := { workingFolder := ["home"] }
    components "docs/in/N" ≠ components "/home/docs/in/N" ∧
      d.location "docs/in/N" = d.location "/home/docs/in/N" := by
  decide +kernel

theorem pairwise_apart {d : Disk} {rs : List Request}
    (h : ((rs.filterMap file?).map fun f => d.location f.1).Nodup) : rs.Pairwise d.Apart := by
  induction rs with
  | nil => exact .nil
  | cons r rest ih =>
      cases r with
      | folder path =>
          refine List.pairwise_cons.2 ⟨fun r _ => trivial, ih ?_⟩
          exact h
      | file path content =>
          obtain ⟨hnew, hrest⟩ := List.nodup_cons.1 h
          refine List.pairwise_cons.2 ⟨fun r hr => ?_, ih hrest⟩
          cases r with
          | folder => trivial
          | file other text =>
              intro heq
              have hother : (other, text) ∈ rest.filterMap file? :=
                List.mem_filterMap.2 ⟨_, hr, rfl⟩
              exact hnew (List.mem_map.2 ⟨_, hother, heq.symm⟩)

/-! ## Failures elsewhere -/

section Elsewhere

variable (hp : p.FromSources)
  (hpackages : ∀ ns ∈ p.namespaces.toList, components ns.package = [.normal ns.package])

include hp hpackages

/-- A disk that has all pages has all that a run asks for. -/
theorem supports_of_has {e : Disk} (he : ∀ f ∈ handled p o root, e.Has (fileRequest f))
    {b : Batch} (hb : b ∈ batches p o root) (hne : b.pages ≠ []) :
    Supports e (.folder b.folder) ∧ ∀ f ∈ b.files, Supports e (fileRequest f) := by
  have hfiles : ∀ f ∈ b.files, e.Has (fileRequest f) := fun f hf =>
    he f (List.mem_flatMap.2 ⟨b, hb, hf⟩)
  refine ⟨⟨?_, ?_⟩, fun f hf => ⟨hfiles f hf, nofun⟩⟩
  · obtain ⟨page, hpage⟩ := List.exists_mem_of_ne_nil _ hne
    have hfile : e.Has (.file (join b.folder (page.fileName ++ ".md")) page.content) :=
      hfiles (file b.folder page, page.content) (List.mem_map_of_mem hpage)
    exact Disk.has_folder_of_has_file (isName_file hp hb hpage) hfile
  · rintro _ ⟨⟩
    obtain ⟨ns, hns, rfl⟩ := List.mem_map.1 hb
    have hname := isName_of_components (hpackages ns hns)
    exact Disk.lastPiece?_namespaceFolder root hname ns.directory

theorem supports_requests {e : Disk} (he : ∀ f ∈ handled p o root, e.Has (fileRequest f))
    (s : FaultyDisk) : ∀ r ∈ requests s (batches p o root), Supports e r := by
  intro r hr
  obtain ⟨b, hb, hne, hr⟩ := request_cases hr
  obtain ⟨hfolder, hfiles⟩ := supports_of_has hp hpackages he hb hne
  rcases hr with rfl | ⟨f, hf, rfl⟩
  · exact hfolder
  · exact hfiles f hf

/-- If some disk can have all pages, a page is written unless a mishap meets it or its
folder. -/
theorem granted_of_no_mishap {e : Disk} (he : ∀ f ∈ handled p o root, e.Has (fileRequest f))
    {s : FaultyDisk} (hs : s.disk.Grows e) {b : Batch} (hb : b ∈ batches p o root)
    (hfolder : ∀ n, s.mishaps n (.folder b.folder) = none) {f : String × String}
    (hf : f ∈ b.files) (hfile : ∀ n, s.mishaps n (fileRequest f) = none) :
    f ∈ granted (s.told (requests s (batches p o root))) := by
  obtain ⟨page, hpage, rfl⟩ := List.mem_map.1 hf
  have hne : b.pages ≠ [] := List.ne_nil_of_mem hpage
  obtain ⟨before, after, heq⟩ := exists_batch hb s
  obtain ⟨hsfolder, hsfiles⟩ := supports_of_has hp hpackages he hb hne
  have hall := supports_requests hp hpackages he s
  rw [heq] at hall
  have hthen : (s.asked before).disk.Grows e :=
    asked_smaller hs fun r hr => hall r (List.mem_append_left _ (List.mem_append_left _ hr))
  have hmade := answer_folder hthen hsfolder (by rw [mishaps_asked]; exact hfolder)
  -- The folder is there when the page is asked for, after those before it.
  obtain ⟨front, back, hsplit⟩ := List.append_of_mem hf
  have hrequests : b.requests (s.asked before) =
      (.folder b.folder :: front.map fileRequest) ++
        fileRequest (file b.folder page, page.content) :: back.map fileRequest := by
    rw [Batch.requests, if_neg (by simpa using hne), if_pos hmade, hsplit, List.map_append]
    rfl
  let now := (s.asked before).asked (.folder b.folder :: front.map fileRequest)
  have hnow : now.disk.Grows e := by
    refine asked_smaller hthen fun r hr => ?_
    rcases List.mem_cons.1 hr with rfl | hr
    · exact hsfolder
    · obtain ⟨g, hg, rfl⟩ := List.mem_map.1 hr
      exact hsfiles g (by rw [hsplit]; exact List.mem_append_left _ hg)
  have hthere : now.disk.Has (.folder b.folder) :=
    (keeps_asked ((s.asked before).ask (.folder b.folder)) (front.map fileRequest)).2 _
      (fun _ _ => trivial) ((answer_spec _ _).2 hmade)
  have hanswer : (now.answer (fileRequest (file b.folder page, page.content))).1 = none := by
    refine answer_file hnow (isName_file hp hb hpage) hthere (hsfiles _ hf).1 ?_
    rw [mishaps_asked, mishaps_asked]
    exact hfile
  rw [mem_granted, heq, told_append, told_append, hrequests, told_append]
  refine List.mem_append_left _ (List.mem_append_right _ (List.mem_append_right _ ?_))
  rw [told, show (s.asked before).asked _ = now from rfl, hanswer]
  exact List.mem_cons_self

end Elsewhere

/-! ## The whole run -/

/-- What was granted is on the disk in the end. -/
theorem has_granted (hp : p.FromSources) {s : FaultyDisk}
    (hfolders : (p.namespaces.toList.map fun ns => s.disk.location (folder root ns)).Nodup)
    {f : String × String} (hf : f ∈ granted (s.told (requests s (batches p o root)))) :
    (s.asked (requests s (batches p o root))).disk.Has (fileRequest f) := by
  refine has_of_told (pairwise_apart ?_) (mem_granted.1 hf)
  exact ((requests_sublist s _).map _).nodup (nodup_locations hp hfolders)

/-- A run without failures leaves all pages on the disk. -/
theorem has_all_of_no_failure (hp : p.FromSources) {s : FaultyDisk}
    (hfolders : (p.namespaces.toList.map fun ns => s.disk.location (folder root ns)).Nodup)
    (h : ((write p o root : StateM FaultyDisk (Report × Log)) s).1.1.failed = 0) :
    ∃ e, s.disk.Grows e ∧ ∀ f ∈ handled p o root, e.Has (fileRequest f) := by
  obtain ⟨_, hwritten, hall⟩ := write_run p o root s
  rw [h, Nat.add_zero, hwritten] at hall
  have hgranted : granted (s.told (requests s (batches p o root))) = handled p o root :=
    ((granted_sublist s _).trans (requests_sublist s _)).eq_of_length hall
  refine ⟨_, (keeps_asked s (requests s (batches p o root))).1, fun f hf => ?_⟩
  rw [← hgranted] at hf
  exact has_granted hp hfolders hf

/-- A run ends with an error if and only if a page could not be written. -/
theorem generate_error_iff (c : Config) (pipeline : Pipeline KindRules) (before : Log)
    (s : FaultyDisk) :
    let read := (CommandLine.parseFolders {} c.enabledInputs : StateM FaultyDisk (Project × Log)) s
    let q := (pipeline.run read.1.1).2.1
    let written := (write q c.options root : StateM FaultyDisk (Report × Log)) read.2
    let generated := (CommandLine.generate c root pipeline before :
      StateM FaultyDisk (Log × Option String)) s
    generated.2 = written.2 ∧ (generated.1.2 ≠ none ↔ 0 < written.1.1.failed) := by
  intro read q written generated
  refine ⟨rfl, ?_⟩
  show (if written.1.1.failed = 0 then none else some _) ≠ none ↔ _
  rw [Nat.pos_iff_ne_zero]
  split
  · rename_i hzero
    exact iff_of_false (fun h => h rfl) (fun h => h hzero)
  · rename_i hfailed
    exact iff_of_true nofun hfailed

/-- If the namespaces have folders of their own, no two pages of a run have the same path, all
of them are counted, and those counted as written are on the disk.  Whatever fails, a folder
with pages is asked for, and its pages are if it is made.  On a disk that would take all
pages, a page is written unless a mishap meets it or its folder.  And the program fails if
and only if a page could not be written. -/
theorem write_accounts (hp : p.FromSources)
    (hpackages : ∀ ns ∈ p.namespaces.toList, components ns.package = [.normal ns.package])
    (o : Page.Options) (root : String) (d : Disk) (mishaps : Nat → Request → Option Mishap)
    (hfolders : (p.namespaces.toList.map fun ns => d.location (folder root ns)).Nodup) :
    let start : FaultyDisk := { disk := d, mishaps }
    let run := (write p o root : StateM FaultyDisk (Report × Log)) start
    let report := run.1.1
    let journal := run.2.journal
    ((handled p o root).map fun f => components f.1).Nodup ∧
    report.written + report.failed = (handled p o root).length ∧
    (granted journal).Sublist (handled p o root) ∧ report.written = (granted journal).length ∧
    (∀ f ∈ granted journal, run.2.disk.readFile f.1 = .ok f.2) ∧
    (∀ b ∈ batches p o root, b.pages ≠ [] →
      ∃ failure, ⟨.folder b.folder, failure⟩ ∈ journal ∧
        (failure = none → ∀ f ∈ b.files, ∃ failure', ⟨fileRequest f, failure'⟩ ∈ journal)) ∧
    (((write p o root : StateM FaultyDisk (Report × Log)) { disk := d }).1.1.failed = 0 →
      ∀ b ∈ batches p o root, (∀ n, mishaps n (.folder b.folder) = none) →
        ∀ f ∈ b.files, (∀ n, mishaps n (fileRequest f) = none) → f ∈ granted journal) ∧
    ∀ (c : Config) (pipeline : Pipeline KindRules) (before : Log),
      let read := (CommandLine.parseFolders {} c.enabledInputs :
        StateM FaultyDisk (Project × Log)) start
      let q := (pipeline.run read.1.1).2.1
      let written := (write q c.options root : StateM FaultyDisk (Report × Log)) read.2
      let generated := (CommandLine.generate c root pipeline before :
        StateM FaultyDisk (Log × Option String)) start
      q.FromSources ∧ generated.2 = written.2 ∧
        (generated.1.2 ≠ none ↔ 0 < written.1.1.failed) := by
  intro start run report journal
  obtain ⟨hstate, hwritten, hall⟩ := write_run p o root start
  have hjournal : journal = start.told (requests start (batches p o root)) :=
    journal_write p o root d mishaps
  rw [hjournal]
  refine ⟨?_, hall, ?_, hwritten, ?_, fun b hb hne => asks_for_all hb hne start, ?_, ?_⟩
  · exact List.Nodup.of_map (Disk.dest d.workingFolder) (by
      rw [List.map_map]
      exact nodup_locations hp hfolders)
  · exact (granted_sublist start _).trans (requests_sublist start _)
  · intro f hf
    have hhas := has_granted hp (s := start) hfolders hf
    rw [← hstate] at hhas
    exact hhas
  · intro hfailed b hb hfolder f hf hfile
    obtain ⟨e, hgrows, he⟩ := has_all_of_no_failure hp (s := { disk := d }) hfolders hfailed
    exact granted_of_no_mishap hp hpackages he (s := start) hgrows hb hfolder hf hfile
  · intro c pipeline before read q written generated
    exact ⟨(Project.FromSources.empty.parseFolders _ _).run pipeline,
      generate_error_iff c pipeline before start⟩

/-- A type with a nested one, and a type of another namespace. -/
def twoFolders : String :=
  "namespace N.A \x7b\n/// a\nclass A \x7b\n/// b\nclass B \x7b \x7d\n\x7d\n\x7d\n" ++
    "namespace M \x7b\n/// c\nclass C \x7b \x7d\n\x7d"

def twoFoldersDeclarations : List Declaration :=
  [{ names := ["A"], kind := .classType, rawComment := "/// a", inNamespace := "N.A" },
   { names := ["B"], kind := .classType, rawComment := "/// b", parent := some 0,
     inNamespace := "N.A" },
   { names := ["C"], kind := .classType, rawComment := "/// c", inNamespace := "M" }]

def twoFoldersProject : Project :=
  (({} : Project).addFile (packageName "src/in") "src/in/T.cs" twoFoldersDeclarations).1

/-- The first page is started and the disk is full. -/
def diskFull : Nat → Request → Option Mishap := fun _ r =>
  if r.path = "docs/in/N/A/A.md" then
    some { failure := .system "No space left on device" 28, left := some "#" }
  else none

theorem write_accounts_twoFolders :
    twoFoldersProject.FromSources ∧
    (∀ ns ∈ twoFoldersProject.namespaces.toList, components ns.package = [.normal ns.package]) ∧
    (twoFoldersProject.namespaces.toList.map fun ns =>
      ({} : Disk).location (folder "docs" ns)).Nodup ∧
    let run := (write twoFoldersProject {} "docs" : StateM FaultyDisk (Report × Log))
      { disk := {}, mishaps := diskFull }
    run.1.1 = ⟨2, 1⟩ ∧
      (granted run.2.journal).map Prod.fst = ["docs/in/N/A/A-B.md", "docs/in/M/C.md"] ∧
      ∀ f ∈ granted run.2.journal, run.2.disk.readFile f.1 = .ok f.2 := by
  have hp : twoFoldersProject.FromSources := by
    have hscan : (Declaration.scan twoFolders).toOption = some twoFoldersDeclarations := by
      decide +kernel
    exact Project.FromSources.empty.source "src/in" "src/in/T.cs" (Declaration.scan_eq_ok hscan)
  have hpackages : ∀ ns ∈ twoFoldersProject.namespaces.toList,
      components ns.package = [.normal ns.package] := by decide +kernel
  have hfolders : (twoFoldersProject.namespaces.toList.map fun ns =>
      ({} : Disk).location (folder "docs" ns)).Nodup := by decide +kernel
  have hreport : ((write twoFoldersProject {} "docs" : StateM FaultyDisk (Report × Log))
      { disk := {}, mishaps := diskFull }).1.1 = ⟨2, 1⟩ := by decide +kernel
  have hgranted : (granted ((write twoFoldersProject {} "docs" : StateM FaultyDisk (Report × Log))
      { disk := {}, mishaps := diskFull }).2.journal).map Prod.fst =
        ["docs/in/N/A/A-B.md", "docs/in/M/C.md"] := by decide +kernel
  obtain ⟨_, _, _, _, hread, _⟩ := write_accounts hp hpackages {} "docs" {} diskFull hfolders
  exact ⟨hp, hpackages, hfolders, hreport, hgranted, hread⟩

end Site
end DocPages

/-
A file that cannot be parsed leaves no trace in the project.

The files of a folder are read one after the other, and one that fails is told of and passed
over.  So the project is that of the files which are read as text and scan, whichever stand
between them.  The theorem this file exists for is `parseFolder_scanned`.
-/
import DocPages.Proofs.Files.Collected
import DocPages.Proofs.Project.Turns

namespace DocPages

namespace Project

/-- The number of items that some files make. -/
def createdBy (p : Project) : List SourceFile → Nat
  | [] => 0
  | file :: rest =>
      (p.addFile file.package file.path file.declarations).2.1
        + createdBy (p.addSourceFile file) rest

end Project

namespace Sources

open DocPages.Path

/-! ## Order -/

theorem inOrder_eq_true {a b : List String} : inOrder a b = true ↔ ¬ b < a := by
  rw [inOrder, Bool.not_eq_true', ← Bool.not_eq_true, List.lex_eq_true_iff_lt]

theorem inOrder_trans (a b c : List String) (hab : inOrder a b = true) (hbc : inOrder b c = true) :
    inOrder a c = true := by
  rw [inOrder_eq_true, List.not_lt] at *
  exact List.le_trans hab hbc

theorem inOrder_total (a b : List String) : (inOrder a b || inOrder b a) = true := by
  rw [Bool.or_eq_true, inOrder_eq_true, inOrder_eq_true, List.not_lt, List.not_lt]
  exact List.le_total a b

theorem lt_of_inOrder {a b : List String} (h : inOrder a b = true) (hne : a ≠ b) : a < b := by
  rw [inOrder_eq_true, List.not_lt] at h
  by_contra hlt
  exact hne (List.le_antisymm h (List.not_lt.1 hlt))

/-- Names without repeats are sorted strictly. -/
theorem pairwise_lt_mergeSort {files : List (List String)} (h : files.Nodup) :
    (files.mergeSort inOrder).Pairwise (· < ·) := by
  have hsorted := List.pairwise_mergeSort inOrder_trans inOrder_total files
  have hnodup : (files.mergeSort inOrder).Nodup := (List.mergeSort_perm files inOrder).nodup_iff.2 h
  exact (hsorted.and hnodup).imp fun ⟨hle, hne⟩ => lt_of_inOrder hle hne

/-- Only one list of the same names is sorted. -/
theorem mergeSort_eq {files sorted : List (List String)} (h : sorted.Perm files)
    (hsorted : sorted.Pairwise (· < ·)) : files.mergeSort inOrder = sorted := by
  have hne : sorted.Nodup := hsorted.imp fun {a b} hlt (heq : a = b) => List.lt_irrefl b (heq ▸ hlt)
  have hnodup : files.Nodup := h.nodup_iff.1 hne
  refine List.Perm.eq_of_pairwise (fun a b _ _ hab hba => absurd hba (List.lt_asymm hab))
    (pairwise_lt_mergeSort hnodup) hsorted ?_
  exact (List.mergeSort_perm files inOrder).trans h.symm

/-! ## One file -/

/-- A file below a folder, known by the names that lead to it from there. -/
structure FoundFile where
  names : List String
  content : FileContent

namespace FoundFile

/-- The declarations of a file, or why it is skipped. -/
def parse (base : String) (f : FoundFile) : Except String (List Declaration) :=
  match f.content with
  | .binary _ => .error "stream did not contain valid UTF-8"
  | .text source =>
      if extension? (childPath base f.names) = some "cs" then
        (Declaration.scan source).mapError Declaration.Fault.message
      else .error ("unsupported file type: " ++ childPath base f.names)

/-- What reading the file gives. -/
def read (f : FoundFile) : Except FileFailure String :=
  match f.content with
  | .text source => .ok source
  | .binary _ => .error .notText

theorem extension_of_parse {base : String} {f : FoundFile} {ds : List Declaration}
    (h : f.parse base = .ok ds) : extension? (childPath base f.names) = some "cs" := by
  unfold parse at h
  split at h
  · cases h
  · split at h
    · assumption
    · cases h

/-- The file as it is added to a project, if it can be. -/
def source? (package base : String) (f : FoundFile) : Option Project.SourceFile :=
  match f.parse base with
  | .ok declarations => some { package, path := childPath base f.names, declarations }
  | .error _ => none

end FoundFile

/-- What is told of the files.  A file that is skipped is one error, which names it. -/
def told (package base : String) (p : Project) : List FoundFile → Log
  | [] => []
  | f :: rest =>
      let path := childPath base f.names
      match f.parse base with
      | .error reason => .error ("skipping " ++ path ++ ": " ++ reason) :: told package base p rest
      | .ok declarations =>
          let (added, _, log) := p.addFile package path declarations
          .debug (path ++ ": " ++ toString declarations.length ++ " declarations") :: log
            ++ told package base added rest

theorem parseFile_eq (path source : String) :
    (parseFile path source).mapError ParseError.message =
      if extension? path = some "cs" then
        (Declaration.scan source).mapError Declaration.Fault.message
      else .error ("unsupported file type: " ++ path) := by
  unfold parseFile
  by_cases h : extension? path = some "cs"
  · rw [if_pos h, if_pos (by simpa using h)]
    cases Declaration.scan source <;> rfl
  · rw [if_neg h, if_neg (by simpa using h)]
    rfl

/-- A file is parsed after it is read, and either can fail. -/
theorem parse_eq (base : String) (f : FoundFile) :
    f.parse base =
      match f.read with
      | .error e => .error e.message
      | .ok source => (parseFile (childPath base f.names) source).mapError ParseError.message := by
  unfold FoundFile.parse FoundFile.read
  cases f.content with
  | binary bytes => rfl
  | text source => exact (parseFile_eq _ source).symm

/-- A file that is parsed is added, and any other one is one error in the log. -/
theorem addSource_eq (package base : String) (parsed : Parsed) (f : FoundFile) :
    addSource package (childPath base f.names) parsed f.read =
      match f.parse base with
      | .ok ds =>
          let (project, created, log) :=
            parsed.project.addFile package (childPath base f.names) ds
          { project
            created := parsed.created + created
            log := parsed.log ++ .debug (childPath base f.names ++ ": " ++ toString ds.length
              ++ " declarations") :: log }
      | .error reason =>
          { parsed with
            log := parsed.log
              ++ [.error ("skipping " ++ childPath base f.names ++ ": " ++ reason)] } := by
  rw [parse_eq]
  unfold addSource
  cases f.read with
  | error e => rfl
  | ok source =>
      simp only
      cases parseFile (childPath base f.names) source with
      | error e => rfl
      | ok ds => rfl

/-- The files one after the other. -/
theorem foldl_addSource (package base : String) (files : List FoundFile) (parsed : Parsed) :
    files.foldl (fun parsed f => addSource package (childPath base f.names) parsed f.read) parsed =
      { project := (files.filterMap (·.source? package base)).foldl Project.addSourceFile
          parsed.project
        created := parsed.created
          + parsed.project.createdBy (files.filterMap (·.source? package base))
        log := parsed.log ++ told package base parsed.project files } := by
  induction files generalizing parsed with
  | nil => simp [Project.createdBy, told]
  | cons f rest ih =>
      rw [List.foldl_cons, ih, addSource_eq, List.filterMap_cons, FoundFile.source?, told]
      cases f.parse base with
      | error reason => simp only [List.append_assoc, List.singleton_append]
      | ok ds =>
          simp only [List.foldl_cons, Project.createdBy, Project.addSourceFile, Nat.add_assoc,
            List.append_assoc]

/-! ## A folder -/

/-- What parsing a folder comes to if these files are collected. -/
def outcome (folder base : String) (p : Project) (files : List FoundFile) : Parsed :=
  let sources := files.filterMap (·.source? (packageName folder) base)
  { project := sources.foldl Project.addSourceFile p
    created := p.createdBy sources
    log := (if files.isEmpty then [.warning ("no source files found in " ++ folder)] else [])
      ++ told (packageName folder) base p files
      ++ [.info (folder ++ ": " ++ toString files.length ++ " files, "
        ++ toString (p.createdBy sources) ++ " documented items")] }

section

variable (d : Disk)

theorem bind_eq {α β : Type} (x : StateM Disk α) (f : α → StateM Disk β) :
    (x >>= f) d = f (x d).1 (x d).2 :=
  rfl

theorem addSources_eq (package : String) (parsed : Parsed) (paths : List String) :
    (addSources package parsed paths : StateM Disk Parsed) d =
      (paths.foldl (fun parsed path => addSource package path parsed (d.readFile path)) parsed,
        d) := by
  induction paths generalizing parsed with
  | nil => rfl
  | cons path rest ih => exact ih _

theorem collect_eq {folder base : String} (h : base? folder = some base) :
    (collect folder : StateM Disk (List String)) d =
      ((((d.filesBelow base).filter isSource).mergeSort inOrder).map (childPath base), d) := by
  unfold collect
  rw [h]
  rfl

theorem parseFolder_eq (p : Project) {folder base : String} (h : base? folder = some base)
    {files : List FoundFile}
    (hnames : files.map (·.names) = ((d.filesBelow base).filter isSource).mergeSort inOrder)
    (hread : ∀ f ∈ files, d.readFile (childPath base f.names) = f.read) :
    (parseFolder p folder : StateM Disk Parsed) d =
      (outcome folder base p files, d) := by
  have hfold : ∀ parsed : Parsed,
      (files.map (childPath base ·.names)).foldl
          (fun parsed path => addSource (packageName folder) path parsed (d.readFile path)) parsed =
        files.foldl
          (fun parsed f => addSource (packageName folder) (childPath base f.names) parsed f.read)
          parsed := by
    intro parsed
    rw [List.foldl_map]
    exact List.foldl_ext _ _ _ fun parsed f hf => by rw [hread f hf]
  have hcollect := collect_eq d h
  rw [← hnames, List.map_map] at hcollect
  rw [parseFolder, bind_eq, hcollect, bind_eq, addSources_eq]
  simp only [Function.comp_def, hfold, foldl_addSource, List.isEmpty_map, List.length_map,
    Nat.zero_add]
  rfl

end

/-- Each of these names leads to a file. -/
theorem exists_foundFiles {d : Disk} {l : Location} {names : List (List String)}
    (h : ∀ below ∈ names, ∃ content, d.node? (l ++ below) = some (.file content)) :
    ∃ files : List FoundFile, files.map (·.names) = names ∧
      ∀ f ∈ files, d.node? (l ++ f.names) = some (.file f.content) := by
  induction names with
  | nil => exact ⟨[], rfl, nofun⟩
  | cons below rest ih =>
      obtain ⟨⟨content, hcontent⟩, hrest⟩ := List.forall_mem_cons.1 h
      obtain ⟨files, hnames, hfiles⟩ := ih hrest
      exact ⟨⟨below, content⟩ :: files, by rw [List.map_cons, hnames],
        List.forall_mem_cons.2 ⟨hcontent, hfiles⟩⟩

theorem readFile_childPath {d : Disk} (hd : d.IsTree) {folder base : String} {l : Location}
    (hbase : base? folder = some base) (hfolder : d.find folder = .ok (l, .folder))
    {f : FoundFile} (hfile : d.node? (l ++ f.names) = some (.file f.content)) :
    d.readFile (childPath base f.names) = f.read := by
  rw [Disk.readFile, find_childPath hd hbase hfolder hfile, FoundFile.read]
  cases f.content <;> rfl

/-- Parsing a folder adds the files below it that are UTF-8 text, have the extension and
scan, in the order of their paths, and nothing of any other file.  Of each other file that is
collected it tells once.  The walk has to start at the folder, which it does unless the path
is a dot with an empty piece behind. -/
theorem parseFolder_scanned {d : Disk} (hd : d.IsTree) {folder base : String} {l : Location}
    (hfolder : d.find folder = .ok (l, .folder)) (hbase : base? folder = some base)
    (p : Project) :
    ∃ files : List FoundFile,
      (∀ f, f ∈ files ↔ d.node? (l ++ f.names) = some (.file f.content) ∧
        ∃ upper stem, f.names = upper ++ [stem ++ ".cs"]) ∧
      (∀ f ds, d.node? (l ++ f.names) = some (.file f.content) → f.parse base = .ok ds →
        f ∈ files) ∧
      files.Pairwise (·.names < ·.names) ∧
      (parseFolder p folder : StateM Disk Parsed) d = (outcome folder base p files, d) := by
  have hbelow := find_base hbase hfolder
  have hlisted : ∀ {names}, names ∈ ((d.filesBelow base).filter isSource).mergeSort inOrder ↔
      (∃ content, d.node? (l ++ names) = some (.file content)) ∧ isSource names = true := by
    intro names
    rw [(List.mergeSort_perm _ _).mem_iff, List.mem_filter, hd.mem_filesBelow hbelow]
  obtain ⟨files, hnames, hfiles⟩ := exists_foundFiles fun names h => (hlisted.1 h).1
  have hmem : ∀ f, f ∈ files ↔ d.node? (l ++ f.names) = some (.file f.content) ∧
      ∃ upper stem, f.names = upper ++ [stem ++ ".cs"] := by
    intro f
    rw [← isSource_iff]
    constructor
    · intro hf
      refine ⟨hfiles f hf, (hlisted.1 ?_).2⟩
      rw [← hnames]
      exact List.mem_map_of_mem hf
    · rintro ⟨hnode, hsource⟩
      have hin := hlisted.2 ⟨⟨_, hnode⟩, hsource⟩
      rw [← hnames] at hin
      obtain ⟨g, hg, hsame⟩ := List.mem_map.1 hin
      have hcontent := hfiles g hg
      rw [hsame, hnode] at hcontent
      obtain ⟨names, content⟩ := f
      obtain ⟨names', content'⟩ := g
      cases hsame
      cases hcontent
      exact hg
  refine ⟨files, hmem, ?_, ?_, parseFolder_eq d p hbase hnames fun f hf =>
    readFile_childPath hd hbase hfolder (hfiles f hf)⟩
  · intro f ds hnode hparse
    have hext := FoundFile.extension_of_parse hparse
    refine (hmem f).2 ⟨hnode, isSource_iff.1 (isSource_of_extension ?_ hext)⟩
    have hne : f.names ≠ [] := by
      intro hnil
      rw [hnil, List.append_nil, (Disk.find_eq_ok.1 hfolder).2.2] at hnode
      cases hnode
    exact fileName?_childPath hbase hne fun name hname =>
      ((hd.passable_names hnode).2 name hname).isName
  · rw [← List.pairwise_map (f := fun f : FoundFile => f.names), hnames]
    exact pairwise_lt_mergeSort ((hd.nodup_filesBelow hbelow).filter _)

/-- Files of a folder.  Two hold the parts of one type, and what is between them cannot be
parsed. -/
def patchyFiles : List (String × FileContent) :=
  [("notes.txt", .text "/// n"),
    (".cs", .text ""),
    ("A.cs", .text "/// a\npartial class T \x7b \x7d\n"),
    ("B.cs", .text "/// b\nclass T \x7b\n"),
    ("C.cs", .binary [255]),
    ("D.cs", .text "/// d\npartial class T \x7b \x7d\n")]

def patchyDisk : Disk :=
  patchyFiles.foldl (fun d file => d.put (["src"] ++ [file.1]) (.file file.2))
    (Disk.put {} ["src"] .folder)

theorem isTree_patchyDisk : patchyDisk.IsTree := by
  have hsrc : (Disk.put {} ["src"] .folder).IsTree :=
    Disk.isTree_empty.put (l := []) rfl (by decide) (by decide) .folder
  exact hsrc.putFiles rfl (by decide) (by decide)

theorem parseFolder_scanned_patchyDisk :
    patchyDisk.IsTree ∧ patchyDisk.find "src" = .ok (["src"], .folder) ∧
    base? "src" = some "src" ∧
    ∃ files : List FoundFile,
      (∀ f, f ∈ files ↔ patchyDisk.node? (["src"] ++ f.names) = some (.file f.content) ∧
        ∃ upper stem, f.names = upper ++ [stem ++ ".cs"]) ∧
      (∀ f ds, patchyDisk.node? (["src"] ++ f.names) = some (.file f.content) →
        f.parse "src" = .ok ds → f ∈ files) ∧
      let parsed := ((parseFolder {} "src" : StateM Disk Parsed) patchyDisk).1
      parsed.project = (files.filterMap (·.source? "src" "src")).foldl Project.addSourceFile {} ∧
        parsed.project.items.map Item.markup = #["a\nd"] ∧
        parsed.log.filter (·.isDiagnostic .error) =
          [.error "skipping src/.cs: unsupported file type: src/.cs",
            .error "skipping src/B.cs: 1 scope(s) still open at end of file",
            .error "skipping src/C.cs: stream did not contain valid UTF-8"] := by
  have hfolder : patchyDisk.find "src" = .ok (["src"], .folder) := by decide +kernel
  have hbase : base? "src" = some "src" := by decide +kernel
  obtain ⟨files, hmem, hparsed, -, hrun⟩ :=
    parseFolder_scanned isTree_patchyDisk hfolder hbase {}
  have hsorted : (patchyFiles.tail.map fun file => (⟨[file.1], file.2⟩ : FoundFile)).map (·.names) =
      ((patchyDisk.filesBelow "src").filter isSource).mergeSort inOrder :=
    (mergeSort_eq (by decide +kernel) (by decide +kernel)).symm
  have hlisted := parseFolder_eq patchyDisk {} hbase hsorted (by decide +kernel)
  refine ⟨isTree_patchyDisk, hfolder, hbase, files, hmem, hparsed, ?_, ?_, ?_⟩
  · rw [hrun]
    rfl
  · rw [hlisted]
    decide +kernel
  · rw [hlisted]
    decide +kernel

end Sources
end DocPages

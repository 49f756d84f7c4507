/-
When the pages of a run stay below the output folder.

The folder of a namespace is joined from the output folder, the package and the parts of the
dotted path, and joining gives up all that came before a piece that starts at the root.  So a
package or a part of a namespace that starts at the root leads out of the output folder, and
so does a package that goes up.  Nothing else does: file names of pages are names, and no
part of a dotted path can be two dots.
-/
import DocPages.Proofs.Site.Requests

namespace DocPages
namespace Site

open DocPages.Path

/-! ## Tame namespaces -/

/-- Neither the package nor the parts of the dotted path start at the root or go up. -/
structure Tame (ns : Namespace) : Prop where
  package : ∀ c ∈ components ns.package, c ≠ .root ∧ c ≠ .parent
  parts : ∀ part ∈ parts ns.directory, isAbsolute part = false

instance (ns : Namespace) : Decidable (Tame ns) :=
  decidable_of_iff
    ((∀ c ∈ components ns.package, c ≠ .root ∧ c ≠ .parent) ∧
      ∀ part ∈ Path.parts ns.directory, isAbsolute part = false)
    ⟨fun h => ⟨h.1, h.2⟩, fun h => ⟨h.package, h.parts⟩⟩

theorem mem_components {path : String} {c : Component} (h : c ∈ steps path) : c ∈ components path :=
  (List.mem_filter.1 h).1

theorem mem_steps {path : String} {c : Component} (h : c ∈ components path)
    (hc : c ≠ .current) : c ∈ steps path :=
  List.mem_filter.2 ⟨h, by simpa using hc⟩

theorem Tame.relative {ns : Namespace} (h : Tame ns) : isAbsolute ns.package = false := by
  cases habs : isAbsolute ns.package with
  | false => rfl
  | true => exact absurd rfl (h.package _ (mem_components (root_mem_steps.2 habs))).1

theorem steps_folder {ns : Namespace} (hpackage : isAbsolute ns.package = false)
    (hparts : ∀ part ∈ parts ns.directory, isAbsolute part = false) (root : String) :
    steps (folder root ns) =
      steps root ++ (meant (pieces ns.package) ++
        (parts ns.directory).flatMap fun part => meant (pieces part)) := by
  rw [folder, namespaceFolder_eq, steps_foldl_join hparts, steps_join hpackage, List.append_assoc]

theorem Tame.below_folder {ns : Namespace} (h : Tame ns) (root : String) :
    Below root (folder root ns) := by
  refine ⟨_, steps_folder h.relative h.parts root, fun c hc => ?_⟩
  rcases List.mem_append.1 hc with hc | hc
  · have hstep : c ∈ steps ns.package := by
      rw [steps_eq]
      exact List.mem_append_right _ hc
    exact (down_or_up_of_mem_meant hc).resolve_left (h.package c (mem_components hstep)).2
  · obtain ⟨part, hpart, hc⟩ := List.mem_flatMap.1 hc
    exact normal_of_no_dot (mem_parts hpart).2 c hc

theorem below_join {root path name : String} (h : Below root path) (hname : IsName name) :
    Below root (join path name) := by
  obtain ⟨rest, hsteps, hrest⟩ := h
  refine ⟨rest ++ [.normal name], ?_, fun c hc => ?_⟩
  · rw [steps_join hname.relative, hname.meant_eq, hsteps, List.append_assoc]
  · rcases List.mem_append.1 hc with hc | hc
    · exact hrest c hc
    · exact ⟨name, List.mem_singleton.1 hc⟩

/-- Below a relative path there are only relative ones. -/
theorem relative_of_below {root path : String} (hroot : isAbsolute root = false)
    (h : Below root path) : isAbsolute path = false := by
  cases habs : isAbsolute path with
  | false => rfl
  | true =>
      obtain ⟨rest, hsteps, hrest⟩ := h
      have hmem := root_mem_steps.2 habs
      rw [hsteps, List.mem_append] at hmem
      rcases hmem with hmem | hmem
      · rw [root_mem_steps, hroot] at hmem
        cases hmem
      · obtain ⟨name, hname⟩ := hrest _ hmem
        cases hname

theorem tame_of_below {ns : Namespace} {root : String} (hroot : isAbsolute root = false)
    (h : Below root (folder root ns)) : Tame ns := by
  have hrelative := relative_of_below hroot h
  rw [folder, namespaceFolder_eq, isAbsolute_foldl_join, isAbsolute_join, Bool.or_eq_false_iff,
    Bool.or_eq_false_iff, List.any_eq_false] at hrelative
  obtain ⟨hparts, hpackage, _⟩ := hrelative
  have hparts : ∀ part ∈ parts ns.directory, isAbsolute part = false := fun part hpart => by
    simpa using hparts part hpart
  obtain ⟨rest, hsteps, hrest⟩ := h
  rw [steps_folder hpackage hparts] at hsteps
  have hnormal : ∀ c ∈ meant (pieces ns.package), ∃ name, c = .normal name := fun c hc =>
    hrest c (by
      rw [← List.append_cancel_left hsteps]
      exact List.mem_append_left _ hc)
  refine ⟨fun c hc => ?_, hparts⟩
  -- A dot at the front is no step, and it neither goes up nor starts at the root.
  by_cases hcurrent : c = .current
  · subst hcurrent
    constructor <;> rintro ⟨⟩
  · have hstep := mem_steps hc hcurrent
    rw [steps_eq, origin, hpackage, if_neg Bool.false_ne_true, List.nil_append] at hstep
    obtain ⟨name, rfl⟩ := hnormal c hstep
    constructor <;> rintro ⟨⟩

/-! ## Runs -/

/-- Whatever the disk and its mishaps, all folders and files that are asked for are below
the output folder. -/
def StaysBelow (p : Project) (o : Page.Options) (root : String) : Prop :=
  ∀ (d : Disk) (mishaps : Nat → Request → Option Mishap),
    ∀ e ∈ ((write p o root : StateM FaultyDisk (Report × Log)) { disk := d, mishaps }).2.journal,
      Below root e.request.path

variable {p : Project} {o : Page.Options} {root : String}

theorem staysBelow_of_tame (hp : p.FromSources)
    (h : ∀ ns ∈ p.namespaces.toList, (pages p o ns).1 ≠ [] → Tame ns) : StaysBelow p o root := by
  intro d mishaps e he
  rw [journal_write] at he
  obtain ⟨b, hb, hne, hr⟩ := request_cases (mem_told he)
  have hfolder : Below root b.folder := by
    obtain ⟨ns, hns, rfl⟩ := List.mem_map.1 hb
    exact (h ns hns hne).below_folder root
  rcases hr with hr | ⟨f, hf, hr⟩
  · rw [hr]
    exact hfolder
  · obtain ⟨page, hpage, rfl⟩ := List.mem_map.1 hf
    rw [hr]
    exact below_join hfolder (isName_file hp hb hpage)

theorem tame_of_staysBelow (hroot : isAbsolute root = false) (h : StaysBelow p o root) :
    ∀ ns ∈ p.namespaces.toList, (pages p o ns).1 ≠ [] → Tame ns := by
  intro ns hns hne
  have hb : ⟨folder root ns, (pages p o ns).1⟩ ∈ batches p o root := List.mem_map_of_mem hns
  obtain ⟨failure, hmem, _⟩ := asks_for_all hb hne { disk := {} }
  have hbelow : Below root (folder root ns) :=
    h {} (fun _ _ => none) ⟨.folder (folder root ns), failure⟩ (by
      rw [journal_write]
      exact hmem)
  exact tame_of_below hroot hbelow

/-- The pages of scanned sources stay below the output folder if all namespaces with pages
are tame, and below one that is given by a relative path only then. -/
theorem staysBelow_iff_tame (hp : p.FromSources) (o : Page.Options) :
    ((∀ ns ∈ p.namespaces.toList, (pages p o ns).1 ≠ [] → Tame ns) ↔ ∀ root, StaysBelow p o root) ∧
      ∀ root, isAbsolute root = false →
        (StaysBelow p o root ↔ ∀ ns ∈ p.namespaces.toList, (pages p o ns).1 ≠ [] → Tame ns) := by
  refine ⟨⟨fun h root => staysBelow_of_tame hp h, fun h => ?_⟩, fun root hroot => ?_⟩
  · have hdocs : isAbsolute "docs" = false := rfl
    exact tame_of_staysBelow hdocs (h "docs")
  · exact ⟨tame_of_staysBelow hroot, staysBelow_of_tame hp⟩

/-- A documented type in a namespace. -/
def oneClassSource (inNamespace : String) : String :=
  "namespace " ++ inNamespace ++ " \x7b\n/// a\nclass A \x7b \x7d\n\x7d"

def oneClassDeclarations (inNamespace : String) : List Declaration :=
  [{ names := ["A"], kind := .classType, rawComment := "/// a", inNamespace }]

def oneClass (input inNamespace : String) : Project :=
  (({} : Project).addFile (packageName input) "A.cs" (oneClassDeclarations inNamespace)).1

theorem fromSources_oneClass (input : String) {inNamespace : String}
    (h : (Declaration.scan (oneClassSource inNamespace)).toOption =
      some (oneClassDeclarations inNamespace)) : (oneClass input inNamespace).FromSources := by
  exact Project.FromSources.empty.source input "A.cs" (Declaration.scan_eq_ok h)

theorem staysBelow_iff_tame_oneClass :
    (oneClass "src/in" "N.M").FromSources ∧
      (∀ ns ∈ (oneClass "src/in" "N.M").namespaces.toList,
        (pages (oneClass "src/in" "N.M") {} ns).1 ≠ [] → Tame ns) ∧
      ∀ root, StaysBelow (oneClass "src/in" "N.M") {} root := by
  have hp : (oneClass "src/in" "N.M").FromSources :=
    fromSources_oneClass "src/in" (by decide +kernel)
  have htame : ∀ ns ∈ (oneClass "src/in" "N.M").namespaces.toList,
      (pages (oneClass "src/in" "N.M") {} ns).1 ≠ [] → Tame ns := by decide +kernel
  exact ⟨hp, htame, (staysBelow_iff_tame hp {}).1.1 htame⟩

/-- A namespace that starts at the root and an input folder that goes up both lead out of
the output folder. -/
theorem write_leaves_root :
    (oneClass "src/in" "/tmp/out").FromSources ∧
      ((write (oneClass "src/in" "/tmp/out") {} "docs" : StateM FaultyDisk (Report × Log))
        { disk := {} }).2.journal.map (·.request.path) = ["/tmp/out", "/tmp/out/A.md"] ∧
      ¬ Below "docs" "/tmp/out/A.md" ∧
      (oneClass ".." "N").FromSources ∧
      ((write (oneClass ".." "N") {} "docs" : StateM FaultyDisk (Report × Log))
        { disk := {} }).2.journal.map (·.request.path) = ["docs/../N", "docs/../N/A.md"] ∧
      ¬ Below "docs" "docs/../N/A.md" := by
  refine ⟨fromSources_oneClass _ (by decide +kernel), by decide +kernel, fun h => ?_,
    fromSources_oneClass _ (by decide +kernel), by decide +kernel, fun h => ?_⟩
  · have habs : isAbsolute "/tmp/out/A.md" = true := by decide +kernel
    rw [relative_of_below (by decide +kernel) h] at habs
    cases habs
  · obtain ⟨rest, hsteps, hrest⟩ := h
    have hup : steps "docs/../N/A.md" =
        steps "docs" ++ [.parent, .normal "N", .normal "A.md"] := by decide +kernel
    rw [hup] at hsteps
    obtain ⟨name, hname⟩ := hrest .parent (by
      rw [← List.append_cancel_left hsteps]
      exact List.mem_cons_self)
    cases hname

end Site
end DocPages

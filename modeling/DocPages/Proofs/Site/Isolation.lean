/-
The pages of a namespace depend on nothing but its items.

Each namespace is written by a writer of its own, which starts with no names in use, and a
page shows items, but no places in the project.  So what other namespaces hold cannot be
seen in the pages of a namespace.  `pages_isolated` says so for two projects that have the
namespace, each with its own places for the items and its own other namespaces.
-/
import DocPages.Files.Disk
import DocPages.Proofs.Page.Twins
import DocPages.Site

namespace DocPages
namespace Site

open Page

/-! ## One namespace among others -/

theorem Report.add_assoc (a b c : Report) : (a.add b).add c = a.add (b.add c) := by
  simp only [Report.add, Nat.add_assoc]

theorem Report.empty_add (a : Report) : Report.add {} a = a := by
  simp only [Report.add, Nat.zero_add]

theorem writeNamespaces_append {m : Type → Type} [Monad m] [LawfulMonad m] [FileSystem m]
    (p : Project) (o : Options) (root : String) (before after : List Namespace) :
    (writeNamespaces p o root (before ++ after) : m (Report × Log)) = do
      let first ← writeNamespaces p o root before
      let more ← writeNamespaces p o root after
      return (first.1.add more.1, first.2 ++ more.2) := by
  induction before with
  | nil => simp [writeNamespaces, Report.empty_add]
  | cons ns rest ih => simp [writeNamespaces, ih, Report.add_assoc]

/-! ## Items that say the same -/

section

variable {p q : Project} (hp : p.IsForest) (hq : q.IsForest) {ns ns' : Namespace}
  (hns : ns ∈ p.namespaces.toList) (hns' : ns' ∈ q.namespaces.toList)

include hp hq hns hns'

theorem matching_top (h : List.Forall₂ (p.Alike q) ns.items ns'.items) :
    List.Forall₂ (Matching p q) (ns.items.filterMap (entryOf? p))
      (ns'.items.filterMap (entryOf? q)) := by
  have hoption : List.Forall₂ (fun i j => Option.Rel (Matching p q) (entryOf? p i) (entryOf? q j))
      ns.items ns'.items := by
    refine forall₂_of_mem h fun i hi j hj hsame => ?_
    obtain ⟨a, b, hitem, hitem', same, _⟩ := hsame.items
    rw [entryOf?, entryOf?, hitem, hitem']
    refine .some ⟨hsame, ?_, ⟨hitem, rfl⟩, hitem', rfl⟩
    rw [hp.path_top hns hi hitem, hq.path_top hns' hj hitem', Item.name_eq same]
  exact List.rel_filterMap (fun {i j} hij => hij) hoption

theorem pages_alike (h : List.Forall₂ (p.Alike q) ns.items ns'.items) (o : Options) :
    pages p o ns = pages q o ns' := by
  have hsorted := forall₂_sortBy o.kinds (matching_top hp hq hns hns' h)
    (fun m m' hm => hm.twin.kind) fun m m' hm => hm.twin.name
  exact writeAll_twin hp hq o rfl hsorted

end

/-! ## Pages of a namespace -/

theorem writeNamespace_eq {m : Type → Type} [Monad m] [FileSystem m] {p q : Project}
    {o : Options} {ns ns' : Namespace} (hpages : pages p o ns = pages q o ns')
    (hpackage : ns.package = ns'.package) (hdirectory : ns.directory = ns'.directory)
    (root : String) :
    (writeNamespace p o root ns : m (Report × Log)) = writeNamespace q o root ns' := by
  have hfolder : folder root ns = folder root ns' := by
    rw [folder, folder, hpackage, hdirectory]
  rw [writeNamespace, writeNamespace, hpages, hfolder]

/-- Two projects have a namespace with the same items, each in places of its own.  Then its
pages have the same names and contents in both, and the same is reported.  Where a run comes
to the namespace, it does what the other project does there.

Without contents, the pages of a call have the same contents whatever names its writer has
given out before. -/
theorem pages_isolated {p q : Project} (hp : p.IsForest) (hq : q.IsForest) (o : Options) :
    (∀ ns ∈ p.namespaces.toList, ∀ ns' ∈ q.namespaces.toList,
      List.Forall₂ (p.Alike q) ns.items ns'.items →
        pages p o ns = pages q o ns' ∧
        (ns.package = ns'.package → ns.directory = ns'.directory →
          ∀ before after, p.namespaces.toList = before ++ ns :: after →
          ∀ {m : Type → Type} [Monad m] [LawfulMonad m] [FileSystem m] (root : String),
            (write p o root : m (Report × Log)) = do
              let first ← writeNamespaces p o root before
              let own ← writeNamespace q o root ns'
              let last ← writeNamespaces p o root after
              let report := first.1.add (own.1.add last.1)
              return (report, first.2 ++ (own.2 ++ last.2) ++
                [.info (toString report.written ++ " pages written to " ++ root)]))) ∧
    (o.writeContents = false → ∀ id names names',
      ((Page.write p o names id).2.1.filterMap Output.written?).map WrittenPage.content =
        ((Page.write p o names' id).2.1.filterMap Output.written?).map WrittenPage.content) := by
  refine ⟨fun ns hns ns' hns' h => ?_, fun hc id names names' => ?_⟩
  · have hpages := pages_alike hp hq hns hns' h o
    refine ⟨hpages, ?_⟩
    intro hpackage hdirectory before after hsplit m _ _ _ root
    have hown : (writeNamespace p o root ns : m (Report × Log)) = writeNamespace q o root ns' :=
      writeNamespace_eq hpages hpackage hdirectory root
    rw [write, hsplit, writeNamespaces_append, writeNamespaces, hown]
    simp only [bind_assoc, pure_bind]
  · exact content_write hp hc names names' id

/-- The items of `leafSample` behind another class of the same name, and in other places. -/
def crowdedSample : Project :=
  (Project.Operation.addMember 2 (Item.new "g" "field" " ")).run <|
    (Project.Operation.addMember 3 (Item.new "x" "field" "x")).run <|
    (Project.Operation.addMember 1 (Item.new "B" "class" " ")).run <|
    (Project.Operation.addMember 1 (Item.new "f" "field" "f")).run <|
    (Project.Operation.addTopLevel 1 (Item.new "A" "class" "a")).run <|
    (Project.Operation.namespaceIndex "N" "P").run <|
    (Project.Operation.addTopLevel 0 (Item.new "A" "class" "other")).run <|
    (Project.Operation.namespaceIndex "M" "P").run {}

theorem crowdedSample_isForest : crowdedSample.IsForest := by
  refine Project.Reachable.isForest (.step _ (.step _ (.step _ (.step _ (.step _ (.step _
    (.step _ (.step _ .empty trivial) ?_) trivial) ?_) ?_) ?_) ?_) ?_)
  · show 0 < _
    decide +kernel
  · show 1 < _
    decide +kernel
  · show 1 < _
    decide +kernel
  · show 1 < _
    decide +kernel
  · show 3 < _
    decide +kernel
  · show 2 < _
    decide +kernel

theorem alike_of_members {p q : Project} {is js : List ItemId} (i j : ItemId)
    (hi : (p.item? i).map Item.members = some is) (hj : (q.item? j).map Item.members = some js)
    (same : (p.item? i).map Item.bare = (q.item? j).map Item.bare)
    (members : List.Forall₂ (p.Alike q) is js) : p.Alike q i j := by
  obtain ⟨a, ha, rfl⟩ := Option.map_eq_some_iff.1 hi
  obtain ⟨b, hb, rfl⟩ := Option.map_eq_some_iff.1 hj
  rw [ha, hb] at same
  exact .item ha hb (Option.some.inj same) members

theorem alike_leafSample : crowdedSample.Alike leafSample 1 0 := by
  have hg : crowdedSample.Alike leafSample 5 2 :=
    alike_of_members 5 2 (by decide +kernel) (by decide +kernel) (by decide +kernel) .nil
  have hx : crowdedSample.Alike leafSample 4 4 :=
    alike_of_members 4 4 (by decide +kernel) (by decide +kernel) (by decide +kernel) .nil
  have hf : crowdedSample.Alike leafSample 2 1 :=
    alike_of_members 2 1 (by decide +kernel) (by decide +kernel) (by decide +kernel)
      (.cons hg .nil)
  have hB : crowdedSample.Alike leafSample 3 3 :=
    alike_of_members 3 3 (by decide +kernel) (by decide +kernel) (by decide +kernel)
      (.cons hx .nil)
  exact alike_of_members 1 0 (by decide +kernel) (by decide +kernel) (by decide +kernel)
    (.cons hf (.cons hB .nil))

theorem pages_isolated_crowdedSample :
    crowdedSample.IsForest ∧ leafSample.IsForest ∧
      ∃ other ns ns' : Namespace, crowdedSample.namespaces.toList = [other] ++ ns :: [] ∧
        ns' ∈ leafSample.namespaces.toList ∧
        List.Forall₂ (crowdedSample.Alike leafSample) ns.items ns'.items ∧
        (pages leafSample {} ns').1 ≠ [] ∧
        pages crowdedSample {} ns = pages leafSample {} ns' ∧
        ((write crowdedSample {} "docs" : StateM Disk (Report × Log)) = do
          let first ← writeNamespaces crowdedSample {} "docs" [other]
          let own ← writeNamespace leafSample {} "docs" ns'
          let last ← writeNamespaces crowdedSample {} "docs" []
          let report := first.1.add (own.1.add last.1)
          return (report, first.2 ++ (own.2 ++ last.2) ++
            [.info (toString report.written ++ " pages written to " ++ "docs")])) ∧
        ((Page.write crowdedSample {} {} 1).2.1.filterMap Output.written?).map
            WrittenPage.content =
          ((Page.write crowdedSample {} ⟨["A"], []⟩ 1).2.1.filterMap Output.written?).map
            WrittenPage.content := by
  obtain ⟨hpages, hcontent⟩ :=
    pages_isolated crowdedSample_isForest leafSample_isForest ({} : Options)
  have halike : List.Forall₂ (crowdedSample.Alike leafSample) [1] [0] :=
    .cons alike_leafSample .nil
  have hsplit : crowdedSample.namespaces.toList =
      [⟨"M", "P", "M", [0]⟩] ++ ⟨"N", "P", "N", [1]⟩ :: [] := by decide +kernel
  have hns : (⟨"N", "P", "N", [1]⟩ : Namespace) ∈ crowdedSample.namespaces.toList := by
    rw [hsplit]
    exact List.mem_cons_of_mem _ List.mem_cons_self
  have hns' : (⟨"N", "P", "N", [0]⟩ : Namespace) ∈ leafSample.namespaces.toList := by
    decide +kernel
  obtain ⟨hsame, hwrite⟩ := hpages _ hns _ hns' halike
  exact ⟨crowdedSample_isForest, leafSample_isForest, _, _, _, hsplit, hns', halike,
    by decide +kernel, hsame, hwrite rfl rfl _ _ hsplit "docs", hcontent rfl 1 {} ⟨["A"], []⟩⟩

end Site
end DocPages

/-
What is scanned can be built.

The scanner keeps the types whose bodies are open, and so does the builder, but each keeps
its own stack.  `Linked` is the invariant under which every parent is an earlier container,
and `Nested` the one under which the builder still has each parent open when its members
come.  A namespace inside the body of a type breaks the second: its declarations stand
between the members of the type and belong to none.  The theorem this file exists for is
`scan_inPreOrder`.
-/
import DocPages.Proofs.Declaration.Moves
import DocPages.Proofs.Project.Nesting

namespace DocPages
namespace Project

/-! ## A forest is built without warnings -/

mutual
theorem warnings_addTree (package path : String) (parent : Option ItemId)
    (r : Project × Nat × Log) (t : DeclTree) (message : String)
    (h : .warning message ∈ (addTree package path parent r t).2.2) :
    .warning message ∈ r.2.2 := by
  match t with
  | .node d members =>
    rw [addTree] at h
    simp only at h
    split at h
    · have hr := warnings_addTrees package path _ _ members message h
      rcases List.mem_append.1 hr with hold | hnew
      · exact hold
      · cases List.mem_singleton.1 hnew
    · split at h
      · exact h
      · have hadded : .warning message ∈ r.2.2 ++ blankNameErrors path d →
            .warning message ∈ r.2.2 := by
          intro hr
          rcases List.mem_append.1 hr with hold | hnew
          · exact hold
          · obtain ⟨_, _, heq⟩ := List.mem_map.1 hnew
            cases heq
        split at h
        · exact hadded h
        · exact hadded (warnings_addTrees package path _ _ members message h)

theorem warnings_addTrees (package path : String) (parent : Option ItemId)
    (r : Project × Nat × Log) (ts : List DeclTree) (message : String)
    (h : .warning message ∈ (addTrees package path parent r ts).2.2) :
    .warning message ∈ r.2.2 := by
  match ts with
  | [] =>
    rw [addTrees] at h
    exact h
  | t :: rest =>
    rw [addTrees] at h
    exact warnings_addTree package path parent r t message
      (warnings_addTrees package path parent _ rest message h)
end

/-- Each parent is open when its members come, which is all that is ever warned of. -/
theorem warning_notMem_addFile {ds : List Declaration} (h : InPreOrder ds) (p : Project)
    (package path message : String) : .warning message ∉ (p.addFile package path ds).2.2 := by
  obtain ⟨forest, hforest, rfl⟩ := exists_forest h
  rw [addFile_preorders p package path hforest]
  intro hmem
  cases warnings_addTrees package path none (p, 0, []) forest message hmem

end Project

namespace Declaration

open Project

/-! ## Parents are earlier containers -/

/-- The declaration of that index is a container. -/
def ContainerAt (ds : List Declaration) (index : Nat) : Prop :=
  ∃ owner, ds[index]? = some owner ∧ owner.kind.isContainer = true

theorem ContainerAt.lt {ds : List Declaration} {index : Nat} (h : ContainerAt ds index) :
    index < ds.length := by
  obtain ⟨owner, howner, _⟩ := h
  exact (List.getElem?_eq_some_iff.1 howner).1

theorem getElem?_concat {ds : List Declaration} {d e : Declaration} {i : Nat}
    (h : (ds ++ [d])[i]? = some e) : ds[i]? = some e ∨ i = ds.length ∧ e = d := by
  rcases Nat.lt_trichotomy i ds.length with hlt | heq | hgt
  · rw [List.getElem?_append_left hlt] at h
    exact .inl h
  · rw [heq, List.getElem?_concat_length] at h
    exact .inr ⟨heq, (Option.some.inj h).symm⟩
  · rw [List.getElem?_eq_none (by rw [List.length_append]; exact hgt)] at h
    cases h

theorem getElem?_concat_of_some {ds : List Declaration} {e : Declaration} {i : Nat}
    (h : ds[i]? = some e) (d : Declaration) : (ds ++ [d])[i]? = some e := by
  rw [List.getElem?_append_left (List.getElem?_eq_some_iff.1 h).1]
  exact h

theorem ContainerAt.concat {ds : List Declaration} {index : Nat} (h : ContainerAt ds index)
    (d : Declaration) : ContainerAt (ds ++ [d]) index := by
  obtain ⟨owner, howner, hc⟩ := h
  exact ⟨owner, getElem?_concat_of_some howner d, hc⟩

/-- Each declaration is at the top or in a container that comes before it, and each open
type is a container. -/
structure Linked (f : Frame) : Prop where
  parents : ∀ i d parent, f.1[i]? = some d → d.parent = some parent →
    parent < i ∧ ContainerAt f.1 parent
  opened : ∀ index name, .typeScope index name ∈ f.2 → ContainerAt f.1 index

theorem containerAt_of_madeIn {ds : List Declaration} {scopes : List Scope}
    (hopened : ∀ index name, .typeScope index name ∈ scopes → ContainerAt ds index)
    {d : Declaration} (h : MadeIn scopes d) {parent : Nat} (hp : d.parent = some parent) :
    ContainerAt ds parent := by
  rw [h.parent] at hp
  unfold innermostType at hp
  split at hp
  · cases hp
    exact hopened _ _ List.mem_cons_self
  · cases hp

/-- A declaration that is made where it stands keeps the links. -/
theorem Linked.concat {ds : List Declaration} {scopes : List Scope} (hf : Linked (ds, scopes))
    {d : Declaration} (h : MadeIn scopes d) : Linked (ds ++ [d], scopes) where
  parents := by
    intro i e parent he hparent
    rcases getElem?_concat he with hold | ⟨rfl, rfl⟩
    · obtain ⟨hlt, hc⟩ := hf.parents i e parent hold hparent
      exact ⟨hlt, hc.concat d⟩
    · have hc := containerAt_of_madeIn hf.opened h hparent
      exact ⟨hc.lt, hc.concat e⟩
  opened := fun index name hmem => (hf.opened index name hmem).concat d

theorem Linked.move {f g : Frame} (hf : Linked f) (h : Move f g) : Linked g := by
  cases h with
  | stay => exact hf
  | declare hd => exact hf.concat hd
  | @openType ds scopes d name hd hc =>
      have hnew := hf.concat hd
      refine ⟨hnew.parents, ?_⟩
      intro index other hmem
      rcases List.mem_cons.1 hmem with heq | hold
      · cases heq
        exact ⟨d, List.getElem?_concat_length, hc⟩
      · exact hnew.opened index other hold
  | openNamespace name =>
      refine ⟨hf.parents, fun index other hmem => ?_⟩
      rcases List.mem_cons.1 hmem with heq | hold
      · cases heq
      · exact hf.opened index other hold
  | close scope =>
      exact ⟨hf.parents, fun index name hmem => hf.opened index name (List.mem_cons_of_mem _ hmem)⟩

theorem linked_nil : Linked ([], []) := ⟨nofun, nofun⟩

/-! ## Namespaces outside of types -/

def Scope.isType : Scope → Bool
  | .typeScope .. => true
  | .namespaceScope _ => false

/-- Does the step between two frames open a namespace? -/
def opensNamespace (f g : Frame) : Bool :=
  match g.2 with
  | .namespaceScope _ :: outer => outer.length == f.2.length
  | _ => false

/-- No namespace is opened while the body of a type is open. -/
def NamespacesOutside (source : String) : Prop :=
  (trail {} source.toList).IsChain fun f g =>
    opensNamespace f g = true → f.2.any Scope.isType = false

instance (source : String) : Decidable (NamespacesOutside source) :=
  inferInstanceAs (Decidable (List.IsChain _ _))

/-- A move that opens no namespace inside a type. -/
def OuterMove (f g : Frame) : Prop :=
  Move f g ∧ (opensNamespace f g = true → f.2.any Scope.isType = false)

theorem trail_outerMoves {source : String} {ds : List Declaration} (h : scan source = .ok ds)
    (hout : NamespacesOutside source) : (trail {} source.toList).IsChain OuterMove := by
  have hmoves := trail_isChain (mapError_eq_ok.1 h)
  rw [NamespacesOutside, List.isChain_iff_getElem] at hout
  rw [List.isChain_iff_getElem] at hmoves ⊢
  exact fun i hi => ⟨hmoves i hi, hout i hi⟩

/-! ## Open types contain each other and the last declaration -/

/-- The indices of the types that are open since the last namespace was opened, the
innermost first. -/
def openTypes : List Scope → List Nat
  | .typeScope index _ :: rest => index :: openTypes rest
  | _ => []

/-- No type is open around a namespace. -/
def Flat : List Scope → Prop
  | [] => True
  | .typeScope .. :: rest => Flat rest
  | .namespaceScope _ :: rest => rest.any Scope.isType = false

theorem openTypes_eq_nil {scopes : List Scope} (h : scopes.any Scope.isType = false) :
    openTypes scopes = [] := by
  cases scopes with
  | nil => rfl
  | cons scope rest =>
      cases scope with
      | namespaceScope => rfl
      | typeScope => simp [Scope.isType] at h

theorem flat_of_noType {scopes : List Scope} (h : scopes.any Scope.isType = false) :
    Flat scopes := by
  cases scopes with
  | nil => trivial
  | cons scope rest =>
      rw [List.any_cons, Bool.or_eq_false_iff] at h
      cases scope with
      | namespaceScope => exact h.2
      | typeScope => cases h.1

theorem inside_concat {ds : List Declaration} {outer inner : Nat} (h : Inside ds outer inner)
    (d : Declaration) : Inside (ds ++ [d]) outer inner := by
  refine Relation.TransGen.mono (fun a b hab => ?_) outer inner h
  obtain ⟨e, he, hparent⟩ := Option.bind_eq_some_iff.1 hab
  rw [getElem?_concat_of_some he d]
  exact hparent

theorem innermostType_eq (scopes : List Scope) :
    innermostType scopes = (openTypes scopes).head? := by
  cases scopes with
  | nil => rfl
  | cons scope rest => cases scope <;> rfl

/-- The declarations are in pre-order.  The open types are inside each other, and the last
declaration is the innermost of them or inside it. -/
structure Nested (f : Frame) : Prop where
  linked : Linked f
  flat : Flat f.2
  inPreOrder : InPreOrder f.1
  chain : (openTypes f.2).Pairwise fun inner outer => Inside f.1 outer inner
  reached : ∀ index ∈ openTypes f.2, ∃ last, last + 1 = f.1.length ∧
    (index = last ∨ Inside f.1 index last)

theorem containerAt_of_mem_openTypes {f : Frame} (h : Linked f) {index : Nat}
    (hi : index ∈ openTypes f.2) : ContainerAt f.1 index := by
  have hmem : ∀ {scopes : List Scope}, index ∈ openTypes scopes →
      ∃ name, .typeScope index name ∈ scopes := by
    intro scopes
    induction scopes with
    | nil => exact nofun
    | cons scope rest ih =>
        cases scope with
        | namespaceScope => exact nofun
        | typeScope other name =>
            intro hother
            rcases List.mem_cons.1 hother with rfl | hrest
            · exact ⟨name, List.mem_cons_self⟩
            · obtain ⟨name', hname⟩ := ih hrest
              exact ⟨name', List.mem_cons_of_mem _ hname⟩
  obtain ⟨name, hname⟩ := hmem hi
  exact h.opened index name hname

theorem inPreOrder_concat {ds : List Declaration} {scopes : List Scope}
    (hf : Nested (ds, scopes)) {d : Declaration} (h : MadeIn scopes d) :
    InPreOrder (ds ++ [d]) := by
  intro i e he
  rcases getElem?_concat he with hold | ⟨rfl, rfl⟩
  · rcases hf.inPreOrder i e hold with hnone | ⟨last, before, outer, hlast, hbefore, hp, hin⟩
    · exact .inl hnone
    · exact .inr ⟨last, before, outer, hlast, getElem?_concat_of_some hbefore d, hp,
        hin.imp_right fun hin => inside_concat hin d⟩
  · cases hp : e.parent with
    | none => exact .inl rfl
    | some outer =>
        have hmem : outer ∈ openTypes scopes := by
          rw [h.parent, innermostType_eq] at hp
          exact List.mem_of_mem_head? hp
        obtain ⟨last, hlast, hin⟩ := hf.reached outer hmem
        have hlt : last < ds.length := Nat.lt_of_succ_le (Nat.le_of_eq hlast)
        refine .inr ⟨last, ds[last], outer, hlast, ?_, rfl, ?_⟩
        · exact getElem?_concat_of_some (List.getElem?_eq_getElem hlt) e
        · rcases hin with rfl | hin
          · obtain ⟨owner, howner, hc⟩ := containerAt_of_mem_openTypes hf.linked hmem
            rw [List.getElem?_eq_getElem hlt, Option.some.injEq] at howner
            exact .inl ⟨rfl, howner ▸ hc⟩
          · exact .inr (inside_concat hin e)

/-- Every open type has the new declaration inside it. -/
theorem inside_new {ds : List Declaration} {scopes : List Scope} (hf : Nested (ds, scopes))
    {d : Declaration} (h : MadeIn scopes d) {index : Nat} (hi : index ∈ openTypes scopes) :
    Inside (ds ++ [d]) index ds.length := by
  have hlink : ∀ outer, d.parent = some outer →
      (ds ++ [d])[ds.length]?.bind Declaration.parent = some outer := by
    intro outer houter
    rw [List.getElem?_concat_length, Option.bind_some]
    exact houter
  have hparent := h.parent
  rw [innermostType_eq] at hparent
  have hchain := hf.chain
  generalize openTypes scopes = open_ at hi hparent hchain
  cases open_ with
  | nil => cases hi
  | cons inner rest =>
      rcases List.mem_cons.1 hi with rfl | hrest
      · exact .single (hlink _ hparent)
      · exact .tail (inside_concat ((List.pairwise_cons.1 hchain).1 index hrest) d)
          (hlink _ hparent)

theorem Nested.concat {ds : List Declaration} {scopes : List Scope} (hf : Nested (ds, scopes))
    {d : Declaration} (h : MadeIn scopes d) : Nested (ds ++ [d], scopes) where
  linked := hf.linked.concat h
  flat := hf.flat
  inPreOrder := inPreOrder_concat hf h
  chain := hf.chain.imp fun hin => inside_concat hin d
  reached := fun _ hi => ⟨ds.length, by simp, .inr (inside_new hf h hi)⟩

theorem Nested.move {f g : Frame} (hf : Nested f) (h : OuterMove f g) : Nested g := by
  obtain ⟨hmove, hout⟩ := h
  have hlinked := hf.linked.move hmove
  cases hmove with
  | stay => exact hf
  | declare hd => exact hf.concat hd
  | @openType ds scopes d name hd hc =>
      have hnew := hf.concat hd
      refine ⟨hlinked, hf.flat, hnew.inPreOrder, ?_, ?_⟩
      · refine List.pairwise_cons.2 ⟨fun outer houter => inside_new hf hd houter, hnew.chain⟩
      · intro index hi
        rcases List.mem_cons.1 hi with rfl | hold
        · exact ⟨ds.length, by simp, .inl rfl⟩
        · exact hnew.reached index hold
  | @openNamespace ds scopes name =>
      have hnone := hout (by simp [opensNamespace])
      exact ⟨hlinked, hnone, hf.inPreOrder, .nil, nofun⟩
  | @close ds scopes scope =>
      cases scope with
      | typeScope index name =>
          exact ⟨hlinked, hf.flat, hf.inPreOrder, (List.pairwise_cons.1 hf.chain).2,
            fun index hi => hf.reached index (List.mem_cons_of_mem _ hi)⟩
      | namespaceScope name =>
          -- No type was open around the namespace, so none comes to light when it ends.
          have hnone := openTypes_eq_nil hf.flat
          refine ⟨hlinked, flat_of_noType hf.flat, hf.inPreOrder, ?_, ?_⟩
          · rw [hnone]
            exact .nil
          · rw [hnone]
            exact nofun

theorem nested_nil : Nested ([], []) :=
  ⟨linked_nil, trivial, nofun, .nil, nofun⟩

/-- In what is scanned each parent is a container that comes before its members.  If no
namespace is opened in the body of a type, the declarations are in pre-order, and building
them never meets a parent that is not open. -/
theorem scan_inPreOrder {source : String} {ds : List Declaration} (h : scan source = .ok ds) :
    (∀ (i : Nat) (d : Declaration) (parent : Nat), ds[i]? = some d → d.parent = some parent →
      parent < i ∧
        ∃ owner : Declaration, ds[parent]? = some owner ∧ owner.kind.isContainer = true) ∧
    (NamespacesOutside source →
      InPreOrder ds ∧
      ∀ (p : Project) (package path message : String),
        .warning message ∉ (p.addFile package path ds).2.2) := by
  refine ⟨(scan_keeps linked_nil (fun _ _ hmove hf => hf.move hmove) h).parents, fun hout => ?_⟩
  have hnested : Nested (ds, []) :=
    trail_keeps nested_nil (fun _ _ hmove hf => hf.move hmove) h (trail_outerMoves h hout)
  exact ⟨hnested.inPreOrder, fun p package path message =>
    warning_notMem_addFile hnested.inPreOrder p package path message⟩

/-- A type without a body between a nested type and a field, all in a namespace. -/
def nestedSource : String :=
  "namespace N \x7b\nclass A \x7b struct B \x7b int x; \x7d class C; int y; \x7d\n\x7d"

def nestedDeclarations : List Declaration :=
  [{ names := ["A"], kind := .classType, inNamespace := "N" },
   { names := ["B"], kind := .structType, parent := some 0, inNamespace := "N" },
   { names := ["x"], kind := .field, parent := some 1, inNamespace := "N" },
   { names := ["C"], kind := .classType, parent := some 0, inNamespace := "N" },
   { names := ["y"], kind := .field, parent := some 0, inNamespace := "N" }]

theorem scan_inPreOrder_nestedSource :
    scan nestedSource = .ok nestedDeclarations ∧ NamespacesOutside nestedSource ∧
      InPreOrder nestedDeclarations ∧
      ∀ (p : Project) (package path message : String),
        .warning message ∉ (p.addFile package path nestedDeclarations).2.2 := by
  have hscan : scan nestedSource = .ok nestedDeclarations := scan_eq_ok (by decide +kernel)
  have hout : NamespacesOutside nestedSource := by decide +kernel
  exact ⟨hscan, hout, (scan_inPreOrder hscan).2 hout⟩

end Declaration
end DocPages

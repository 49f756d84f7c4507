/-
Bullets and the heading above them.

The elements of a listed name at the top level of a comment are one list if nothing else is
written between the first and the last of them.  Otherwise the heading stands above the first,
the empty line behind the last, and the other blocks between the bullets: `render_listed`.
-/
import DocPages.Prose
import DocPages.Proofs.Markup.RoundTrip

namespace DocPages
namespace Prose

open Text Markup

/-! ## The blocks of a part -/

def elementNames (nodes : List Node) : List String := nodes.filterMap Node.name?

/-- What one node writes.  `seen` and `ahead` hold the names of the elements before and behind
it. -/
def nodeBlocks (level : Nat) (seen ahead : List String) : Node → List Block
  | .text content =>
    let content := trim content.toList
    if content.isEmpty then [] else [.paragraph content]
  | .element name attributes children =>
    elementBlocks level (!seen.contains name) (!ahead.contains name) name attributes children

/-- What nodes write that stand between others. -/
def blocksAmong (level : Nat) (seen ahead : List String) : List Node → List Block
  | [] => []
  | node :: rest =>
    nodeBlocks level seen (elementNames rest ++ ahead) node
      ++ blocksAmong level (elementNames [node] ++ seen) ahead rest

theorem elementNames_append (a b : List Node) :
    elementNames (a ++ b) = elementNames a ++ elementNames b := List.filterMap_append

theorem elementNames_cons (node : Node) (rest : List Node) :
    elementNames (node :: rest) = elementNames [node] ++ elementNames rest :=
  elementNames_append [node] rest

theorem blocksFrom_eq (level : Nat) (seen : List String) (nodes : List Node) :
    blocksFrom level seen nodes = blocksAmong level seen [] nodes := by
  induction nodes generalizing seen with
  | nil => rfl
  | cons node rest ih =>
      cases node with
      | text content =>
          rw [blocksFrom, blocksAmong, ih]
          rfl
      | element name attributes children =>
          rw [blocksFrom, blocksAmong, ih, List.append_nil]
          rfl

section Congr

variable {level : Nat} {seen seen' ahead ahead' : List String}
  (hseen : ∀ name, name ∈ seen ↔ name ∈ seen') (hahead : ∀ name, name ∈ ahead ↔ name ∈ ahead')
include hseen hahead

theorem nodeBlocks_congr (node : Node) :
    nodeBlocks level seen ahead node = nodeBlocks level seen' ahead' node := by
  cases node with
  | text content => rfl
  | element name attributes children =>
      have hsame : ∀ {a b : List String}, (∀ name, name ∈ a ↔ name ∈ b) →
          a.contains name = b.contains name := by
        intro a b h
        rw [Bool.eq_iff_iff, List.contains_iff_mem, List.contains_iff_mem, h]
      rw [nodeBlocks, nodeBlocks, hsame hseen, hsame hahead]

/-- Only which names stand before and behind matters. -/
theorem blocksAmong_congr (nodes : List Node) :
    blocksAmong level seen ahead nodes = blocksAmong level seen' ahead' nodes := by
  induction nodes generalizing seen seen' with
  | nil => rfl
  | cons node rest ih =>
      have hnext : ∀ name,
          name ∈ elementNames [node] ++ seen ↔ name ∈ elementNames [node] ++ seen' := by
        simp only [List.mem_append, hseen, implies_true]
      have hbehind : ∀ name,
          name ∈ elementNames rest ++ ahead ↔ name ∈ elementNames rest ++ ahead' := by
        simp only [List.mem_append, hahead, implies_true]
      rw [blocksAmong, blocksAmong, ih hnext, nodeBlocks_congr hseen hbehind]

end Congr

theorem blocksAmong_append (level : Nat) (seen ahead : List String) (a b : List Node) :
    blocksAmong level seen ahead (a ++ b) =
      blocksAmong level seen (elementNames b ++ ahead) a ++
        blocksAmong level (elementNames a ++ seen) ahead b := by
  induction a generalizing seen with
  | nil => rfl
  | cons node rest ih =>
      have hnames : ∀ name, name ∈ elementNames rest ++ (elementNames [node] ++ seen) ↔
          name ∈ elementNames (node :: rest) ++ seen := by
        intro name
        rw [elementNames_cons node rest]
        simp only [List.mem_append, or_left_comm, or_assoc]
      rw [List.cons_append, blocksAmong, blocksAmong, ih, elementNames_append,
        List.append_assoc, List.append_assoc, blocksAmong_congr hnames fun _ => Iff.rfl]

/-! ## The elements of one name -/

/-- Text that nothing is written for. -/
def isSilent : Node → Bool
  | .text content => (trim content.toList).isEmpty
  | .element .. => false

/-- The bullets of the elements of a name. -/
def bullets (tag : String) (nodes : List Node) : List Block :=
  nodes.filterMap fun
    | .text _ => none
    | .element name attributes children =>
      if name = tag then some (.bullet (bulletText name attributes children)) else none

/-- A part that starts and ends with an element of this name. -/
structure Spans (tag : String) (nodes : List Node) : Prop where
  first : ∃ node rest, nodes = node :: rest ∧ node.name? = some tag
  last : ∃ rest node, nodes = rest ++ [node] ∧ node.name? = some tag

theorem mem_elementNames {tag : String} {nodes : List Node} :
    tag ∈ elementNames nodes ↔ ∃ node ∈ nodes, node.name? = some tag := List.mem_filterMap

theorem bullets_append (tag : String) (a b : List Node) :
    bullets tag (a ++ b) = bullets tag a ++ bullets tag b := List.filterMap_append

theorem bullets_eq_nil {tag : String} {nodes : List Node} (h : tag ∉ elementNames nodes) :
    bullets tag nodes = [] := by
  refine List.filterMap_eq_nil_iff.2 fun node hnode => ?_
  cases node with
  | text content => rfl
  | element name attributes children =>
      refine if_neg ?_
      rintro rfl
      exact h (mem_elementNames.2 ⟨_, hnode, rfl⟩)

/-- The elements of a name that occurs lie in one part. -/
theorem exists_spans {tag : String} {nodes : List Node} (h : tag ∈ elementNames nodes) :
    ∃ before middle after, nodes = before ++ (middle ++ after) ∧ tag ∉ elementNames before ∧
      tag ∉ elementNames after ∧ Spans tag middle := by
  induction nodes with
  | nil => cases h
  | cons node rest ih =>
      by_cases hrest : tag ∈ elementNames rest
      · obtain ⟨before, middle, after, rfl, hbefore, hafter, hspans⟩ := ih hrest
        by_cases hnode : node.name? = some tag
        · obtain ⟨front, last, rfl, hlast⟩ := hspans.last
          refine ⟨[], node :: (before ++ (front ++ [last])), after, ?_, List.not_mem_nil, hafter,
            ⟨node, _, rfl, hnode⟩, ⟨node :: (before ++ front), last, ?_, hlast⟩⟩ <;>
          simp only [List.append_assoc, List.cons_append, List.nil_append]
        · refine ⟨node :: before, middle, after, rfl, ?_, hafter, hspans⟩
          rw [elementNames_cons, List.mem_append, not_or]
          refine ⟨fun hmem => ?_, hbefore⟩
          obtain ⟨found, hfound, hname⟩ := mem_elementNames.1 hmem
          cases List.mem_singleton.1 hfound
          exact hnode hname
      · obtain ⟨found, hfound, hname⟩ := mem_elementNames.1 h
        have hnode : node.name? = some tag := by
          rcases List.mem_cons.1 hfound with rfl | hmem
          · exact hname
          · exact absurd (mem_elementNames.2 ⟨found, hmem, hname⟩) hrest
        exact ⟨[], [node], rest, rfl, List.not_mem_nil, hrest,
          ⟨node, [], rfl, hnode⟩, ⟨[], node, rfl, hnode⟩⟩

/-! ## The heading and the empty line -/

section Listed

variable {tag : String} (hlisted : isListed tag = true) {level : Nat} {seen ahead : List String}
include hlisted

theorem nodeBlocks_tagged (attributes : Attributes) (children : List Node) :
    nodeBlocks level seen ahead (.element tag attributes children) =
      (if tag ∈ seen then [] else [.heading level (listHeading tag)])
        ++ .bullet (bulletText tag attributes children)
          :: (if tag ∈ ahead then [] else [.gap]) := by
  show elementBlocks level (!seen.contains tag) (!ahead.contains tag) tag attributes children = _
  unfold elementBlocks
  rw [if_pos hlisted]
  by_cases hseen : tag ∈ seen <;> by_cases hahead : tag ∈ ahead <;> simp [hseen, hahead]

/-- The first element writes the heading. -/
theorem blocksAmong_first (hseen : tag ∉ seen) {node : Node} (hnode : node.name? = some tag)
    (rest : List Node) :
    blocksAmong level seen ahead (node :: rest) =
      .heading level (listHeading tag) :: blocksAmong level (tag :: seen) ahead (node :: rest) := by
  cases node with
  | text content => cases hnode
  | element name attributes children =>
      obtain rfl : name = tag := Option.some.inj hnode
      have hnames : ∀ other, other ∈ elementNames [.element name attributes children] ++ seen ↔
          other ∈ elementNames [.element name attributes children] ++ name :: seen := by
        intro other
        simp [elementNames, Node.name?]
      rw [blocksAmong, blocksAmong, nodeBlocks_tagged hlisted, nodeBlocks_tagged hlisted,
        if_neg hseen, if_pos List.mem_cons_self, blocksAmong_congr hnames fun _ => Iff.rfl]
      rfl

/-- The last element writes the empty line. -/
theorem blocksAmong_last (hahead : tag ∉ ahead) {node : Node} (hnode : node.name? = some tag)
    (rest : List Node) :
    blocksAmong level seen ahead (rest ++ [node]) =
      blocksAmong level seen (tag :: ahead) (rest ++ [node]) ++ [.gap] := by
  cases node with
  | text content => cases hnode
  | element name attributes children =>
      obtain rfl : name = tag := Option.some.inj hnode
      have hnames : ∀ other, other ∈ elementNames [.element name attributes children] ++ ahead ↔
          other ∈ elementNames [.element name attributes children] ++ name :: ahead := by
        intro other
        simp [elementNames, Node.name?]
      have hlast : ∀ ahead : List String,
          elementNames ([] : List Node) ++ ahead = ahead := fun _ => rfl
      rw [blocksAmong_append, blocksAmong_append, blocksAmong_congr (fun _ => Iff.rfl) hnames]
      simp only [blocksAmong, hlast, List.append_nil, nodeBlocks_tagged hlisted, if_neg hahead,
        if_pos List.mem_cons_self, List.append_assoc, List.cons_append, List.nil_append]

end Listed

/-! ## What stands between the bullets -/

theorem nodeBlocks_eq_nil {level : Nat} {seen ahead : List String} {node : Node} :
    nodeBlocks level seen ahead node = [] ↔ isSilent node = true := by
  cases node with
  | text content =>
      rw [nodeBlocks, isSilent]
      cases (trim content.toList).isEmpty <;> simp
  | element name attributes children =>
      refine iff_of_false ?_ Bool.false_ne_true
      show elementBlocks level (!seen.contains name) (!ahead.contains name) name attributes
        children ≠ []
      unfold elementBlocks
      repeat' split
      all_goals simp

theorem bullets_cons (tag : String) (node : Node) (rest : List Node) :
    bullets tag (node :: rest) = bullets tag [node] ++ bullets tag rest :=
  bullets_append tag [node] rest

section Among

variable {tag : String} (hlisted : isListed tag = true) {level : Nat} {seen ahead : List String}
include hlisted

/-- Inside of its part an element writes its bullet alone. -/
theorem nodeBlocks_inside {node : Node} (hnode : node.name? = some tag) (hseen : tag ∈ seen)
    (hahead : tag ∈ ahead) : nodeBlocks level seen ahead node = bullets tag [node] := by
  cases node with
  | text content => cases hnode
  | element name attributes children =>
      obtain rfl : name = tag := Option.some.inj hnode
      rw [nodeBlocks_tagged hlisted, if_pos hseen, if_pos hahead]
      simp [bullets]

/-- Inside of a part of its own a name writes its bullets, and other nodes write between them
what they write. -/
theorem blocksAmong_inside (hseen : tag ∈ seen) (hahead : tag ∈ ahead) (nodes : List Node) :
    (bullets tag nodes).Sublist (blocksAmong level seen ahead nodes) ∧
      (blocksAmong level seen ahead nodes = bullets tag nodes ↔
        ∀ node ∈ nodes, node.name? = some tag ∨ isSilent node = true) := by
  induction nodes generalizing seen with
  | nil => exact ⟨List.Sublist.refl _, iff_of_true rfl nofun⟩
  | cons node rest ih =>
      obtain ⟨hsub, hiff⟩ := ih (List.mem_append_right (elementNames [node]) hseen)
      have hbehind : tag ∈ elementNames rest ++ ahead := List.mem_append_right _ hahead
      rw [blocksAmong, bullets_cons, List.forall_mem_cons, ← hiff]
      by_cases hnode : node.name? = some tag
      · rw [nodeBlocks_inside hlisted hnode hseen hbehind, List.append_cancel_left_eq,
          and_iff_right (Or.inl hnode)]
        exact ⟨hsub.append_left _, Iff.rfl⟩
      · have hnone : bullets tag [node] = [] := bullets_eq_nil fun hmem => by
          obtain ⟨found, hfound, hname⟩ := mem_elementNames.1 hmem
          cases List.mem_singleton.1 hfound
          exact hnode hname
        rw [hnone, List.nil_append, or_iff_right hnode, ← nodeBlocks_eq_nil]
        refine ⟨hsub.trans (List.sublist_append_right _ _), fun heq => ?_, fun h => ?_⟩
        · -- As many blocks as there are bullets leave no room for another.
          have hlen := congrArg List.length heq
          have hle := hsub.length_le
          rw [List.length_append] at hlen
          have hnil : nodeBlocks level seen (elementNames rest ++ ahead) node = [] :=
            List.length_eq_zero_iff.1 (by omega)
          exact ⟨hnil, by rwa [hnil, List.nil_append] at heq⟩
        · rw [h.1, h.2, List.nil_append]

end Among

/-! ## How often a heading is written -/

/-- Elements whose text is written without a heading of its own. -/
def isRunning (name : String) : Bool :=
  ["summary", "para", "code", "list", "c", "see", "paramref", "typeparamref"].contains name

/-- An element that is a section of its own, with this heading above it. -/
def isSection (title : String) : Node → Bool
  | .text _ => false
  | .element name _ _ =>
    !isListed name && !isRunning name && Naming.capitalize name == title

theorem listHeading_inj {a b : String} (ha : isListed a = true) (hb : isListed b = true)
    (h : listHeading a = listHeading b) : a = b := by
  simp only [isListed, List.contains_iff_mem, List.mem_cons, List.not_mem_nil, or_false] at ha hb
  revert h
  rcases ha with rfl | rfl | rfl | rfl <;> rcases hb with rfl | rfl | rfl | rfl <;> decide

theorem count_elementBlocks {name : String} (hlisted : ¬ isListed name = true) (level : Nat)
    (first last : Bool) (attributes : Attributes) (children : List Node) (title : String) :
    (elementBlocks level first last name attributes children).count (.heading level title) =
      if isSection title (.element name attributes children) = true then 1 else 0 := by
  unfold elementBlocks
  rw [if_neg hlisted, isSection, Bool.eq_false_iff.2 hlisted]
  have hreturns : Naming.capitalize "returns" = "Returns" := by decide
  have hvalue : Naming.capitalize "value" = "Value" := by decide
  split
  case h_2 => simp [isRunning, hreturns, List.count_cons]
  case h_3 => simp [isRunning, hvalue, List.count_cons]
  case h_11 =>
    have hrunning : isRunning name = false := by
      simp only [isRunning, List.contains_eq_mem, List.mem_cons, List.not_mem_nil, or_false,
        decide_eq_false_iff_not, not_or]
      refine ⟨?_, ?_, ?_, ?_, ?_, ?_, ?_, ?_⟩ <;> assumption
    simp [hrunning, List.count_cons]
  all_goals simp [isRunning]

section Count

variable {tag : String} (hlisted : isListed tag = true) {level : Nat} {seen ahead : List String}
include hlisted

theorem count_nodeBlocks (node : Node) :
    (nodeBlocks level seen ahead node).count (.heading level (listHeading tag)) =
      (if node.name? = some tag ∧ tag ∉ seen then 1 else 0)
        + (if isSection (listHeading tag) node = true then 1 else 0) := by
  cases node with
  | text content =>
      rw [nodeBlocks]
      cases (trim content.toList).isEmpty <;> simp [Node.name?, isSection]
  | element name attributes children =>
      by_cases hname : name = tag
      · subst hname
        rw [nodeBlocks_tagged hlisted]
        by_cases hseen : name ∈ seen <;> by_cases hahead : name ∈ ahead <;>
          simp [Node.name?, isSection, hlisted, hseen, hahead]
      · show (elementBlocks level (!seen.contains name) (!ahead.contains name) name attributes
          children).count _ = _
        have hnone : ¬ ((Node.element name attributes children).name? = some tag ∧ tag ∉ seen) :=
          fun h => hname (Option.some.inj h.1)
        rw [if_neg hnone, Nat.zero_add]
        by_cases hother : isListed name = true
        · have hne : listHeading name ≠ listHeading tag :=
            fun h => hname (listHeading_inj hother hlisted h)
          unfold elementBlocks
          rw [if_pos hother]
          cases seen.contains name <;> cases ahead.contains name <;>
            simp [isSection, hother, hne]
        · exact count_elementBlocks hother level _ _ attributes children _

/-- The heading is written for the first element of the name, and otherwise only for a section
that is called the same. -/
theorem count_blocksAmong (nodes : List Node) :
    (blocksAmong level seen ahead nodes).count (.heading level (listHeading tag)) =
      (if tag ∈ elementNames nodes ∧ tag ∉ seen then 1 else 0)
        + nodes.countP (isSection (listHeading tag)) := by
  induction nodes generalizing seen with
  | nil => simp [blocksAmong, elementNames]
  | cons node rest ih =>
      rw [blocksAmong, List.count_append, count_nodeBlocks hlisted, ih, List.countP_cons]
      have hnode : node.name? = some tag ↔ tag ∈ elementNames [node] := by
        simp [mem_elementNames]
      simp only [hnode, elementNames_cons node rest]
      by_cases h : tag ∈ elementNames [node] <;> by_cases hs : tag ∈ seen <;>
        by_cases hr : tag ∈ elementNames rest <;> simp [h, hs, hr] <;> omega

end Count

/-! ## Where the bullets stand -/

/-- The elements of the name lie in a part `middle`.  The heading is written above what `middle`
writes, the empty line behind it, and the bullets are in between in the order of the text.
Nothing else is in between exactly if `middle` holds no other element and no text of its own. -/
def Collects (tag : String) (level : Nat) (nodes : List Node) (written : List Block) : Prop :=
  ∃ before middle after : List Node, ∃ between : List Block,
    nodes = before ++ (middle ++ after) ∧ Spans tag middle ∧
    tag ∉ elementNames before ∧ tag ∉ elementNames after ∧
    written =
      blocksAmong level [] (elementNames (middle ++ after)) before
        ++ .heading level (listHeading tag) :: between
        ++ .gap :: blocksAmong level (elementNames (before ++ middle)) [] after ∧
    (bullets tag nodes).Sublist between ∧
    (between = bullets tag nodes ↔
      ∀ node ∈ middle, node.name? = some tag ∨ isSilent node = true)

theorem collects_blocks {tag : String} {nodes : List Node} (hlisted : isListed tag = true)
    (hoccurs : tag ∈ elementNames nodes) (level : Nat) :
    Collects tag level nodes (blocks level nodes) := by
  obtain ⟨before, middle, after, hnodes, hbefore, hafter, hspans⟩ := exists_spans hoccurs
  obtain ⟨node, rest, hfirst, hnode⟩ := hspans.first
  obtain ⟨rest', node', hlast, hnode'⟩ := hspans.last
  obtain ⟨hsub, hiff⟩ := @blocksAmong_inside tag hlisted level
    (tag :: elementNames before) (tag :: elementNames after) List.mem_cons_self List.mem_cons_self
    middle
  have hbullets : bullets tag nodes = bullets tag middle := by
    rw [hnodes, bullets_append, bullets_append, bullets_eq_nil hbefore, bullets_eq_nil hafter,
      List.nil_append, List.append_nil]
  refine ⟨before, middle, after, _, hnodes, hspans, hbefore, hafter, ?_, hbullets ▸ hsub,
    hbullets ▸ hiff⟩
  have hswap : ∀ name, name ∈ elementNames middle ++ elementNames before ↔
      name ∈ elementNames (before ++ middle) := by
    intro name
    rw [elementNames_append]
    simp only [List.mem_append, or_comm]
  rw [blocks, blocksFrom_eq, hnodes, blocksAmong_append, blocksAmong_append, List.append_nil,
    List.append_nil, List.append_nil, blocksAmong_congr hswap fun _ => Iff.rfl]
  rw [hfirst, blocksAmong_first hlisted hbefore hnode, ← hfirst, hlast,
    blocksAmong_last hlisted hafter hnode', ← hlast]
  simp only [List.append_assoc, List.cons_append, List.nil_append]

/-- Of every listed name that occurs the bullets are collected under the first heading, which is
the only one of its wording but for sections that are called the same. -/
theorem render_listed {markup tag : String} {nodes : List Node} (hparse : parse markup = .ok nodes)
    (hlisted : isListed tag = true) (hoccurs : tag ∈ elementNames nodes) (level : Nat) :
    ∃ written : List Block,
      render markup level = .ok (String.ofList (written.flatMap Block.render)) ∧
      Collects tag (level + 1) nodes written ∧
      written.count (.heading (level + 1) (listHeading tag)) =
        1 + nodes.countP (isSection (listHeading tag)) := by
  refine ⟨blocks (level + 1) nodes, ?_, collects_blocks hlisted hoccurs (level + 1), ?_⟩
  · rw [render, hparse]
    rfl
  · rw [blocks, blocksFrom_eq, count_blocksAmong hlisted, if_pos ⟨hoccurs, List.not_mem_nil⟩]

/-- Two parameters with the return value between them. -/
def interleaved : List Node :=
  [.element "param" [("name", "a")] [.text "x"], .element "returns" [] [.text "r"],
    .element "param" [("name", "b")] [.text "y"]]

theorem parse_interleaved : parse (print interleaved) = .ok interleaved := by
  have hparam : IsName "param" := ⟨'p', "aram".toList, by decide, by decide, by decide⟩
  have hreturns : IsName "returns" := ⟨'r', "eturns".toList, by decide, by decide, by decide⟩
  have hkey : IsKey "name" := ⟨'n', "ame".toList, by decide, by decide, by decide⟩
  have hkeys : ∀ value : String, ∀ a ∈ [("name", value)], IsKey a.1 :=
    fun value a ha => List.mem_singleton.1 ha ▸ hkey
  have htext : ∀ content : String, content ≠ "" →
      Apart [.text content] ∧ NodesOk [.text content] :=
    fun content h => ⟨List.isChain_singleton _, h, trivial⟩
  refine parse_print ⟨?_, ⟨hparam, hkeys "a", htext "x" (by decide)⟩,
    ⟨hreturns, nofun, htext "r" (by decide)⟩, ⟨hparam, hkeys "b", htext "y" (by decide)⟩, trivial⟩
  simp [Apart, interleaved, Node.isText]

theorem render_listed_interleaved :
    (parse (print interleaved) = .ok interleaved ∧ isListed "param" = true ∧
      "param" ∈ elementNames interleaved) ∧
    ∃ written : List Block,
      render (print interleaved) 1 = .ok (String.ofList (written.flatMap Block.render)) ∧
      Collects "param" 2 interleaved written ∧
      written.count (.heading 2 (listHeading "param")) =
        1 + interleaved.countP (isSection (listHeading "param")) :=
  have hoccurs : "param" ∈ elementNames interleaved := by decide
  ⟨⟨parse_interleaved, rfl, hoccurs⟩, render_listed parse_interleaved rfl hoccurs 1⟩

/-- The second bullet stands below the heading of the return value. -/
theorem render_interleaved :
    print interleaved =
      "<param name=\"a\">x</param><returns>r</returns><param name=\"b\">y</param>" ∧
    render (print interleaved) 1 = .ok "## Parameters\n- a: x\n## Returns\nr\n\n- b: y\n\n" ∧
    ¬ [.heading 2 "Parameters", .bullet "a: x".toList, .bullet "b: y".toList, .gap]
      <:+: blocks 2 interleaved := by
  refine ⟨by decide +kernel, ?_, by decide +kernel⟩
  rw [render, parse_interleaved]
  exact congrArg Except.ok (by decide +kernel)

end Prose
end DocPages

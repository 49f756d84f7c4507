/-
Making folders.

A folder is made after those above it, each from the one before, so making it does not
depend on how much of the way is there already.  If a disk has a folder, then a disk that
has less but nothing else can get it.
-/
import DocPages.Proofs.Files.Locations
import Mathlib.Data.List.DropRight

namespace DocPages
namespace Disk

open DocPages.Path

/-! ## What is made -/

/-- The pieces of a path without the empty ones at its end. -/
def trimmed (ps : List (List Char)) : List (List Char) := ps.rdropWhile (·.isEmpty)

theorem meant_trimmed (ps : List (List Char)) : meant (trimmed ps) = meant ps := by
  have hempty : meant (ps.rtakeWhile (·.isEmpty)) = [] := by
    refine List.filterMap_eq_nil_iff.2 fun piece hpiece => ?_
    rw [List.isEmpty_iff.1 (List.mem_rtakeWhile_imp hpiece)]
    rfl
  conv_rhs => rw [← List.rdropWhile_append_rtakeWhile (p := (·.isEmpty)) (l := ps)]
  rw [meant_append, hempty, List.append_nil, trimmed]

theorem makeFolder_of_ok {d : Disk} {l target : Location} {ps : List (List Char)}
    (h : d.followAll l (trimmed ps) = .ok target) :
    d.makeFolder l ps =
      match d.node? target with
      | some _ => .error .exists_
      | none => .ok (d.put target .folder) := by
  rw [makeFolder, show (ps.reverse.dropWhile (·.isEmpty)).reverse = trimmed ps from rfl, h]
  rfl

theorem makeFolder_of_error {d : Disk} {l : Location} {ps : List (List Char)} {e : FileFailure}
    (h : d.followAll l (trimmed ps) = .error e) : d.makeFolder l ps = .error e := by
  rw [makeFolder, show (ps.reverse.dropWhile (·.isEmpty)).reverse = trimmed ps from rfl, h]
  rfl

theorem makeFolder_eq_ok {d d' : Disk} {l : Location} {ps : List (List Char)}
    (h : d.makeFolder l ps = .ok d') : Extends d d' ∧ d'.Open l (meant ps) := by
  cases hfollow : d.followAll l (trimmed ps) with
  | error e =>
      rw [makeFolder_of_error hfollow] at h
      cases h
  | ok target =>
      rw [makeFolder_of_ok hfollow] at h
      split at h
      · cases h
      · rename_i hnone
        cases h
        obtain ⟨hway, htarget⟩ := passable_of_followAll hfollow
        rw [meant_trimmed] at hway htarget
        have hext := extends_put hnone .folder
        refine ⟨hext, hway.grows hext.grows, ?_⟩
        rw [← htarget, node?_put (by rw [hnone]; exact nofun), if_pos rfl]

theorem ensureFolder_eq_ok {d d' : Disk} {l : Location} {ps : List (List Char)}
    (h : d.ensureFolder l ps = .ok d') : Extends d d' ∧ d'.Open l (meant ps) := by
  unfold ensureFolder at h
  split at h
  · rename_i hmake
    cases h
    exact makeFolder_eq_ok hmake
  · split at h
    · rename_i target hfollow
      split at h
      · rename_i hfolder
        cases h
        obtain ⟨hway, htarget⟩ := passable_of_followAll hfollow
        exact ⟨.refl d, hway, htarget ▸ hfolder⟩
      · cases h
    · cases h

/-- Folders are added to the disk, and if all goes well the first of them is there. -/
theorem ensureFolders_spec (d : Disk) (l : Location) (ts : List (List (List Char))) :
    Extends d (d.ensureFolders l ts).2 ∧
      (d.node? l = some .folder → (d.ensureFolders l ts).1 = .ok () →
        (d.ensureFolders l ts).2.Open l (meant (ts.headD []))) := by
  induction ts with
  | nil => exact ⟨.refl d, fun hl _ => ⟨trivial, hl⟩⟩
  | cons t above ih =>
      rw [List.headD_cons]
      unfold ensureFolders
      split
      · rename_i hfirst
        obtain ⟨hext, hopen⟩ := ensureFolder_eq_ok hfirst
        exact ⟨hext, fun _ _ => hopen⟩
      · split
        · split
          · rename_i habove
            rw [habove] at ih
            exact ⟨ih.1, nofun⟩
          · rename_i habove
            rw [habove] at ih
            split
            · rename_i hsecond
              obtain ⟨hext, hopen⟩ := ensureFolder_eq_ok hsecond
              exact ⟨ih.1.trans hext, fun _ _ => hopen⟩
            · exact ⟨ih.1, nofun⟩
        · exact ⟨.refl d, nofun⟩

/-- Making folders adds to the disk, and if it succeeds the folder is there. -/
theorem makeFolders_spec (d : Disk) (path : String) :
    Extends d (d.makeFolders path).2 ∧
      ((d.makeFolders path).1 = .ok () →
        (d.makeFolders path).2.Open (d.start path) (meant (pieces path))) := by
  unfold makeFolders
  split
  · rename_i hempty
    rw [String.isEmpty_iff.1 hempty]
    exact ⟨.refl d, fun _ => ⟨trivial, d.node?_start ""⟩⟩
  · split
    · exact ⟨.refl d, nofun⟩
    · obtain ⟨hext, hopen⟩ := ensureFolders_spec d (d.start path) (pieces path :: above path)
      exact ⟨hext, hopen (d.node?_start path)⟩

/-! ## On a disk that has less -/

theorem Grows.not_file {d e : Disk} (h : Grows d e) {l : Location} (hl : e.node? l = some .folder) :
    d.node? l = none ∨ d.node? l = some .folder := by
  cases hd : d.node? l with
  | none => exact .inl rfl
  | some n =>
      cases n with
      | folder => exact .inr rfl
      | file content =>
          obtain ⟨content', he⟩ := h.files l content hd
          rw [hl] at he
          cases he

theorem Grows.put {d e : Disk} (h : Grows d e) {l : Location} (hd : d.node? l = none)
    (he : e.node? l = some .folder) : Grows (d.put l .folder) e := by
  have hput := node?_put (d := d) (l := l) (by rw [hd]; exact nofun) .folder
  refine ⟨h.workingFolder, fun m hm => ?_, fun m content hm => ?_⟩
  · rw [hput] at hm
    split at hm
    · rename_i heq
      exact heq ▸ he
    · exact h.folders m hm
  · rw [hput] at hm
    split at hm
    · cases hm
    · exact h.files m content hm

/-- The way may end early where less has been made, but nothing else is in the way. -/
theorem followAll_smaller {d e : Disk} (h : Grows d e) {l : Location} {ps : List (List Char)}
    (ho : e.Open l (meant ps)) :
    d.followAll l ps = .ok (dest l (meant ps)) ∨ d.followAll l ps = .error .missing := by
  induction ps generalizing l with
  | nil => exact .inl rfl
  | cons piece rest ih =>
      rcases h.not_file ho.start with hnone | hl
      · refine .inr (followAll_cons_of_error ?_ rest)
        rw [follow, hnone]
      · cases hc : component? piece with
        | none =>
            rw [meant, List.filterMap_cons_none hc] at ho ⊢
            rw [followAll_cons_of_ok (follow_of_none hc hl)]
            exact ih ho
        | some c =>
            rw [meant, List.filterMap_cons_some hc] at ho ⊢
            rw [followAll_cons_of_ok (follow_of_some hc hl ho.1.2.1)]
            exact ih ⟨ho.1.2.2, ho.2⟩

/-- A folder can be made if the way to it is there. -/
theorem ensureFolder_smaller {d e : Disk} (h : Grows d e) {l target : Location}
    {ps : List (List Char)} (ho : e.Open l (meant ps))
    (hf : d.followAll l (trimmed ps) = .ok target) :
    ∃ d', d.ensureFolder l ps = .ok d' ∧ Grows d' e := by
  obtain ⟨hway, htarget⟩ := passable_of_followAll hf
  rw [meant_trimmed] at hway htarget
  have he : e.node? target = some .folder := htarget ▸ ho.2
  rcases h.not_file he with hnone | hfolder
  · have hmake : d.makeFolder l ps = .ok (d.put target .folder) := by
      rw [makeFolder_of_ok hf, hnone]
    exact ⟨d.put target .folder, by rw [ensureFolder, hmake], h.put hnone he⟩
  · have hmake : d.makeFolder l ps = .error .exists_ := by
      rw [makeFolder_of_ok hf, hfolder]
    have hopen : d.Open l (meant ps) := ⟨hway, htarget ▸ hfolder⟩
    refine ⟨d, ?_, h⟩
    rw [ensureFolder, hmake, hopen.followAll]
    exact if_pos hopen.2

theorem ensureFolder_of_missing {d : Disk} {l : Location} {ps : List (List Char)}
    (h : d.followAll l (trimmed ps) = .error .missing) :
    d.ensureFolder l ps = .ok d ∨ d.ensureFolder l ps = .error .missing := by
  rw [ensureFolder, makeFolder_of_error h]
  simp only
  split
  · split
    · exact .inl rfl
    · exact .inr rfl
  · exact .inr rfl

/-- Each path of a list is the next one and a name, down to the start. -/
def Chained : List (List (List Char)) → Prop
  | [] => True
  | t :: above =>
    (meant t = [] ∨ ∃ front piece c, trimmed t = front ++ [piece] ∧ component? piece = some c ∧
      meant front = meant (above.headD [])) ∧ Chained above

/-- Folders that another disk has can be made on a disk that has less. -/
theorem ensureFolders_smaller {e : Disk} {l : Location} {ts : List (List (List Char))}
    (hc : Chained ts) (ho : e.Open l (meant (ts.headD []))) {d : Disk} (h : Grows d e)
    (hd : d.node? l = some .folder) :
    (d.ensureFolders l ts).1 = .ok () ∧ Grows (d.ensureFolders l ts).2 e := by
  induction ts with
  | nil => exact ⟨rfl, h⟩
  | cons t above ih =>
      rw [List.headD_cons] at ho
      have hot : e.Open l (meant (trimmed t)) := by
        rw [meant_trimmed]
        exact ho
      unfold ensureFolders
      rcases followAll_smaller h hot with hf | hmissing
      · obtain ⟨d', hd', hgrows⟩ := ensureFolder_smaller h ho hf
        rw [hd']
        exact ⟨rfl, hgrows⟩
      · rcases ensureFolder_of_missing hmissing with hok | herror
        · rw [hok]
          exact ⟨rfl, h⟩
        · rw [herror]
          simp only [if_true]
          obtain ⟨hempty | ⟨front, piece, c, htrim, hpiece, hfront⟩, habove⟩ := hc
          · -- The start is always there.
            have hopen : d.Open l (meant (trimmed t)) := by
              rw [meant_trimmed, hempty]
              exact ⟨trivial, hd⟩
            rw [hopen.followAll] at hmissing
            cases hmissing
          · have hsplit : meant t = meant front ++ [c] := by
              rw [← meant_trimmed, htrim, meant_append]
              simp [meant, hpiece]
            have hofront : e.Open l (meant front ++ [c]) := hsplit ▸ ho
            obtain ⟨hok, hgrows⟩ := ih habove (hfront ▸ hofront.of_append)
            have hthere := (ensureFolders_spec d l above).2 hd hok
            rw [← hfront] at hthere
            have hf : (d.ensureFolders l above).2.followAll l (trimmed t) =
                .ok (goOn (dest l (meant front)) c) := by
              rw [htrim, followAll_append hthere.followAll]
              have hfit := (passable_append.1 hofront.1).2.2.1
              rw [followAll_cons_of_ok (follow_of_some hpiece hthere.2 hfit)]
              rfl
            obtain ⟨d', hd', hgrows'⟩ := ensureFolder_smaller hgrows ho hf
            generalize d.ensureFolders l above = made at hok hd'
            obtain ⟨outcome, d1⟩ := made
            cases hok
            simp only at hd'
            simp only [hd', true_and]
            exact hgrows'

/-! ## The folders above a path -/

/-- How a component is written. -/
def written? : Component → Option (List Char)
  | .root => none
  | .current => some ['.']
  | .parent => some ['.', '.']
  | .normal name => some name.toList

/-- The components of a path as they are written. -/
def namesOf (path : String) : List (List Char) := (components path).filterMap written?

theorem above_eq (path : String) :
    above path = (List.range' 1 ((namesOf path).length - 1)).reverse.map (namesOf path).take :=
  rfl

theorem headD_takes (names : List (List Char)) (n : Nat) :
    ((List.range' 1 n).reverse.map names.take).headD [] = names.take n := by
  cases n with
  | zero => rfl
  | succ n =>
      rw [List.range'_1_concat, List.reverse_append, List.reverse_singleton,
        List.singleton_append, List.map_cons, List.headD_cons, Nat.add_comm]

/-- A component that pieces stand for is written as one that stands for it. -/
theorem component?_written {ps : List (List Char)} {c : Component} (h : c ∈ meant ps) :
    ∃ piece, written? c = some piece ∧ piece ≠ [] ∧ component? piece = some c := by
  obtain ⟨piece, _, hc⟩ := List.mem_filterMap.1 h
  rcases component?_eq_some hc with ⟨rfl, rfl⟩ | ⟨hne, _, _, rfl⟩
  · exact ⟨_, rfl, by decide, rfl⟩
  · exact ⟨piece, by rw [written?, String.toList_ofList], hne, hc⟩

theorem namesOf_cases (path : String) :
    namesOf path = (meant (pieces path)).filterMap written? ∨
      namesOf path = ['.'] :: (meant (pieces path)).filterMap written? := by
  unfold namesOf
  rcases components_cases path with h | ⟨_, h⟩
  · rw [h, List.filterMap_append, origin]
    split <;> exact .inl rfl
  · rw [h]
    exact .inr rfl

theorem meant_filterMap_written (ps : List (List Char)) :
    meant ((meant ps).filterMap written?) = meant ps := by
  have hback : ∀ c ∈ meant ps, ((written? c).bind component?) = some c := by
    intro c hc
    obtain ⟨piece, hpiece, _, hcomponent⟩ := component?_written hc
    rw [hpiece, Option.bind_some, hcomponent]
  rw [meant, List.filterMap_filterMap, List.filterMap_congr hback]
  exact List.filterMap_some

theorem meant_namesOf (path : String) : meant (namesOf path) = meant (pieces path) := by
  rcases namesOf_cases path with h | h <;> rw [h]
  · exact meant_filterMap_written _
  · rw [meant, List.filterMap_cons_none (by rfl)]
    exact meant_filterMap_written _

/-- Only the first name may be a dot. -/
structure Named (names : List (List Char)) : Prop where
  filled : ∀ name ∈ names, name ≠ []
  tail : ∀ name ∈ names.tail, component? name ≠ none

theorem named_namesOf (path : String) : Named (namesOf path) := by
  have hwritten : ∀ name ∈ (meant (pieces path)).filterMap written?,
      name ≠ [] ∧ component? name ≠ none := by
    intro name hname
    obtain ⟨c, hc, hname⟩ := List.mem_filterMap.1 hname
    obtain ⟨piece, hpiece, hne, hcomponent⟩ := component?_written hc
    rw [hname, Option.some.injEq] at hpiece
    subst hpiece
    exact ⟨hne, by rw [hcomponent]; exact nofun⟩
  rcases namesOf_cases path with h | h <;> rw [h]
  · exact ⟨fun name hname => (hwritten name hname).1,
      fun name hname => (hwritten name (List.mem_of_mem_tail hname)).2⟩
  · refine ⟨fun name hname => ?_, fun name hname => (hwritten name hname).2⟩
    rcases List.mem_cons.1 hname with rfl | hname
    · exact nofun
    · exact (hwritten name hname).1

theorem trimmed_concat {piece : List Char} (h : piece ≠ []) (front : List (List Char)) :
    trimmed (front ++ [piece]) = front ++ [piece] :=
  List.rdropWhile_concat_neg _ _ _ (by simpa using h)

theorem chained_takes {names : List (List Char)} (h : Named names) {n : Nat}
    (hn : n ≤ names.length) : Chained ((List.range' 1 n).reverse.map names.take) := by
  induction n with
  | zero => trivial
  | succ n ih =>
      rw [List.range'_1_concat, List.reverse_append, List.reverse_singleton,
        List.singleton_append, List.map_cons, Nat.add_comm]
      refine ⟨?_, ih (Nat.le_of_succ_le hn)⟩
      have hlt : n < names.length := Nat.lt_of_succ_le hn
      rw [headD_takes, List.take_succ_eq_append_getElem hlt,
        trimmed_concat (h.filled _ (List.getElem_mem hlt))]
      cases hc : component? names[n] with
      | some c => exact .inr ⟨names.take n, names[n], c, rfl, hc, rfl⟩
      | none =>
          cases n with
          | zero => exact .inl (by simp [meant, hc])
          | succ k =>
              refine absurd hc (h.tail _ ?_)
              rw [← List.getElem_tail (by simpa using Nat.lt_sub_of_add_lt hlt)]
              exact List.getElem_mem _

theorem exists_concat_of_named {names : List (List Char)} (h : Named names)
    (hne : meant names ≠ []) :
    ∃ front last c, names = front ++ [last] ∧ component? last = some c ∧
      meant names = meant front ++ [c] := by
  rcases List.eq_nil_or_concat' names with rfl | ⟨front, last, rfl⟩
  · exact absurd rfl hne
  · cases hc : component? last with
    | some c => exact ⟨front, last, c, rfl, hc, by simp [meant, hc]⟩
    | none =>
        cases front with
        | nil => exact absurd (by simp [meant, hc]) hne
        | cons first more => exact absurd hc (h.tail last (by simp))

/-- The last piece of a path that is not empty. -/
def lastPiece? (path : String) : Option (List Char) :=
  ((pieces path).filter (!·.isEmpty)).getLast?

theorem lastPiece?_of_trimmed {path : String} {front : List (List Char)} {piece : List Char}
    (h : trimmed (pieces path) = front ++ [piece]) : piece ≠ [] ∧ lastPiece? path = some piece := by
  have hne : piece ≠ [] := by
    have hlast := List.rdropWhile_last_not (fun t : List Char => t.isEmpty) (pieces path)
      (by rw [← trimmed, h]; simp)
    simp only [← trimmed.eq_1, h] at hlast
    simpa using hlast
  refine ⟨hne, ?_⟩
  have hempty : ((pieces path).rtakeWhile (·.isEmpty)).filter (!·.isEmpty) = [] := by
    refine List.filter_eq_nil_iff.2 fun t ht => ?_
    simpa using List.mem_rtakeWhile_imp ht
  rw [lastPiece?, ← List.rdropWhile_append_rtakeWhile (p := (·.isEmpty)) (l := pieces path),
    List.filter_append, hempty, List.append_nil, ← trimmed, h, List.filter_append,
    List.filter_cons_of_pos (by simpa using hne)]
  simp

/-- A folder is made from those above it, unless its path ends with a dot, which can only
be followed when the folder is there. -/
theorem chained_above {path : String} (h : lastPiece? path ≠ some ['.']) :
    Chained (pieces path :: above path) := by
  refine ⟨?_, chained_takes (named_namesOf path) (Nat.sub_le _ _)⟩
  rw [above_eq, headD_takes]
  rcases List.eq_nil_or_concat' (trimmed (pieces path)) with hnil | ⟨front, piece, htrim⟩
  · rw [← meant_trimmed, hnil]
    exact .inl rfl
  · obtain ⟨hne, hlast⟩ := lastPiece?_of_trimmed htrim
    have hdot : piece ≠ ['.'] := fun heq => h (heq ▸ hlast)
    obtain ⟨c, hc⟩ : ∃ c, component? piece = some c := by
      unfold component?
      rw [if_neg (by simp [hne, hdot])]
      split <;> exact ⟨_, rfl⟩
    have hmeant : meant (namesOf path) = meant front ++ [c] := by
      rw [meant_namesOf, ← meant_trimmed, htrim, meant_append]
      simp [meant, hc]
    obtain ⟨upper, last, c', hnames, _, hupper⟩ :=
      exists_concat_of_named (named_namesOf path) (by rw [hmeant]; simp)
    refine .inr ⟨front, piece, c, htrim, hc, ?_⟩
    rw [hmeant] at hupper
    rw [hnames, List.length_append, List.length_singleton, Nat.add_sub_cancel, List.take_left]
    exact (List.append_inj' hupper rfl).1

theorem lastPiece?_join {piece : String} (h : isAbsolute piece = false) (path : String)
    (hne : lastPiece? piece ≠ none) : lastPiece? (join path piece) = lastPiece? piece := by
  obtain ⟨front, hpieces, _⟩ := pieces_join h path
  rw [lastPiece?, hpieces, List.filter_append]
  exact List.getLast?_append_of_ne_nil _ (by simpa [lastPiece?] using hne)

theorem lastPiece?_of_no_dot {path : String} (h : '.' ∉ path.toList) :
    lastPiece? path ≠ some ['.'] := by
  intro hlast
  have hmem := (List.mem_filter.1 (List.mem_of_getLast? hlast)).1
  exact dot_notMem_of_mem_pieces h hmem List.mem_cons_self

theorem lastPiece?_of_isName {name : String} (h : IsName name) :
    lastPiece? name = some name.toList ∧ name.toList ≠ ['.'] := by
  rcases component?_eq_some h.1 with ⟨_, hup⟩ | ⟨hne, hdot, _, _⟩
  · cases hup
  · refine ⟨?_, hdot⟩
    rw [lastPiece?, h.pieces_eq, List.filter_cons_of_pos (by simpa using hne)]
    rfl

/-- A path that does not start with a slash starts with something. -/
theorem lastPiece?_ne_none {path : String} (hne : path ≠ "") (h : isAbsolute path = false) :
    lastPiece? path ≠ none := by
  obtain ⟨c, rest, hpath⟩ := List.exists_cons_of_ne_nil
    (show path.toList ≠ [] by simpa using hne)
  have hc : (c == '/') = false := by
    rw [isAbsolute, hpath, List.head?_cons, beq_eq_false_iff_ne] at h
    rw [beq_eq_false_iff_ne]
    rintro rfl
    exact h rfl
  have hfirst : ∃ first more, pieces path = (c :: first) :: more := by
    obtain ⟨first, more, hsplit⟩ :=
      List.exists_cons_of_ne_nil (Text.splitAt_ne_nil (p := (· == '/')) rest)
    refine ⟨first, more, ?_⟩
    rw [pieces, hpath, Text.splitAt, hc, hsplit]
    rfl
  obtain ⟨first, more, hpieces⟩ := hfirst
  rw [lastPiece?, hpieces, List.filter_cons_of_pos (by rfl)]
  simp

/-- The folder of a namespace ends with the package or with a part of the dotted path. -/
theorem lastPiece?_namespaceFolder (root : String) {package : String} (h : IsName package)
    (directory : String) : lastPiece? (namespaceFolder root package directory) ≠ some ['.'] := by
  have hpackage : lastPiece? (join root package) ≠ some ['.'] := by
    obtain ⟨hlast, hdot⟩ := lastPiece?_of_isName h
    rw [lastPiece?_join h.relative root (by rw [hlast]; exact nofun), hlast]
    exact fun heq => hdot (Option.some.inj heq)
  have hparts := fun part (hpart : part ∈ parts directory) => mem_parts hpart
  rw [namespaceFolder_eq]
  generalize join root package = path at hpackage
  generalize parts directory = ps at hparts
  induction ps generalizing path with
  | nil => exact hpackage
  | cons part rest ih =>
      refine ih _ ?_ fun q hq => hparts q (List.mem_cons_of_mem _ hq)
      obtain ⟨hne, hdot⟩ := hparts part List.mem_cons_self
      cases habs : isAbsolute part with
      | true =>
          rw [join, if_pos habs]
          exact lastPiece?_of_no_dot hdot
      | false =>
          rw [lastPiece?_join habs path (lastPiece?_ne_none hne habs)]
          exact lastPiece?_of_no_dot hdot

/-- Making a folder that another disk has works on a disk that has less. -/
theorem makeFolders_smaller {d e : Disk} (h : Grows d e) {path : String}
    (hchecked : path = "" ∨ checked path = .ok ()) (hdot : lastPiece? path ≠ some ['.'])
    (ho : e.Open (e.start path) (meant (pieces path))) :
    (d.makeFolders path).1 = .ok () ∧ Grows (d.makeFolders path).2 e := by
  rw [h.start] at ho
  unfold makeFolders
  split
  · exact ⟨rfl, h⟩
  · rename_i hne
    have hok : checked path = .ok () := hchecked.resolve_left (by simpa using hne)
    rw [hok]
    exact ensureFolders_smaller (chained_above hdot) ho h (d.node?_start path)

/-- Folders that lead to one that another disk has can be made as well. -/
theorem ensureFolders_above_smaller {d e : Disk} (h : Grows d e) {path : String}
    (ho : e.Open (e.start path) (meant (pieces path))) (short : Nat) :
    Grows (d.ensureFolders (d.start path) ((above path).drop short)).2 e := by
  have hdrop : (above path).drop short =
      (List.range' 1 ((namesOf path).length - 1 - short)).reverse.map (namesOf path).take := by
    have htake : ∀ n, (List.range' 1 n).take (n - short) = List.range' 1 (n - short) :=
      fun n => List.ext_getElem (by simp) (by simp)
    rw [above_eq, ← List.map_drop, List.drop_reverse, List.length_range', htake]
  have hupper : e.Open (d.start path)
      (meant ((namesOf path).take ((namesOf path).length - 1 - short))) := by
    rw [h.start, ← meant_namesOf, ← List.take_append_drop ((namesOf path).length - 1 - short)
      (namesOf path), meant_append] at ho
    exact ho.of_append
  rw [hdrop]
  refine (ensureFolders_smaller (chained_takes (named_namesOf path) ?_) ?_ h
    (d.node?_start path)).2
  · exact Nat.le_trans (Nat.sub_le _ _) (Nat.sub_le _ _)
  · rw [headD_takes]
    exact hupper

end Disk
end DocPages

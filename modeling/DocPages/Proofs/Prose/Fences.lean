/-
The fence around markup that cannot be read.

The names that a fault quotes stand in the comment (`infix_of_quoted`), and the message puts no
backtick beside them, so no run of backticks in it is longer than the longest of the comment
(`longestTicks_message_le`).  The fence is longer than that, and stands in the block where it was
put and nowhere else: `faultBlock_fenced`.

This is about runs as long as the fence.  A closing tag may reach over several lines, and then a
shorter run that it holds may stand on a line of its own in the message.
-/
import DocPages.Prose
import DocPages.Proofs.Markup.Joining
import DocPages.Proofs.Text.Digits
import DocPages.Proofs.Text.Marks

namespace DocPages
namespace Markup

open Text

/-! ## What a fault quotes -/

/-- The name of a tag that is read. -/
def Sign.name? : Sign → Option String
  | .opening name _ | .selfClosing name _ | .closing name => some name
  | .text _ | .incomplete => none

/-- The names of tags in the message of a fault. -/
def Fault.names : Fault → List String
  | .mismatchedClose expected found _ => [found, expected]
  | .unopenedClose name | .unclosed name => [name]
  | .malformedTag _ => []

theorem Reads.holds_name {s rest : List Char} {sign : Sign} {name : String} (h : Reads s sign rest)
    (hname : sign.name? = some name) : name.toList <:+: s := by
  cases h with
  | @closing body written rest h =>
      obtain rfl := Option.some.inj hname
      have hbody : written <:+: '<' :: ("/".toList ++ body) := by
        rw [h.1]
        exact ⟨['<', '/'], ">".toList ++ rest, by simp⟩
      rw [String.toList_ofList]
      exact (infix_trim written).trans hbody
  | @opening name s rest attributes =>
      obtain rfl := Option.some.inj hname
      exact ⟨['<'], s, rfl⟩
  | @selfClosing name s rest attributes =>
      obtain rfl := Option.some.inj hname
      exact ⟨['<'], s, rfl⟩
  | _ => cases hname

theorem Cut.holds_name {s : List Char} {pieces : List Piece} {name : String} (h : Cut s pieces)
    (hname : ∃ piece ∈ pieces, piece.sign.name? = some name) : name.toList <:+: s := by
  obtain ⟨piece, hpiece, hname⟩ := hname
  induction h with
  | nil => cases hpiece
  | piece h _ ih =>
      rcases List.mem_cons.1 hpiece with rfl | hpiece
      · exact h.holds_name hname
      · exact (ih hpiece).trans (List.suffix_append _ _).isInfix
  | incomplete _ =>
      obtain rfl := List.mem_singleton.1 hpiece
      cases hname

theorem LeavesOpen.exists_opening {signs : List Sign} {names : List String} {name : String}
    (h : LeavesOpen signs names) (hname : name ∈ names) :
    ∃ sign ∈ signs, sign.name? = some name := by
  induction h with
  | flat _ => cases hname
  | inside _ last attributes _ ih =>
      rcases List.mem_cons.1 hname with rfl | hname
      · exact ⟨_, List.mem_append_right _ List.mem_cons_self, rfl⟩
      · obtain ⟨sign, hsign, hs⟩ := ih hname
        exact ⟨sign, List.mem_append_left _ hsign, hs⟩

/-- Every name in a fault is that of a piece. -/
theorem Outcome.exists_quoted {pieces : List Piece} {fault : Fault} {name : String}
    (h : Outcome pieces (.error fault)) (hname : name ∈ fault.names) :
    ∃ piece ∈ pieces, piece.sign.name? = some name := by
  have hopened : ∀ {front : List Piece} {names : List String}, front ⊆ pieces →
      LeavesOpen (front.map Piece.sign) names → name ∈ names →
        ∃ piece ∈ pieces, piece.sign.name? = some name := by
    intro front names hfront hopen hmem
    obtain ⟨sign, hsign, hs⟩ := hopen.exists_opening hmem
    obtain ⟨piece, hpiece, rfl⟩ := List.mem_map.1 hsign
    exact ⟨piece, hfront hpiece, hs⟩
  cases h with
  | @fault before after piece names _ hpieces hbefore h =>
      subst hpieces
      have hfront : before ⊆ before ++ piece :: after := List.subset_append_left _ _
      have hpiece : piece ∈ before ++ piece :: after :=
        List.mem_append_right _ List.mem_cons_self
      generalize hsign : piece.sign = sign at h
      cases h with
      | malformed => cases hname
      | unopened =>
          obtain rfl := List.mem_singleton.1 hname
          exact ⟨piece, hpiece, by rw [hsign]; rfl⟩
      | mismatched _ =>
          rcases List.mem_cons.1 hname with rfl | hname
          · exact ⟨piece, hpiece, by rw [hsign]; rfl⟩
          · obtain rfl := List.mem_singleton.1 hname
            exact hopened hfront hbefore List.mem_cons_self
  | unclosed h =>
      obtain rfl := List.mem_singleton.1 hname
      exact hopened (List.Subset.refl _) h List.mem_cons_self

/-- What a fault quotes stands in the comment. -/
theorem infix_of_quoted {raw name : String} {fault : Fault} (h : parse raw = .error fault)
    (hname : name ∈ fault.names) : name.toList <:+: raw.toList := by
  obtain ⟨pieces, hcut, houtcome⟩ := parse_eq_iff raw
  exact ((hcut pieces).2 rfl).holds_name (((houtcome _).1 h).exists_quoted hname)

end Markup

namespace Prose

open Text Markup

/-! ## Runs of backticks -/

/-- A run of backticks. -/
def ticks (n : Nat) : List Char := List.replicate n '`'

theorem notMem_ticks {c : Char} (hc : c ≠ '`') (n : Nat) : c ∉ ticks n := by
  intro hmem
  exact hc (List.eq_of_mem_replicate hmem)

theorem ticks_append_cons (run : Nat) (s : List Char) :
    ticks run ++ '`' :: s = ticks (run + 1) ++ s := by
  rw [ticks, ticks, List.replicate_succ', List.append_assoc, List.singleton_append]

theorem ticks_infix_ticks_iff {n run : Nat} : ticks n <:+: ticks run ↔ n ≤ run := by
  constructor
  · intro h
    simpa only [ticks, List.length_replicate] using h.length_le
  · intro h
    refine ⟨[], ticks (run - n), ?_⟩
    rw [ticks, ticks, ticks, List.nil_append, List.replicate_append_replicate,
      Nat.add_sub_cancel' h]

theorem ticks_infix_append_iff {n run : Nat} {s : List Char} :
    ticks n <:+: ticks run ++ s ↔ n ≤ longestTicks run s := by
  induction s generalizing run with
  | nil => rw [List.append_nil, longestTicks, ticks_infix_ticks_iff]
  | cons c s ih =>
      rw [longestTicks]
      split
      · rename_i hc
        rw [hc, ticks_append_cons, ih]
      · rename_i hc
        have hrest : ticks n <:+: s ↔ n ≤ longestTicks 0 s := @ih 0
        rw [infix_append_cons_iff (notMem_ticks hc n), ticks_infix_ticks_iff, hrest]
        omega

/-- The runs that stand in a text are those that are no longer than the longest. -/
theorem ticks_infix_iff {n : Nat} {s : List Char} : ticks n <:+: s ↔ n ≤ longestTicks 0 s :=
  @ticks_infix_append_iff n 0 s

theorem longestTicks_mono {s t : List Char} (h : s <:+: t) : longestTicks 0 s ≤ longestTicks 0 t :=
  ticks_infix_iff.1 ((ticks_infix_iff.2 (Nat.le_refl _)).trans h)

theorem longestTicks_append_cons {c : Char} (hc : c ≠ '`') (a b : List Char) :
    longestTicks 0 (a ++ c :: b) = max (longestTicks 0 a) (longestTicks 0 b) := by
  refine Nat.le_antisymm ?_ (Nat.max_le.2 ⟨?_, ?_⟩)
  · have hlongest := ticks_infix_iff.2 (Nat.le_refl (longestTicks 0 (a ++ c :: b)))
    rw [infix_append_cons_iff (notMem_ticks hc _), ticks_infix_iff, ticks_infix_iff] at hlongest
    omega
  · exact longestTicks_mono (List.prefix_append _ _).isInfix
  · exact longestTicks_mono ((List.suffix_cons _ _).trans (List.suffix_append _ _)).isInfix

theorem longestTicks_of_notMem {s : List Char} (h : '`' ∉ s) : longestTicks 0 s = 0 := by
  induction s with
  | nil => rfl
  | cons c s ih =>
      obtain ⟨hc, hs⟩ := not_or.1 (List.mem_cons.not.1 h)
      rw [longestTicks, if_neg (Ne.symm hc), ih hs]
      rfl

/-! ## The message -/

theorem longestTicks_append_of_notMem {words : List Char} (h : '`' ∉ words) (s : List Char) :
    longestTicks 0 (words ++ s) = longestTicks 0 s := by
  induction words with
  | nil => rfl
  | cons c words ih =>
      obtain ⟨hc, hwords⟩ := not_or.1 (List.mem_cons.not.1 h)
      rw [List.cons_append, longestTicks, if_neg (Ne.symm hc), Nat.zero_max, ih hwords]

/-- A run ends where words of the message go on. -/
theorem longestTicks_append_words {words : List Char} (h : '`' ∉ words) (hne : words ≠ [])
    (a b : List Char) :
    longestTicks 0 (a ++ (words ++ b)) = max (longestTicks 0 a) (longestTicks 0 b) := by
  obtain ⟨c, more, rfl⟩ := List.exists_cons_of_ne_nil hne
  obtain ⟨hc, hmore⟩ := not_or.1 (List.mem_cons.not.1 h)
  rw [List.cons_append, longestTicks_append_cons (Ne.symm hc), longestTicks_append_of_notMem hmore]

theorem longestTicks_append_last_words {words : List Char} (h : '`' ∉ words) (hne : words ≠ [])
    (a : List Char) : longestTicks 0 (a ++ words) = longestTicks 0 a := by
  rw [← List.append_nil words, longestTicks_append_words h hne]
  exact Nat.max_zero _

/-- The runs in the message are those of the names that it quotes. -/
theorem longestTicks_message_le {bound : Nat} {fault : Fault}
    (h : ∀ name ∈ fault.names, longestTicks 0 name.toList ≤ bound) :
    longestTicks 0 fault.message.toList ≤ bound := by
  unfold Fault.message
  cases fault with
  | mismatchedClose expected found offset =>
      have hfound := h found List.mem_cons_self
      have hexpected := h expected (List.mem_cons_of_mem _ List.mem_cons_self)
      simp only [String.toList_append, List.append_assoc]
      rw [longestTicks_append_of_notMem (by decide +kernel),
        longestTicks_append_words (by decide +kernel) (by decide +kernel),
        longestTicks_append_words (by decide +kernel) (by decide +kernel),
        longestTicks_append_last_words (by decide +kernel) (by decide +kernel),
        longestTicks_of_notMem (notMem_toString (by decide) offset), Nat.zero_max]
      exact Nat.max_le.2 ⟨hfound, hexpected⟩
  | unopenedClose name =>
      simp only [String.toList_append, List.append_assoc]
      rw [longestTicks_append_of_notMem (by decide +kernel),
        longestTicks_append_last_words (by decide +kernel) (by decide +kernel)]
      exact h name List.mem_cons_self
  | unclosed name =>
      simp only [String.toList_append, List.append_assoc]
      rw [longestTicks_append_of_notMem (by decide +kernel),
        longestTicks_append_last_words (by decide +kernel) (by decide +kernel)]
      exact h name List.mem_cons_self
  | malformedTag offset =>
      rw [String.toList_append, longestTicks_append_of_notMem (by decide +kernel),
        longestTicks_of_notMem (notMem_toString (by decide) offset)]
      exact Nat.zero_le _

/-! ## The block -/

section Block

variable (fault : Fault) (raw : String)

/-- The notice above the fence. -/
def notice : List Char :=
  "> **Documentation parse error:** ".toList ++ fault.message.toList ++ "\n\n".toList

/-- One backtick more than the longest run in the markup, and three at least. -/
def fence : List Char := ticks (max (longestTicks 0 raw.toList) 2 + 1)

/-- What stands between the fences. -/
def fenced : List Char := "xml\n".toList ++ raw.toList ++ "\n".toList

theorem faultBlock_toList :
    (faultBlock fault raw).toList =
      notice fault ++ fence raw ++ fenced raw ++ fence raw ++ "\n\n".toList := by
  unfold faultBlock notice fence fenced ticks
  simp only [String.toList_append, String.toList_ofList, List.append_assoc]

theorem notMem_fence {c : Char} (hc : c ≠ '`') : c ∉ fence raw := notMem_ticks hc _

theorem fence_notIn {s : List Char} (h : longestTicks 0 s ≤ longestTicks 0 raw.toList) :
    ¬ fence raw <:+: s := by
  rw [fence, ticks_infix_iff]
  omega

theorem fence_notIn_of_notMem {s : List Char} (h : '`' ∉ s) : ¬ fence raw <:+: s := by
  apply fence_notIn
  rw [longestTicks_of_notMem h]
  exact Nat.zero_le _

end Block

variable {fault : Fault} {raw : String}

/-- What the notice says holds no run as long as the fence. -/
theorem exists_notice (h : parse raw = .error fault) :
    ∃ said, notice fault = said ++ ['\n', '\n'] ∧ ¬ fence raw <:+: said := by
  refine ⟨"> **Documentation parse error:** ".toList ++ fault.message.toList, ?_, ?_⟩
  · unfold notice
    congr 1
  · apply fence_notIn
    rw [longestTicks_append_of_notMem (by decide +kernel)]
    exact longestTicks_message_le fun name hname => longestTicks_mono (infix_of_quoted h hname)

theorem fenced_eq : fenced raw = "xml".toList ++ '\n' :: (raw.toList ++ ['\n']) := by
  have hopen : "xml\n".toList = "xml".toList ++ ['\n'] := rfl
  have hbreak : "\n".toList = ['\n'] := rfl
  unfold fenced
  rw [hopen, hbreak, List.append_assoc, List.append_assoc, List.singleton_append]

/-- The fence stands in two places. -/
theorem faultBlock_places (h : parse raw = .error fault) (before after : List Char) :
    (faultBlock fault raw).toList = before ++ fence raw ++ after ↔
      (before = notice fault ∧ after = fenced raw ++ fence raw ++ "\n\n".toList) ∨
      (before = notice fault ++ fence raw ++ fenced raw ∧ after = "\n\n".toList) := by
  have hbreak : '\n' ∉ fence raw := notMem_fence raw (by decide)
  have hletter : 'x' ∉ fence raw := notMem_fence raw (by decide)
  have hempty : ¬ fence raw <:+: [] := fence_notIn_of_notMem raw List.not_mem_nil
  -- An `x` stands behind the first fence, and line breaks stand around the second.
  obtain ⟨front, hnotice, hfront⟩ :
      ∃ front, notice fault = front ++ ['\n'] ∧ ¬ fence raw <:+: front := by
    obtain ⟨said, hnotice, hsaid⟩ := exists_notice h
    refine ⟨said ++ ['\n'], by rw [hnotice, List.append_assoc]; rfl, ?_⟩
    rw [infix_append_cons_iff hbreak, not_or]
    exact ⟨hsaid, hempty⟩
  obtain ⟨inner, hfenced, hinner⟩ :
      ∃ inner, fenced raw = 'x' :: (inner ++ ['\n']) ∧ ¬ fence raw <:+: inner := by
    refine ⟨"ml".toList ++ '\n' :: raw.toList, by rw [fenced_eq]; rfl, ?_⟩
    rw [infix_append_cons_iff hbreak, not_or]
    exact ⟨fence_notIn_of_notMem raw (by decide), fence_notIn raw (Nat.le_refl _)⟩
  have hend : ¬ fence raw <:+: ['\n'] := fence_notIn_of_notMem raw (by decide)
  have hbreaks : "\n\n".toList = ['\n', '\n'] := rfl
  have hblock : (faultBlock fault raw).toList =
      front ++ '\n' :: (fence raw ++ 'x' :: (inner ++ '\n' :: (fence raw ++ '\n' :: ['\n']))) := by
    rw [faultBlock_toList, hnotice, hfenced, hbreaks]
    simp only [List.append_assoc, List.cons_append, List.nil_append]
  have hsecond : ∀ more : List Char,
      inner ++ '\n' :: (fence raw ++ '\n' :: ['\n']) = more ++ fence raw ++ after ↔
        more = inner ++ ['\n'] ∧ after = ['\n', '\n'] := by
    intro more
    rw [eq_append_first_mark_iff hbreak hbreak hinner, or_iff_left]
    rintro ⟨rest, hrest, _⟩
    exact hend ⟨rest, after, hrest.symm⟩
  rw [hblock, eq_append_first_mark_iff hbreak hletter hfront, hnotice, hfenced, hbreaks]
  have hrest : 'x' :: (inner ++ '\n' :: (fence raw ++ '\n' :: ['\n'])) =
      'x' :: (inner ++ ['\n']) ++ fence raw ++ ['\n', '\n'] := by
    simp only [List.append_assoc, List.cons_append, List.nil_append]
  rw [hrest]
  refine or_congr_right ?_
  constructor
  · rintro ⟨more, hmore, rfl⟩
    obtain ⟨rfl, rfl⟩ := (hsecond more).1 hmore
    simp
  · rintro ⟨rfl, rfl⟩
    exact ⟨inner ++ ['\n'], (hsecond _).2 ⟨rfl, rfl⟩, by simp⟩

/-- Of all lines of the block the fences alone hold a run of that length. -/
theorem faultBlock_lines (h : parse raw = .error fault) :
    (splitAt (· == '\n') (faultBlock fault raw).toList).filter (occurs (fence raw)) =
      [fence raw ++ "xml".toList, fence raw] := by
  obtain ⟨said, hnotice, hsaid⟩ := exists_notice h
  have hbreaks : "\n\n".toList = ['\n', '\n'] := rfl
  have hblock : (faultBlock fault raw).toList =
      said ++ '\n' :: ([] ++ '\n' :: ((fence raw ++ "xml".toList) ++ '\n' ::
        (raw.toList ++ '\n' :: (fence raw ++ '\n' :: ([] ++ '\n' :: []))))) := by
    rw [faultBlock_toList, hnotice, fenced_eq, hbreaks]
    simp only [List.append_assoc, List.cons_append, List.nil_append]
  have hempty : ¬ fence raw <:+: [] := fence_notIn_of_notMem raw List.not_mem_nil
  have hraw : ¬ fence raw <:+: raw.toList := fence_notIn raw (Nat.le_refl _)
  have hline : ∀ c ∈ fence raw, (c == '\n') = false := by
    rintro c hc
    rw [List.eq_of_mem_replicate hc]
    rfl
  have hopening : ∀ c ∈ fence raw ++ "xml".toList, (c == '\n') = false :=
    List.forall_mem_append.2 ⟨hline, by decide⟩
  have hsplit : ∀ a b : List Char,
      (splitAt (· == '\n') (a ++ '\n' :: b)).filter (occurs (fence raw)) =
        (splitAt (· == '\n') a).filter (occurs (fence raw)) ++
          (splitAt (· == '\n') b).filter (occurs (fence raw)) := by
    intro a b
    rw [splitAt_append (by rfl), List.filter_append]
  rw [hblock]
  simp only [hsplit]
  rw [filter_occurs_splitAt hsaid, filter_occurs_splitAt hempty, filter_occurs_splitAt hraw,
    filter_occurs_line hopening (List.prefix_append _ _).isInfix,
    filter_occurs_line hline List.infix_rfl]
  rfl

/-- A comment that cannot be read is shown between two fences of three backticks or more.  The
fence stands nowhere else in the block, and so the comment and what the message quotes of it
neither open nor close it. -/
theorem faultBlock_fenced (h : parse raw = .error fault) :
    (∃ n, 3 ≤ n ∧ fence raw = ticks n) ∧
    (faultBlock fault raw).toList =
      notice fault ++ fence raw ++ fenced raw ++ fence raw ++ "\n\n".toList ∧
    (∀ before after, (faultBlock fault raw).toList = before ++ fence raw ++ after ↔
      (before = notice fault ∧ after = fenced raw ++ fence raw ++ "\n\n".toList) ∨
      (before = notice fault ++ fence raw ++ fenced raw ∧ after = "\n\n".toList)) ∧
    (¬ fence raw <:+: raw.toList ∧ ¬ fence raw <:+: fault.message.toList) ∧
    (splitAt (· == '\n') (faultBlock fault raw).toList).filter (occurs (fence raw)) =
      [fence raw ++ "xml".toList, fence raw] := by
  refine ⟨⟨_, ?_, rfl⟩, faultBlock_toList fault raw, faultBlock_places h,
    ⟨fence_notIn raw (Nat.le_refl _), ?_⟩, faultBlock_lines h⟩
  · omega
  · exact fence_notIn raw (longestTicks_message_le fun name hname =>
      longestTicks_mono (infix_of_quoted h hname))

/-- The closing tag reaches over three lines, and the second of them is a run of its own. -/
def tickedSample : String := "<b>``</x\n```\n>"

def tickedFault : Fault := .mismatchedClose "b" "x\n```" 5

theorem faultBlock_fenced_tickedSample :
    parse tickedSample = .error tickedFault ∧ fence tickedSample = ticks 4 ∧
    (∀ before after, (faultBlock tickedFault tickedSample).toList =
        before ++ fence tickedSample ++ after ↔
      (before = notice tickedFault ∧
        after = fenced tickedSample ++ fence tickedSample ++ "\n\n".toList) ∨
      (before = notice tickedFault ++ fence tickedSample ++ fenced tickedSample ∧
        after = "\n\n".toList)) ∧
    (splitAt (· == '\n') (faultBlock tickedFault tickedSample).toList).filter
      (occurs (fence tickedSample)) = ["````xml".toList, "````".toList] := by
  have hparse : parse tickedSample = .error tickedFault := eq_error_of_faultOf (by decide +kernel)
  obtain ⟨_, _, hplaces, _, hlines⟩ := faultBlock_fenced hparse
  have hfence : fence tickedSample = "````".toList := by decide +kernel
  refine ⟨hparse, hfence, hplaces, ?_⟩
  rw [hlines, hfence]
  decide +kernel

end Prose
end DocPages

/-
Items sorted by group and name.

A kind that the order does not list is ranked by its first appearance in the very list that is
sorted.  `KindTable.place` says the same without ranks: the place of a kind is that of its
first occurrence in the order followed by the kinds of the items.  Two kinds of the list never
share a place, which is what keeps the items of one kind together.

`Sorts` is what it is to be sorted, and only one list is: `sortBy_stable`.
-/
import DocPages.Kind
import Mathlib.Data.List.Induction
import Mathlib.Data.String.Basic

namespace DocPages

/-! ## The stable sort -/

section Stable

variable {α : Type} {le : α → α → Bool} (htrans : ∀ a b c, le a b → le b c → le a c)
  (htotal : ∀ a b, le a b || le b a)

/-- The items that the order does not tell apart from `a`. -/
def alike (le : α → α → Bool) (a : α) (l : List α) : List α :=
  l.filter fun b => le a b && le b a

theorem mem_alike {a b : α} {l : List α} : b ∈ alike le a l ↔ b ∈ l ∧ le a b ∧ le b a := by
  rw [alike, List.mem_filter, Bool.and_eq_true]

include htotal in
theorem le_refl_of_total (a : α) : le a a := by
  simpa using htotal a a

include htotal in
/-- In a sorted list the first item stands before all others. -/
theorem le_of_mem_cons {a b : α} {l : List α} (h : (a :: l).Pairwise fun a b => le a b)
    (hb : b ∈ a :: l) : le a b := by
  rcases List.mem_cons.1 hb with rfl | hb
  · exact le_refl_of_total htotal b
  · exact List.rel_of_pairwise_cons h hb

include htotal in
/-- Two sorted lists of the same items are equal if they agree on which of the items that are
alike come first. -/
theorem eq_of_alike {l l' : List α} (h : l.Pairwise fun a b => le a b)
    (h' : l'.Pairwise fun a b => le a b) (hperm : l.Perm l')
    (halike : ∀ a ∈ l, alike le a l = alike le a l') : l = l' := by
  induction l generalizing l' with
  | nil => exact hperm.nil_eq
  | cons a rest ih =>
      cases l' with
      | nil => exact absurd hperm.eq_nil (List.cons_ne_nil a rest)
      | cons b rest' =>
          have hab : le a b := le_of_mem_cons htotal h (hperm.mem_iff.2 List.mem_cons_self)
          have hba : le b a := le_of_mem_cons htotal h' (hperm.mem_iff.1 List.mem_cons_self)
          have haa : le a a := le_refl_of_total htotal a
          have hfirst := halike a List.mem_cons_self
          rw [alike, alike, List.filter_cons_of_pos (by simp [haa]),
            List.filter_cons_of_pos (by simp [hab, hba]), List.cons.injEq] at hfirst
          obtain ⟨rfl, _⟩ := hfirst
          congr 1
          refine ih h.of_cons h'.of_cons hperm.cons_inv fun c hc => ?_
          have hrest := halike c (List.mem_cons_of_mem a hc)
          simp only [alike, List.filter_cons] at hrest
          split at hrest
          · exact (List.cons.inj hrest).2
          · exact hrest

include htrans htotal in
theorem alike_mergeSort (a : α) (l : List α) : alike le a (l.mergeSort le) = alike le a l := by
  have hsorted : (alike le a l).Pairwise fun b c => le b c := by
    refine List.pairwise_of_forall_mem_list fun b hb c hc => ?_
    exact htrans b a c (mem_alike.1 hb).2.2 (mem_alike.1 hc).2.1
  have hsub : (alike le a l).Sublist (l.mergeSort le) :=
    List.sublist_mergeSort htrans htotal hsorted List.filter_sublist
  have hsub' := hsub.filter fun b => le a b && le b a
  rw [alike, List.filter_filter] at hsub'
  simp only [Bool.and_self] at hsub'
  refine (hsub'.eq_of_length ?_).symm
  exact (((List.mergeSort_perm l le).filter _).length_eq).symm

include htrans htotal in
/-- The sorted list of these items in which those that are alike stand as they stood. -/
theorem eq_mergeSort {l sorted : List α} (hperm : sorted.Perm l)
    (hsorted : sorted.Pairwise fun a b => le a b)
    (halike : ∀ a ∈ sorted, alike le a sorted = alike le a l) : sorted = l.mergeSort le := by
  refine eq_of_alike htotal hsorted (List.pairwise_mergeSort htrans htotal l)
    (hperm.trans (List.mergeSort_perm l le).symm) fun a ha => ?_
  rw [alike_mergeSort htrans htotal, halike a ha]

end Stable

namespace KindTable

/-! ## Places -/

/-- The place of a kind among the groups of items of these kinds. -/
def place (t : KindTable) (kinds : List String) (kind : String) : Nat :=
  (t.order ++ kinds).idxOf kind

theorem place_of_listed {t : KindTable} {kinds : List String} {kind : String}
    (h : kind ∈ t.order) : t.place kinds kind = t.order.idxOf kind := by
  rw [place, List.idxOf_append, if_pos h]

theorem place_of_unlisted {t : KindTable} {kinds : List String} {kind : String}
    (h : kind ∉ t.order) : t.place kinds kind = kinds.idxOf kind + t.order.length := by
  rw [place, List.idxOf_append, if_neg h]

/-- No two kinds share a place. -/
theorem place_inj {t : KindTable} {kinds : List String} {a b : String} (ha : a ∈ kinds) :
    t.place kinds a = t.place kinds b ↔ a = b :=
  List.idxOf_inj (List.mem_append_right _ ha)

theorem place_lt_of_listed {t : KindTable} {kinds : List String} {a b : String}
    (ha : a ∈ t.order) (hb : b ∉ t.order) : t.place kinds a < t.place kinds b := by
  rw [place_of_listed ha, place_of_unlisted hb]
  exact Nat.lt_of_lt_of_le (List.idxOf_lt_length_iff.2 ha) (Nat.le_add_left _ _)

theorem isNone_position {t : KindTable} {kind : String} :
    (t.position kind).isNone = true ↔ kind ∉ t.order := by
  rw [position, Option.isNone_iff_eq_none, List.idxOf?_eq_none_iff]

/-! ## Ranks -/

/-- One more kind is added behind the others if it is neither listed nor there. -/
theorem unlisted_append_singleton (t : KindTable) (kinds : List String) (kind : String) :
    t.unlisted (kinds ++ [kind]) =
      if kind ∈ t.order ∨ kind ∈ t.unlisted kinds then t.unlisted kinds
      else t.unlisted kinds ++ [kind] := by
  by_cases hlisted : kind ∈ t.order
  · have hdropped : (t.position kind).isNone = false := by
      rw [Bool.eq_false_iff, ne_eq, isNone_position]
      exact not_not_intro hlisted
    simp [unlisted, hlisted, hdropped]
  · have hkept := isNone_position.2 hlisted
    simp only [unlisted, List.filter_append, List.filter_cons, hkept, if_true, List.filter_nil,
      List.foldl_append, List.foldl_cons, List.foldl_nil, List.contains_iff_mem, hlisted, false_or]

theorem mem_unlisted {t : KindTable} {kinds : List String} {kind : String} :
    kind ∈ t.unlisted kinds ↔ kind ∈ kinds ∧ kind ∉ t.order := by
  induction kinds using List.reverseRecOn with
  | nil => simp [unlisted]
  | append_singleton kinds last ih =>
      rw [unlisted_append_singleton, List.mem_append, List.mem_singleton]
      by_cases h : last ∈ t.order ∨ last ∈ t.unlisted kinds
      · rw [if_pos h, ih]
        refine ⟨fun hk => ⟨.inl hk.1, hk.2⟩, fun ⟨hk, hnot⟩ => ⟨?_, hnot⟩⟩
        rcases hk with hk | rfl
        · exact hk
        · exact (ih.1 (h.resolve_left hnot)).1
      · rw [if_neg h, List.mem_append, List.mem_singleton, ih]
        refine ⟨?_, fun ⟨hk, hnot⟩ => hk.imp_left fun hk => ⟨hk, hnot⟩⟩
        rintro (hk | rfl)
        · exact ⟨.inl hk.1, hk.2⟩
        · exact ⟨.inr rfl, fun hl => h (.inl hl)⟩

/-- The kinds that are not listed stand in the order in which they first appear. -/
theorem idxOf_unlisted_lt {t : KindTable} {kinds : List String} {a b : String}
    (ha : a ∈ t.unlisted kinds) (hb : b ∈ t.unlisted kinds) :
    (t.unlisted kinds).idxOf a < (t.unlisted kinds).idxOf b ↔ kinds.idxOf a < kinds.idxOf b := by
  induction kinds using List.reverseRecOn with
  | nil => simp [unlisted] at ha
  | append_singleton kinds last ih =>
      have hmem : ∀ {k}, k ∈ t.unlisted kinds → k ∈ kinds := fun hk => (mem_unlisted.1 hk).1
      rw [unlisted_append_singleton] at ha hb ⊢
      by_cases h : last ∈ t.order ∨ last ∈ t.unlisted kinds
      · rw [if_pos h] at ha hb ⊢
        rw [ih ha hb, List.idxOf_append, List.idxOf_append, if_pos (hmem ha), if_pos (hmem hb)]
      · rw [if_neg h] at ha hb ⊢
        have hnew : last ∉ kinds := fun hin =>
          h (or_iff_not_imp_left.2 fun hnot => mem_unlisted.2 ⟨hin, hnot⟩)
        have hlt : ∀ {k} {l : List String}, k ∈ l → l.idxOf k < l.length :=
          List.idxOf_lt_length_iff.2
        have hlast : last ∉ t.unlisted kinds := fun hin => h (.inr hin)
        simp only [List.mem_append, List.mem_singleton] at ha hb
        rcases ha with ha | rfl <;> rcases hb with hb | rfl
        · rw [List.idxOf_append, List.idxOf_append, List.idxOf_append, List.idxOf_append,
            if_pos ha, if_pos hb, if_pos (hmem ha), if_pos (hmem hb), ih ha hb]
        · rw [List.idxOf_append, List.idxOf_append, List.idxOf_append, List.idxOf_append,
            if_pos ha, if_neg hlast, if_pos (hmem ha), if_neg hnew]
          exact iff_of_true (Nat.lt_add_left _ (hlt ha)) (Nat.lt_add_left _ (hlt (hmem ha)))
        · rw [List.idxOf_append, List.idxOf_append, List.idxOf_append, List.idxOf_append,
            if_neg hlast, if_pos hb, if_neg hnew, if_pos (hmem hb)]
          exact iff_of_false (Nat.lt_asymm (Nat.lt_add_left _ (hlt hb)))
            (Nat.lt_asymm (Nat.lt_add_left _ (hlt (hmem hb))))
        · exact iff_of_false (Nat.lt_irrefl _) (Nat.lt_irrefl _)

theorem rank_of_listed {t : KindTable} {extra : List String} {kind : String}
    (h : kind ∈ t.order) : t.rank extra kind = t.order.idxOf kind := by
  rw [rank, position, List.idxOf_eq_getD_idxOf?]
  cases hp : t.order.idxOf? kind with
  | some i => rfl
  | none => exact absurd h (List.idxOf?_eq_none_iff.1 hp)

theorem rank_of_unlisted {t : KindTable} {extra : List String} {kind : String}
    (h : kind ∉ t.order) (he : kind ∈ extra) :
    t.rank extra kind = t.order.length + extra.idxOf kind := by
  rw [rank, position, List.idxOf?_eq_none_iff.2 h, List.idxOf_eq_getD_idxOf?]
  cases hp : extra.idxOf? kind with
  | some i => rfl
  | none => exact absurd he (List.idxOf?_eq_none_iff.1 hp)

/-- Ranks compare as places do. -/
theorem rank_lt_iff {t : KindTable} {kinds : List String} {a b : String} (ha : a ∈ kinds)
    (hb : b ∈ kinds) :
    t.rank (t.unlisted kinds) a < t.rank (t.unlisted kinds) b ↔
      t.place kinds a < t.place kinds b := by
  have hmem : ∀ {k}, k ∈ kinds → k ∉ t.order → k ∈ t.unlisted kinds := fun hk hnot =>
    mem_unlisted.2 ⟨hk, hnot⟩
  by_cases hla : a ∈ t.order <;> by_cases hlb : b ∈ t.order
  · rw [rank_of_listed hla, rank_of_listed hlb, place_of_listed hla, place_of_listed hlb]
  · have hrank : t.rank (t.unlisted kinds) a < t.rank (t.unlisted kinds) b := by
      rw [rank_of_listed hla, rank_of_unlisted hlb (hmem hb hlb)]
      exact Nat.lt_of_lt_of_le (List.idxOf_lt_length_iff.2 hla) (Nat.le_add_right _ _)
    exact iff_of_true hrank (place_lt_of_listed hla hlb)
  · have hrank : t.rank (t.unlisted kinds) b < t.rank (t.unlisted kinds) a := by
      rw [rank_of_listed hlb, rank_of_unlisted hla (hmem ha hla)]
      exact Nat.lt_of_lt_of_le (List.idxOf_lt_length_iff.2 hlb) (Nat.le_add_right _ _)
    exact iff_of_false (Nat.lt_asymm hrank) (Nat.lt_asymm (place_lt_of_listed hlb hla))
  · rw [rank_of_unlisted hla (hmem ha hla), rank_of_unlisted hlb (hmem hb hlb),
      place_of_unlisted hla, place_of_unlisted hlb, Nat.add_lt_add_iff_left,
      Nat.add_lt_add_iff_right, idxOf_unlisted_lt (hmem ha hla) (hmem hb hlb)]

/-! ## The order of items -/

/-- The code points of a text. -/
def codePoints (s : String) : List Nat := s.toList.map Char.toNat

theorem codePoints_le {a b : String} : codePoints a ≤ codePoints b ↔ a ≤ b := by
  have hmono : StrictMono codePoints := fun a b h =>
    List.map_lt (fun _ _ hc => hc) (String.lt_iff_toList_lt.1 h)
  exact hmono.le_iff_le

/-- The items of one kind stand next to each other. -/
def Together {α : Type} (kind : α → String) (k : String) (items : List α) : Prop :=
  ∃ before group after, items = before ++ (group ++ after) ∧ (∀ a ∈ group, kind a = k) ∧
    ∀ a ∈ before ++ after, kind a ≠ k

section Items

variable {α : Type} (t : KindTable) (kind name : α → String)

/-- A list of the items that is sorted by group and name. -/
structure Sorts (items sorted : List α) : Prop where
  perm : sorted.Perm items
  /-- Items of listed kinds come first, by the first position of their kind. -/
  listed_first : sorted.Pairwise fun a b => kind b ∈ t.order →
    kind a ∈ t.order ∧ t.order.idxOf (kind a) ≤ t.order.idxOf (kind b)
  /-- The others come by the first appearance of their kind among the items. -/
  unlisted_appear : sorted.Pairwise fun a b => kind a ∉ t.order → kind b ∉ t.order →
    (items.map kind).idxOf (kind a) ≤ (items.map kind).idxOf (kind b)
  names_ascend : sorted.Pairwise fun a b => kind a = kind b →
    codePoints (name a) ≤ codePoints (name b)
  /-- Items alike in kind and name stand as they stood. -/
  stable : ∀ k n, (sorted.filter fun a => kind a == k && name a == n) =
    items.filter fun a => kind a == k && name a == n

/-- Does the first item stand before the second, or are they alike? -/
def precedes (extra : List String) (a b : α) : Bool :=
  let i := t.rank extra (kind a)
  let j := t.rank extra (kind b)
  decide (i < j) || (i == j && decide (name a ≤ name b))

variable {t kind name}

theorem precedes_eq_true {extra : List String} {a b : α} :
    t.precedes kind name extra a b = true ↔
      t.rank extra (kind a) < t.rank extra (kind b) ∨
        t.rank extra (kind a) = t.rank extra (kind b) ∧ name a ≤ name b := by
  simp only [precedes, Bool.or_eq_true, Bool.and_eq_true, decide_eq_true_eq, beq_iff_eq]

theorem precedes_trans (extra : List String) (a b c : α)
    (hab : t.precedes kind name extra a b) (hbc : t.precedes kind name extra b c) :
    t.precedes kind name extra a c := by
  rw [precedes_eq_true] at *
  rcases hab with hab | ⟨hab, hnab⟩ <;> rcases hbc with hbc | ⟨hbc, hnbc⟩
  · exact .inl (Nat.lt_trans hab hbc)
  · exact .inl (hbc ▸ hab)
  · exact .inl (hab ▸ hbc)
  · exact .inr ⟨hab.trans hbc, String.le_trans hnab hnbc⟩

theorem precedes_total (extra : List String) (a b : α) :
    t.precedes kind name extra a b || t.precedes kind name extra b a := by
  rw [Bool.or_eq_true, precedes_eq_true, precedes_eq_true]
  rcases Nat.lt_trichotomy (t.rank extra (kind a)) (t.rank extra (kind b)) with h | h | h
  · exact .inl (.inl h)
  · exact (String.le_total (name a) (name b)).imp (fun hn => .inr ⟨h, hn⟩)
      fun hn => .inr ⟨h.symm, hn⟩
  · exact .inr (.inl h)

section Members

variable {items : List α} {a b : α} (ha : a ∈ items) (hb : b ∈ items)
include ha hb

theorem precedes_iff :
    t.precedes kind name (t.unlisted (items.map kind)) a b ↔
      t.place (items.map kind) (kind a) < t.place (items.map kind) (kind b) ∨
        kind a = kind b ∧ name a ≤ name b := by
  have hka : kind a ∈ items.map kind := List.mem_map_of_mem ha
  have hkb : kind b ∈ items.map kind := List.mem_map_of_mem hb
  have hlt := rank_lt_iff (t := t) hka hkb
  have hgt := rank_lt_iff (t := t) hkb hka
  have heq : t.rank (t.unlisted (items.map kind)) (kind a) =
      t.rank (t.unlisted (items.map kind)) (kind b) ↔ kind a = kind b := by
    rw [← place_inj (t := t) hka]
    omega
  rw [precedes_eq_true, hlt, heq]

theorem place_le_of_precedes
    (h : t.precedes kind name (t.unlisted (items.map kind)) a b) :
    t.place (items.map kind) (kind a) ≤ t.place (items.map kind) (kind b) := by
  rcases (precedes_iff ha hb).1 h with h | ⟨h, _⟩
  · exact Nat.le_of_lt h
  · exact Nat.le_of_eq (congrArg _ h)

/-- Two items that stand in either order are alike in kind and name. -/
theorem precedes_and_precedes :
    (t.precedes kind name (t.unlisted (items.map kind)) a b &&
      t.precedes kind name (t.unlisted (items.map kind)) b a) =
        (kind b == kind a && name b == name a) := by
  rw [Bool.eq_iff_iff, Bool.and_eq_true, Bool.and_eq_true, beq_iff_eq, beq_iff_eq,
    precedes_iff ha hb, precedes_iff hb ha]
  constructor
  · rintro ⟨hab | ⟨hk, hab⟩, hba | ⟨hk', hba⟩⟩
    · exact absurd hba (Nat.lt_asymm hab)
    · exact absurd (hk' ▸ hab) (Nat.lt_irrefl _)
    · exact absurd (hk ▸ hba) (Nat.lt_irrefl _)
    · exact ⟨hk.symm, String.le_antisymm hba hab⟩
  · rintro ⟨hk, hn⟩
    exact ⟨.inr ⟨hk.symm, hn ▸ String.le_refl _⟩, .inr ⟨hk, hn ▸ String.le_refl _⟩⟩

/-- Ranks follow the rules for listed kinds, for the others, and for names. -/
theorem precedes_iff_rules :
    t.precedes kind name (t.unlisted (items.map kind)) a b ↔
      (kind b ∈ t.order →
        kind a ∈ t.order ∧ t.order.idxOf (kind a) ≤ t.order.idxOf (kind b)) ∧
      (kind a ∉ t.order → kind b ∉ t.order →
        (items.map kind).idxOf (kind a) ≤ (items.map kind).idxOf (kind b)) ∧
      (kind a = kind b → codePoints (name a) ≤ codePoints (name b)) := by
  have hinj : t.place (items.map kind) (kind a) = t.place (items.map kind) (kind b) ↔ _ :=
    place_inj (List.mem_map_of_mem ha)
  have hlt : t.place (items.map kind) (kind a) < t.place (items.map kind) (kind b) ↔
      t.place (items.map kind) (kind a) ≤ t.place (items.map kind) (kind b) ∧
        kind a ≠ kind b := by
    rw [Nat.lt_iff_le_and_ne, ne_eq, hinj]
  rw [precedes_iff ha hb, hlt, codePoints_le]
  by_cases hk : kind a = kind b
  · simp [hk]
  by_cases hla : kind a ∈ t.order <;> by_cases hlb : kind b ∈ t.order
  · simp [hk, hla, hlb, place_of_listed]
  · simp [hk, hla, hlb, Nat.le_of_lt (place_lt_of_listed hla hlb)]
  · simp [hk, hla, hlb, Nat.not_le_of_lt (place_lt_of_listed hlb hla)]
  · simp [hk, hla, hlb, place_of_unlisted]

end Members

theorem sorts_iff {items sorted : List α} :
    t.Sorts kind name items sorted ↔ sorted.Perm items ∧
      sorted.Pairwise (fun a b => t.precedes kind name (t.unlisted (items.map kind)) a b) ∧
      ∀ k n, (sorted.filter fun a => kind a == k && name a == n) =
        items.filter fun a => kind a == k && name a == n := by
  have hrules : ∀ {sorted : List α}, sorted.Perm items →
      (sorted.Pairwise (fun a b => t.precedes kind name (t.unlisted (items.map kind)) a b) ↔ _) :=
    fun hperm => List.Pairwise.iff_of_mem fun ha hb =>
      precedes_iff_rules (hperm.mem_iff.1 ha) (hperm.mem_iff.1 hb)
  constructor
  · intro h
    refine ⟨h.perm, (hrules h.perm).2 ?_, h.stable⟩
    exact h.listed_first.and (h.unlisted_appear.and h.names_ascend)
  · rintro ⟨hperm, hsorted, hstable⟩
    obtain ⟨hlisted, hrest⟩ := List.pairwise_and_iff.1 ((hrules hperm).1 hsorted)
    obtain ⟨happear, hnames⟩ := List.pairwise_and_iff.1 hrest
    exact ⟨hperm, hlisted, happear, hnames, hstable⟩

theorem sorts_sortBy (items : List α) : t.Sorts kind name items (t.sortBy kind name items) := by
  have hperm : (t.sortBy kind name items).Perm items := List.mergeSort_perm _ _
  refine sorts_iff.2 ⟨hperm, List.pairwise_mergeSort (precedes_trans _) (precedes_total _) _, ?_⟩
  intro k n
  by_cases h : ∃ a ∈ items, kind a = k ∧ name a = n
  · obtain ⟨a, ha, rfl, rfl⟩ := h
    have halike : alike _ a (t.sortBy kind name items) = alike _ a items :=
      alike_mergeSort (precedes_trans _) (precedes_total _) a items
    rw [alike, alike] at halike
    rw [List.filter_congr fun b hb => (precedes_and_precedes ha hb).symm, ← halike]
    exact List.filter_congr fun b hb => (precedes_and_precedes ha (hperm.mem_iff.1 hb)).symm
  · have hnone : ∀ b ∈ items, ¬(kind b == k && name b == n) = true := by
      intro b hb hkn
      rw [Bool.and_eq_true, beq_iff_eq, beq_iff_eq] at hkn
      exact h ⟨b, hb, hkn⟩
    rw [List.filter_eq_nil_iff.2 hnone,
      List.filter_eq_nil_iff.2 fun b hb => hnone b (hperm.mem_iff.1 hb)]

theorem Sorts.eq_sortBy {items sorted : List α} (h : t.Sorts kind name items sorted) :
    sorted = t.sortBy kind name items := by
  obtain ⟨hperm, hsorted, hstable⟩ := sorts_iff.1 h
  refine eq_mergeSort (precedes_trans _) (precedes_total _) hperm hsorted fun a ha => ?_
  have ha' := hperm.mem_iff.1 ha
  rw [alike, alike, List.filter_congr fun b hb =>
    precedes_and_precedes ha' (hperm.mem_iff.1 hb), hstable]
  exact List.filter_congr fun b hb => (precedes_and_precedes ha' hb).symm

/-! ## Groups -/

/-- The places of a sorted list ascend. -/
theorem Sorts.place_le {items sorted : List α} (h : t.Sorts kind name items sorted) :
    sorted.Pairwise fun a b =>
      t.place (items.map kind) (kind a) ≤ t.place (items.map kind) (kind b) :=
  (sorts_iff.1 h).2.1.imp_of_mem fun ha hb =>
    place_le_of_precedes (h.perm.mem_iff.1 ha) (h.perm.mem_iff.1 hb)

/-- A list in which the values ascend is made of those below a value, those that have it and
those above. -/
theorem eq_filter_append {f : α → Nat} {l : List α} (h : l.Pairwise fun a b => f a ≤ f b)
    (n : Nat) :
    l = l.filter (fun a => f a < n) ++
      (l.filter (fun a => f a = n) ++ l.filter fun a => n < f a) := by
  induction l with
  | nil => rfl
  | cons a rest ih =>
      have hle : ∀ b ∈ rest, f a ≤ f b := fun b hb => List.rel_of_pairwise_cons h hb
      have hih := ih h.of_cons
      rcases Nat.lt_trichotomy (f a) n with hlt | heq | hgt
      · simpa [List.filter_cons, hlt, Nat.ne_of_lt hlt, Nat.lt_asymm hlt] using hih
      · have hnone : rest.filter (fun b => f b < n) = [] :=
          List.filter_eq_nil_iff.2 fun b hb => by simpa [← heq] using hle b hb
        rw [hnone, List.nil_append] at hih
        simpa [List.filter_cons, heq, hnone] using hih
      · have hnone : rest.filter (fun b => f b < n) = [] :=
          List.filter_eq_nil_iff.2 fun b hb => by
            simpa using Nat.le_of_lt (Nat.lt_of_lt_of_le hgt (hle b hb))
        have hnone' : rest.filter (fun b => f b = n) = [] :=
          List.filter_eq_nil_iff.2 fun b hb => by
            simpa using Nat.ne_of_gt (Nat.lt_of_lt_of_le hgt (hle b hb))
        rw [hnone, hnone', List.nil_append, List.nil_append] at hih
        simpa [List.filter_cons, hgt, Nat.ne_of_gt hgt, Nat.lt_asymm hgt, hnone, hnone'] using hih

theorem Sorts.together {items sorted : List α} (h : t.Sorts kind name items sorted) (k : String) :
    Together kind k sorted := by
  refine ⟨_, _, _, eq_filter_append h.place_le (t.place (items.map kind) k), ?_, ?_⟩
  · intro a ha
    rw [List.mem_filter, decide_eq_true_eq] at ha
    exact (place_inj (List.mem_map_of_mem (h.perm.mem_iff.1 ha.1))).1 ha.2
  · rintro a ha rfl
    simp at ha

/-- The items of one kind are sorted by name, also when some items are left out. -/
theorem Sorts.filter_kind {items sorted : List α} (h : t.Sorts kind name items sorted)
    (keep : α → Bool) (k : String) :
    ((sorted.filter keep).filter fun a => kind a == k) =
      ((items.filter keep).filter fun a => kind a == k).mergeSort
        fun a b => decide (name a ≤ name b) := by
  have htrans : ∀ a b c : α, decide (name a ≤ name b) → decide (name b ≤ name c) →
      decide (name a ≤ name c) := by
    simp only [decide_eq_true_eq]
    exact fun _ _ _ => String.le_trans
  have htotal : ∀ a b : α, decide (name a ≤ name b) || decide (name b ≤ name a) := by
    simp only [Bool.or_eq_true, decide_eq_true_eq]
    exact fun a b => String.le_total (name a) (name b)
  refine eq_mergeSort htrans htotal ((h.perm.filter _).filter _) ?_ fun a ha => ?_
  · refine ((h.names_ascend.filter _).filter _).imp_of_mem fun ha hb hnames => ?_
    rw [List.mem_filter, beq_iff_eq] at ha hb
    exact decide_eq_true (codePoints_le.1 (hnames (ha.2.trans hb.2.symm)))
  · have hsame : ∀ b : α, (decide (name a ≤ name b) && decide (name b ≤ name a)) =
        (name b == name a) := by
      intro b
      rw [Bool.eq_iff_iff, Bool.and_eq_true, decide_eq_true_eq, decide_eq_true_eq, beq_iff_eq]
      exact ⟨fun hab => String.le_antisymm hab.2 hab.1, fun hab => by simp [hab]⟩
    have hstable := congrArg (List.filter keep) (h.stable k (name a))
    simp only [alike, hsame, List.filter_filter] at hstable ⊢
    simpa only [Bool.and_comm, Bool.and_left_comm] using hstable

/-- Kinds whose values ascend first appear in the order of these values. -/
theorem idxOf_le_idxOf {f : String → Nat} {kinds : List String}
    (h : kinds.Pairwise fun k l => f k ≤ f l)
    (hinj : ∀ k ∈ kinds, ∀ l ∈ kinds, f k = f l → k = l) {k l : String} (hk : k ∈ kinds)
    (hl : l ∈ kinds) (hle : f k ≤ f l) : kinds.idxOf k ≤ kinds.idxOf l := by
  induction kinds with
  | nil => cases hk
  | cons first rest ih =>
      by_cases hfk : first = k
      · rw [hfk, List.idxOf_cons_self]
        exact Nat.zero_le _
      have hkr : k ∈ rest := (List.mem_cons.1 hk).resolve_left (Ne.symm hfk)
      by_cases hfl : first = l
      · have hback : f l ≤ f k := hfl ▸ List.rel_of_pairwise_cons h hkr
        exact absurd (hfl.trans (hinj k hk l hl (Nat.le_antisymm hle hback)).symm) hfk
      have hlr : l ∈ rest := (List.mem_cons.1 hl).resolve_left (Ne.symm hfl)
      rw [List.idxOf_cons_ne _ hfk, List.idxOf_cons_ne _ hfl]
      refine Nat.succ_le_succ (ih h.of_cons (fun k hk l hl => ?_) hkr hlr)
      exact hinj k (List.mem_cons_of_mem _ hk) l (List.mem_cons_of_mem _ hl)

/-- A sorted list is sorted by the first appearances in it as well. -/
theorem Sorts.again {items sorted : List α} (h : t.Sorts kind name items sorted) :
    t.Sorts kind name sorted sorted := by
  have hmem : ∀ {k}, k ∈ sorted.map kind → k ∈ items.map kind := fun hk =>
    (h.perm.map kind).mem_iff.1 hk
  refine ⟨.refl _, h.listed_first, ?_, h.names_ascend, fun _ _ => rfl⟩
  refine h.place_le.imp_of_mem fun ha hb hle _ _ => ?_
  refine idxOf_le_idxOf (List.pairwise_map.2 h.place_le) ?_ (List.mem_map_of_mem ha)
    (List.mem_map_of_mem hb) hle
  exact fun k hk l _ => (place_inj (hmem hk)).1

/-- One list of the items is sorted, and this is what sorting gives.  The items of each kind
stand together in it, and it is sorted already. -/
theorem sortBy_stable (t : KindTable) (kind name : α → String) (items : List α) :
    (∀ sorted, t.Sorts kind name items sorted ↔ sorted = t.sortBy kind name items) ∧
      (∀ k, Together kind k (t.sortBy kind name items)) ∧
      t.sortBy kind name (t.sortBy kind name items) = t.sortBy kind name items := by
  have h : t.Sorts kind name items (t.sortBy kind name items) := sorts_sortBy items
  refine ⟨fun sorted => ⟨Sorts.eq_sortBy, ?_⟩, h.together, h.again.eq_sortBy.symm⟩
  rintro rfl
  exact h

/-- Two kinds that are not listed stand behind the others, `C` before `B` as it is met first. -/
example : sortBy ⟨["D"], [], []⟩ Prod.snd Prod.fst
    [("c", "C"), ("b", "B"), ("d", "D"), ("a", "C")] =
      [("d", "D"), ("a", "C"), ("c", "C"), ("b", "B")] := by cbv

end Items

end KindTable
end DocPages

/-
Field statements with several declarators and their initializers.

A field statement is recorded once, under the names of the pieces between its commas.  These
are its declarators exactly if the counter of brackets comes through each initializer as it went
in, which a comparison, a shift or a lambda may keep it from: `gives_declarators`.
-/
import DocPages.Proofs.Declaration.Assignments
import DocPages.Proofs.Declaration.Commas
import DocPages.Proofs.Declaration.Members

namespace DocPages
namespace Declaration

open Text

/-! ## The sign of an initializer -/

theorem findAssignmentFrom_equals {prev : Char} {s : List Char}
    (hprev : "=!<>".toList.contains prev = false) (hequals : s.head? ≠ some '=') :
    findAssignmentFrom prev 0 false ('=' :: s) = some ([], s.head? == some '>') := by
  have hopen : isOpening '=' = false := rfl
  have hclose : isClosing '=' = false := rfl
  have hnext : s.head?.getD ' ' ≠ '=' ∧ (s.head?.getD ' ' == '>') = (s.head? == some '>') := by
    cases s with
    | nil => decide
    | cons c s => exact ⟨fun e => hequals (congrArg some e), rfl⟩
  rw [findAssignmentFrom]
  simp only [Bool.false_eq_true, if_false, (by decide : ¬ '=' = '"'), hopen, hclose,
    (by decide : ¬ '=' = '>'), hnext, hprev, ne_eq, not_false_eq_true, Bool.not_false, and_self,
    if_true]

/-! ## Declarators -/

/-- A name that a field statement declares, with the text around it. -/
structure Declarator where
  /-- The text up to the initializer. -/
  lead : List Char
  /-- What the header has of it: in front of the name blanks, and in front of the first name the
  modifiers and the type, and then the name and blanks. -/
  before : List Char
  name : List Char
  behind : List Char
  /-- The initializer, and what the header has of it. -/
  value : Option (List Char × List Char) := none

namespace Declarator

def text (d : Declarator) : List Char :=
  d.lead ++ (d.value.map fun v => '=' :: v.1).getD []

/-- What the header has of the text up to the initializer. -/
def head (d : Declarator) : List Char := d.before ++ (d.name ++ d.behind)

def kept (d : Declarator) : List Char := (d.value.map Prod.snd).getD []

/-- What the header has of the text. -/
def piece (d : Declarator) : List Char := d.head ++ (d.value.map fun v => '=' :: v.2).getD []

/-- A declarator is spelled as such.  An initializer is any text with comments, literals and
bodies in it that does not make the equals sign another sign. -/
structure Spelled (d : Declarator) : Prop where
  lead : Gathers false false d.lead d.head
  before : Wording declaring false d.before
  edge : d.before = [] ∨ EndsIn (fun c => !isWordChar c) d.before
  noParen : '(' ∉ d.before
  name : IsWord d.name
  behind : allBlank d.behind = true
  value : ∀ v ∈ d.value, Gathers true false v.1 v.2 ∧
    v.2.head?.any (fun c => c != '=' && c != '>') = true

end Declarator

/-- The text of a field statement up to its semicolon. -/
def listed (first : Declarator) (more : List Declarator) : List Char :=
  first.text ++ more.flatMap fun d => ',' :: d.text

/-- What the header has of it. -/
def listedHeader (first : Declarator) (more : List Declarator) : List Char :=
  first.piece ++ (more.map Declarator.piece).flatMap (',' :: ·)

namespace Declarator

variable {d : Declarator}

theorem piece_none (h : d.value = none) : d.piece = d.head := by
  rw [piece, h]
  exact List.append_nil _

theorem piece_some {v : List Char × List Char} (h : d.value = some v) :
    d.piece = d.head ++ '=' :: v.2 := by
  rw [piece, h]
  rfl

namespace Spelled

variable (h : d.Spelled)
include h

theorem name_identifier : IsIdentifier d.name := .of_isWord h.name

theorem name_trimmed : Trimmed (d.before ++ d.name) :=
  endsIn_append h.name_identifier.ends.2 _

theorem head_balanced : Balanced InQuotes false d.head :=
  (h.before.balanced _).append (h.name_identifier.balanced.append (balanced_blanks h.behind))

theorem head_unassigned : Unassigned d.head := by
  have hname : Wording [] false (d.name ++ d.behind) :=
    (Wording.of_identifier h.name_identifier List.not_mem_nil).append (.blanks h.behind)
      (stops_blank h.behind)
  exact h.before.unassigned.append hname.unassigned

theorem head_notMem {c : Char} (hbefore : c ∉ d.before) (hc : isWordChar c = false)
    (hblank : isBlank c = false) : c ∉ d.head := by
  have hname : c ∉ d.name := h.name_identifier.notMem hc
  rw [head]
  simp only [List.mem_append, hbefore, hname, notMem_of_allBlank hblank h.behind, or_self,
    not_false_eq_true]

theorem head_noEquals : '=' ∉ d.head :=
  h.head_notMem (h.before.notMem (isTypeChar_foreign (by decide)))
    (isWordChar_sign (by decide)) (by decide)

theorem head_noParen : '(' ∉ d.head :=
  h.head_notMem h.noParen (isWordChar_sign (by decide)) (by decide)

/-- An equals sign behind the name is an assignment. -/
theorem lastOr_head (prev : Char) : "=!<>".toList.contains (lastOr prev d.head) = false := by
  have hmem : lastOr prev d.head ∈ d.name ++ d.behind := by
    have hne : d.name ++ d.behind ≠ [] := by simp [h.name.ne_nil]
    rw [head, lastOr_append, lastOr, List.getLast?_eq_getLast_of_ne_nil hne, Option.getD_some]
    exact List.getLast_mem hne
  have htable : ∀ c ∈ "=!<>".toList, isWordChar c = false ∧ isBlank c = false := by decide
  rw [Bool.eq_false_iff, ne_eq, List.contains_iff_mem]
  intro hsign
  have hc := htable _ hsign
  rcases List.mem_append.1 hmem with hname | hblank
  · exact h.name_identifier.notMem hc.1 hname
  · exact notMem_of_allBlank hc.2 h.behind hblank

theorem value_head : ∀ v ∈ d.value, v.2 ≠ [] ∧ v.2.head? ≠ some '=' := by
  intro v hv
  have hfirst := (h.value v hv).2
  constructor
  · intro he
    rw [he] at hfirst
    cases hfirst
  · intro he
    rw [he] at hfirst
    cases hfirst

/-- The initializer is found behind the name. -/
theorem findAssignmentFrom_piece {v : List Char × List Char} (hv : d.value = some v)
    {prev : Char} (hprev : prev ≠ '=') (r : List Char) :
    findAssignmentFrom prev 0 false (d.piece ++ r) = some (d.head, false) := by
  obtain ⟨-, hfirst⟩ := h.value v hv
  obtain ⟨c, k, hkept, hequals, harrow⟩ : ∃ c k, v.2 = c :: k ∧ c ≠ '=' ∧ c ≠ '>' := by
    cases hk : v.2 with
    | nil =>
        rw [hk] at hfirst
        cases hfirst
    | cons c k =>
        rw [hk] at hfirst
        simpa using hfirst
  rw [piece_some hv, hkept, List.append_assoc, (h.head_unassigned prev 0 _ hprev).2,
    List.cons_append, findAssignmentFrom_equals (h.lastOr_head prev) (by simpa using hequals)]
  simp [harrow]

theorem beforeAssignment_head : beforeAssignment d.head = d.head := by
  rw [beforeAssignment, findAssignment_eq_none h.head_noEquals]
  rfl

theorem beforeAssignment_equals {s : List Char} (hs : s.head? ≠ some '=') :
    beforeAssignment (d.head ++ '=' :: s) = d.head := by
  rw [beforeAssignment, findAssignment, (h.head_unassigned ' ' 0 _ (by decide)).2,
    findAssignmentFrom_equals (h.lastOr_head ' ') hs]
  exact List.append_nil _

theorem lastIdentifier_name : lastIdentifier (d.before ++ d.name) = some d.name := by
  have hself : lastIdentifier d.name = some d.name := by
    rw [lastIdentifier, identifiers_isWord h.name]
    have hdrop := @dropWhile_append_stops (· == '@') [] _ (List.forall_mem_nil _)
      (stops_at_of_isWord h.name)
    exact congrArg some hdrop
  rcases h.edge with hnil | ⟨s, c, hbefore, hc⟩
  · rw [hnil]
    exact hself
  · have hword : isWordChar c = false := by simpa using hc
    have hident : isIdentChar c = false := by
      rw [Bool.eq_false_iff]
      intro hi
      rw [isWordChar_of_isIdentChar hi] at hword
      cases hword
    have hat : c ≠ '@' := by
      rintro rfl
      refine h.before.notMem (c := '@') (isTypeChar_foreign (by decide)) ?_
      rw [hbefore]
      exact List.mem_append_right _ (List.mem_singleton_self _)
    have hstart : isIdentStart c = false := by
      rw [Bool.eq_false_iff]
      intro hi
      rw [isIdentChar_of_isIdentStart hi] at hident
      cases hident
    rw [hbefore, List.append_assoc, List.singleton_append, lastIdentifier,
      identifiers_append (stops_cons hident _), identifiers_other hstart hat,
      identifiers_isWord h.name, List.getLast?_concat]
    rw [lastIdentifier, identifiers_isWord h.name] at hself
    exact hself

/-- Whatever the initializer is, the name is read off the text in front of it. -/
theorem declaratorName_eq {s : List Char} (hs : beforeAssignment s = d.head) :
    declaratorName s = some d.name := by
  have hhead : trimEnd d.head = d.before ++ d.name := by
    rw [head, ← List.append_assoc]
    exact trimEnd_pad h.name_trimmed h.behind
  have hstrip : stripEnd? [']'] (d.before ++ d.name) = none := by
    have hends : EndsIn isIdentChar (d.before ++ d.name) :=
      endsIn_append (endsIn_of_forall h.name.ne_nil h.name.inside) _
    obtain ⟨s, c, he, hc⟩ := hends
    rw [he, stripEnd?, List.reverse_append, List.reverse_singleton, List.reverse_singleton,
      List.singleton_append, stripStart?_cons_ne (ne_of_isIdentChar hc rfl).symm]
    rfl
  rw [declaratorName, hs, hhead, hstrip]
  exact h.lastIdentifier_name

theorem declaratorName_piece : declaratorName d.piece = some d.name := by
  cases hv : d.value with
  | none =>
      rw [piece_none hv]
      exact h.declaratorName_eq h.beforeAssignment_head
  | some v =>
      rw [piece_some hv]
      exact h.declaratorName_eq (h.beforeAssignment_equals (h.value_head v hv).2)

theorem after_head : Counter.after {} d.head = some {} :=
  Counter.after_balanced h.head_balanced nofun

/-- Only the initializer can take the counter of brackets away from where it started. -/
theorem after_piece : Counter.after {} d.piece = Counter.after {} d.kept := by
  rw [piece, Counter.after_append, h.after_head, Option.bind_some, kept]
  cases d.value with
  | none => rfl
  | some v => rfl

end Spelled

end Declarator

/-! ## The header of the statement -/

theorem findAssignment_trim {header : List Char} (h : Stops isBlank header) :
    findAssignment (trim header) = findAssignment header := by
  obtain ⟨gap, hgap, hsplit⟩ := exists_trimEnd header
  have hpad := @findAssignmentFrom_pad ' ' 0 false (trimEnd header) gap hgap
  rw [← hsplit] at hpad
  rw [trim, trimStart_of_stops h]
  exact hpad.symm

theorem Assigned.append {header : List Char} (h : Assigned header) (more : List Char) :
    Assigned (header ++ more) := by
  obtain ⟨before, arrow, hfound, hlt⟩ := h
  refine ⟨before, arrow, findAssignmentFrom_append hfound hlt more, ?_⟩
  rw [List.length_append]
  omega

/-- A header up to an initializer or behind one. -/
def Assignable (header : List Char) : Prop := Unassigned header ∨ Assigned header

theorem Assignable.declarator {header : List Char} (h : Assignable header) {d : Declarator}
    (hd : d.Spelled) : Assignable (header ++ ',' :: d.head) := by
  rcases h with h | h
  · exact .inl (h.append (.append (s := [',']) (.single (by decide)) hd.head_unassigned))
  · exact .inr (h.append _)

theorem Assignable.exists_found {header more : List Char} (h : Assignable header)
    (hlast : "=!<>".toList.contains (lastOr ' ' header) = false) (hmore : more.head? ≠ some '=') :
    ∃ before arrow, findAssignment (header ++ '=' :: more) = some (before, arrow) ∧
      before.length ≤ header.length := by
  rcases h with h | ⟨before, arrow, hfound, hlt⟩
  · refine ⟨header, more.head? == some '>', ?_, Nat.le_refl _⟩
    rw [findAssignment, (h ' ' 0 _ (by decide)).2, findAssignmentFrom_equals hlast hmore]
    exact congrArg (fun s => some (s, _)) (List.append_nil header)
  · exact ⟨before, arrow, findAssignmentFrom_append hfound hlt _, by omega⟩

/-- An initializer is gathered with the bodies in it, since an assignment stands in front of
them. -/
theorem Declarator.Spelled.gathered {d : Declarator} (hd : d.Spelled)
    {text header : List Char} (hg : Gathered (text ++ d.lead) (header ++ d.head))
    (hstart : Stops isBlank (header ++ d.head)) (h : Assignable (header ++ d.head)) :
    Gathered (text ++ d.text) (header ++ d.piece) ∧ Assignable (header ++ d.piece) := by
  cases hv : d.value with
  | none =>
      have htext : d.text = d.lead := by
        rw [Declarator.text, hv]
        exact List.append_nil _
      rw [htext, Declarator.piece_none hv]
      exact ⟨hg, h⟩
  | some v =>
      obtain ⟨hvalue, hfirst⟩ := hd.value v hv
      have hlast : "=!<>".toList.contains (lastOr ' ' (header ++ d.head)) = false := by
        rw [lastOr_append]
        exact hd.lastOr_head _
      have hequals : ∀ more, more <+: v.2 → more.head? ≠ some '=' := by
        rintro (_ | ⟨c, more⟩) ⟨r, hr⟩ he
        · cases he
        · cases he
          exact (hd.value_head v hv).2 (hr ▸ rfl)
      have htext : text ++ d.text = text ++ d.lead ++ '=' :: v.1 := by
        rw [Declarator.text, hv, List.append_assoc]
        rfl
      rw [htext, Declarator.piece_some hv, ← List.append_assoc]
      refine ⟨hg.append (.code (by decide) (by decide) hvalue) (stops_cons (by decide) _) ?_, .inr ?_⟩
      · rintro - more hmore
        cases more with
        | nil => exact absurd hmore (by simp)
        | cons c more =>
            rw [List.cons_append, List.cons_prefix_cons] at hmore
            obtain ⟨rfl, hmore⟩ := hmore
            obtain ⟨before, arrow, hfound, -⟩ :=
              h.exists_found hlast (hequals more ((List.prefix_append _ _).trans hmore))
            rw [findAssignment_trim (hstart.append_right hg.ne_nil _), hfound]
            rfl
      · obtain ⟨before, arrow, hfound, hle⟩ :=
          h.exists_found hlast (hequals v.2 (List.prefix_refl _))
        refine ⟨before, arrow, hfound, ?_⟩
        cases hk : v.2 with
        | nil =>
            rw [hk] at hfirst
            cases hfirst
        | cons c k =>
            rw [@List.length_append _ _ (_ :: _), List.length_cons, List.length_cons]
            omega

theorem gathered_more {more : List Declarator} (hmore : ∀ d ∈ more, d.Spelled)
    {text header : List Char} (hg : Gathered text header) (hstart : Stops isBlank header)
    (h : Assignable header) :
    Gathered (text ++ more.flatMap fun d => ',' :: d.text)
      (header ++ (more.map Declarator.piece).flatMap (',' :: ·)) := by
  induction more generalizing text header with
  | nil =>
      rw [List.map_nil, List.flatMap_nil, List.flatMap_nil, List.append_nil, List.append_nil]
      exact hg
  | cons d more ih =>
      have hd := hmore d List.mem_cons_self
      have hlead : Gathered ((text ++ [',']) ++ d.lead) ((header ++ [',']) ++ d.head) := by
        rw [List.append_assoc, List.append_assoc]
        exact hg.append (.code (by decide) (by decide) hd.lead) (stops_cons (by decide) _) nofun
      have hstart' := hstart.append_right hg.ne_nil
      have hassignable := h.declarator hd
      have hcomma : header ++ ',' :: d.head = (header ++ [',']) ++ d.head := by
        rw [List.append_assoc, List.singleton_append]
      rw [hcomma] at hassignable
      obtain ⟨hgathered, hafter⟩ := hd.gathered hlead (hcomma ▸ hstart' _) hassignable
      have hall := ih (fun e he => hmore e (List.mem_cons_of_mem d he)) hgathered
        (by rw [List.append_assoc]; exact hstart' _) hafter
      simpa only [List.map_cons, List.flatMap_cons, List.append_assoc, List.nil_append,
        List.cons_append] using hall

/-! ## What the header says -/

/-- What stands in front of the first assignment of a text is not taken for a method, and the
assignment is no arrow. -/
def Plain (s : List Char) : Prop :=
  ∀ prev, prev ≠ '=' → ∃ head,
    (findAssignmentFrom prev 0 false s).getD (s, false) = (head, false) ∧ '(' ∉ head

theorem Plain.append {s t : List Char} (hs : Unassigned s) (hparen : '(' ∉ s) (ht : Plain t) :
    Plain (s ++ t) := by
  intro prev hprev
  obtain ⟨hlast, hfound⟩ := hs prev 0 t hprev
  obtain ⟨head, hhead, hnone⟩ := ht _ hlast
  refine ⟨s ++ head, ?_, by simp [hparen, hnone]⟩
  rw [hfound]
  cases hcase : findAssignmentFrom (lastOr prev s) 0 false t with
  | none =>
      rw [hcase] at hhead
      cases hhead
      rfl
  | some found =>
      rw [hcase] at hhead
      cases hhead
      rfl

theorem Declarator.Spelled.plain {d : Declarator} (hd : d.Spelled) {r : List Char}
    (hr : Plain r) : Plain (d.piece ++ r) := by
  cases hv : d.value with
  | none =>
      rw [Declarator.piece_none hv]
      exact .append hd.head_unassigned hd.head_noParen hr
  | some v =>
      intro prev hprev
      rw [hd.findAssignmentFrom_piece hv hprev]
      exact ⟨d.head, rfl, hd.head_noParen⟩

theorem plain_more {more : List Declarator} (hmore : ∀ d ∈ more, d.Spelled) :
    Plain ((more.map Declarator.piece).flatMap (',' :: ·)) := by
  induction more with
  | nil => exact fun _ _ => ⟨[], rfl, List.not_mem_nil⟩
  | cons d more ih =>
      rw [List.map_cons, List.flatMap_cons]
      have htail := ih fun e he => hmore e (List.mem_cons_of_mem d he)
      have hrest := (hmore d List.mem_cons_self).plain htail
      exact .append (s := [',']) (.single (by decide)) (by decide) hrest

theorem plain_trim {s : List Char} (hstart : Stops isBlank s) (h : Plain s) : ∃ head,
    (findAssignment (trim s)).getD (trim s, false) = (head, false) ∧ '(' ∉ head := by
  obtain ⟨head, hhead, hparen⟩ := h ' ' (by decide)
  rw [findAssignment_trim hstart, findAssignment]
  cases hcase : findAssignmentFrom ' ' 0 false s with
  | none =>
      rw [hcase] at hhead
      cases hhead
      obtain ⟨gap, -, hsplit⟩ := exists_trimEnd s
      refine ⟨trim s, rfl, fun hmem => hparen ?_⟩
      rw [trim, trimStart_of_stops hstart] at hmem
      rw [hsplit]
      exact List.mem_append_left gap hmem
  | some found =>
      rw [hcase] at hhead
      exact ⟨head, hhead, hparen⟩

theorem declaratorName_pad {s gap : List Char} (hgap : allBlank gap = true) :
    declaratorName (s ++ gap) = declaratorName s := by
  have htrim : trimEnd (s ++ gap) = trimEnd s := by
    rw [trimEnd, List.reverse_append, List.dropWhile_append_of_pos, trimEnd]
    exact fun c hc => List.all_eq_true.1 hgap c (List.mem_reverse.1 hc)
  have hhead : trimEnd (beforeAssignment (s ++ gap)) = trimEnd (beforeAssignment s) := by
    rw [beforeAssignment, beforeAssignment, findAssignment, findAssignmentFrom_pad hgap]
    cases hfound : findAssignmentFrom ' ' 0 false s with
    | none => simpa [findAssignment, hfound] using htrim
    | some found => simp [findAssignment, hfound]
  rw [declaratorName, hhead]
  rfl

theorem fieldNames_pad {s gap : List Char} (hgap : allBlank gap = true) :
    fieldNames (s ++ gap) = fieldNames s := by
  have hcomma : ',' ∉ gap := notMem_of_allBlank (by decide) hgap
  obtain ⟨before, last, hs, ht⟩ := Counter.split_pad hcomma {} s
  have hs : splitTop ',' s = before ++ [last] := hs
  have ht : splitTop ',' (s ++ gap) = before ++ [last ++ gap] := ht
  rw [fieldNames, fieldNames, hs, ht, List.filterMap_append, List.filterMap_append,
    List.filterMap_cons, List.filterMap_cons, declaratorName_pad hgap]

/-! ## The first declarator -/

def frontWords : List (List Char) := ["namespace", "using", "global", "extern"].map String.toList

/-- In front of the first name stand the modifiers and the type, which start with a word that is
not the one of another statement. -/
structure Declarator.First (d : Declarator) : Prop where
  starts : d.lead.head?.any isWordChar = true
  edge : EndsIn (fun c => !isWordChar c) d.before
  word : d.before.takeWhile isWordChar ∉ frontWords

theorem StringLiteral.exists_cons {u : List Char} (h : StringLiteral u) :
    ∃ c s, u = c :: s ∧ c ∈ "\"@$".toList := by
  cases h with
  | @regular marks content hmarks _ =>
      simp only [List.mem_cons, List.not_mem_nil, or_false] at hmarks
      rcases hmarks with rfl | rfl
      · exact ⟨'"', _, rfl, by decide⟩
      · exact ⟨'$', _, rfl, by decide⟩
  | @verbatim marks content hmarks _ =>
      simp only [List.mem_cons, List.not_mem_nil, or_false] at hmarks
      rcases hmarks with rfl | rfl | rfl
      · exact ⟨'@', _, rfl, by decide⟩
      · exact ⟨'$', _, rfl, by decide⟩
      · exact ⟨'@', _, rfl, by decide⟩
  | @raw dollars quotes content hquotes _ _ _ _ =>
      obtain ⟨n, rfl⟩ : ∃ n, quotes = n + 1 := ⟨quotes - 1, by omega⟩
      cases dollars with
      | zero => exact ⟨'"', _, rfl, by decide⟩
      | succ m => exact ⟨'$', _, rfl, by decide⟩

/-- What starts with a word starts no comment, literal or body. -/
theorem Gathers.start {braced after : Bool} {c : Char} {s t : List Char}
    (h : Gathers braced after (c :: s) t) (hc : isWordChar c = true) :
    ∃ t', t = c :: t' ∧ Gathers braced false s t' := by
  have hsign : ∀ d, d ∈ foreignSigns → c ≠ d := fun d hd =>
    ne_of_isWordChar hc (isWordChar_sign (by simp [hd]))
  generalize hs : c :: s = cs at h
  cases h with
  | nil => cases hs
  | space hblank _ | more hblank _ =>
      cases hs
      rw [not_isBlank_of_isWordChar hc] at hblank
      cases hblank
  | code _ _ ht =>
      cases hs
      exact ⟨_, rfl, ht⟩
  | slash | lineComment | blockComment =>
      cases hs
      exact absurd rfl (hsign '/' (by decide))
  | mark hm =>
      cases hs
      rw [isStringMark, Bool.or_eq_true, beq_iff_eq, beq_iff_eq] at hm
      rcases hm with rfl | rfl
      · exact absurd rfl (hsign '@' (by decide))
      · exact absurd rfl (hsign '$' (by decide))
  | string hu =>
      obtain ⟨d, u, rfl, hd⟩ := hu.exists_cons
      cases hs
      exact absurd rfl (hsign c ((by decide : "\"@$".toList ⊆ foreignSigns) hd))
  | char =>
      cases hs
      exact absurd rfl (hsign '\'' (by decide))
  | body =>
      cases hs
      exact absurd rfl (hsign '\x7b' (by decide))

theorem takeWhile_first {p : Char → Bool} {s : List Char} (h : EndsIn (fun c => !p c) s)
    (r : List Char) : (s ++ r).takeWhile p = s.takeWhile p := by
  obtain ⟨before, c, rfl, hc⟩ := h
  have hcut : ∀ r, (before ++ c :: r).takeWhile p = before.takeWhile p := fun r =>
    (takeWhile_append_of_stops (stops_cons (by simpa using hc) r) before).1
  rw [List.append_assoc, List.singleton_append, hcut, hcut]

section First

variable {d : Declarator} (hd : d.Spelled) (hfirst : d.First)
include hd hfirst

theorem Declarator.First.exists_cons : ∃ c s t, d.lead = c :: s ∧ d.head = c :: t ∧
    isWordChar c = true ∧ Gathers false false s t := by
  have hstarts := hfirst.starts
  have hlead := hd.lead
  cases hcase : d.lead with
  | nil =>
      rw [hcase] at hstarts
      cases hstarts
  | cons c s =>
      rw [hcase] at hstarts hlead
      obtain ⟨t, ht, hgathers⟩ := hlead.start hstarts
      exact ⟨c, s, t, rfl, ht, hstarts, hgathers⟩

theorem Declarator.First.gathered : Gathered d.lead d.head := by
  obtain ⟨c, s, t, hlead, hhead, hc, hgathers⟩ := hfirst.exists_cons hd
  rw [hlead, hhead]
  refine gathered_start (not_isBlank_of_isWordChar hc) (fun hmem => ?_) hgathers
  have htable : ∀ d ∈ "/'\"@$\x7b\x7d;#[".toList, isWordChar d = false := by decide
  rw [htable c hmem] at hc
  cases hc

theorem Declarator.First.gathered_listed {more : List Declarator}
    (hmore : ∀ e ∈ more, e.Spelled) : Gathered (listed d more) (listedHeader d more) := by
  have hstart : Stops isBlank d.head := by
    obtain ⟨c, -, t, -, hhead, hc, -⟩ := hfirst.exists_cons hd
    rw [hhead]
    exact stops_cons (not_isBlank_of_isWordChar hc) t
  have hpiece := @Declarator.Spelled.gathered d hd [] [] (hfirst.gathered hd) hstart
    (.inl hd.head_unassigned)
  have hne : d.head ≠ [] := (hfirst.gathered hd).ne_nil
  exact gathered_more hmore hpiece.1 (hstart.append_right hne _) hpiece.2

/-- The header starts with the first word of the declarator, also without the blanks at its
end. -/
theorem Declarator.First.header_word (more : List Declarator) :
    Stops isBlank (listedHeader d more) ∧
      (trim (listedHeader d more)).head?.any isWordChar = true ∧
      (trim (listedHeader d more)).takeWhile isWordChar = d.before.takeWhile isWordChar := by
  obtain ⟨c, -, t, -, hhead, hc, -⟩ := hfirst.exists_cons hd
  have htext : ∃ r, listedHeader d more = d.before ++ (d.name ++ d.behind ++ r) :=
    ⟨_, by rw [listedHeader, Declarator.piece, Declarator.head, List.append_assoc,
      List.append_assoc]⟩
  obtain ⟨r, htext⟩ := htext
  have hcons : listedHeader d more = c :: (t ++ r) := by
    rw [htext, ← List.append_assoc, ← Declarator.head, hhead, List.cons_append]
  have hstart : Stops isBlank (listedHeader d more) := by
    rw [hcons]
    exact stops_cons (not_isBlank_of_isWordChar hc) _
  obtain ⟨gap, hgap, hsplit⟩ := exists_trimEnd (listedHeader d more)
  have htrim : trim (listedHeader d more) = trimEnd (listedHeader d more) := by
    rw [trim, trimStart_of_stops hstart]
  have htake : (trimEnd (listedHeader d more)).takeWhile isWordChar = d.before.takeWhile isWordChar := by
    rw [← (takeWhile_append_of_stops (stops_blank hgap) _).1, ← hsplit, htext,
      takeWhile_first hfirst.edge]
  have hkeep : trimEnd (listedHeader d more) = c :: trimEnd (t ++ r) := by
    rw [hcons]
    exact trimEnd_append_cons (not_isBlank_of_isWordChar hc) [] (t ++ r)
  rw [htrim]
  exact ⟨hstart, by rw [hkeep]; exact hc, htake⟩

theorem Declarator.First.memberHeader {more : List Declarator}
    (htype : readTypeHeader (trim (listedHeader d more)) = none) :
    MemberHeader (trim (listedHeader d more)) ∧
      ((words (trim (listedHeader d more))).head?.any fun word =>
        ["using", "global", "extern"].contains (String.ofList word)) = false := by
  obtain ⟨-, hhead, htake⟩ := hfirst.header_word hd more
  have hword := hfirst.word
  rw [← htake] at hword
  generalize trim (listedHeader d more) = h at htype hhead hword
  refine ⟨⟨?_, ?_, htype⟩, not_directive_run (fun _ => not_isBlank_of_isWordChar) (by decide)
    hhead fun word hmem he => hword ?_⟩
  · rintro rfl
    cases hhead
  · rw [Option.eq_none_iff_forall_ne_some]
    intro rest hrest
    have hkey : ("namespace".toList ++ ' ' :: rest).takeWhile isWordChar = "namespace".toList :=
      takeWhile_append_stops (by decide) (stops_cons (isWordChar_sign (by decide)) _)
    have htext : h = "namespace ".toList ++ rest := stripStart?_eq_some.1 hrest
    have hsame : "namespace ".toList ++ rest = "namespace".toList ++ ' ' :: rest := rfl
    rw [htext, hsame, hkey] at hword
    exact hword (by decide)
  · rw [he]
    exact List.mem_map.2 ⟨word, List.mem_cons_of_mem _ hmem, rfl⟩

omit hfirst in
/-- The first name is recorded, whatever its initializer is. -/
theorem Declarator.Spelled.first_name (more : List Declarator) :
    ∃ names, fieldNames (listedHeader d more) = d.name :: names := by
  have hcut : ∀ s, splitTop ',' (d.head ++ s) = d.head.foldr consPiece (Counter.split {} s) :=
    Counter.split_append hd.after_head
  have hnames : ∀ {piece : List Char} {rest : List (List Char)},
      splitTop ',' (listedHeader d more) = piece :: rest → declaratorName piece = some d.name →
        ∃ names, fieldNames (listedHeader d more) = d.name :: names := by
    intro piece rest hsplit hname
    exact ⟨rest.filterMap declaratorName, by rw [fieldNames, hsplit, List.filterMap_cons_some hname]⟩
  cases hv : d.value with
  | none =>
      have htext : listedHeader d more = d.head ++ (more.map Declarator.piece).flatMap (',' :: ·) := by
        rw [listedHeader, Declarator.piece_none hv]
      obtain ⟨rest, hrest⟩ : ∃ rest,
          Counter.split {} ((more.map Declarator.piece).flatMap (',' :: ·)) = [] :: rest := by
        cases more with
        | nil => exact ⟨[], Counter.split_nil⟩
        | cons e more => exact ⟨_, Counter.split_comma _⟩
      refine @hnames d.head rest ?_ (hd.declaratorName_eq hd.beforeAssignment_head)
      rw [htext, hcut, hrest, foldr_consPiece]
  | some v =>
      have htext : listedHeader d more =
          d.head ++ '=' :: (v.2 ++ (more.map Declarator.piece).flatMap (',' :: ·)) := by
        rw [listedHeader, Declarator.piece_some hv, List.append_assoc, List.cons_append]
      -- Only the beginning of the initializer may be left, which is no sign of a comparison.
      have hvalue : (v.2 ++ (more.map Declarator.piece).flatMap (',' :: ·)).head? ≠ some '=' := by
        rw [List.head?_append_of_ne_nil _ (hd.value_head v hv).1]
        exact (hd.value_head v hv).2
      generalize v.2 ++ (more.map Declarator.piece).flatMap (',' :: ·) = r at htext hvalue
      obtain ⟨value, rest, hrest, hstart⟩ : ∃ value rest, Counter.split {} r = value :: rest ∧
          value.head? ≠ some '=' := by
        rcases Counter.split_cases {} r with ⟨-, hsplit⟩ | ⟨value, rest, rfl, -, hsplit⟩
        · exact ⟨_, _, hsplit, hvalue⟩
        · refine ⟨value, _, hsplit, fun he => hvalue ?_⟩
          rw [List.head?_append, he, Option.some_or]
      refine @hnames (d.head ++ '=' :: value) rest ?_
        (hd.declaratorName_eq (hd.beforeAssignment_equals hstart))
      have hequals : Counter.split {} ('=' :: r) = ('=' :: value) :: rest := by
        rw [Counter.split_cons (by decide)]
        exact congrArg (consPiece '=') hrest
      rw [htext, hcut, hequals, foldr_consPiece_cons]

end First

/-! ## What is recorded -/

theorem statementMade_field {owner h : List Char} {head : List Char}
    (hskip : (hasWord "event" h || hasWord "delegate" h) = false)
    (hhead : (findAssignment h).getD (h, false) = (head, false)) (hparen : '(' ∉ head)
    (hne : fieldNames h ≠ []) : statementMade owner h = [(fieldNames h, .field)] := by
  have hcontains : head.contains '(' = false := by
    rw [Bool.eq_false_iff, ne_eq, List.contains_iff_mem]
    exact hparen
  have hempty : (fieldNames h).isEmpty = false := List.isEmpty_eq_false_iff.2 hne
  simp only [statementMade, hskip, hhead, hcontains, hempty, Bool.false_eq_true, if_false]

/-- A field statement is one declaration, or none if one of the words `event` and `delegate` is
in it, and its first name is always found.  The names are those of its declarators if the counter
of brackets comes through the initializers, and the pieces are the declarators only then.  It
comes through initializers in which angle brackets match as the other brackets do. -/
theorem gives_declarators {owner : List Char} {first : Declarator} {more : List Declarator}
    (hspelled : ∀ d ∈ first :: more, d.Spelled) (hfirst : first.First)
    (htype : readTypeHeader (trim (listedHeader first more)) = none) :
    Gives owner (listed first more ++ [';'])
      (if hasWord "event" (listedHeader first more) || hasWord "delegate" (listedHeader first more)
        then [] else [(fieldNames (listedHeader first more), .field)]) ∧
    (∃ names, fieldNames (listedHeader first more) = first.name :: names) ∧
    (splitTop ',' (listedHeader first more) = (first :: more).map Declarator.piece ↔
      Apart ((first :: more).map Declarator.kept)) ∧
    (Apart ((first :: more).map Declarator.kept) →
      fieldNames (listedHeader first more) = (first :: more).map Declarator.name) ∧
    ((∀ s ∈ (first :: more).map Declarator.kept, Balanced InQuotes false s) →
      fieldNames (listedHeader first more) = (first :: more).map Declarator.name) := by
  have hd := hspelled first List.mem_cons_self
  have hmore : ∀ d ∈ more, d.Spelled := fun d hd => hspelled d (List.mem_cons_of_mem first hd)
  have hname := hd.first_name more
  have hsplit : splitTop ',' (listedHeader first more) = (first :: more).map Declarator.piece ↔
      Apart ((first :: more).map Declarator.kept) := by
    rw [← apart_map fun d hd => (hspelled d hd).after_piece]
    exact splitTop_joined_iff
  have hnames : Apart ((first :: more).map Declarator.kept) →
      fieldNames (listedHeader first more) = (first :: more).map Declarator.name := by
    intro hapart
    rw [fieldNames, hsplit.2 hapart, List.filterMap_map, ← List.filterMap_eq_map]
    exact List.filterMap_congr fun d hd => (hspelled d hd).declaratorName_piece
  refine ⟨?_, hname, hsplit, hnames, fun hbalanced => hnames (apart_of_balanced hbalanced)⟩
  · obtain ⟨hstart, -, -⟩ := hfirst.header_word hd more
    obtain ⟨hheader, hdirective⟩ := hfirst.memberHeader hd htype
    have hgives : Gives owner (listed first more ++ [';'])
        (statementMade owner (trim (listedHeader first more))) :=
      gives_semicolon (hfirst.gathered_listed hd hmore) hheader hdirective
    obtain ⟨gap, hgap, htrim⟩ : ∃ gap, allBlank gap = true ∧
        listedHeader first more = trim (listedHeader first more) ++ gap := by
      rw [trim, trimStart_of_stops hstart]
      exact exists_trimEnd _
    have hfields : fieldNames (trim (listedHeader first more)) =
        fieldNames (listedHeader first more) := by
      conv_rhs => rw [htrim, fieldNames_pad hgap]
    have hwords : ∀ word, hasWord word (trim (listedHeader first more)) =
        hasWord word (listedHeader first more) := by
      intro word
      conv_rhs => rw [htrim, hasWord, identifiers_pad hgap, ← hasWord]
    rw [← hwords, ← hwords, ← hfields]
    split
    · rename_i hskip
      rwa [statementMade_skipped hskip] at hgives
    · rename_i hskip
      obtain ⟨names, hname⟩ := hname
      obtain ⟨head, hhead, hparen⟩ := plain_trim hstart (hd.plain (plain_more hmore))
      rwa [statementMade_field (eq_false_of_ne_true hskip) hhead hparen
        (by rw [hfields, hname]; exact List.cons_ne_nil _ _)] at hgives

/-- The field `a` of the type `int` with this initializer, and the field `b` behind it. -/
def fieldA (value : List Char) : Declarator :=
  { lead := "int a ".toList, before := "int ".toList, name := ['a'], behind := [' ']
    value := some (value, value) }

def fieldB : Declarator := { lead := " b".toList, before := [' '], name := ['b'], behind := [] }

theorem gathers_plain {braced : Bool} {s : List Char} (hs : ∀ c ∈ s, c ∉ "/'\"@$\x7b\x7d;".toList)
    (hsqueeze : squeeze false s = s) : Gathers braced false s s := by
  have h : Gathers braced false (s ++ []) (squeeze false s ++ []) := gathers_squeeze hs .nil
  rwa [List.append_nil, List.append_nil, hsqueeze] at h

theorem fieldA_spelled {value : List Char} (hvalue : ∀ c ∈ value, c ∉ "/'\"@$\x7b\x7d;".toList)
    (hsqueeze : squeeze false value = value)
    (hfirst : value.head?.any (fun c => c != '=' && c != '>') = true) :
    (fieldA value).Spelled ∧ (fieldA value).First := by
  have hint : Wording declaring false "int ".toList :=
    .word (w := "int".toList) (s := [' ']) (by decide) (by decide)
      (stops_cons (isWordChar_sign (by decide)) _) (.blank (by decide) .nil)
  have hedge : EndsIn (fun c => !isWordChar c) "int ".toList := ⟨"int".toList, ' ', rfl, by decide⟩
  have hname : IsWord ['a'] := ⟨by decide, by decide⟩
  have hparen : '(' ∉ "int ".toList := by decide
  have hword : "int ".toList.takeWhile isWordChar ∉ frontWords := by decide
  refine ⟨⟨gathers_plain (s := "int a ".toList) (by decide) (by decide), hint, .inr hedge, hparen,
    hname, rfl, ?_⟩, rfl, hedge, hword⟩
  rintro v ⟨⟩
  exact ⟨gathers_plain hvalue hsqueeze, hfirst⟩

theorem fieldB_spelled : fieldB.Spelled where
  lead := gathers_plain (s := " b".toList) (by decide) (by decide)
  before := .blank (by decide) .nil
  edge := .inr ⟨[], ' ', rfl, by decide⟩
  noParen := by decide
  name := ⟨by decide, by decide⟩
  behind := by decide
  value := nofun

theorem gives_declarators_shift :
    (∀ d ∈ [fieldA " x >> f(y, 2)".toList, fieldB], d.Spelled) ∧
      Gives "A".toList "int a = x >> f(y, 2), b;".toList [([['a'], ['b']], .field)] := by
  obtain ⟨ha, hfirst⟩ := @fieldA_spelled " x >> f(y, 2)".toList (by decide) (by decide)
    (by decide)
  have hspelled : ∀ d ∈ [fieldA " x >> f(y, 2)".toList, fieldB], d.Spelled :=
    List.forall_mem_cons.2 ⟨ha, List.forall_mem_singleton.2 fieldB_spelled⟩
  obtain ⟨hgives, -, -, hnames, -⟩ :=
    @gives_declarators "A".toList _ [fieldB] hspelled hfirst (by decide +kernel)
  refine ⟨hspelled, ?_⟩
  have hskip : (hasWord "event" (listedHeader (fieldA " x >> f(y, 2)".toList) [fieldB]) ||
      hasWord "delegate" (listedHeader (fieldA " x >> f(y, 2)".toList) [fieldB])) = false := by
    decide +kernel
  rw [hskip, if_neg Bool.false_ne_true, hnames ⟨by decide, ⟨{}, by decide⟩⟩] at hgives
  exact hgives

/-- A comparison hides the comma behind it, a lambda in brackets shows the commas behind it, and
an anonymous method takes the whole statement with it. -/
theorem gives_declarators_comparison :
    ((∀ d ∈ [fieldA " x < y".toList, fieldB], d.Spelled) ∧
      (∀ c ∈ " x < y".toList, c ∉ "()[]\x7b\x7d,".toList)) ∧
      scan "class A \x7b\nint a = x < y, b;\n\x7d\n" =
        .ok [{ names := ["A"], kind := .classType },
          { names := ["a"], kind := .field, parent := some 0 }] ∧
      scan "class A \x7b\nFunc f = g(() => 1, x);\n\x7d\n" =
        .ok [{ names := ["A"], kind := .classType },
          { names := ["f", "x"], kind := .field, parent := some 0 }] ∧
      scan "class A \x7b\nFunc f = delegate \x7b \x7d;\n\x7d\n" =
        .ok [{ names := ["A"], kind := .classType }] := by
  refine ⟨⟨List.forall_mem_cons.2 ⟨?_, List.forall_mem_singleton.2 fieldB_spelled⟩, by decide⟩,
    scan_eq_ok (by decide +kernel), scan_eq_ok (by decide +kernel), scan_eq_ok (by decide +kernel)⟩
  exact (@fieldA_spelled " x < y".toList (by decide) (by decide) (by decide)).1

end Declaration
end DocPages

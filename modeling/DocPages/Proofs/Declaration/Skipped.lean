/-
Members that declare nothing.

Constructors, finalizers and operators have no name in front of their parameters, and events,
delegates and indexers are told by a word in their header: `Skipped.gives`.
-/
import DocPages.Proofs.Declaration.Assignments
import DocPages.Proofs.Declaration.Members

namespace DocPages
namespace Declaration

open Text

/-! ## Forms -/

def modifierWords : List (List Char) :=
  ["public", "protected", "internal", "private", "file", "static", "extern", "unsafe", "new",
   "virtual", "override", "abstract", "sealed", "readonly", "async", "partial", "required",
   "volatile", "implicit", "explicit"].map String.toList

/-- Modifiers and the direction of a conversion, each with blanks behind it. -/
inductive Modifiers : List Char → Prop
  | nil : Modifiers []
  | cons {word gap rest : List Char} :
      word ∈ modifierWords → gap ≠ [] → allBlank gap = true → Modifiers rest →
      Modifiers (word ++ (gap ++ rest))

def operatorSigns : List (List Char) :=
  ["+", "-", "!", "~", "++", "--", "*", "/", "%", "&", "|", "^", "<<", ">>", ">>>", "==", "!=",
   "<", ">", "<=", ">="].map String.toList

/-- What stands behind the word `operator`, unless it is the type of a conversion. -/
inductive OperatorName : List Char → Prop
  | sign {gap sign : List Char} :
      allBlank gap = true → sign ∈ operatorSigns → OperatorName (gap ++ sign)
  | checked {gap gap' sign : List Char} :
      gap ≠ [] → allBlank gap = true → allBlank gap' = true → sign ∈ operatorSigns →
      OperatorName (gap ++ ("checked".toList ++ (gap' ++ sign)))
  | word {gap word : List Char} :
      gap ≠ [] → allBlank gap = true → word ∈ ["true", "false"].map String.toList →
      OperatorName (gap ++ word)

/-- Members of the type `owner` up to their parameters. -/
inductive Nameless (owner : List Char) : List Char → Prop
  | constructor {front : List Char} :
      Modifiers front → IsWord owner → owner ∉ declaring → Nameless owner (front ++ owner)
  | finalizer {front gap name : List Char} :
      Modifiers front → allBlank gap = true → IsIdentifier name → name ∉ declaring →
      Nameless owner (front ++ '~' :: (gap ++ name))
  | operator {front type gap name : List Char} :
      Modifiers front → TypeText declaring .type type → '(' ∉ type → gap ≠ [] →
      allBlank gap = true → OperatorName name →
      Nameless owner (front ++ (type ++ (gap ++ ("operator".toList ++ name))))
  | conversion {front gap type : List Char} :
      Modifiers front → gap ≠ [] → allBlank gap = true → TypeText declaring .type type →
      Nameless owner (front ++ ("operator".toList ++ (gap ++ type)))

/-- An event or a delegate up to its last name: a keyword, and then types and names. -/
inductive Marked (word : String) : List Char → Prop
  | intro {front gap rest : List Char} :
      Modifiers front → gap ≠ [] → allBlank gap = true → Wording declaring true rest →
      Trimmed rest → Marked word (front ++ (word.toList ++ (gap ++ rest)))

/-! ## Words in front -/

theorem modifierWords_isWord {word : List Char} (h : word ∈ modifierWords) :
    IsWord word ∧ word ∉ declaring := by
  have htable : ∀ word ∈ modifierWords, (word.head?.any isIdentStart = true ∧
      word.all isIdentChar = true) ∧ word ∉ declaring := by decide
  obtain ⟨⟨hstarts, hinside⟩, hfree⟩ := htable word h
  exact ⟨⟨hstarts, List.all_eq_true.1 hinside⟩, hfree⟩

namespace Modifiers

variable {front s : List Char} (h : Modifiers front)
include h

theorem wording {commas : Bool} (hs : Wording declaring commas s) :
    Wording declaring commas (front ++ s) := by
  induction h with
  | nil => exact hs
  | @cons word gap rest hword hne hgap _ ih =>
      have hw := modifierWords_isWord hword
      rw [List.append_assoc, List.append_assoc]
      exact .word (.of_isWord hw.1) hw.2 ((stops_blank hgap).append_right hne _) (.pad hgap ih)

theorem notMem {c : Char} (hc : isWordChar c = false ∧ isBlank c = false) : c ∉ front := by
  induction h with
  | nil => exact List.not_mem_nil
  | @cons word gap rest hword _ hgap _ ih =>
      have hw : IsIdentifier word := .of_isWord (modifierWords_isWord hword).1
      simp [hw.notMem hc.1, notMem_of_allBlank hc.2 hgap, ih]

theorem eq_nil_or_head : front = [] ∨ front.head?.any isWordChar = true := by
  cases h with
  | nil => exact .inl rfl
  | @cons word gap rest hword _ _ _ =>
      have hw : IsIdentifier word := .of_isWord (modifierWords_isWord hword).1
      exact .inr (head_append hw.head _)

theorem head (hs : s.head?.any isWordChar = true) :
    (front ++ s).head?.any isWordChar = true := by
  rcases h.eq_nil_or_head with rfl | hfront
  · exact hs
  · exact head_append hfront s

theorem exists_identifiers (s : List Char) :
    ∃ words, identifiers (front ++ s) = words ++ identifiers s := by
  induction h with
  | nil => exact ⟨[], rfl⟩
  | @cons word gap rest hword hne hgap _ ih =>
      obtain ⟨words, ih⟩ := ih
      have hw := modifierWords_isWord hword
      refine ⟨word :: words, ?_⟩
      have hstops : Stops isIdentChar (gap ++ (rest ++ s)) :=
        (stops_ident hgap).append_right hne _
      rw [List.append_assoc, List.append_assoc, identifiers_word hw.1 hstops, identifiers_skip hgap, ih]
      rfl

end Modifiers

namespace Wording

variable {commas : Bool} {s r : List Char} (h : Wording declaring commas s)
include h

theorem notNamespace (hne : s ≠ []) (hr : Stops isWordChar r) :
    stripStart? "namespace ".toList (s ++ r) = none := by
  have hother : ∀ {c : Char}, isBlank c = true ∨ c ∈ typePunctuation → c ≠ 'n' := by
    rintro c hc rfl
    revert hc
    decide
  cases h with
  | nil => exact absurd rfl hne
  | @word _ w s hw hfree hs _ =>
      rw [Option.eq_none_iff_forall_ne_some]
      intro rest hrest
      have hword : ((w ++ s) ++ r).takeWhile isWordChar = w := by
        rw [List.append_assoc]
        exact takeWhile_append_stops hw.inside (stops_append hs hr)
      have hkey : ("namespace".toList ++ ' ' :: rest).takeWhile isWordChar = "namespace".toList :=
        takeWhile_append_stops (by decide) (stops_cons (isWordChar_sign (by decide)) _)
      rw [stripStart?_eq_some.1 hrest] at hword
      have hsame : "namespace".toList = w := hkey.symm.trans hword
      exact hfree (hsame ▸ List.mem_cons_self)
  | blank hc _ => exact stripStart?_cons_ne (hother (.inl hc)).symm _ _
  | mark hc _ _ => exact stripStart?_cons_ne (hother (.inr (mem_punctuation_of_mark hc))).symm _ _
  | brackets hb _ _ =>
      exact stripStart?_cons_ne (hother (.inr (mem_punctuation_of_pair hb).1)).symm _ _

end Wording

/-! ## Operator signs -/

/-- Each equals sign of a text is part of a comparison. -/
def noSign (prev : Char) : List Char → Bool
  | [] => true
  | c :: s =>
    c != '"' && (c != '=' || s.head? == some '=' || "=!<>".toList.contains prev) && noSign c s

theorem operatorSigns_noSign : ∀ sign ∈ operatorSigns, noSign ' ' sign = true := by decide

theorem noSign_of_space {s : List Char} (h : noSign ' ' s = true) (prev : Char) :
    noSign prev s = true := by
  cases s with
  | nil => rfl
  | cons c s =>
      have hspace : "=!<>".toList.contains ' ' = false := rfl
      rw [noSign, hspace, Bool.or_false] at h
      rw [noSign]
      simp only [Bool.and_eq_true] at h ⊢
      exact ⟨⟨h.1.1, by rw [h.1.2, Bool.true_or]⟩, h.2⟩

theorem operatorSigns_chars : ∀ sign ∈ operatorSigns, sign ≠ [] ∧
    ∀ c ∈ sign, c ∉ "csier(".toList ∧ isWordChar c = false ∧ isBlank c = false := by
  decide

theorem findAssignmentFrom_noSign {prev : Char} {s : List Char} (h : noSign prev s = true)
    (depth : Nat) (r : List Char) : ∃ prev' depth',
      findAssignmentFrom prev depth false (s ++ r) =
        (findAssignmentFrom prev' depth' false r).map fun found => (s ++ found.1, found.2) := by
  induction s generalizing prev depth with
  | nil => exact ⟨prev, depth, (Option.map_id' (x := _)).symm⟩
  | cons c s ih =>
      simp only [noSign, Bool.and_eq_true, bne_iff_ne, ne_eq, Bool.or_eq_true, beq_iff_eq] at h
      obtain ⟨⟨hquote, hsign⟩, hs⟩ := h
      -- Whatever the depth is after this character, no assignment is found at it.
      obtain ⟨depth', hstep⟩ : ∃ depth', findAssignmentFrom prev depth false (c :: (s ++ r)) =
          (findAssignmentFrom c depth' false (s ++ r)).map fun found => (c :: found.1, found.2) := by
        have hnone : ¬ (c = '=' ∧ depth = 0 ∧ (s ++ r).head?.getD ' ' ≠ '=' ∧
            (!"=!<>".toList.contains prev) = true) := by
          rintro ⟨hc, -, hnext, hprev⟩
          rcases hsign with (hne | hhead) | hin
          · exact hne hc
          · cases s with
            | nil => cases hhead
            | cons d s => exact hnext (Option.some.inj hhead)
          · rw [hin] at hprev
            cases hprev
        rw [findAssignmentFrom]
        simp only [Bool.false_eq_true, if_false, if_neg hquote, if_neg hnone]
        repeat' split
        all_goals exact ⟨_, rfl⟩
      obtain ⟨prev', depth'', ih⟩ := ih hs depth'
      refine ⟨prev', depth'', ?_⟩
      rw [List.cons_append, hstep, ih, Option.map_map]
      rfl

/-! ## Beginnings of headers -/

/-- Wordings, and the signs of operators and finalizers. -/
inductive MemberStart : List Char → Prop
  | wording {commas : Bool} {s : List Char} : Wording declaring commas s → MemberStart s
  | signed {s sign : List Char} :
      Wording declaring false s → sign ∈ operatorSigns → MemberStart (s ++ sign)
  | tilde {s t : List Char} :
      Wording declaring false s → Wording declaring false t → MemberStart (s ++ '~' :: t)

theorem stops_sign {sign : List Char} (h : sign ∈ operatorSigns) (r : List Char) :
    Stops isWordChar (sign ++ r) := by
  obtain ⟨hne, hchars⟩ := operatorSigns_chars sign h
  exact Stops.append_right (fun c hc => (hchars c (List.mem_of_mem_head? hc)).2.1) hne r

theorem typeFree_run {s : List Char} (h : ∀ c ∈ s, c ∉ "csier".toList) (r : List Char) :
    TypeFree s r := by
  induction s with
  | nil => exact .nil
  | cons c s ih =>
      exact .append (s := [c]) (.single (readType_other (h c List.mem_cons_self) _))
        (ih fun d hd => h d (List.mem_cons_of_mem c hd))

namespace MemberStart

variable {s r : List Char} (h : MemberStart s)
include h

theorem typeFree (hr : Stops isWordChar r) : TypeFree s r := by
  have hdeclaring : typeWords ⊆ declaring := List.subset_cons_self _ _
  cases h with
  | wording hs => exact hs.typeFree hdeclaring hr
  | @signed s sign hs hsign =>
      refine .append (hs.typeFree hdeclaring (stops_sign hsign r)) (typeFree_run (fun c hc hmem => ?_) r)
      exact ((operatorSigns_chars sign hsign).2 c hc).1 (List.mem_append_left ['('] hmem)
  | tilde hs ht =>
      refine .append (hs.typeFree hdeclaring (stops_cons (isWordChar_sign (by decide)) _)) ?_
      refine .append (s := ['~']) (.single (readType_other (by decide) _)) (ht.typeFree hdeclaring hr)

theorem notNamespace (hne : s ≠ []) (hr : Stops isWordChar r) :
    stripStart? "namespace ".toList (s ++ r) = none := by
  cases h with
  | wording hs => exact hs.notNamespace hne hr
  | @signed s sign hs hsign =>
      cases s with
      | nil =>
          obtain ⟨hfilled, hchars⟩ := operatorSigns_chars sign hsign
          cases sign with
          | nil => exact absurd rfl hfilled
          | cons c sign =>
              refine stripStart?_cons_ne (fun e => ?_) _ _
              have := (hchars c List.mem_cons_self).2.1
              rw [← e] at this
              revert this
              decide
      | cons c s =>
          rw [List.append_assoc]
          exact hs.notNamespace (List.cons_ne_nil c s) (stops_sign hsign r)
  | @tilde s t hs ht =>
      cases s with
      | nil => exact stripStart?_cons_ne (by decide) _ _
      | cons c s =>
          rw [List.append_assoc]
          exact hs.notNamespace (List.cons_ne_nil c s) (stops_cons (isWordChar_sign (by decide)) _)

/-- No assignment is found in the beginning of a header. -/
theorem passed (r : List Char) : ∃ prev depth, findAssignment (s ++ r) =
    (findAssignmentFrom prev depth false r).map fun found => (s ++ found.1, found.2) := by
  have hpassed : ∀ {s}, Unassigned s → ∃ prev depth, findAssignment (s ++ r) =
      (findAssignmentFrom prev depth false r).map fun found => (s ++ found.1, found.2) :=
    fun hs => ⟨_, 0, (hs ' ' 0 r (by decide)).2⟩
  cases h with
  | wording hs => exact hpassed hs.unassigned
  | @signed s sign hs hsign =>
      obtain ⟨-, hfront⟩ := hs.unassigned ' ' 0 (sign ++ r) (by decide)
      obtain ⟨prev, depth, hback⟩ :=
        findAssignmentFrom_noSign (noSign_of_space (operatorSigns_noSign sign hsign) (lastOr ' ' s)) 0 r
      refine ⟨prev, depth, ?_⟩
      rw [List.append_assoc, findAssignment, hfront, hback, Option.map_map]
      simp only [Function.comp_def, List.append_assoc]
  | tilde hs ht =>
      have htilde : Unassigned ['~'] := .single (by decide)
      exact hpassed (hs.unassigned.append (htilde.append ht.unassigned))

end MemberStart

/-! ## Members with parameters -/

/-- The word `operator` and what stands in front of it. -/
theorem wording_operator {front s : List Char} (hfront : Modifiers front)
    (hs : Wording declaring false s) (hstop : Stops isWordChar s) :
    Wording declaring false (front ++ ("operator".toList ++ s)) :=
  hfront.wording (.word (w := "operator".toList) (by decide) (by decide) hstop hs)

theorem OperatorName.exists_sign {name : List Char} (h : OperatorName name) :
    ∃ s sign, name = s ++ sign ∧ Wording declaring false s ∧ Stops isWordChar name ∧
      (sign = [] ∨ sign ∈ operatorSigns) := by
  have hstops : ∀ {gap sign : List Char}, allBlank gap = true → sign ∈ operatorSigns →
      Stops isWordChar (gap ++ sign) := fun hgap hsign => by
    have := stops_sign hsign []
    rw [List.append_nil] at this
    exact stops_gap hgap this
  cases h with
  | @sign gap sign hgap hsign =>
      exact ⟨gap, sign, rfl, .blanks hgap, hstops hgap hsign, .inr hsign⟩
  | @checked gap gap' sign hne hgap hgap' hsign =>
      refine ⟨gap ++ ("checked".toList ++ gap'), sign, ?_, ?_,
        (stops_blank hgap).append_right hne _, .inr hsign⟩
      · simp only [List.append_assoc]
      · exact .pad hgap (.word (w := "checked".toList) (by decide) (by decide)
          (stops_blank hgap') (.blanks hgap'))
  | @word gap word hne hgap hword =>
      have hwords : ∀ word ∈ ["true", "false"].map String.toList,
          IsIdentifier word ∧ word ∉ declaring := by decide
      have hword' := hwords word hword
      exact ⟨gap ++ word, [], (List.append_nil _).symm, .pad hgap (.of_identifier hword'.1 hword'.2),
        (stops_blank hgap).append_right hne _, .inl rfl⟩

/-- A text that becomes the beginning of a header. -/
structure Begins (text header : List Char) : Prop where
  gathered : Gathered text header
  starts : Stops isBlank header
  memberStart : MemberStart header

theorem starts_squeeze {c : Char} (h : isBlank c = false) (s r : List Char) :
    Stops isBlank (squeeze false (c :: s) ++ r) := by
  rw [squeeze_cons h]
  exact stops_cons h _

theorem Wording.begins {commas : Bool} {s : List Char} (h : Wording declaring commas s)
    (hstart : s.head?.any isWordChar = true) : Begins s (squeeze false s) where
  gathered := h.gathered hstart
  starts := by
    cases s with
    | nil => cases hstart
    | cons c s =>
        have := starts_squeeze (not_isBlank_of_isWordChar hstart) s []
        rwa [List.append_nil] at this
  memberStart := .wording h.squeezed

/-- Only a slash could be taken for the start of a comment. -/
theorem gathers_sign {sign : List Char} (h : sign ∈ operatorSigns) (after : Bool) :
    Gathers false after sign sign := by
  have htable : ∀ sign ∈ operatorSigns, sign = ['/'] ∨ ∀ c ∈ sign, c ∉ "/'\"@$\x7b\x7d;".toList := by
    decide
  obtain ⟨hne, hchars⟩ := operatorSigns_chars sign h
  rcases htable sign h with rfl | hplain
  · exact .slash (stops_nil _) .nil
  · have hself := @squeeze_append_run after [] sign (fun c hc => (hchars c hc).2.2) hne
    have hgathers : Gathers false after (sign ++ []) (squeeze after sign ++ []) :=
      gathers_squeeze hplain .nil
    rwa [List.append_nil, List.append_nil, ← List.nil_append sign, hself] at hgathers

theorem Wording.begins_signed {s sign : List Char} (h : Wording declaring false s)
    (hstart : s.head?.any isWordChar = true) (hsign : sign ∈ operatorSigns) :
    Begins (s ++ sign) (squeeze false (s ++ sign)) := by
  obtain ⟨hne, hchars⟩ := operatorSigns_chars sign hsign
  rw [squeeze_append_run (fun c hc => (hchars c hc).2.2) hne]
  cases s with
  | nil => cases hstart
  | cons c s =>
      have hblank : isBlank c = false := not_isBlank_of_isWordChar hstart
      refine ⟨?_, starts_squeeze hblank s sign, .signed h.squeezed hsign⟩
      exact gathered_squeeze hblank (starts_word hstart) h.plain (gathers_sign hsign _)

namespace Modifiers

variable {front : List Char} (hfront : Modifiers front)
include hfront

theorem begins_constructor {owner : List Char} (hw : IsWord owner) (hfree : owner ∉ declaring) :
    Begins (front ++ owner) (squeeze false (front ++ owner)) := by
  have howner : IsIdentifier owner := .of_isWord hw
  have hwording : Wording declaring false owner := .of_identifier howner hfree
  exact (hfront.wording hwording).begins (hfront.head howner.head)

/-- The first character of a finalizer starts neither a directive nor a section. -/
theorem exists_first (rest : List Char) : ∃ c s, front ++ '~' :: rest = c :: s ∧
    isBlank c = false ∧ c ≠ '#' ∧ c ≠ '[' := by
  rcases hfront.eq_nil_or_head with rfl | hhead
  · exact ⟨'~', _, rfl, by decide, by decide, by decide⟩
  · cases front with
    | nil => cases hhead
    | cons c front =>
        have hc : isWordChar c = true := hhead
        exact ⟨c, _, rfl, not_isBlank_of_isWordChar hc,
          ne_of_isWordChar hc (isWordChar_sign (by decide)),
          ne_of_isWordChar hc (isWordChar_sign (by decide))⟩

theorem begins_finalizer {gap name : List Char} (hgap : allBlank gap = true)
    (hname : IsIdentifier name) (hfree : name ∉ declaring) :
    Begins (front ++ '~' :: (gap ++ name)) (squeeze false (front ++ '~' :: (gap ++ name))) := by
  have hname' : Wording declaring false (gap ++ name) := .pad hgap (.of_identifier hname hfree)
  have hfront' : Wording declaring false front := by
    have hword : Wording declaring false (front ++ []) := hfront.wording .nil
    rwa [List.append_nil] at hword
  have hplain : ∀ d ∈ front ++ '~' :: (gap ++ name), d ∉ "/'\"@$\x7b\x7d;".toList :=
    List.forall_mem_append.2 ⟨hfront'.plain, List.forall_mem_cons.2 ⟨by decide, hname'.plain⟩⟩
  obtain ⟨c, s, htext, hblank, hc⟩ := hfront.exists_first (gap ++ name)
  rw [htext] at hplain
  have hgathered := gathered_squeeze hblank hc hplain .nil
  rw [List.append_nil, List.append_nil, ← htext] at hgathered
  refine ⟨hgathered, ?_, ?_⟩
  · have := starts_squeeze hblank s []
    rwa [List.append_nil, ← htext] at this
  · rw [squeeze_append_cons (by decide)]
    exact .tilde hfront'.squeezed hname'.squeezed

theorem begins_operator {type gap name : List Char} (htype : TypeText declaring .type type)
    (hparen : '(' ∉ type) (hne : gap ≠ []) (hgap : allBlank gap = true) (hname : OperatorName name) :
    Begins (front ++ (type ++ (gap ++ ("operator".toList ++ name))))
      (squeeze false (front ++ (type ++ (gap ++ ("operator".toList ++ name))))) := by
  obtain ⟨s, sign, rfl, hs, hstop, hsign⟩ := hname.exists_sign
  have hstop' : Stops isWordChar s := hstop.of_append
  have hwording : Wording declaring false (front ++ (type ++ (gap ++ ("operator".toList ++ s)))) :=
    hfront.wording (htype.wording.append
      (.pad hgap (.word (w := "operator".toList) (by decide) (by decide) hstop' hs))
      ((stops_blank hgap).append_right hne _))
  have hstart : (front ++ (type ++ (gap ++ ("operator".toList ++ s)))).head?.any isWordChar = true :=
    hfront.head (head_append ((htype.starts rfl).resolve_right hparen) _)
  have htext : front ++ (type ++ (gap ++ ("operator".toList ++ (s ++ sign)))) =
      front ++ (type ++ (gap ++ ("operator".toList ++ s))) ++ sign := by
    simp only [List.append_assoc]
  rw [htext]
  rcases hsign with rfl | hsign
  · rw [List.append_nil]
    exact hwording.begins hstart
  · exact hwording.begins_signed hstart hsign

theorem begins_conversion {gap type : List Char} (hne : gap ≠ []) (hgap : allBlank gap = true)
    (htype : TypeText declaring .type type) :
    Begins (front ++ ("operator".toList ++ (gap ++ type)))
      (squeeze false (front ++ ("operator".toList ++ (gap ++ type)))) :=
  (wording_operator hfront (.pad hgap htype.wording)
    ((stops_blank hgap).append_right hne type)).begins (hfront.head rfl)

end Modifiers

theorem Nameless.begins {owner lead : List Char} (h : Nameless owner lead) :
    Begins lead (squeeze false lead) := by
  cases h with
  | constructor hfront hw hfree => exact hfront.begins_constructor hw hfree
  | finalizer hfront hgap hname hfree => exact hfront.begins_finalizer hgap hname hfree
  | operator hfront htype hparen hne hgap hname =>
      exact hfront.begins_operator htype hparen hne hgap hname
  | conversion hfront hne hgap htype => exact hfront.begins_conversion hne hgap htype

/-- A method is not named if its header says that it is an operator. -/
theorem methodName_operator {s t : List Char} (owner : List Char) (hs : '(' ∉ s)
    (hword : "operator".toList ∈ identifiers s) (ht : Stops isIdentChar t) :
    methodName (s ++ t) owner = none := by
  have htake : (s ++ t).takeWhile (· ≠ '(') = s ++ t.takeWhile (· ≠ '(') :=
    List.takeWhile_append_of_pos fun c hc => decide_eq_true fun e => hs (e ▸ hc)
  obtain ⟨gap, hgap, htrim⟩ := exists_trimEnd (s ++ t.takeWhile (· ≠ '('))
  have hstop : Stops isIdentChar (t.takeWhile (· ≠ '(')) := by
    cases t with
    | nil => exact stops_nil _
    | cons c t =>
        rw [List.takeWhile_cons]
        split
        · exact stops_cons (ht c rfl) _
        · exact stops_nil _
  have hids : identifiers (trimEnd (s ++ t.takeWhile (· ≠ '('))) =
      identifiers s ++ identifiers (t.takeWhile (· ≠ '(')) := by
    rw [← identifiers_append hstop, htrim, identifiers_pad hgap, ← htrim]
  have hfound : hasWord "operator" (trimEnd (s ++ t.takeWhile (· ≠ '('))) = true := by
    rw [hasWord, List.contains_iff_mem, hids]
    exact List.mem_append_left _ hword
  rw [methodName, htake]
  simp only [hfound, Bool.or_true, if_true]

/-- The text in front of the parameters of a method. -/
theorem methodHead {s gap : List Char} (hs : '(' ∉ s) (he : Trimmed s) (hgap : allBlank gap = true)
    (t : List Char) : trimEnd ((s ++ (gap ++ '(' :: t)).takeWhile (· ≠ '(')) = s := by
  have hplain : '(' ∉ s ++ gap := by
    simp [hs, notMem_of_allBlank (c := '(') (by decide) hgap]
  rw [← List.append_assoc, takeWhile_paren hplain, trimEnd_pad he hgap]

/-- The word `operator` is read before the parameters. -/
theorem noMethod_operator {front s : List Char} (owner : List Char)
    (hfront : Wording declaring false (front ++ "operator".toList)) (hparen : '(' ∉ front)
    (hword : "operator".toList ∈ identifiers (front ++ "operator".toList))
    (hs : Stops isWordChar s) (t : List Char) (ht : Stops isWordChar t) :
    methodName (squeeze false (front ++ ("operator".toList ++ s)) ++ t) owner = none := by
  have hends : Trimmed (front ++ "operator".toList) :=
    endsIn_append (s := "operator".toList) ⟨"operato".toList, 'r', rfl, by decide⟩ front
  have hparen' : '(' ∉ squeeze false (front ++ "operator".toList) := by
    rw [mem_squeeze (by decide)]
    simp [hparen]
  rw [← List.append_assoc, squeeze_append hends, List.append_assoc]
  refine methodName_operator owner hparen' ?_ (Stops.mono ?_ fun _ => isWordChar_of_isIdentChar)
  · rwa [identifiers_squeeze (hfront.notMem (isTypeChar_foreign (by decide)))]
  · exact stops_append (stops_squeeze (isWordChar_sign (by decide)) hs) ht

theorem identifiers_operator : identifiers "operator".toList = ["operator".toList] :=
  identifiers_isWord ⟨by decide, by decide⟩

section Parameters

variable {front gap : List Char} (hfront : Modifiers front) (hgap : allBlank gap = true)
  (t : List Char)
include hfront hgap

/-- A constructor has the name of its type. -/
theorem noMethod_constructor {owner : List Char} (hw : IsWord owner) (hfree : owner ∉ declaring) :
    methodName (squeeze false (front ++ owner) ++ (gap ++ '(' :: t)) owner = none := by
  have howner : IsIdentifier owner := .of_isWord hw
  have hwording : Wording declaring false (front ++ owner) :=
    hfront.wording (.of_identifier howner hfree)
  have hplain : '(' ∉ squeeze false (front ++ owner) := by
    rw [mem_squeeze (by decide)]
    simp [hfront.notMem (c := '(') (by decide), howner.notMem (c := '(') (by decide)]
  have htilde : '~' ∉ squeeze false (front ++ owner) := by
    rw [mem_squeeze (by decide)]
    exact hwording.notMem (isTypeChar_foreign (by decide))
  have hlast : EndsIn isWordChar (squeeze false (front ++ owner)) :=
    endsIn_squeeze (fun _ => not_isBlank_of_isWordChar)
      (endsIn_append (endsIn_of_forall howner.ne_nil howner.inside) front)
  have hname : lastIdentifier (squeeze false (front ++ owner)) = some owner := by
    obtain ⟨words, hids⟩ := hfront.exists_identifiers owner
    have hdrop : ([] ++ owner).dropWhile (· == '@') = owner :=
      dropWhile_append_stops (by simp) (stops_at_of_isWord hw)
    rw [lastIdentifier, identifiers_squeeze (hwording.notMem (isTypeChar_foreign (by decide))), hids,
      identifiers_isWord hw, List.getLast?_concat, Option.map_some]
    exact congrArg some hdrop
  have hends : Trimmed (front ++ owner) := endsIn_append howner.ends.2 front
  rw [methodName_plain owner (methodHead hplain (trimmed_squeeze hends) hgap t) htilde
    (getLast?_of_endsIn hlast (isWordChar_sign (by decide))), hname]
  split
  · rfl
  · simp

/-- A finalizer is told by its sign. -/
theorem noMethod_finalizer {gap' name : List Char} (hgap' : allBlank gap' = true)
    (hname : IsIdentifier name) (owner : List Char) :
    methodName (squeeze false (front ++ '~' :: (gap' ++ name)) ++ (gap ++ '(' :: t)) owner = none := by
  have hplain : '(' ∉ squeeze false (front ++ '~' :: (gap' ++ name)) := by
    rw [mem_squeeze (by decide)]
    simp [hfront.notMem (c := '(') (by decide), hname.notMem (c := '(') (by decide),
      notMem_of_allBlank (c := '(') (by decide) hgap']
  have hends : Trimmed (front ++ '~' :: (gap' ++ name)) :=
    endsIn_append (endsIn_cons (endsIn_append hname.ends.2 gap') '~') front
  have htilde : (squeeze false (front ++ '~' :: (gap' ++ name))).contains '~' = true := by
    rw [List.contains_iff_mem, mem_squeeze (by decide)]
    simp
  rw [methodName, methodHead hplain (trimmed_squeeze hends) hgap t]
  simp only [htilde, Bool.true_or, if_true]

theorem noMethod_sign {type gap' name : List Char} (htype : TypeText declaring .type type)
    (htuple : '(' ∉ type) (hne : gap' ≠ []) (hgap' : allBlank gap' = true)
    (hname : OperatorName name) (owner : List Char) :
    methodName (squeeze false (front ++ (type ++ (gap' ++ ("operator".toList ++ name)))) ++
      (gap ++ '(' :: t)) owner = none := by
  obtain ⟨-, -, -, -, hstop, -⟩ := hname.exists_sign
  have hword : Wording declaring false (gap' ++ "operator".toList) :=
    .pad hgap' (.of_identifier (by decide) (by decide))
  have hstart : Stops isWordChar (gap' ++ "operator".toList) :=
    (stops_blank hgap').append_right hne _
  have hwording : Wording declaring false (front ++ (type ++ gap') ++ "operator".toList) := by
    rw [List.append_assoc, List.append_assoc]
    exact hfront.wording (htype.wording.append hword hstart)
  have hplain : '(' ∉ front ++ (type ++ gap') := by
    simp [hfront.notMem (c := '(') (by decide), htuple,
      notMem_of_allBlank (c := '(') (by decide) hgap']
  have hids : "operator".toList ∈ identifiers (front ++ (type ++ gap') ++ "operator".toList) := by
    obtain ⟨words, hids⟩ := hfront.exists_identifiers (type ++ (gap' ++ "operator".toList))
    have hstart' : Stops isIdentChar (gap' ++ "operator".toList) :=
      hstart.mono fun _ => isWordChar_of_isIdentChar
    rw [List.append_assoc, List.append_assoc, hids, identifiers_append hstart',
      identifiers_skip hgap', identifiers_operator]
    exact List.mem_append_right _ (List.mem_append_right _ (List.mem_singleton_self _))
  have hparen : Stops isWordChar (gap ++ '(' :: t) :=
    stops_gap hgap (stops_cons (isWordChar_sign (by decide)) _)
  have := noMethod_operator owner hwording hplain hids hstop (gap ++ '(' :: t) hparen
  simpa only [List.append_assoc] using this

theorem noMethod_conversion {gap' type : List Char} (hne : gap' ≠ []) (hgap' : allBlank gap' = true)
    (owner : List Char) :
    methodName (squeeze false (front ++ ("operator".toList ++ (gap' ++ type))) ++
      (gap ++ '(' :: t)) owner = none := by
  have hwording : Wording declaring false (front ++ "operator".toList) :=
    hfront.wording (.of_identifier (by decide) (by decide))
  have hids : "operator".toList ∈ identifiers (front ++ "operator".toList) := by
    obtain ⟨words, hids⟩ := hfront.exists_identifiers "operator".toList
    rw [hids, identifiers_operator]
    exact List.mem_append_right _ (List.mem_singleton_self _)
  exact noMethod_operator owner hwording (hfront.notMem (by decide)) hids
    ((stops_blank hgap').append_right hne type) _
    (stops_gap hgap (stops_cons (isWordChar_sign (by decide)) _))

end Parameters

theorem Nameless.noMethod {owner lead : List Char} (h : Nameless owner lead) {gap : List Char}
    (hgap : allBlank gap = true) (t : List Char) :
    methodName (squeeze false lead ++ (gap ++ '(' :: t)) owner = none := by
  cases h with
  | constructor hfront hw hfree => exact noMethod_constructor hfront hgap t hw hfree
  | finalizer hfront hgap' hname _ => exact noMethod_finalizer hfront hgap t hgap' hname owner
  | operator hfront htype htuple hne hgap' hname =>
      exact noMethod_sign hfront hgap t htype htuple hne hgap' hname owner
  | conversion hfront hne hgap' _ => exact noMethod_conversion hfront hgap t hne hgap' owner

/-- Parameters come next. -/
def Parenthesized (t : List Char) : Prop := ∃ gap inner, allBlank gap = true ∧ t = gap ++ '(' :: inner

theorem Parenthesized.stops {t : List Char} (h : Parenthesized t) : Stops isWordChar t := by
  obtain ⟨gap, inner, hgap, rfl⟩ := h
  exact stops_gap hgap (stops_cons (isWordChar_sign (by decide)) _)

theorem Parenthesized.readTypeHeader_eq_none {s t : List Char} (h : Parenthesized t)
    (hs : TypeFree s t) : readTypeHeader (s ++ t) = none := by
  obtain ⟨gap, inner, hgap, rfl⟩ := h
  have htable : ∀ c ∈ "csier".toList, isBlank c = false := by decide
  have hfree : TypeFree gap ('(' :: inner) := typeFree_run (fun c hc hmem => by
    have := List.all_eq_true.1 hgap c hc
    rw [htable c hmem] at this
    cases this) _
  rw [← List.append_assoc]
  exact (TypeFree.append hs hfree).readTypeHeader_paren

theorem Parenthesized.mem {t : List Char} (h : Parenthesized t) : '(' ∈ t := by
  obtain ⟨gap, inner, -, rfl⟩ := h
  simp

/-- What ends a header is cut off behind its parenthesis. -/
theorem Parenthesized.trim_append {s t : List Char} (h : Parenthesized t) (hs : Stops isBlank s)
    (hne : s ≠ []) : ∃ t', trim (s ++ t) = s ++ t' ∧ Parenthesized t' := by
  obtain ⟨gap, inner, hgap, rfl⟩ := h
  refine ⟨gap ++ '(' :: trimEnd inner, ?_, gap, _, hgap, rfl⟩
  rw [trim, trimStart_of_stops (hs.append_right hne _), ← List.append_assoc,
    trimEnd_append_cons (by decide), List.append_assoc]

theorem Parenthesized.assignment {t : List Char} (h : Parenthesized t) {prev : Char} {depth : Nat}
    {found : List Char × Bool} (hfound : findAssignmentFrom prev depth false t = some found) :
    Parenthesized found.1 := by
  obtain ⟨gap, inner, hgap, rfl⟩ := h
  suffices ∃ inner', found.1 = gap ++ '(' :: inner' by
    obtain ⟨inner', heq⟩ := this
    exact ⟨gap, inner', hgap, heq⟩
  induction gap generalizing prev found with
  | nil =>
      rw [List.nil_append, findAssignmentFrom_open rfl, Option.map_eq_some_iff] at hfound
      obtain ⟨rest, -, rfl⟩ := hfound
      exact ⟨rest.1, rfl⟩
  | cons c gap ih =>
      rw [allBlank, List.all_cons, Bool.and_eq_true] at hgap
      have htable : ∀ d ∈ "\"=()[]\x7b\x7d<>".toList, isBlank d = false := by decide
      have hc : c ∉ "\"=()[]\x7b\x7d<>".toList := fun hmem => by
        rw [htable c hmem] at hgap
        cases hgap.1
      rw [List.cons_append, findAssignmentFrom_plain hc, Option.map_eq_some_iff] at hfound
      obtain ⟨rest, hrest, rfl⟩ := hfound
      obtain ⟨inner', heq⟩ := ih hgap.2 hrest
      exact ⟨inner', by rw [heq]; rfl⟩

/-- A header that has no name in front of its parameters declares nothing. -/
structure Silent (owner header : List Char) : Prop where
  memberHeader : MemberHeader header
  statement : statementMade owner header = []
  body : bodyMade owner header = []

theorem Nameless.silent {owner lead t : List Char} (h : Nameless owner lead) (ht : Parenthesized t) :
    Silent owner (trim (squeeze false lead ++ t)) := by
  have hbegins := h.begins
  have hne := hbegins.gathered.ne_nil
  obtain ⟨t', htrim, ht'⟩ := ht.trim_append hbegins.starts hne
  have hnone : ∀ {u}, Parenthesized u → methodName (squeeze false lead ++ u) owner = none := by
    rintro u ⟨gap, inner, hgap, rfl⟩
    exact h.noMethod hgap inner
  have hparen : ∀ {u}, Parenthesized u → (squeeze false lead ++ u).contains '(' = true := fun hu =>
    List.contains_iff_mem.2 (List.mem_append_right _ hu.mem)
  rw [htrim]
  refine ⟨⟨?_, hbegins.memberStart.notNamespace hne ht'.stops, ?_⟩, ?_, ?_⟩
  · simp [hne]
  · exact ht'.readTypeHeader_eq_none (hbegins.memberStart.typeFree ht'.stops)
  · obtain ⟨prev, depth, hfind⟩ := hbegins.memberStart.passed t'
    unfold statementMade
    split
    · rfl
    · rw [hfind]
      cases hfound : findAssignmentFrom prev depth false t' with
      | none => simp only [Option.map_none, Option.getD_none, hparen ht', hnone ht', if_true]; rfl
      | some found =>
          have hfound' := ht'.assignment hfound
          simp only [Option.map_some, Option.getD_some, hparen hfound', hnone hfound', if_true]
          rfl
  · rw [bodyMade, if_pos (hparen ht'), hnone ht']
    rfl

/-! ## Members with a word in front -/

namespace Marked

variable {word : String} {lead : List Char} (h : Marked word lead) (hw : IsWord word.toList)
  (hfree : word.toList ∉ declaring)
include h hw hfree

theorem wording : Wording declaring true lead := by
  obtain ⟨hfront, hne, hgap, hrest, -⟩ := h
  exact hfront.wording (.word (.of_isWord hw) hfree ((stops_blank hgap).append_right hne _)
    (.pad hgap hrest))

omit hfree in
theorem head : lead.head?.any isWordChar = true := by
  obtain ⟨hfront, -, -, -, -⟩ := h
  exact hfront.head (head_append (IsIdentifier.of_isWord hw).head _)

theorem begins : Begins lead (squeeze false lead) := (h.wording hw hfree).begins (h.head hw)

omit hw hfree in
theorem ends : Trimmed lead := by
  obtain ⟨-, -, -, -, hends⟩ := h
  exact endsIn_append (endsIn_append (endsIn_append hends _) _) _

/-- The word is found, whatever follows. -/
theorem hasWord_append (t : List Char) : hasWord word (squeeze false lead ++ t) = true := by
  have hwording := h.wording hw hfree
  obtain @⟨front, gap, rest, hfront, hne, hgap, hrest, -⟩ := h
  have hword : Wording declaring true (front ++ word.toList) :=
    hfront.wording (.of_identifier (.of_isWord hw) hfree)
  have hends : Trimmed (front ++ word.toList) := endsIn_append (IsIdentifier.of_isWord hw).ends.2 front
  have hstop : Stops isIdentChar (squeeze false (gap ++ rest) ++ t) := by
    cases gap with
    | nil => exact absurd rfl hne
    | cons c gap =>
        rw [allBlank, List.all_cons, Bool.and_eq_true] at hgap
        rw [List.cons_append, squeeze_blank hgap.1]
        exact stops_cons rfl _
  have hids : word.toList ∈ identifiers (squeeze false (front ++ word.toList)) := by
    obtain ⟨words, hids⟩ := hfront.exists_identifiers word.toList
    rw [identifiers_squeeze (hword.notMem (isTypeChar_foreign (by decide))), hids, identifiers_isWord hw]
    exact List.mem_append_right _ (List.mem_singleton_self _)
  rw [hasWord, List.contains_iff_mem, ← List.append_assoc, squeeze_append hends, List.append_assoc,
    identifiers_append hstop]
  exact List.mem_append_left _ hids

end Marked

/-- An indexer up to its bracket, which follows without blanks. -/
inductive Indexed : List Char → Prop
  | intro {front type gap : List Char} :
      Modifiers front → TypeText declaring .type type → '(' ∉ type → gap ≠ [] →
      allBlank gap = true → Indexed (front ++ (type ++ (gap ++ "this".toList)))

namespace Indexed

variable {lead : List Char} (h : Indexed lead)
include h

theorem begins : Begins lead (squeeze false lead) := by
  obtain ⟨hfront, htype, htuple, hne, hgap⟩ := h
  have hthis : Wording declaring false (_ ++ "this".toList) :=
    .pad hgap (.of_identifier (by decide) (by decide))
  refine (hfront.wording (htype.wording.append hthis
    ((stops_blank hgap).append_right hne _))).begins (hfront.head ?_)
  exact head_append ((htype.starts rfl).resolve_right htuple) _

theorem notMem : '(' ∉ squeeze false lead := by
  obtain ⟨hfront, -, htuple, -, hgap⟩ := h
  rw [mem_squeeze (by decide)]
  simp [hfront.notMem (c := '(') (by decide), htuple,
    notMem_of_allBlank (c := '(') (by decide) hgap]

theorem occurs_append (t : List Char) :
    occurs "this[".toList (squeeze false lead ++ '[' :: t) = true := by
  obtain @⟨front, type, gap, -, -, -, -, -⟩ := h
  have hthis : squeeze false (front ++ (type ++ (gap ++ "this".toList))) =
      squeeze false (front ++ (type ++ gap)) ++ "this".toList := by
    have := @squeeze_append_run false (front ++ (type ++ gap)) "this".toList (by decide) (by decide)
    simpa only [List.append_assoc] using this
  have hmark : "this".toList ++ '[' :: t = "this[".toList ++ t := rfl
  rw [hthis, List.append_assoc, hmark]
  exact occurs_mark _ _ _

theorem trim_append (t : List Char) :
    trim (squeeze false lead ++ '[' :: t) = squeeze false lead ++ '[' :: trimEnd t := by
  have hbegins := h.begins
  rw [trim, trimStart_of_stops (hbegins.starts.append_right hbegins.gathered.ne_nil _),
    trimEnd_append_cons (by decide)]

theorem header {t : List Char}
    (htype : readTypeHeader (trim (squeeze false lead ++ '[' :: t)) = none) :
    MemberHeader (trim (squeeze false lead ++ '[' :: t)) := by
  have hbegins := h.begins
  refine ⟨?_, ?_, htype⟩
  · simp [h.trim_append]
  · rw [h.trim_append]
    exact hbegins.memberStart.notNamespace hbegins.gathered.ne_nil
      (stops_cons (isWordChar_sign (by decide)) _)

end Indexed

/-! ## What is skipped -/

/-- Members that declare nothing, as they are written. -/
inductive Skipped (owner : List Char) : List Char → Prop
  | statement {lead tail t : List Char} :
      Nameless owner lead → Continued (squeeze false lead) tail t → Parenthesized t →
      Skipped owner (lead ++ tail ++ [';'])
  | body {lead tail t body : List Char} :
      Nameless owner lead → Continued (squeeze false lead) tail t → Parenthesized t →
      findAssignment (trim (squeeze false lead ++ t)) = none → LexicallyClosed body →
      Skipped owner (lead ++ tail ++ '\x7b' :: (body ++ ['\x7d']))
  | delegate {lead tail t : List Char} :
      Marked "delegate" lead → Continued (squeeze false lead) tail t → Parenthesized t →
      Skipped owner (lead ++ tail ++ [';'])
  | event {lead gap : List Char} :
      Marked "event" lead → allBlank gap = true → Skipped owner (lead ++ gap ++ [';'])
  | eventValue {lead tail t : List Char} :
      Marked "event" lead → Continued (squeeze false lead) tail t → Stops isWordChar t →
      readTypeHeader (trim (squeeze false lead ++ t)) = none →
      Skipped owner (lead ++ tail ++ [';'])
  | accessors {lead gap body : List Char} :
      Marked "event" lead → allBlank gap = true → '(' ∉ lead → LexicallyClosed body →
      Skipped owner (lead ++ gap ++ '\x7b' :: (body ++ ['\x7d']))
  | indexer {lead tail t body : List Char} :
      Indexed lead → Continued (squeeze false lead) ('[' :: tail) ('[' :: t) → '(' ∉ t →
      readTypeHeader (trim (squeeze false lead ++ '[' :: t)) = none →
      findAssignment (trim (squeeze false lead ++ '[' :: t)) = none → LexicallyClosed body →
      Skipped owner (lead ++ '[' :: tail ++ '\x7b' :: (body ++ ['\x7d']))
  | indexerValue {lead tail t head : List Char} :
      Indexed lead → Continued (squeeze false lead) ('[' :: tail) ('[' :: t) →
      readTypeHeader (trim (squeeze false lead ++ '[' :: t)) = none →
      findAssignment (trim (squeeze false lead ++ '[' :: t)) = some (head, true) → '(' ∉ head →
      Skipped owner (lead ++ '[' :: tail ++ [';'])

namespace Marked

variable {word : String} {lead : List Char} (h : Marked word lead) (hw : IsWord word.toList)
  (hfree : word.toList ∉ declaring)
include h hw hfree

theorem header {t : List Char} (ht : Stops isWordChar t)
    (htype : readTypeHeader (trim (squeeze false lead ++ t)) = none) :
    MemberHeader (trim (squeeze false lead ++ t)) ∧
      hasWord word (trim (squeeze false lead ++ t)) = true := by
  have hbegins := h.begins hw hfree
  have hne := hbegins.gathered.ne_nil
  have htrim : trim (squeeze false lead ++ t) = squeeze false lead ++ trimEnd t := by
    rw [trim, trimStart_of_stops (hbegins.starts.append_right hne t),
      trimEnd_append (trimmed_squeeze h.ends)]
  obtain ⟨gap, -, hsplit⟩ := exists_trimEnd t
  have hstop : Stops isWordChar (trimEnd t) := by
    rw [hsplit] at ht
    exact ht.of_append
  rw [htrim] at htype ⊢
  refine ⟨⟨?_, hbegins.memberStart.notNamespace hne hstop, htype⟩, h.hasWord_append hw hfree _⟩
  simp [hne]

/-- With nothing but blanks behind it, the header ends with the name. -/
theorem padded {gap : List Char} (hgap : allBlank gap = true) :
    Gathered (lead ++ gap) (squeeze false (lead ++ gap)) ∧
      trim (squeeze false (lead ++ gap)) = squeeze false lead ∧
      MemberHeader (squeeze false lead) ∧ hasWord word (squeeze false lead) = true := by
  have hwording := (h.wording hw hfree).append (.blanks hgap) (stops_blank hgap)
  have hbegins := h.begins hw hfree
  have hstart : Stops isBlank lead := by
    have hhead := h.head hw
    cases lead with
    | nil => cases hhead
    | cons c lead => exact stops_cons (not_isBlank_of_isWordChar hhead) lead
  have hfound := h.hasWord_append hw hfree []
  have hnamespace := hbegins.memberStart.notNamespace hbegins.gathered.ne_nil (stops_nil _)
  rw [List.append_nil] at hfound hnamespace
  exact ⟨hwording.gathered (head_append (h.head hw) gap), trim_squeeze hstart h.ends hgap,
    ⟨hbegins.gathered.ne_nil, hnamespace,
      (hbegins.memberStart.typeFree (stops_nil _)).readTypeHeader_eq_none⟩, hfound⟩

end Marked

/-! ## What they give -/

namespace Nameless

variable {owner lead tail t : List Char} (h : Nameless owner lead)
  (htail : Continued (squeeze false lead) tail t) (ht : Parenthesized t)
include h htail ht

theorem gives_statement : Gives owner (lead ++ tail ++ [';']) [] := by
  have hbegins := h.begins
  have hsilent := h.silent ht
  exact gives_nothing (hbegins.gathered.continued hbegins.starts htail) hsilent.memberHeader
    hsilent.statement

theorem gives_body (hassign : findAssignment (trim (squeeze false lead ++ t)) = none)
    {body : List Char} (hbody : LexicallyClosed body) :
    Gives owner (lead ++ tail ++ '\x7b' :: (body ++ ['\x7d'])) [] := by
  have hbegins := h.begins
  have hsilent := h.silent ht
  exact hsilent.body ▸ Declaration.gives_body (hbegins.gathered.continued hbegins.starts htail)
    hsilent.memberHeader hassign hbody

end Nameless

/-- The words by which a statement is passed over. -/
def skippingWords : List String := ["event", "delegate"]

theorem skippingWords_free {word : String} (h : word ∈ skippingWords) :
    IsWord word.toList ∧ word.toList ∉ declaring := by
  simp only [skippingWords, List.mem_cons, List.not_mem_nil, or_false] at h
  rcases h with rfl | rfl <;> exact ⟨⟨by decide, by decide⟩, by decide⟩

theorem statementMade_word {word : String} (h : word ∈ skippingWords) {owner header : List Char}
    (hfound : hasWord word header = true) : statementMade owner header = [] := by
  simp only [skippingWords, List.mem_cons, List.not_mem_nil, or_false] at h
  refine statementMade_skipped ?_
  rcases h with rfl | rfl
  · rw [hfound, Bool.true_or]
  · rw [hfound, Bool.or_true]

namespace Marked

section Statements

variable {word : String} {owner lead : List Char} (h : Marked word lead)
  (hword : word ∈ skippingWords)
include h hword

theorem gives_statement {tail t : List Char} (htail : Continued (squeeze false lead) tail t)
    (ht : Stops isWordChar t) (htype : readTypeHeader (trim (squeeze false lead ++ t)) = none) :
    Gives owner (lead ++ tail ++ [';']) [] := by
  obtain ⟨hw, hfree⟩ := skippingWords_free hword
  have hbegins := h.begins hw hfree
  obtain ⟨hheader, hfound⟩ := h.header hw hfree ht htype
  exact gives_nothing (hbegins.gathered.continued hbegins.starts htail) hheader
    (statementMade_word hword hfound)

/-- What has parameters declares no type. -/
theorem gives_parenthesized {tail t : List Char} (htail : Continued (squeeze false lead) tail t)
    (ht : Parenthesized t) : Gives owner (lead ++ tail ++ [';']) [] := by
  obtain ⟨hw, hfree⟩ := skippingWords_free hword
  have hbegins := h.begins hw hfree
  obtain ⟨t', htrim, ht'⟩ := ht.trim_append hbegins.starts hbegins.gathered.ne_nil
  refine h.gives_statement hword htail ht.stops ?_
  rw [htrim]
  exact ht'.readTypeHeader_eq_none (hbegins.memberStart.typeFree ht'.stops)

theorem gives_padded {gap : List Char} (hgap : allBlank gap = true) :
    Gives owner (lead ++ gap ++ [';']) [] := by
  obtain ⟨hw, hfree⟩ := skippingWords_free hword
  obtain ⟨hgathered, htrim, hheader, hfound⟩ := h.padded hw hfree hgap
  rw [← htrim] at hheader hfound
  exact gives_nothing hgathered hheader (statementMade_word hword hfound)

end Statements

/-- An event with a body is no property. -/
theorem gives_accessors {owner lead gap body : List Char} (h : Marked "event" lead)
    (hgap : allBlank gap = true) (hparen : '(' ∉ lead) (hbody : LexicallyClosed body) :
    Gives owner (lead ++ gap ++ '\x7b' :: (body ++ ['\x7d'])) [] := by
  obtain ⟨hw, hfree⟩ := @skippingWords_free "event" (by decide)
  obtain ⟨hgathered, htrim, hheader, hfound⟩ := h.padded hw hfree hgap
  have hplain : '=' ∉ squeeze false lead := fun hmem =>
    (h.wording hw hfree).notMem (isTypeChar_foreign (by decide)) ((mem_squeeze (by decide)).1 hmem)
  have hmade : bodyMade owner (squeeze false lead) = [] := by
    have hparen' : (squeeze false lead).contains '(' = false := by
      rw [Bool.eq_false_iff, ne_eq, List.contains_iff_mem, mem_squeeze (by decide)]
      exact hparen
    rw [bodyMade, hparen', propertyName, hfound, Bool.or_true]
    rfl
  rw [← htrim] at hheader hplain hmade
  exact hmade ▸ gives_body hgathered hheader (findAssignment_eq_none hplain) hbody

end Marked

namespace Indexed

variable {lead t : List Char} (h : Indexed lead)
include h

theorem propertyName_append (t : List Char) : propertyName (squeeze false lead ++ '[' :: t) = none := by
  rw [propertyName, h.occurs_append, Bool.true_or]
  rfl

/-- An assignment is found behind the bracket. -/
theorem exists_head {head : List Char} {arrow : Bool}
    (hassign : findAssignment (trim (squeeze false lead ++ '[' :: t)) = some (head, arrow)) :
    ∃ t', head = squeeze false lead ++ '[' :: t' := by
  obtain ⟨prev, depth, hfind⟩ := h.begins.memberStart.passed ('[' :: trimEnd t)
  rw [h.trim_append, hfind, findAssignmentFrom_open rfl, Option.map_map,
    Option.map_eq_some_iff] at hassign
  obtain ⟨found, -, heq⟩ := hassign
  exact ⟨found.1, (Prod.mk.inj heq).1.symm⟩

variable {owner tail : List Char}
  (htail : Continued (squeeze false lead) ('[' :: tail) ('[' :: t))
  (htype : readTypeHeader (trim (squeeze false lead ++ '[' :: t)) = none)
include htail htype

theorem gives_body (hparen : '(' ∉ t)
    (hassign : findAssignment (trim (squeeze false lead ++ '[' :: t)) = none) {body : List Char}
    (hbody : LexicallyClosed body) :
    Gives owner (lead ++ '[' :: tail ++ '\x7b' :: (body ++ ['\x7d'])) [] := by
  have hbegins := h.begins
  have hmade : bodyMade owner (trim (squeeze false lead ++ '[' :: t)) = [] := by
    have hparen' : (trim (squeeze false lead ++ '[' :: t)).contains '(' = false := by
      obtain ⟨gap, -, hsplit⟩ := exists_trimEnd t
      have hcut : '(' ∉ trimEnd t := fun hmem => hparen (hsplit ▸ List.mem_append_left gap hmem)
      rw [Bool.eq_false_iff, ne_eq, List.contains_iff_mem, h.trim_append]
      simp [h.notMem, hcut]
    rw [bodyMade, hparen', h.trim_append, h.propertyName_append]
    rfl
  exact hmade ▸ Declaration.gives_body (hbegins.gathered.continued hbegins.starts htail)
    (h.header htype) hassign hbody

theorem gives_value {head : List Char}
    (hassign : findAssignment (trim (squeeze false lead ++ '[' :: t)) = some (head, true))
    (hparen : '(' ∉ head) : Gives owner (lead ++ '[' :: tail ++ [';']) [] := by
  have hbegins := h.begins
  refine gives_nothing (hbegins.gathered.continued hbegins.starts htail) (h.header htype) ?_
  obtain ⟨t', rfl⟩ := h.exists_head hassign
  have hparen' : (squeeze false lead ++ '[' :: t').contains '(' = false := by
    rw [Bool.eq_false_iff, ne_eq, List.contains_iff_mem]
    exact hparen
  unfold statementMade
  split
  · rfl
  · rw [hassign]
    simp only [Option.getD_some, hparen', h.propertyName_append, Bool.false_eq_true, if_false,
      if_true]
    rfl

end Indexed

theorem Skipped.gives {owner text : List Char} (h : Skipped owner text) : Gives owner text [] := by
  cases h with
  | statement hlead htail ht => exact hlead.gives_statement htail ht
  | body hlead htail ht hassign hbody => exact hlead.gives_body htail ht hassign hbody
  | delegate hlead htail ht => exact hlead.gives_parenthesized (by decide) htail ht
  | event hlead hgap => exact hlead.gives_padded (by decide) hgap
  | eventValue hlead htail ht htype => exact hlead.gives_statement (by decide) htail ht htype
  | accessors hlead hgap hparen hbody => exact hlead.gives_accessors hgap hparen hbody
  | indexer hlead htail hparen htype hassign hbody =>
      exact hlead.gives_body htail htype hparen hassign hbody
  | indexerValue hlead htail htype hassign hparen =>
      exact hlead.gives_value htail htype hassign hparen

/-- Whatever its type is, a member is recorded under its name unless the type has something that
is looked for: a parenthesis, which starts the parameters of a method, or a word.  A name that is
not ASCII is never recorded.  Constructors, finalizers, operators, events, delegates and indexers
are not recorded. -/
theorem members_named {owner type name : List Char} (ht : TypeText declaring .type type)
    (hn : IsIdentifier name) (hfree : name ∉ memberKeywords) (howner : name ≠ owner) :
    (Gives owner (named type name ++ [';']) [([name], .field)] ↔
      IsWord name ∧ '(' ∉ type ∧ "event".toList ∉ identifiers type ∧
        "delegate".toList ∉ identifiers type) ∧
    (Gives owner (named type name ++ " \x7b get; set; \x7d".toList) [([name], .property)] ↔
      IsWord name ∧ '(' ∉ type ∧ ¬ occurs "this[".toList type = true ∧
        "event".toList ∉ identifiers type) ∧
    (Gives owner (named type name ++ "(int p) \x7b \x7d".toList) [([name], .method)] ↔
      IsWord name ∧ "operator".toList ∉ identifiers (type.takeWhile (· ≠ '(')) ∧
        ('(' ∈ type → lastIdentifier (type.takeWhile (· ≠ '(')) = some name)) ∧
    ∀ text, Skipped owner text → Gives owner text [] :=
  ⟨gives_field ht hn hfree, gives_property ht hn hfree, gives_method ht hn hfree howner,
    fun _ => Skipped.gives⟩

theorem skipped_indexerSample (owner : List Char) :
    Skipped owner "public int this[int i] \x7b get \x7b return 1; \x7d \x7d".toList := by
  have hfront : Modifiers "public ".toList :=
    @Modifiers.cons "public".toList [' '] [] (by decide) (by decide) rfl .nil
  have hlead : Indexed "public int this".toList :=
    @Indexed.intro "public ".toList "int".toList [' '] hfront
      (.named (.simple (by decide) (by decide))) (by decide) (by decide) rfl
  have hgathers : Gathers false (endsBlank false (squeeze false "public int this".toList))
      ("[int i] ".toList ++ []) (squeeze false "[int i] ".toList ++ []) :=
    gathers_squeeze (by decide) .nil
  have hbody : LexicallyClosed " get \x7b return 1; \x7d ".toList :=
    @closed_plain " get ".toList _ rfl
      (.braces (t := " return 1; ".toList) (closed_run rfl) (closed_run rfl))
  exact @Skipped.indexer owner "public int this".toList "int i] ".toList "int i] ".toList _ hlead
    (.plain (stops_cons (by decide) _) hgathers) (by decide) (by decide) (by decide) hbody

theorem type_listSample : TypeText declaring .type "List<int?[]>".toList := by
  have hint : TypeText declaring .type "int".toList := .named (.simple (by decide) (by decide))
  have harray : TypeText declaring .type "int?[]".toList :=
    @TypeText.array _ "int?".toList [] [] (@TypeText.nullable _ "int".toList [] hint rfl) rfl nofun
  exact .named (@TypeText.generic _ "List".toList [] "int?[]".toList (by decide) (by decide) rfl
    (@TypeText.last _ false "int?[]".toList [] [] rfl harray rfl))

theorem members_named_listSample :
    Gives "C".toList "public List<int?[]> n;".toList [(["n".toList], .field)] ∧
      Gives "C".toList "public List<int?[]> n \x7b get; set; \x7d".toList [(["n".toList], .property)] ∧
      Gives "C".toList "public List<int?[]> n(int p) \x7b \x7d".toList [(["n".toList], .method)] ∧
      Gives "C".toList "public int this[int i] \x7b get \x7b return 1; \x7d \x7d".toList [] := by
  obtain ⟨hfield, hproperty, hmethod, hskipped⟩ := @members_named "C".toList _ "n".toList
    type_listSample (by decide) (by decide) (by decide)
  have hword : IsWord "n".toList := ⟨by decide, by decide⟩
  refine ⟨?_, ?_, ?_, hskipped _ (skipped_indexerSample _)⟩
  · have := hfield.2 ⟨hword, by decide, by decide +kernel, by decide +kernel⟩
    unfold named at this
    exact this
  · have := hproperty.2 ⟨hword, by decide, by decide, by decide +kernel⟩
    unfold named at this
    exact this
  · have := hmethod.2 ⟨hword, by decide +kernel, by decide⟩
    unfold named at this
    exact this

theorem type_tupleSample : TypeText declaring .type "(int, string)".toList := by
  have hint : TypeText declaring .element "int".toList :=
    .unnamed (.named (.simple (by decide) (by decide)))
  have hstring : TypeText declaring .element "string".toList :=
    .unnamed (.named (.simple (by decide) (by decide)))
  exact @TypeText.tuple _ "int, string".toList (@TypeText.more _ true "int".toList _ [] [] rfl hint rfl
    (@TypeText.last _ true "string".toList [' '] [] rfl hstring rfl))

/-- A tuple is taken for the parameters of a method, and a blank makes an indexer a property. -/
theorem members_named_tupleSample :
    TypeText declaring .type "(int, string)".toList ∧
      scan "class C \x7b\npublic (int, string) n;\n\x7d\n" =
        .ok [{ names := ["C"], kind := .classType },
          { names := ["public"], kind := .method, parent := some 0 }] ∧
      scan "class C \x7b\npublic int this [int i] \x7b get \x7b return 1; \x7d \x7d\n\x7d\n" =
        .ok [{ names := ["C"], kind := .classType },
          { names := ["i"], kind := .property, parent := some 0 }] :=
  ⟨type_tupleSample, scan_eq_ok (by decide +kernel), scan_eq_ok (by decide +kernel)⟩

end Declaration
end DocPages

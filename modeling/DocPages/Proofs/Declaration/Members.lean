/-
Which name a member is given, whatever its type.

Fields, properties and methods are named by their declarator unless the type has something
that is looked for: `gives_field`, `gives_property` and `gives_method`.
-/
import DocPages.Proofs.Declaration.Squeezing

namespace DocPages
namespace Declaration

open Text

/-! ## Wordings as headers -/

theorem starts_word {c : Char} (hc : isWordChar c = true) : c ≠ '#' ∧ c ≠ '[' :=
  ⟨ne_of_isWordChar hc (isWordChar_sign (by decide)), ne_of_isWordChar hc (isWordChar_sign (by decide))⟩

namespace Wording

variable {banned : List (List Char)} {commas after : Bool} {s : List Char}

theorem relax {banned' : List (List Char)} (hb : banned' ⊆ banned) (h : Wording banned commas s) :
    Wording banned' commas s := by
  induction h with
  | nil => exact .nil
  | word hw hfree hs _ ih => exact .word hw (fun hmem => hfree (hb hmem)) hs ih
  | blank hc _ ih => exact .blank hc ih
  | mark hc hcomma _ ih => exact .mark hc hcomma ih
  | brackets hbr _ _ iht ih => exact .brackets hbr iht ih

theorem squeezed (h : Wording banned commas s) : Wording banned commas (squeeze after s) := by
  have hsolid : ∀ c ∈ typePunctuation, isBlank c = false := by decide
  induction h generalizing after with
  | nil => exact .nil
  | word hw hfree hs _ ih =>
      rw [squeeze_run (fun c hc => not_isBlank_of_isWordChar (hw.inside c hc)) hw.ne_nil]
      exact .word hw hfree (stops_squeeze (isWordChar_sign (by decide)) hs) ih
  | blank hc _ ih =>
      rw [squeeze_blank hc]
      cases after with
      | true => exact ih
      | false => exact .blank (by decide) ih
  | mark hc hcomma _ ih =>
      rw [squeeze_cons (hsolid _ (mem_punctuation_of_mark hc))]
      exact .mark hc hcomma ih
  | brackets hbr _ _ iht ih =>
      have hin := mem_punctuation_of_pair hbr
      rw [squeeze_cons (hsolid _ hin.1), squeeze_append_cons (hsolid _ hin.2)]
      exact .brackets hbr iht ih

theorem plain (h : Wording banned commas s) : ∀ c ∈ s, c ∉ "/'\"@$\x7b\x7d;".toList := by
  have htable : ∀ d ∈ "/'\"@$\x7b\x7d;".toList, isTypeChar d = false := by decide
  intro c hc hmem
  have := h.chars c hc
  rw [htable c hmem] at this
  cases this

theorem gathered (h : Wording banned commas s) (hstart : s.head?.any isWordChar = true) :
    Gathered s (squeeze false s) := by
  cases s with
  | nil => cases hstart
  | cons c s =>
      have := gathered_squeeze (not_isBlank_of_isWordChar hstart) (starts_word hstart) h.plain .nil
      rwa [List.append_nil, List.append_nil] at this

end Wording

theorem allBlank_squeeze {after : Bool} {gap : List Char} (hgap : allBlank gap = true) :
    allBlank (squeeze after gap) = true := by
  induction gap generalizing after with
  | nil => rfl
  | cons c gap ih =>
      rw [allBlank, List.all_cons, Bool.and_eq_true] at hgap
      rw [squeeze_blank hgap.1]
      cases after with
      | true => exact ih hgap.2
      | false => exact ih hgap.2

theorem trim_squeeze {s gap : List Char} (hs : Stops isBlank s) (he : Trimmed s)
    (hgap : allBlank gap = true) : trim (squeeze false (s ++ gap)) = squeeze false s := by
  have hends : Trimmed (squeeze false s) := trimmed_squeeze he
  have hstarts : Stops isBlank (squeeze false s) := by
    cases s with
    | nil => exact hs
    | cons c s =>
        have hc := hs c rfl
        rw [squeeze_cons hc]
        exact stops_cons hc _
  rw [squeeze_append he, trim, trimStart_of_stops (hstarts.append_right hends.ne_nil _),
    trimEnd_pad hends (allBlank_squeeze hgap)]

/-! ## Headers that are named -/

/-- Words by which a header is not that of a member. -/
def declaring : List (List Char) := "namespace".toList :: typeWords

/-- A member up to its name. -/
@[irreducible] def named (type name : List Char) : List Char := "public ".toList ++ (type ++ ' ' :: name)

theorem public_isWord : IsWord "public".toList := ⟨by decide, by decide⟩

theorem front_wording {type : List Char} (ht : TypeText declaring .type type) :
    Wording declaring false ("public ".toList ++ type) :=
  .word (w := "public".toList) (s := ' ' :: type) (by decide) (by decide)
    (stops_cons (isWordChar_sign (by decide)) _) (.blank (by decide) ht.wording)

section Named

variable {type name : List Char} (ht : TypeText declaring .type type) (hn : IsIdentifier name)
include ht hn

theorem named_wording : Wording [] false (named type name) := by
  have hname : Wording [] false (' ' :: name) :=
    .blank (by decide) (.of_identifier hn List.not_mem_nil)
  have := ((front_wording ht).relax (List.nil_subset _)).append hname
    (stops_cons (isWordChar_sign (by decide)) _)
  unfold named
  rwa [List.append_assoc] at this

omit ht in
theorem named_ends : Stops isBlank (named type name) ∧ Trimmed (named type name) := by
  unfold named
  exact ⟨stops_cons (by decide) _, endsIn_append (endsIn_append (endsIn_cons hn.ends.2 _) _) _⟩

theorem squeeze_named (tail : List Char) :
    squeeze false (named type name ++ tail) =
      squeeze false ("public ".toList ++ type) ++ ' ' :: (name ++ squeeze false tail) := by
  have hblank : ∀ c ∈ name, isBlank c = false := fun c hc => not_isBlank_of_isWordChar (hn.inside c hc)
  have htext : named type name ++ tail = ("public ".toList ++ type) ++ ' ' :: (name ++ tail) := by
    unfold named
    simp only [List.append_assoc, List.cons_append]
  rw [htext, squeeze_append (endsIn_append (ht.ends rfl).2 _), squeeze_blank rfl,
    squeeze_run hblank hn.ne_nil]
  rfl

theorem squeeze_named_self : squeeze false (named type name) =
    squeeze false ("public ".toList ++ type) ++ ' ' :: name := by
  have h := squeeze_named ht hn []
  rwa [List.append_nil, squeeze, List.append_nil] at h

/-- Up to its name a member declares no type. -/
theorem named_typeFree {tail : List Char} (hword : Stops isWordChar tail)
    (hblank : Stops isBlank tail) : TypeFree (squeeze false (named type name)) tail := by
  have hspace : readType (' ' :: (name ++ tail)) = none := readType_other (by decide) _
  rw [squeeze_named_self ht hn]
  refine TypeFree.append ((front_wording ht).squeezed.typeFree (by decide) ?_)
    (TypeFree.append (s := [' ']) (.single hspace) (.word hn hword fun _ => hblank))
  exact stops_cons (isWordChar_sign (by decide)) _

omit ht hn in
theorem public_named (tail : List Char) :
    ∃ rest, squeeze false (named type name ++ tail) = "public".toList ++ ' ' :: rest := by
  unfold named
  exact ⟨_, rfl⟩

omit ht hn in
theorem notNamespace_named (tail : List Char) :
    stripStart? "namespace ".toList (squeeze false (named type name ++ tail)) = none := by
  obtain ⟨rest, hpublic⟩ := @public_named type name tail
  rw [hpublic]
  rfl

omit ht hn in
theorem not_directive_named (tail : List Char) :
    ((words (squeeze false (named type name ++ tail))).head?.any fun word =>
      ["using", "global", "extern"].contains (String.ofList word)) = false := by
  obtain ⟨rest, hpublic⟩ := @public_named type name tail
  rw [hpublic]
  refine not_directive rfl ?_
  have htake : ("public".toList ++ ' ' :: rest).takeWhile isIdentChar = "public".toList := rfl
  rw [htake]
  decide

theorem gathered_named {tail : List Char} (htail : Wording [] false tail)
    (hstop : Stops isWordChar tail) :
    Gathered (named type name ++ tail) (squeeze false (named type name ++ tail)) := by
  refine ((named_wording ht hn).append htail hstop).gathered ?_
  unfold named
  rfl

theorem memberHeader_named : MemberHeader (squeeze false (named type name)) where
  filled := by
    rw [squeeze_named_self ht hn]
    simp
  notNamespace := by
    have h := @notNamespace_named type name []
    rwa [List.append_nil] at h
  noType := (named_typeFree ht hn (stops_nil _) (stops_nil _)).readTypeHeader_eq_none

theorem memberHeader_parameters {parameters : List Char} :
    MemberHeader (squeeze false (named type name ++ '(' :: parameters)) := by
  have hsqueeze : squeeze false (named type name ++ '(' :: parameters) =
      squeeze false (named type name) ++ '(' :: squeeze false parameters := by
    rw [squeeze_named ht hn, squeeze_named_self ht hn, squeeze_cons (by decide),
      List.append_assoc, List.cons_append]
  refine ⟨?_, notNamespace_named _, ?_⟩
  · rw [hsqueeze]
    simp
  · rw [hsqueeze]
    exact (named_typeFree ht hn (stops_cons (isWordChar_sign (by decide)) _)
      (stops_cons (by decide) _)).readTypeHeader_paren

theorem identifiers_named :
    identifiers (squeeze false (named type name)) =
      "public".toList :: (identifiers type ++ identifiers name) := by
  have hat : '@' ∉ named type name := (named_wording ht hn).notMem (isTypeChar_foreign (by decide))
  have hpublic : identifiers (named type name) =
      "public".toList :: identifiers (' ' :: (type ++ ' ' :: name)) := by
    unfold named
    exact identifiers_word public_isWord (stops_cons rfl _)
  rw [identifiers_squeeze hat, hpublic, identifiers_other rfl (by decide),
    identifiers_append (stops_cons rfl _), identifiers_other rfl (by decide)]

omit ht in
theorem paren_named : '(' ∈ squeeze false (named type name) ↔ '(' ∈ type := by
  have hname : '(' ∉ name := hn.notMem (isWordChar_sign (by decide))
  rw [mem_squeeze (by decide)]
  unfold named
  simp only [String.reduceToList, List.mem_append, List.mem_cons, hname, or_false]
  simp

theorem assign_named : '=' ∉ squeeze false (named type name) := fun hmem =>
  (named_wording ht hn).notMem (isTypeChar_foreign (by decide)) ((mem_squeeze (by decide)).1 hmem)

/-- A word that is looked for is found in the type, if the name is not this word. -/
theorem hasWord_named {word : String} (hpublic : word.toList ≠ "public".toList)
    (hw : IsWord name) (hword : name ≠ word.toList) :
    hasWord word (squeeze false (named type name)) = true ↔ word.toList ∈ identifiers type := by
  have hlist : word.toList ∈ "public".toList :: (identifiers type ++ [name]) ↔
      word.toList ∈ identifiers type := by
    simp only [List.mem_cons, List.mem_append, hpublic, Ne.symm hword, false_or, or_false,
      List.not_mem_nil]
  rw [hasWord, List.contains_iff_mem, identifiers_named ht hn, identifiers_isWord hw, hlist]

end Named

/-! ## What is declared -/

theorem isWord_of_statementMade {owner h : List Char} {d : List (List Char) × DeclKind}
    (hd : d ∈ statementMade owner h) : ∀ name ∈ d.1, IsWord name := by
  have hone : ∀ {found : Option (List Char)} {kind : DeclKind},
      (∀ name, found = some name → IsWord name) →
      d ∈ found.toList.map (fun name => ([name], kind)) → ∀ name ∈ d.1, IsWord name := by
    intro found kind hfound hmem
    obtain ⟨found', hfound', rfl⟩ := List.mem_map.1 hmem
    intro name hname
    rw [List.mem_singleton.1 hname]
    exact hfound found' (Option.mem_toList.1 hfound')
  unfold statementMade at hd
  simp only at hd
  split at hd
  · cases hd
  · split at hd
    · exact hone (fun _ => isWord_methodName) hd
    · split at hd
      · exact hone (fun _ => isWord_propertyName) hd
      · split at hd
        · cases hd
        · rw [List.mem_singleton.1 hd]
          exact fun name => isWord_fieldNames

theorem statementMade_plain {owner h : List Char} (hassign : findAssignment h = none)
    (hskip : (hasWord "event" h || hasWord "delegate" h) = false) :
    statementMade owner h =
      if h.contains '(' then (methodName h owner).toList.map fun name => ([name], .method)
      else if (fieldNames h).isEmpty then [] else [(fieldNames h, .field)] := by
  rw [statementMade, hskip, hassign]
  rfl

theorem statementMade_skipped {owner h : List Char}
    (hskip : (hasWord "event" h || hasWord "delegate" h) = true) : statementMade owner h = [] := by
  rw [statementMade, hskip]
  rfl

section Made

variable {owner type name : List Char} (ht : TypeText declaring .type type) (hn : IsIdentifier name)
include ht hn

/-- The keywords among the words that are looked for. -/
def memberKeywords : List (List Char) :=
  ["public", "event", "delegate", "operator", "this"].map String.toList

theorem fieldNames_named (hw : IsWord name) :
    fieldNames (squeeze false (named type name)) = [name] := by
  have hassign := assign_named ht hn
  have hname : declaratorName (squeeze false (named type name)) = some name := by
    rw [squeeze_named_self ht hn] at hassign ⊢
    exact declaratorName_spaced (fun hmem => hassign (List.mem_append_left _ hmem)) hw
  rw [fieldNames, ((named_wording ht hn).squeezed.balanced InQuotes).unsplit.splitTop_eq,
    List.filterMap_cons, hname]
  rfl

theorem field_made (hfree : name ∉ memberKeywords) :
    statementMade owner (squeeze false (named type name)) = [([name], .field)] ↔
      IsWord name ∧ '(' ∉ type ∧ "event".toList ∉ identifiers type ∧
        "delegate".toList ∉ identifiers type := by
  have hassign := findAssignment_eq_none (assign_named ht hn)
  have hmethod : ∀ found : Option (List Char),
      found.toList.map (fun name => ([name], DeclKind.method)) ≠ [([name], .field)] := by
    rintro (_ | found) he <;> cases he
  rw [← @paren_named type name hn, ← List.contains_iff_mem]
  constructor
  · intro he
    have hw : IsWord name :=
      isWord_of_statementMade (he ▸ List.mem_singleton_self _) name (List.mem_singleton_self _)
    rw [← hasWord_named ht hn (by decide) hw fun e => hfree (e ▸ by decide),
      ← hasWord_named ht hn (by decide) hw fun e => hfree (e ▸ by decide), ← not_or,
      ← Bool.or_eq_true]
    cases hskip : hasWord "event" (squeeze false (named type name)) ||
        hasWord "delegate" (squeeze false (named type name)) with
    | true =>
        rw [statementMade_skipped hskip] at he
        cases he
    | false =>
        refine ⟨hw, fun hp => ?_, Bool.false_ne_true⟩
        rw [statementMade_plain hassign hskip, if_pos hp] at he
        exact hmethod _ he
  · rintro ⟨hw, hp, hskip⟩
    rw [← hasWord_named ht hn (by decide) hw fun e => hfree (e ▸ by decide),
      ← hasWord_named ht hn (by decide) hw fun e => hfree (e ▸ by decide), ← not_or,
      ← Bool.or_eq_true, Bool.not_eq_true] at hskip
    rw [statementMade_plain hassign hskip, if_neg hp, fieldNames_named ht hn hw]
    rfl

omit ht in
theorem occurs_this_named : occurs "this[".toList (squeeze false (named type name)) = true ↔
    occurs "this[".toList type = true := by
  have hmark : ∀ c ∈ "this[".toList, isBlank c = false := by decide
  have hne : "this[".toList ≠ [] := by decide
  have hname : ¬ occurs "this[".toList name = true := by
    intro ho
    obtain ⟨cut, hcut⟩ := Option.isSome_iff_exists.1 ho
    have hin : '[' ∈ name := by
      rw [breakOn_eq hcut]
      simp
    exact hn.notMem (isWordChar_sign (by decide)) hin
  have hpublic : ¬ occurs "this[".toList "public".toList = true := by decide
  rw [occurs_squeeze hmark hne]
  unfold named
  have hsplit : "public ".toList ++ (type ++ ' ' :: name) =
      "public".toList ++ ' ' :: (type ++ ' ' :: name) := rfl
  rw [hsplit, occurs_append_blank hmark hne rfl, occurs_append_blank hmark hne rfl,
    or_iff_right hpublic, or_iff_left hname]

theorem property_made (hfree : name ∉ memberKeywords) :
    bodyMade owner (squeeze false (named type name)) = [([name], .property)] ↔
      IsWord name ∧ '(' ∉ type ∧ ¬ occurs "this[".toList type = true ∧
        "event".toList ∉ identifiers type := by
  have hlast : IsWord name → lastIdentifier (squeeze false (named type name)) = some name := by
    intro hw
    rw [squeeze_named_self ht hn]
    exact lastIdentifier_spaced _ hw
  have hmethod : ∀ found : Option (List Char),
      found.toList.map (fun name => ([name], DeclKind.method)) ≠ [([name], .property)] := by
    rintro (_ | found) he <;> cases he
  have hproperty : ∀ found : Option (List Char),
      found.toList.map (fun name => ([name], DeclKind.property)) = [([name], .property)] ↔
        found = some name := by
    rintro (_ | found) <;> simp
  rw [← @paren_named type name hn, ← occurs_this_named hn, ← List.contains_iff_mem]
  unfold bodyMade
  split
  · rename_i hp
    exact iff_of_false (hmethod _) fun h => h.2.1 hp
  · rename_i hp
    rw [hproperty]
    constructor
    · intro he
      have hw := isWord_propertyName he
      rw [← hasWord_named ht hn (by decide) hw fun e => hfree (e ▸ by decide)]
      rw [propertyName] at he
      split at he
      · cases he
      · rename_i hskip
        rw [Bool.or_eq_true, not_or] at hskip
        exact ⟨hw, hp, hskip⟩
    · rintro ⟨hw, -, hskip⟩
      rw [← hasWord_named ht hn (by decide) hw fun e => hfree (e ▸ by decide), ← not_or,
        ← Bool.or_eq_true] at hskip
      rw [propertyName, if_neg hskip, hlast hw]

omit hn in
/-- In front of a tuple the header ends with the modifier or a sign of the list around it. -/
theorem exists_front (hp : '(' ∈ type) : ∃ front back body c gap,
    type = front ++ '(' :: back ∧ '(' ∉ front ∧ "public ".toList ++ front = body ++ c :: gap ∧
      isBlank c = false ∧ c ≠ '>' ∧ allBlank gap = true := by
  obtain ⟨front, back, rfl, hfront, ⟨-, hblank⟩ | ⟨before, c, gap, rfl, hc, hgap⟩⟩ := ht.first_paren hp
  · exact ⟨front, back, "publi".toList, 'c', ' ' :: front, rfl, hfront, rfl, by decide, by decide,
      by rw [allBlank, List.all_cons, ← allBlank, hblank]; rfl⟩
  · refine ⟨_, back, "public ".toList ++ before, c, gap, rfl, hfront, ?_, ?_, ?_, hgap⟩
    · rw [List.append_assoc]
    · rcases hc with rfl | rfl <;> decide
    · rcases hc with rfl | rfl <;> decide

omit ht hn in
theorem takeWhile_paren {s : List Char} (hs : '(' ∉ s) (t : List Char) :
    (s ++ '(' :: t).takeWhile (· ≠ '(') = s :=
  takeWhile_append_stops (fun c hc => decide_eq_true fun e => hs (e ▸ hc)) (stops_cons (by decide) _)

omit ht hn in
/-- The text in front of a parenthesis in a header, without the blanks behind it. -/
theorem head_squeeze {body gap : List Char} {c : Char} (hplain : '(' ∉ body ++ c :: gap)
    (hc : isBlank c = false) (hgap : allBlank gap = true) (t : List Char) :
    trimEnd ((squeeze false ((body ++ c :: gap) ++ '(' :: t)).takeWhile (· ≠ '(')) =
      squeeze false (body ++ [c]) := by
  have hblank : ∀ c, isBlank c = true → decide (c ≠ '(') = true := fun c hc =>
    decide_eq_true (ne_of_isBlank hc (by decide))
  have hsplit : squeeze false (body ++ c :: gap) =
      squeeze false (body ++ [c]) ++ squeeze false gap := by
    rw [squeeze_append_cons hc, squeeze_append_cons hc, List.append_assoc]
    rfl
  rw [takeWhile_squeeze hblank, takeWhile_paren hplain, hsplit]
  exact trimEnd_pad (trimmed_squeeze ⟨body, c, rfl, by simp [hc]⟩) (allBlank_squeeze hgap)

omit hn in
/-- The parenthesis of a tuple is the first, and the words in front of it are the modifier and
those that the type has there. -/
theorem exists_head_tuple (hp : '(' ∈ type) : ∃ head,
    trimEnd ((squeeze false (named type name ++ "(int p)".toList)).takeWhile (· ≠ '(')) = head ∧
      '~' ∉ head ∧ head.getLast? ≠ some '>' ∧
      identifiers head = "public".toList :: identifiers (type.takeWhile (· ≠ '(')) := by
  obtain ⟨front, back, body, c, gap, rfl, hfront, hbody, hc, hgt, hgap⟩ := exists_front ht hp
  have hnamed : named (front ++ '(' :: back) name ++ "(int p)".toList =
      (body ++ c :: gap) ++ '(' :: (back ++ ' ' :: (name ++ "(int p)".toList)) := by
    unfold named
    simp only [← hbody, List.append_assoc, List.cons_append]
  have hplain : '(' ∉ body ++ c :: gap := by
    rw [← hbody]
    simp [hfront]
  have hsplit : body ++ c :: gap = body ++ [c] ++ gap := by simp
  have hchars : ∀ {d : Char}, isTypeChar d = false → d ∉ body ++ [c] := by
    intro d hd hmem
    have hin : d ∈ "public ".toList ++ front := by
      rw [hbody, hsplit]
      exact List.mem_append_left _ hmem
    refine (front_wording ht).notMem hd ?_
    rw [← List.append_assoc]
    exact List.mem_append_left _ hin
  have hids : identifiers (body ++ [c]) = "public".toList :: identifiers front := by
    have hpublic : identifiers ("public ".toList ++ front) =
        "public".toList :: identifiers (' ' :: front) :=
      identifiers_word public_isWord (stops_cons rfl _)
    rw [hbody, hsplit, identifiers_pad hgap, identifiers_other rfl (by decide)] at hpublic
    exact hpublic
  refine ⟨squeeze false (body ++ [c]), ?_, ?_, ?_, ?_⟩
  · rw [hnamed, head_squeeze hplain hc hgap]
  · rw [mem_squeeze (by decide)]
    exact hchars (isTypeChar_foreign (by decide))
  · rw [squeeze_append_cons hc, squeeze, List.getLast?_concat]
    simpa using hgt
  · rw [identifiers_squeeze (hchars (isTypeChar_foreign (by decide))), hids, takeWhile_paren hfront]

/-- Without a tuple the first parenthesis stands behind the name. -/
theorem head_named (hp : '(' ∉ type) :
    trimEnd ((squeeze false (named type name ++ "(int p)".toList)).takeWhile (· ≠ '(')) =
        squeeze false (named type name) ∧
      '~' ∉ squeeze false (named type name) ∧
      (squeeze false (named type name)).getLast? ≠ some '>' := by
  have hplain : '(' ∉ named type name := by
    rwa [← @mem_squeeze false '(' _ (by decide), paren_named hn]
  obtain ⟨body, c, hbody, hc⟩ := (@named_ends type name hn).2
  rw [Bool.not_eq_true'] at hc
  refine ⟨?_, ?_, ?_⟩
  · rw [hbody] at hplain ⊢
    exact head_squeeze hplain hc rfl _
  · rw [mem_squeeze (by decide)]
    exact (named_wording ht hn).notMem (isTypeChar_foreign (by decide))
  · rw [squeeze_named_self ht hn]
    have hends : EndsIn isWordChar name := endsIn_of_forall hn.ne_nil hn.inside
    exact getLast?_of_endsIn (endsIn_append (endsIn_cons hends _) _) (isWordChar_sign (by decide))

omit ht hn in
theorem methodName_eq_some {s head : List Char}
    (hhead : trimEnd (s.takeWhile (· ≠ '(')) = head) (htilde : '~' ∉ head)
    (hlast : head.getLast? ≠ some '>') (hfree : name ∉ memberKeywords) (howner : name ≠ owner) :
    methodName s owner = some name ↔
      ¬ hasWord "operator" head = true ∧ lastIdentifier head = some name := by
  have hthis : name ≠ "this".toList := fun e => hfree (e ▸ by decide)
  rw [methodName_plain owner hhead htilde hlast]
  split
  · rename_i hop
    exact iff_of_false (Option.some_ne_none _).symm fun h => h.1 hop
  · rename_i hop
    rw [Option.filter_eq_some_iff, and_iff_left (decide_eq_true ⟨howner, hthis⟩), and_iff_right hop]

omit hn in
/-- With a tuple in it, the type decides alone how the method is called. -/
theorem methodName_tuple (hfree : name ∉ memberKeywords) (howner : name ≠ owner)
    (hp : '(' ∈ type) :
    methodName (squeeze false (named type name ++ "(int p)".toList)) owner = some name ↔
      "operator".toList ∉ identifiers (type.takeWhile (· ≠ '(')) ∧
        lastIdentifier (type.takeWhile (· ≠ '(')) = some name := by
  obtain ⟨head, hhead, htilde, hlast, hids⟩ := exists_head_tuple ht hp
  have hword : hasWord "operator" head = true ↔
      "operator".toList ∈ identifiers (type.takeWhile (· ≠ '(')) := by
    have hne : "operator".toList ≠ "public".toList := by decide
    rw [hasWord, List.contains_iff_mem, hids, List.mem_cons, or_iff_right hne]
  have hlast' : lastIdentifier head = some name ↔
      lastIdentifier (type.takeWhile (· ≠ '(')) = some name := by
    have hpublic : ("public".toList).dropWhile (· == '@') ≠ name := fun e => hfree (e ▸ by decide)
    rw [lastIdentifier, lastIdentifier, hids]
    cases identifiers (type.takeWhile (· ≠ '(')) with
    | nil => exact iff_of_false (fun e => hpublic (Option.some.inj e)) (Option.some_ne_none _).symm
    | cons first rest => rw [List.getLast?_cons_cons]
  rw [methodName_eq_some hhead htilde hlast hfree howner, hword, hlast']

theorem methodName_named (hfree : name ∉ memberKeywords) (howner : name ≠ owner)
    (hp : '(' ∉ type) :
    methodName (squeeze false (named type name ++ "(int p)".toList)) owner = some name ↔
      IsWord name ∧ "operator".toList ∉ identifiers type := by
  obtain ⟨hhead, htilde, hlast⟩ := head_named ht hn hp
  have hlast' : lastIdentifier (squeeze false (named type name)) = some name ↔ IsWord name := by
    refine ⟨isWord_lastIdentifier, fun hw => ?_⟩
    rw [squeeze_named_self ht hn]
    exact lastIdentifier_spaced _ hw
  rw [methodName_eq_some hhead htilde hlast hfree howner, hlast', and_comm]
  refine and_congr_right fun hw => ?_
  rw [hasWord_named ht hn (by decide) hw fun e => hfree (e ▸ by decide)]

theorem method_made (hfree : name ∉ memberKeywords) (howner : name ≠ owner) :
    bodyMade owner (squeeze false (named type name ++ "(int p)".toList)) = [([name], .method)] ↔
      IsWord name ∧ "operator".toList ∉ identifiers (type.takeWhile (· ≠ '(')) ∧
        ('(' ∈ type → lastIdentifier (type.takeWhile (· ≠ '(')) = some name) := by
  have hparen : (squeeze false (named type name ++ "(int p)".toList)).contains '(' = true := by
    rw [List.contains_iff_mem, mem_squeeze (by decide)]
    simp
  have hmethod : ∀ found : Option (List Char),
      found.toList.map (fun name => ([name], DeclKind.method)) = [([name], .method)] ↔
        found = some name := by
    rintro (_ | found) <;> simp
  rw [bodyMade, if_pos hparen, hmethod]
  by_cases hp : '(' ∈ type
  · rw [methodName_tuple ht hfree howner hp]
    exact ⟨fun h => ⟨isWord_lastIdentifier h.2, h.1, fun _ => h.2⟩, fun h => ⟨h.2.1, h.2.2 hp⟩⟩
  · have htake : type.takeWhile (· ≠ '(') = type :=
      List.takeWhile_eq_self_iff.2 fun c hc => decide_eq_true fun e => hp (e ▸ hc)
    rw [methodName_named ht hn hfree howner hp, htake]
    exact and_congr_right fun _ => (and_iff_left fun hmem => absurd hmem hp).symm

theorem gives_field (hfree : name ∉ memberKeywords) :
    Gives owner (named type name ++ [';']) [([name], .field)] ↔
      IsWord name ∧ '(' ∉ type ∧ "event".toList ∉ identifiers type ∧
        "delegate".toList ∉ identifiers type := by
  have hends := @named_ends type name hn
  have hgathered := gathered_named ht hn .nil (stops_nil _)
  have htrim := trim_squeeze hends.1 hends.2 (show allBlank [] = true from rfl)
  rw [List.append_nil] at hgathered htrim
  have hheader : MemberHeader (trim (squeeze false (named type name))) := by
    rw [htrim]
    exact memberHeader_named ht hn
  have hdirective := @not_directive_named type name []
  rw [List.append_nil] at hdirective
  rw [(gives_semicolon hgathered hheader (by rwa [htrim])).iff_eq, htrim]
  exact field_made ht hn hfree

theorem gives_property (hfree : name ∉ memberKeywords) :
    Gives owner (named type name ++ " { get; set; }".toList) [([name], .property)] ↔
      IsWord name ∧ '(' ∉ type ∧ ¬ occurs "this[".toList type = true ∧
        "event".toList ∉ identifiers type := by
  have hends := @named_ends type name hn
  have hgathered := gathered_named ht hn (.blank (c := ' ') (by decide) .nil)
    (stops_cons (isWordChar_sign (by decide)) _)
  have htrim := trim_squeeze hends.1 hends.2 (show allBlank [' '] = true from rfl)
  have hheader : MemberHeader (trim (squeeze false (named type name ++ [' ']))) := by
    rw [htrim]
    exact memberHeader_named ht hn
  have hassign : findAssignment (trim (squeeze false (named type name ++ [' ']))) = none := by
    rw [htrim]
    exact findAssignment_eq_none (assign_named ht hn)
  have hbody : LexicallyClosed " get; set; ".toList := closed_run rfl
  have htext : named type name ++ " { get; set; }".toList =
      (named type name ++ [' ']) ++ '{' :: (" get; set; ".toList ++ ['}']) := by
    rw [List.append_assoc]
    rfl
  rw [htext, (gives_body hgathered hheader hassign hbody).iff_eq, htrim]
  exact property_made ht hn hfree

theorem gives_method (hfree : name ∉ memberKeywords) (howner : name ≠ owner) :
    Gives owner (named type name ++ "(int p) { }".toList) [([name], .method)] ↔
      IsWord name ∧ "operator".toList ∉ identifiers (type.takeWhile (· ≠ '(')) ∧
        ('(' ∈ type → lastIdentifier (type.takeWhile (· ≠ '(')) = some name) := by
  have hparameters : Wording [] true "int p".toList :=
    .word (w := "int".toList) (s := " p".toList) (by decide) (by decide)
      (stops_cons (isWordChar_sign (by decide)) _)
      (.blank (by decide) (.of_identifier (s := ['p']) (by decide) (by decide)))
  have htail : Wording [] false ("(int p)".toList ++ [' ']) :=
    .brackets (t := "int p".toList) (by decide) hparameters (.blank (by decide) .nil)
  have hends : Stops isBlank (named type name ++ "(int p)".toList) ∧
      Trimmed (named type name ++ "(int p)".toList) := by
    have := @named_ends type name hn
    exact ⟨this.1.append_right this.2.ne_nil _, endsIn_append ⟨"(int p".toList, ')', rfl, by decide⟩ _⟩
  have hgathered := gathered_named ht hn htail (stops_cons (isWordChar_sign (by decide)) _)
  have htrim := trim_squeeze hends.1 hends.2 (show allBlank [' '] = true from rfl)
  rw [List.append_assoc] at htrim
  have hheader : MemberHeader
      (trim (squeeze false (named type name ++ ("(int p)".toList ++ [' '])))) := by
    rw [htrim]
    exact memberHeader_parameters ht hn
  have hassign : findAssignment
      (trim (squeeze false (named type name ++ ("(int p)".toList ++ [' '])))) = none := by
    have hplain : '=' ∉ named type name ++ "(int p)".toList := fun hmem => by
      refine ((named_wording ht hn).append htail (stops_cons (isWordChar_sign (by decide)) _)).notMem
        (c := '=') (isTypeChar_foreign (by decide)) ?_
      rw [← List.append_assoc]
      exact List.mem_append_left _ hmem
    rw [htrim]
    exact findAssignment_eq_none fun hmem => hplain ((mem_squeeze (by decide)).1 hmem)
  have hbody : LexicallyClosed [' '] := closed_run rfl
  have htext : named type name ++ "(int p) { }".toList =
      (named type name ++ ("(int p)".toList ++ [' '])) ++ '{' :: ([' '] ++ ['}']) := by
    rw [List.append_assoc]
    rfl
  rw [htext, (gives_body hgathered hheader hassign hbody).iff_eq, htrim]
  exact method_made ht hn hfree howner

end Made

end Declaration
end DocPages

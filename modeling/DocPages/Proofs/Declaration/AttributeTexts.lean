/-
Attributes that are written out and read again.

A list of attributes comes back from its text unless an argument is taken for one of the
other kind, or a tuple in a name for the arguments: `readAttributes_sectionText`.
-/
import DocPages.Declaration.AttributeList
import DocPages.Proofs.Declaration.Moves
import DocPages.Proofs.Declaration.TypeTexts

namespace DocPages
namespace Declaration

open Text

/-! ## What is written -/

/-- An expression as an argument: not surrounded by blanks, with brackets that match, complete
literals and no comma of its own outside of brackets. -/
structure IsValue (v : List Char) : Prop where
  starts : Stops isBlank v
  ends : Trimmed v
  balanced : Balanced InQuotes false v

/-- A text without the at sign that makes a name of a keyword. -/
def unmarked (s : List Char) : List Char := (stripStart? ['@'] s).getD s

/-- `identifier = …` and `identifier : …`, but neither `==` nor `::`. -/
def NamedForm (v : List Char) : Prop :=
  ∃ name gap c rest, unmarked v = name ++ (gap ++ c :: rest) ∧ IsIdentifier name ∧
    allBlank gap = true ∧ (c = '=' ∨ c = ':') ∧ rest.head? ≠ some c

inductive WrittenArgument : String × String → Prop
  | named {name value : String} :
      IsIdentifier name.toList → IsValue value.toList → WrittenArgument (name, value)
  | positional {value : String} :
      IsValue value.toList → ¬NamedForm value.toList → WrittenArgument ("", value)

/-- An attribute with a dotted or generic name. -/
structure WrittenAttribute (a : Attribute) : Prop where
  name : TypeText [] .name a.name.toList
  arguments : ∀ argument ∈ a.arguments, WrittenArgument argument

/-- The attributes between the brackets of a section. -/
def sectionText (attributes : List Attribute) : List Char :=
  joined (attributes.map fun a => a.render.toList)

/-- What a section says its attributes belong to. -/
def targetText (target : String) (before gap : List Char) : List Char :=
  target.toList ++ (before ++ ':' :: gap)

/-! ## What is read as something else -/

/-- One line that starts with a name and the `::` of a qualified name. -/
def ReadsQualified (v : List Char) : Prop :=
  ∃ name gap rest, unmarked v = name ++ (gap ++ ':' :: ':' :: rest) ∧ IsWord name ∧
    allBlank gap = true ∧ '\n' ∉ rest

/-- What reading keeps.  A name is told by its letters without accents, and a value is named on
one line only. -/
def KeptArgument (argument : String × String) : Prop :=
  if argument.1 = "" then ¬ReadsQualified argument.2.toList
  else IsWord argument.1.toList ∧ '\n' ∉ argument.2.toList

structure KeptAttribute (a : Attribute) : Prop where
  name : '(' ∉ a.name.toList
  arguments : ∀ argument ∈ a.arguments, KeptArgument argument

/-! ## Named arguments -/

theorem IsIdentifier.unmarked_append {name : List Char} (h : IsIdentifier name) (s : List Char) :
    unmarked (name ++ s) = name ++ s := by
  cases name with
  | nil => exact absurd rfl h.ne_nil
  | cons c rest =>
      have hne : '@' ≠ c :=
        (ne_of_isWordChar (h.inside c List.mem_cons_self) (isWordChar_sign (by decide))).symm
      rw [unmarked, List.cons_append, stripStart?_cons_ne hne]
      rfl

/-- The value behind the sign of a named argument. -/
structure ValueBehind (rest value : List Char) : Prop where
  filled : trimStart rest ≠ []
  line : '\n' ∉ trimStart rest
  assigned : (trimStart rest).head? = some '=' → rest.head?.any isBlank = true
  value : trim (trimStart rest) = value

/-- What a value is read to, if it is one. -/
theorem valueBehind_iff {name rest : List Char} {found : List Char × List Char} :
    (if (trimStart rest).isEmpty || (trimStart rest).contains '\n' then none
      else if (trimStart rest).head? == some '=' && !rest.head?.any isBlank then none
      else some (name, trim (trimStart rest))) = some found ↔
      found.1 = name ∧ ValueBehind rest found.2 := by
  constructor
  · intro h
    split at h
    · cases h
    · rename_i hfilled
      split at h
      · cases h
      · rename_i hassigned
        cases h
        simp only [Bool.or_eq_true, not_or, List.isEmpty_iff, List.contains_iff_mem] at hfilled
        simp only [Bool.and_eq_true, beq_iff_eq, Bool.not_eq_true', not_and,
          Bool.not_eq_false] at hassigned
        exact ⟨rfl, hfilled.1, hfilled.2, hassigned, rfl⟩
  · rintro ⟨hname, hv⟩
    have hassigned : ((trimStart rest).head? == some '=' && !rest.head?.any isBlank) = false := by
      cases he : (trimStart rest).head? == some '=' with
      | false => rfl
      | true => rw [hv.assigned (beq_iff_eq.1 he), Bool.not_true, Bool.and_false]
    rw [if_neg (by simp [hv.filled, hv.line]), if_neg (by simp [hassigned]), hv.value, ← hname]

/-- A name in front of blanks or of another sign ends there. -/
theorem stops_gapSign {gap rest : List Char} {c : Char} (hgap : allBlank gap = true)
    (hc : c = '=' ∨ c = ':') : Stops isIdentChar (gap ++ c :: rest) := by
  refine stops_append (fun d hd => ?_) (stops_cons ?_ _)
  · have hblank := List.all_eq_true.1 hgap d (List.mem_of_mem_head? hd)
    rw [Bool.eq_false_iff]
    intro hi
    rw [not_isBlank_of_isIdentChar hi] at hblank
    cases hblank
  · rcases hc with rfl | rfl <;> decide

theorem trimStart_pad {gap s : List Char} (hgap : allBlank gap = true) (hs : Stops isBlank s) :
    trimStart (gap ++ s) = s :=
  dropWhile_append_stops (List.all_eq_true.1 hgap) hs

theorem stops_isBlank_sign {rest : List Char} {c : Char} (hc : c = '=' ∨ c = ':') :
    Stops isBlank (c :: rest) := by
  rcases hc with rfl | rfl <;> exact stops_cons (by decide) _

theorem readNamed_eq_some_iff {s name value : List Char} :
    readNamed s = some (name, value) ↔
      ∃ gap c rest, unmarked s = name ++ (gap ++ c :: rest) ∧ IsWord name ∧
        allBlank gap = true ∧ (c = '=' ∨ c = ':') ∧ ValueBehind rest value := by
  rw [readNamed, ← unmarked]
  simp only
  constructor
  · intro h
    split at h
    · rename_i hstart
      split at h
      · rename_i c rest hsign
        split at h
        · rename_i hc
          obtain ⟨rfl, hv⟩ := valueBehind_iff.1 h
          refine ⟨((unmarked s).dropWhile isIdentChar).takeWhile isBlank, c, rest, ?_,
            isWord_takeWhile hstart, List.all_takeWhile, hc, hv⟩
          rw [← hsign, trimStart, List.takeWhile_append_dropWhile, List.takeWhile_append_dropWhile]
        · cases h
      · cases h
    · cases h
  · rintro ⟨gap, c, rest, hs, hname, hgap, hc, hv⟩
    have hstops : Stops isIdentChar (gap ++ c :: rest) := stops_gapSign hgap hc
    have hstart : (unmarked s).head?.any isIdentStart = true := by
      obtain ⟨d, more, rfl, hd, -⟩ := hname.exists_cons
      rw [hs]
      exact hd
    rw [if_pos hstart, hs, hname.takeWhile_append hstops, hname.dropWhile_append hstops,
      trimStart_pad hgap (stops_isBlank_sign hc)]
    simp only
    rw [if_pos hc]
    exact valueBehind_iff.2 ⟨rfl, hv⟩

/-! ## Arguments -/

/-- A positional value is taken for a named argument if and only if it reads as a qualified
name. -/
theorem readNamed_positional {v : List Char} (hv : ¬NamedForm v) :
    readNamed v = none ↔ ¬ReadsQualified v := by
  rw [← not_iff_not, not_not, ← ne_eq, Option.ne_none_iff_exists']
  constructor
  · rintro ⟨⟨name, value⟩, h⟩
    obtain ⟨gap, c, rest, hs, hname, hgap, hc, hbehind⟩ := readNamed_eq_some_iff.1 h
    -- Otherwise the sign would be single, and the value written as a named argument.
    have hdouble : rest.head? = some c := by
      by_contra hne
      exact hv ⟨name, gap, c, rest, hs, .of_isWord hname, hgap, hc, hne⟩
    cases rest with
    | nil => cases hdouble
    | cons d rest =>
        cases hdouble
        have htrim : trimStart (c :: rest) = c :: rest := trimStart_of_stops (stops_isBlank_sign hc)
        rcases hc with rfl | rfl
        · have := hbehind.assigned (by rw [htrim]; rfl)
          exact absurd this (by simp [show isBlank '=' = false by decide])
        · have hline := hbehind.line
          rw [htrim] at hline
          exact ⟨name, gap, rest, hs, hname, hgap, fun hmem => hline (List.mem_cons_of_mem _ hmem)⟩
  · rintro ⟨name, gap, rest, hs, hname, hgap, hline⟩
    have htrim : trimStart (':' :: rest) = ':' :: rest :=
      trimStart_of_stops (stops_isBlank_sign (.inr rfl))
    refine ⟨(name, trim (trimStart (':' :: rest))), readNamed_eq_some_iff.2
      ⟨gap, ':', ':' :: rest, hs, hname, hgap, .inr rfl, ?_, ?_, ?_, rfl⟩⟩
    · rw [htrim]
      exact List.cons_ne_nil _ _
    · rw [htrim]
      simp [hline]
    · rw [htrim]
      intro h
      cases h

/-- A value behind a name is read as a named argument if and only if both are told. -/
theorem readNamed_named {name value : List Char} (hname : IsIdentifier name) (hvalue : IsValue value)
    (found : List Char × List Char) :
    readNamed (name ++ ' ' :: '=' :: ' ' :: value) = some found ↔
      found = (name, value) ∧ IsWord name ∧ '\n' ∉ value := by
  have hspace : trimStart (' ' :: value) = value :=
    trimStart_pad (show allBlank [' '] = true from rfl) hvalue.starts
  have htrim : trim value = value := by
    rw [trim, trimStart_of_stops hvalue.starts, trimEnd_of_trimmed hvalue.ends]
  obtain ⟨first, second⟩ := found
  rw [readNamed_eq_some_iff, hname.unmarked_append]
  constructor
  · rintro ⟨gap, c, rest, hs, hword, hgap, hc, hbehind⟩
    have hsign : Stops isWordChar (c :: rest) := by
      rcases hc with rfl | rfl <;> exact stops_cons (isWordChar_sign (by decide)) _
    -- Both names are the word characters at the front.
    have hfirst : name = first := by
      have := congrArg (List.takeWhile isWordChar) hs
      rwa [takeWhile_append_stops hname.inside (stops_cons (isWordChar_sign (by decide)) _),
        takeWhile_append_stops (IsIdentifier.of_isWord hword).inside (stops_gap hgap hsign)] at this
    subst hfirst
    have hrest := congrArg trimStart (List.append_cancel_left hs)
    rw [trimStart_pad hgap (stops_isBlank_sign hc)] at hrest
    cases hrest
    have hline := hbehind.line
    have hval := hbehind.value
    rw [hspace] at hline
    rw [hspace, htrim] at hval
    exact ⟨by rw [hval], hword, hline⟩
  · rintro ⟨heq, hword, hline⟩
    cases heq
    refine ⟨[' '], '=', ' ' :: value, rfl, hword, rfl, .inl rfl, ?_, ?_, fun _ => rfl, ?_⟩
    · rw [hspace]
      exact hvalue.ends.ne_nil
    · rwa [hspace]
    · rw [hspace, htrim]

theorem IsIdentifier.ne_empty {name : String} (h : IsIdentifier name.toList) : name ≠ "" := by
  rintro rfl
  exact h.ne_nil rfl

theorem argumentText_positional (value : String) :
    Attribute.argumentText ("", value) = value.toList := rfl

theorem argumentText_named {name : String} (hname : name ≠ "") (value : String) :
    Attribute.argumentText (name, value) = name.toList ++ ' ' :: '=' :: ' ' :: value.toList := by
  have hempty : name.isEmpty = false := by
    rw [Bool.eq_false_iff, ne_eq, String.isEmpty_iff]
    exact hname
  rw [Attribute.argumentText, hempty, if_neg Bool.false_ne_true, List.append_assoc]
  rfl

/-- An argument comes back from its text if and only if it is one of those that are kept. -/
theorem readArgument_argumentText {argument : String × String} (h : WrittenArgument argument) :
    readArgument (Attribute.argumentText argument) = argument ↔ KeptArgument argument := by
  cases h with
  | @named name value hname hvalue =>
      rw [KeptArgument, if_neg hname.ne_empty, argumentText_named hname.ne_empty, readArgument]
      cases hread : readNamed (name.toList ++ ' ' :: '=' :: ' ' :: value.toList) with
      | none =>
          have hno : ¬(IsWord name.toList ∧ '\n' ∉ value.toList) := fun hkept => by
            rw [(readNamed_named hname hvalue _).2 ⟨rfl, hkept⟩] at hread
            cases hread
          exact iff_of_false (fun e => hname.ne_empty (congrArg Prod.fst e).symm) hno
      | some found =>
          obtain ⟨rfl, hkept⟩ := (readNamed_named hname hvalue found).1 hread
          exact iff_of_true (by simp only [String.ofList_toList]) hkept
  | @positional value hvalue hform =>
      rw [KeptArgument, if_pos rfl, argumentText_positional, readArgument, ← readNamed_positional hform]
      cases hread : readNamed value.toList with
      | none => exact iff_of_true (by simp only [String.ofList_toList]) rfl
      | some found =>
          obtain ⟨name, rest⟩ := found
          obtain ⟨-, -, -, -, hname, -⟩ := readNamed_eq_some_iff.1 hread
          refine iff_of_false (fun e => ?_) nofun
          exact hname.ne_nil (String.ofList_eq_empty_iff.1 (congrArg Prod.fst e))

/-! ## Attributes -/

theorem IsValue.listed {v : List Char} (h : IsValue v) : Listed v where
  unsplit := h.balanced.unsplit
  starts := h.starts
  ends := h.ends

theorem argumentText_balanced {argument : String × String} (h : WrittenArgument argument) :
    Balanced InQuotes false (Attribute.argumentText argument) := by
  cases h with
  | @named name value hname hvalue =>
      rw [argumentText_named hname.ne_empty]
      refine hname.balanced.append (.code (by decide) nofun (.code (by decide) nofun ?_))
      exact .code (by decide) nofun hvalue.balanced
  | positional hvalue _ => exact hvalue.balanced

theorem argumentText_listed {argument : String × String} (h : WrittenArgument argument) :
    Listed (Attribute.argumentText argument) where
  unsplit := (argumentText_balanced h).unsplit
  starts := by
    cases h with
    | named hname _ =>
        rw [argumentText_named hname.ne_empty]
        exact hname.ends.1.append_right hname.ne_nil _
    | positional hvalue _ => exact hvalue.starts
  ends := by
    cases h with
    | named hname hvalue =>
        rw [argumentText_named hname.ne_empty]
        exact endsIn_append (endsIn_append hvalue.ends [' ', '=', ' ']) _
    | positional hvalue _ => exact hvalue.ends

theorem joined_balanced {texts : List (List Char)} (h : ∀ s ∈ texts, Balanced InQuotes false s) :
    Balanced InQuotes true (joined texts) := by
  cases texts with
  | nil => exact .nil
  | cons first rest =>
      rw [joined_cons]
      refine (h first List.mem_cons_self).allow.append ?_
      have hrest := fun s hs => h s (List.mem_cons_of_mem first hs)
      clear h
      induction rest with
      | nil => exact .nil
      | cons s rest ih =>
          rw [List.flatMap_cons]
          refine Balanced.append ?_ (ih fun t ht => hrest t (List.mem_cons_of_mem _ ht))
          exact .code (by decide) (fun _ => rfl) (.code (by decide) nofun
            (hrest s List.mem_cons_self).allow)

/-- What stands behind the name of an attribute. -/
def argumentList (arguments : List (String × String)) : List Char :=
  if arguments.isEmpty then []
  else '(' :: (joined (arguments.map Attribute.argumentText) ++ [')'])

theorem render_toList (a : Attribute) :
    a.render.toList = a.name.toList ++ argumentList a.arguments := by
  unfold Attribute.render argumentList
  split
  · rw [List.append_nil]
  · simp only [String.toList_append, String.toList_ofList, List.append_assoc]
    rfl

theorem WrittenAttribute.listed {a : Attribute} (h : WrittenAttribute a) :
    Listed a.render.toList := by
  have hends := h.name.ends rfl
  have hname : Balanced InQuotes false a.name.toList := h.name.wording.balanced _
  rw [render_toList, argumentList]
  split
  · rw [List.append_nil]
    exact ⟨hname.unsplit, hends.1, hends.2⟩
  · have hlist : Balanced InQuotes true (joined (a.arguments.map Attribute.argumentText)) :=
      joined_balanced fun s hs => by
        obtain ⟨argument, hmem, rfl⟩ := List.mem_map.1 hs
        exact argumentText_balanced (h.arguments argument hmem)
    refine ⟨(hname.append (.brackets (by decide) hlist .nil)).unsplit,
      hends.1.append_right hends.2.ne_nil _, endsIn_append (endsIn_cons (endsIn_append ?_ _) _) _⟩
    exact ⟨[], ')', rfl, by decide⟩

theorem argumentText_closed (s : List Char) : argumentText (s ++ [')']) = s := by
  have hends : trimEnd (s ++ [')']) = s ++ [')'] := trimEnd_of_trimmed ⟨s, ')', rfl, by decide⟩
  rw [argumentText, hends, stripEnd?_eq_some.2 rfl]
  rfl

theorem commaList_arguments {arguments : List (String × String)}
    (h : ∀ argument ∈ arguments, WrittenArgument argument) :
    commaList (joined (arguments.map Attribute.argumentText)) =
      arguments.map Attribute.argumentText := by
  cases harg : arguments.map Attribute.argumentText with
  | nil => rfl
  | cons first rest =>
      have hlist : ∀ s ∈ first :: rest, Listed s := fun s hs => by
        rw [← harg] at hs
        obtain ⟨argument, hmem, rfl⟩ := List.mem_map.1 hs
        exact argumentText_listed (h argument hmem)
      exact commaList_joined hlist (List.cons_ne_nil _ _) (show allBlank [] = true from rfl)

/-- A name is read up to the first parenthesis, so it comes back if it has none. -/
theorem readAttribute_argumentList {name : List Char} (hparen : '(' ∉ name)
    (hstarts : Stops isBlank name) (hends : Trimmed name) {arguments : List (String × String)}
    (h : ∀ argument ∈ arguments, WrittenArgument argument) :
    readAttribute (name ++ argumentList arguments) =
      ⟨String.ofList name,
        arguments.map fun argument => readArgument (Attribute.argumentText argument)⟩ := by
  cases arguments with
  | nil =>
      have hempty : argumentList [] = [] := rfl
      rw [hempty, List.append_nil, readAttribute, breakOn_char_none hparen, List.map_nil]
  | cons first rest =>
      have htrim : trim name = name := by
        rw [trim, trimStart_of_stops hstarts, trimEnd_of_trimmed hends]
      have hlist : argumentList (first :: rest) =
          '(' :: (joined ((first :: rest).map Attribute.argumentText) ++ [')']) := rfl
      rw [hlist, readAttribute, breakOn_char hparen]
      simp only
      rw [htrim, argumentText_closed, commaList_arguments h, List.map_map]
      rfl

theorem paren_notMem_readAttribute (s : List Char) : '(' ∉ (readAttribute s).name.toList := by
  by_cases hparen : '(' ∈ s
  · obtain ⟨before, after, rfl, hbefore⟩ := List.eq_append_cons_of_mem hparen
    rw [readAttribute, breakOn_char hbefore, String.toList_ofList]
    intro hmem
    have hstart := List.mem_reverse.1 ((List.dropWhile_suffix isBlank).mem (List.mem_reverse.1 hmem))
    exact hbefore ((List.dropWhile_suffix isBlank).mem hstart)
  · rwa [readAttribute, breakOn_char_none hparen, String.toList_ofList]

theorem readAttribute_render {a : Attribute} (h : WrittenAttribute a) :
    readAttribute a.render.toList = a ↔ KeptAttribute a := by
  have hends := h.name.ends rfl
  rw [render_toList]
  constructor
  · intro heq
    have hparen : '(' ∉ a.name.toList := by
      rw [← heq]
      exact paren_notMem_readAttribute _
    refine ⟨hparen, fun argument hmem => ?_⟩
    rw [readAttribute_argumentList hparen hends.1 hends.2 h.arguments] at heq
    have hargs : (a.arguments.map fun argument => readArgument (Attribute.argumentText argument)) =
        a.arguments.map id := by
      rw [List.map_id]
      exact congrArg Attribute.arguments heq
    exact (readArgument_argumentText (h.arguments argument hmem)).1
      (List.map_inj_left.1 hargs argument hmem)
  · intro hkept
    have hargs : (a.arguments.map fun argument => readArgument (Attribute.argumentText argument)) =
        a.arguments.map id :=
      List.map_congr_left fun argument hmem =>
        (readArgument_argumentText (h.arguments argument hmem)).2 (hkept.arguments argument hmem)
    rw [readAttribute_argumentList hkept.name hends.1 hends.2 h.arguments, hargs, List.map_id,
      String.ofList_toList]

/-! ## Targets -/

theorem targets_isWord {target : String} (ht : target ∈ targets) : IsWord target.toList := by
  have hstarts : ∀ t ∈ targets, t.toList.head?.any isIdentStart = true := by decide
  have hinside : ∀ t ∈ targets, ∀ c ∈ t.toList, isIdentChar c = true := by decide
  exact ⟨hstarts target ht, hinside target ht⟩

theorem readTarget_eq_some {s body : List Char} {target : String}
    (h : readTarget s = some (target, body)) :
    target ∈ targets ∧ '\n' ∉ body.tail ∧
      ∃ gap, allBlank gap = true ∧ trimStart s = target.toList ++ (gap ++ ':' :: body) := by
  obtain ⟨t, ht, hfound⟩ := List.exists_of_findSome?_eq_some h
  split at hfound
  · rename_i c rest hmatch
    obtain ⟨after, hstrip, htrim⟩ := Option.map_eq_some_iff.1 hmatch
    split at hfound
    · rename_i hline
      cases hfound
      refine ⟨ht, ?_, after.takeWhile isBlank, List.all_takeWhile, ?_⟩
      · simpa using hline.2
      · rw [stripStart?_eq_some.1 hstrip, ← htrim, trimStart, List.takeWhile_append_dropWhile]
    · cases hfound
  · cases hfound

theorem targetText_append (target : String) (before gap s : List Char) :
    targetText target before gap ++ s = target.toList ++ (before ++ ':' :: (gap ++ s)) := by
  simp only [targetText, List.append_assoc, List.cons_append]

/-- What stands behind a target is read if it is on one line, its first character apart. -/
theorem readTarget_pad {target : String} (ht : target ∈ targets) {gap body : List Char}
    (hgap : allBlank gap = true) (hne : body ≠ []) (hcolon : body.head? ≠ some ':') :
    readTarget (target.toList ++ (gap ++ ':' :: body)) =
      if '\n' ∈ body.tail then none else some (target, body) := by
  have hword := targets_isWord ht
  have hstops : Stops isBlank (':' :: body) := stops_isBlank_sign (.inr rfl)
  have htrim : trimStart (target.toList ++ (gap ++ ':' :: body)) =
      target.toList ++ (gap ++ ':' :: body) :=
    trimStart_of_stops ((IsIdentifier.of_isWord hword).ends.1.append_right hword.ne_nil _)
  cases hread : readTarget (target.toList ++ (gap ++ ':' :: body)) with
  | none =>
      by_cases hline : '\n' ∈ body.tail
      · rw [if_pos hline]
      · have hnone := List.findSome?_eq_none_iff.1 hread target ht
        rw [htrim, stripStart?_append, Option.map_some, trimStart_pad hgap hstops] at hnone
        cases body with
        | nil => exact absurd rfl hne
        | cons c rest =>
            have hc : c ≠ ':' := fun e => hcolon (by rw [e]; rfl)
            have hrest : '\n' ∉ rest := hline
            simp [hc, hrest] at hnone
  | some found =>
      obtain ⟨t, b⟩ := found
      obtain ⟨ht', hline, gap', hgap', heq⟩ := readTarget_eq_some hread
      rw [htrim] at heq
      -- Both targets are the identifier characters at the front.
      have hsame : target = t := by
        have := congrArg (List.takeWhile isIdentChar) heq
        rw [hword.takeWhile_append (stops_gapSign hgap (.inr rfl)),
          (targets_isWord ht').takeWhile_append (stops_gapSign hgap' (.inr rfl))] at this
        exact String.toList_inj.1 this
      subst hsame
      have hbody := congrArg trimStart (List.append_cancel_left heq)
      rw [trimStart_pad hgap hstops, trimStart_pad hgap' (stops_isBlank_sign (.inr rfl))] at hbody
      cases hbody
      rw [if_neg hline]

/-! ## Sections -/

theorem sectionText_cons (a : Attribute) (rest : List Attribute) :
    sectionText (a :: rest) =
      a.name.toList ++ (argumentList a.arguments ++
        (rest.map fun a => a.render.toList).flatMap fun s => ", ".toList ++ s) := by
  rw [sectionText, List.map_cons, joined_cons, render_toList, List.append_assoc]

/-- Behind the name of the first attribute stands a parenthesis or a comma, if anything. -/
theorem behind_name (arguments : List (String × String)) (rest : List (List Char)) {c : Char}
    (h : (argumentList arguments ++ rest.flatMap fun s => ", ".toList ++ s).head? = some c) :
    c = '(' ∨ c = ',' := by
  cases arguments with
  | cons first more =>
      cases h
      exact .inl rfl
  | nil =>
      cases rest with
      | nil => cases h
      | cons s rest =>
          cases h
          exact .inr rfl

/-- The colon of a target is the first character that is neither of a word nor a blank. -/
theorem head?_dropWhile_target {target : String} (ht : target ∈ targets) {gap : List Char}
    (hgap : allBlank gap = true) (body : List Char) :
    ((target.toList ++ (gap ++ ':' :: body)).dropWhile fun c => isWordChar c || isBlank c).head? =
      some ':' := by
  have hrun : ∀ c ∈ target.toList ++ gap, (isWordChar c || isBlank c) = true := by
    intro c hc
    rcases List.mem_append.1 hc with hc | hc
    · rw [(IsIdentifier.of_isWord (targets_isWord ht)).inside c hc, Bool.true_or]
    · rw [List.all_eq_true.1 hgap c hc, Bool.or_true]
  rw [← List.append_assoc, dropWhile_append_stops hrun (stops_cons (by decide) _)]
  rfl

/-- A section without a target is not read as one with a target. -/
theorem readTarget_sectionText {attributes : List Attribute}
    (h : ∀ a ∈ attributes, WrittenAttribute a) : readTarget (sectionText attributes) = none := by
  cases attributes with
  | nil => exact readTarget_eq_none (s := sectionText []) List.not_mem_nil
  | cons a rest =>
      have hname := (h a List.mem_cons_self).name
      have hends := hname.ends rfl
      cases hread : readTarget (sectionText (a :: rest)) with
      | none => rfl
      | some found =>
          obtain ⟨ht, -, gap, hgap, heq⟩ := readTarget_eq_some hread
          have hcolon := head?_dropWhile_target ht hgap found.2
          rw [← heq, sectionText_cons, trimStart_of_stops (hends.1.append_right hends.2.ne_nil _),
            List.dropWhile_append] at hcolon
          split at hcolon
          · cases hmore : argumentList a.arguments ++
                (rest.map fun a => a.render.toList).flatMap fun s => ", ".toList ++ s with
            | nil =>
                rw [hmore] at hcolon
                cases hcolon
            | cons c more =>
                have hc := behind_name a.arguments _ (by rw [hmore]; rfl : _ = some c)
                rw [hmore, List.dropWhile_cons_of_neg] at hcolon
                · cases hcolon
                  simp at hc
                · rcases hc with rfl | rfl <;> decide
          · rename_i hother
            have hmem : ':' ∈ a.name.toList := by
              apply (List.dropWhile_suffix fun c => isWordChar c || isBlank c).mem
              rw [List.isEmpty_iff] at hother
              rw [List.head?_append_of_ne_nil _ hother] at hcolon
              exact List.mem_of_mem_head? hcolon
            exact absurd hmem (hname.wording.notMem (isTypeChar_foreign (by decide)))

theorem sectionText_starts {attributes : List Attribute} (hne : attributes ≠ [])
    (h : ∀ a ∈ attributes, WrittenAttribute a) {gap : List Char} (hgap : allBlank gap = true) :
    gap ++ sectionText attributes ≠ [] ∧ (gap ++ sectionText attributes).head? ≠ some ':' := by
  cases attributes with
  | nil => exact absurd rfl hne
  | cons a rest =>
      have hname := (h a List.mem_cons_self).name
      have hends := hname.ends rfl
      have hcolon : Stops (· == ':') (gap ++ sectionText (a :: rest)) := by
        rw [sectionText_cons]
        refine stops_append (fun c hc => ?_) (Stops.append_right (fun c hc => ?_) hends.2.ne_nil _)
        · exact beq_false_of_ne (ne_of_isBlank (List.all_eq_true.1 hgap c (List.mem_of_mem_head? hc))
            (by decide))
        · apply beq_false_of_ne
          rintro rfl
          exact hname.wording.notMem (isTypeChar_foreign (by decide)) (List.mem_of_mem_head? hc)
      refine ⟨?_, fun hhead => absurd (hcolon ':' hhead) (by decide)⟩
      rw [sectionText_cons]
      simp [hends.2.ne_nil]

theorem commaList_sectionText {attributes : List Attribute} (hne : attributes ≠ [])
    (h : ∀ a ∈ attributes, WrittenAttribute a) {gap : List Char} (hgap : allBlank gap = true) :
    commaList (gap ++ sectionText attributes) = attributes.map fun a => a.render.toList := by
  refine commaList_joined (fun s hs => ?_) (by simpa using hne) hgap
  obtain ⟨a, ha, rfl⟩ := List.mem_map.1 hs
  exact (h a ha).listed

/-- The attributes of a list come back one by one. -/
theorem map_readAttribute_render {attributes : List Attribute}
    (h : ∀ a ∈ attributes, WrittenAttribute a) :
    (attributes.map fun a => a.render.toList).map readAttribute = attributes ↔
      ∀ a ∈ attributes, KeptAttribute a := by
  rw [List.map_map]
  constructor
  · intro heq a ha
    have hid : attributes.map (readAttribute ∘ fun a => a.render.toList) = attributes.map id := by
      rw [heq, List.map_id]
    exact (readAttribute_render (h a ha)).1 (List.map_inj_left.1 hid a ha)
  · intro hkept
    have hread : ∀ a ∈ attributes, (readAttribute ∘ fun a => a.render.toList) a = id a :=
      fun a ha => (readAttribute_render (h a ha)).2 (hkept a ha)
    rw [List.map_congr_left hread, List.map_id]

section Targeted

variable {target : String} (ht : target ∈ targets) {before gap : List Char}
  (hbefore : allBlank before = true) (hgap : allBlank gap = true)
include ht hbefore hgap

theorem targetText_listed {s : List Char} (hs : Listed s) :
    Listed (targetText target before gap ++ s) := by
  have hword := IsIdentifier.of_isWord (targets_isWord ht)
  have hbalanced : Balanced InQuotes false (targetText target before gap) :=
    hword.balanced.append ((balanced_blanks hbefore).append
      (.code (by decide) nofun (balanced_blanks hgap)))
  refine ⟨hbalanced.unsplit.append hs.unsplit, ?_, endsIn_append hs.ends _⟩
  rw [targetText_append]
  exact hword.ends.1.append_right hword.ne_nil _

/-- Read with the target in front of it, an attribute is another one. -/
theorem readAttribute_targetText_ne {a : Attribute} (ha : WrittenAttribute a) :
    readAttribute (targetText target before gap ++ a.render.toList) ≠ a := by
  intro heq
  have hparen : '(' ∉ a.name.toList := by
    rw [← heq]
    exact paren_notMem_readAttribute _
  have hfront : '(' ∉ targetText target before gap := by
    intro hmem
    simp only [targetText, List.mem_append, List.mem_cons] at hmem
    rcases hmem with hmem | hmem | hmem | hmem
    · exact (IsIdentifier.of_isWord (targets_isWord ht)).notMem (isWordChar_sign (by decide)) hmem
    · exact notMem_of_allBlank (by decide) hbefore hmem
    · cases hmem
    · exact notMem_of_allBlank (by decide) hgap hmem
  have hname : Stops isBlank (targetText target before gap ++ a.name.toList) := by
    have hword := IsIdentifier.of_isWord (targets_isWord ht)
    rw [targetText_append]
    exact hword.ends.1.append_right hword.ne_nil _
  rw [render_toList, ← List.append_assoc,
    readAttribute_argumentList (by simp [hfront, hparen]) hname
      (endsIn_append (ha.name.ends rfl).2 _) ha.arguments] at heq
  have hlength := congrArg (fun a => a.name.toList.length) heq
  simp only [String.toList_ofList, targetText, List.length_append, List.length_cons] at hlength
  omega

/-- With the target in front of them, written attributes do not come back as a list. -/
theorem map_readAttribute_targetText_ne {attributes : List Attribute} (hne : attributes ≠ [])
    (h : ∀ a ∈ attributes, WrittenAttribute a) :
    (commaList (targetText target before gap ++ sectionText attributes)).map readAttribute ≠
      attributes := by
  cases attributes with
  | nil => exact absurd rfl hne
  | cons a rest =>
      have ha := h a List.mem_cons_self
      have htext : targetText target before gap ++ sectionText (a :: rest) =
          joined ((targetText target before gap ++ a.render.toList) ::
            rest.map fun a => a.render.toList) := by
        rw [sectionText, List.map_cons, joined_cons, joined_cons, List.append_assoc]
      have hlist : ∀ s ∈ (targetText target before gap ++ a.render.toList) ::
          rest.map fun a => a.render.toList, Listed s := by
        intro s hs
        rcases List.mem_cons.1 hs with rfl | hs
        · exact targetText_listed ht hbefore hgap ha.listed
        · obtain ⟨b, hb, rfl⟩ := List.mem_map.1 hs
          exact (h b (List.mem_cons_of_mem _ hb)).listed
      have hcomma := commaList_joined hlist (List.cons_ne_nil _ _)
        (show allBlank [] = true from rfl)
      rw [List.nil_append] at hcomma
      rw [htext, hcomma, List.map_cons]
      intro heq
      exact readAttribute_targetText_ne ht hbefore hgap ha (List.cons.inj heq).1

end Targeted

/-- Attributes come back from the text of a section if and only if each of them is one that is
kept.  Behind a target the section has to be on one line as well. -/
theorem readAttributes_sectionText {attributes : List Attribute} (hne : attributes ≠ [])
    (h : ∀ a ∈ attributes, WrittenAttribute a) :
    (readAttributes (sectionText attributes) = attributes ↔ ∀ a ∈ attributes, KeptAttribute a) ∧
    ∀ target ∈ targets, target ≠ "assembly" → target ≠ "module" →
      ∀ before gap, allBlank before = true → allBlank gap = true →
        (readAttributes (targetText target before gap ++ sectionText attributes) = attributes ↔
          (∀ a ∈ attributes, KeptAttribute a) ∧ '\n' ∉ (gap ++ sectionText attributes).tail) := by
  constructor
  · rw [readAttributes, readTarget_sectionText h]
    have hcomma := commaList_sectionText hne h (show allBlank [] = true from rfl)
    rw [List.nil_append] at hcomma
    simp only
    rw [hcomma]
    exact map_readAttribute_render h
  · intro target ht hassembly hmodule before gap hbefore hgap
    have hbody := sectionText_starts hne h hgap
    have hother := map_readAttribute_targetText_ne ht hbefore hgap hne h
    rw [readAttributes, targetText_append, readTarget_pad ht hbefore hbody.1 hbody.2]
    by_cases hline : '\n' ∈ (gap ++ sectionText attributes).tail
    · rw [if_pos hline, ← targetText_append]
      exact iff_of_false hother fun hkept => hkept.2 hline
    · rw [if_neg hline]
      simp only
      rw [if_neg (by simp [hassembly, hmodule]), commaList_sectionText hne h hgap,
        map_readAttribute_render h, and_iff_left hline]

/-- What stands behind a name is told by its sign. -/
theorem trimStart_behind_name {v name gap rest : List Char} {c : Char}
    (hs : unmarked v = name ++ (gap ++ c :: rest)) (hname : IsIdentifier name)
    (hgap : allBlank gap = true) (hc : c = '=' ∨ c = ':') :
    trimStart ((unmarked v).dropWhile isWordChar) = c :: rest := by
  have hsign : Stops isWordChar (c :: rest) := by
    rcases hc with rfl | rfl <;> exact stops_cons (isWordChar_sign (by decide)) _
  rw [hs, dropWhile_append_stops hname.inside (stops_gap hgap hsign),
    trimStart_pad hgap (stops_isBlank_sign hc)]

/-- An array over two lines. -/
def lineSample : Attribute := ⟨"A", [("N", "new[] \x7b\n1 \x7d")]⟩

def qualifiedSample : Attribute := ⟨"A", [("", "global::B.C")]⟩

theorem written_lineSample : WrittenAttribute lineSample := by
  refine ⟨.simple (by decide) (by decide), fun argument hmem => ?_⟩
  rw [List.mem_singleton.1 hmem]
  refine .named (by decide)
    ⟨stops_cons (by decide) _, ⟨"new[] \x7b\n1 ".toList, '\x7d', rfl, by decide⟩, ?_⟩
  exact (Balanced.run (s := "new".toList) (by decide)).append
    (.brackets (t := []) (by decide) .nil (.code (by decide) nofun
      (.brackets (t := "\n1 ".toList) (by decide) (.run (by decide)) .nil)))

theorem written_qualifiedSample : WrittenAttribute qualifiedSample := by
  refine ⟨.simple (by decide) (by decide), fun argument hmem => ?_⟩
  rw [List.mem_singleton.1 hmem]
  refine .positional
    ⟨stops_cons (by decide) _, ⟨"global::B.".toList, 'C', rfl, by decide⟩, .run (by decide)⟩ ?_
  rintro ⟨name, gap, c, rest, hs, hname, hgap, hc, hsingle⟩
  have hbehind := trimStart_behind_name hs hname hgap hc
  rw [show trimStart ((unmarked "global::B.C".toList).dropWhile isWordChar) = "::B.C".toList
    by decide] at hbehind
  cases hbehind
  exact hsingle rfl

/-- A value on two lines loses its name, and the front of a qualified name is taken for one.
In a verbatim string a backslash in front of the last quote hides the comma. -/
theorem readAttributes_sectionText_lineBreak :
    WrittenAttribute lineSample ∧
      readAttributes (sectionText [lineSample]) = [⟨"A", [("", "N = new[] \x7b\n1 \x7d")]⟩] ∧
      WrittenAttribute qualifiedSample ∧
      readAttributes (sectionText [qualifiedSample]) = [⟨"A", [("global", ":B.C")]⟩] ∧
      readAttributes "A(@\"C:\\\", 1)".toList = [⟨"A", [("", "@\"C:\\\", 1")]⟩] :=
  ⟨written_lineSample, by decide, written_qualifiedSample, by decide,
    by decide⟩

def tagSample : List Attribute :=
  [⟨"N.Range<int, T>", [("", "typeof(int)"), ("Max", "F(\"a, (\", 1)")]⟩, ⟨"Tag", []⟩]

theorem type_tagSample : TypeText [] .name "N.Range<int, T>".toList :=
  have hint : TypeText [] .type "int".toList := .named (.simple (by decide) (by decide))
  have hparameter : TypeText [] .type "T".toList :=
    .named (.simple (by decide) (by decide))
  have harguments : TypeText [] (.list false) "int, T".toList :=
    @TypeText.more [] false "int".toList _ [] [] rfl hint rfl
      (@TypeText.last [] false "T".toList [' '] [] rfl hparameter rfl)
  @TypeText.member [] "N".toList _ [] [] (.simple (by decide) (by decide)) rfl rfl
    (@TypeText.generic [] "Range".toList [] _ (by decide) (by decide) rfl harguments)

theorem written_tagSample : ∀ a ∈ tagSample, WrittenAttribute a := by
  have htypeof : WrittenArgument ("", "typeof(int)") := by
    refine .positional ⟨stops_cons (by decide) _, ⟨"typeof(int".toList, ')', rfl, by decide⟩, ?_⟩ ?_
    · exact (Balanced.run (s := "typeof".toList) (by decide)).append
        (.brackets (t := "int".toList) (by decide) (.run (by decide)) .nil)
    · rintro ⟨name, gap, c, rest, hs, hname, hgap, hc, -⟩
      have hbehind := trimStart_behind_name hs hname hgap hc
      rw [show trimStart ((unmarked "typeof(int)".toList).dropWhile isWordChar) = "(int)".toList
        by decide] at hbehind
      cases hbehind
      exact absurd hc (by decide)
  have hmax : WrittenArgument ("Max", "F(\"a, (\", 1)") := by
    refine .named (by decide)
      ⟨stops_cons (by decide) _, ⟨"F(\"a, (\", 1".toList, ')', rfl, by decide⟩, ?_⟩
    have hliteral : InQuotes "\"a, (\"".toList := .quotes (s := "a, (".toList) (.inl rfl)
      (.plain (by decide) (by decide) (.plain (by decide) (by decide)
        (.plain (by decide) (by decide) (.plain (by decide) (by decide) .nil))))
    have hcomma : Balanced InQuotes true ", 1".toList :=
      .code (by decide) (fun _ => rfl) (.run (by decide))
    exact (Balanced.run (s := "F".toList) (by decide)).append
      (.brackets (t := "\"a, (\", 1".toList) (by decide) (.literal hliteral hcomma) .nil)
  intro a ha
  simp only [tagSample, List.mem_cons, List.not_mem_nil, or_false] at ha
  rcases ha with rfl | rfl
  · refine ⟨type_tagSample, fun argument hmem => ?_⟩
    simp only [List.mem_cons, List.not_mem_nil, or_false] at hmem
    rcases hmem with rfl | rfl
    · exact htypeof
    · exact hmax
  · exact ⟨.simple (by decide) (by decide), nofun⟩

theorem kept_tagSample : ∀ a ∈ tagSample, KeptAttribute a := by
  have htypeof : KeptArgument ("", "typeof(int)") := by
    rw [KeptArgument, if_pos rfl]
    rintro ⟨name, gap, rest, hs, hname, hgap, -⟩
    have hbehind := trimStart_behind_name hs (.of_isWord hname) hgap (.inr rfl)
    rw [show trimStart ((unmarked "typeof(int)".toList).dropWhile isWordChar) = "(int)".toList
      by decide] at hbehind
    cases hbehind
  have hmax : KeptArgument ("Max", "F(\"a, (\", 1)") := by
    rw [KeptArgument, if_neg (by decide)]
    exact ⟨⟨by decide, by decide⟩, by decide⟩
  intro a ha
  simp only [tagSample, List.mem_cons, List.not_mem_nil, or_false] at ha
  rcases ha with rfl | rfl
  · refine ⟨by decide, fun argument hmem => ?_⟩
    simp only [List.mem_cons, List.not_mem_nil, or_false] at hmem
    rcases hmem with rfl | rfl
    · exact htypeof
    · exact hmax
  · exact ⟨by decide, nofun⟩

theorem readAttributes_sectionText_tagSample :
    readAttributes "N.Range<int, T>(typeof(int), Max = F(\"a, (\", 1)), Tag".toList = tagSample ∧
      readAttributes "field: N.Range<int, T>(typeof(int), Max = F(\"a, (\", 1)), Tag".toList =
        tagSample := by
  have hread := readAttributes_sectionText (List.cons_ne_nil _ _) written_tagSample
  have htarget := hread.2 "field" (by decide) (by decide) (by decide) [] [' '] rfl rfl
  exact ⟨hread.1.2 kept_tagSample, htarget.2 ⟨kept_tagSample, by decide⟩⟩

end Declaration
end DocPages

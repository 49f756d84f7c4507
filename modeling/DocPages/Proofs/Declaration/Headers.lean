/-
What the printed headers are read as.

The types, parameters and names of a header are parts that can be put together; every
header is a phrase of such parts.  From that each header is read back: the name of a
method, the names of a field, the kind, name and bases of a type, and the attributes of
a section.
-/
import DocPages.Proofs.Declaration.Phrase

namespace DocPages
namespace Declaration

open Text

/-! ## Ends of texts -/

/-- The last character is of a class. -/
def EndsIn (p : Char → Bool) (s : List Char) : Prop := ∃ before c, s = before ++ [c] ∧ p c = true

theorem endsIn_append {p : Char → Bool} {s : List Char} (h : EndsIn p s) (r : List Char) :
    EndsIn p (r ++ s) := by
  obtain ⟨before, c, rfl, hc⟩ := h
  exact ⟨r ++ before, c, by rw [List.append_assoc], hc⟩

theorem endsIn_cons {p : Char → Bool} {s : List Char} (h : EndsIn p s) (c : Char) :
    EndsIn p (c :: s) :=
  endsIn_append h [c]

theorem EndsIn.mono {p q : Char → Bool} {s : List Char} (h : EndsIn p s)
    (hpq : ∀ c, p c = true → q c = true) : EndsIn q s := by
  obtain ⟨before, c, rfl, hc⟩ := h
  exact ⟨before, c, rfl, hpq c hc⟩

theorem endsIn_of_forall {p : Char → Bool} {s : List Char} (hne : s ≠ [])
    (h : ∀ c ∈ s, p c = true) : EndsIn p s :=
  ⟨s.dropLast, s.getLast hne, (List.dropLast_concat_getLast hne).symm, h _ (List.getLast_mem hne)⟩

theorem EndsIn.ne_nil {p : Char → Bool} {s : List Char} (h : EndsIn p s) : s ≠ [] := by
  obtain ⟨before, c, rfl, -⟩ := h
  simp

abbrev Trimmed (s : List Char) : Prop := EndsIn (fun c => !isBlank c) s

theorem trimEnd_of_trimmed {s : List Char} (h : Trimmed s) : trimEnd s = s := by
  obtain ⟨before, c, rfl, hc⟩ := h
  apply trimEnd_of_stops
  rw [List.reverse_append]
  exact stops_cons (by simpa using hc) _

theorem trimEnd_pad {s gap : List Char} (h : Trimmed s) (hgap : allBlank gap = true) :
    trimEnd (s ++ gap) = s := by
  have hrun : ∀ c ∈ gap.reverse, isBlank c = true := fun c hc =>
    List.all_eq_true.1 hgap c (List.mem_reverse.1 hc)
  obtain ⟨before, c, rfl, hc⟩ := h
  have hstops : Stops isBlank (before ++ [c]).reverse := by
    rw [List.reverse_append]
    exact stops_cons (by simpa using hc) _
  rw [trimEnd, List.reverse_append, dropWhile_append_stops hrun hstops, List.reverse_reverse]

theorem trimEnd_append {s : List Char} (h : Trimmed s) (t : List Char) :
    trimEnd (s ++ t) = s ++ trimEnd t := by
  obtain ⟨before, c, rfl, hc⟩ := h
  rw [List.append_assoc, List.append_assoc, List.singleton_append, List.singleton_append,
    trimEnd_append_cons (by simpa using hc)]

theorem trimEnd_space {s : List Char} (h : Trimmed s) : trimEnd (s ++ [' ']) = s :=
  trimEnd_pad h rfl

theorem getLast?_of_endsIn {p : Char → Bool} {s : List Char} (h : EndsIn p s) {c : Char}
    (hc : p c = false) : s.getLast? ≠ some c := by
  obtain ⟨before, d, rfl, hd⟩ := h
  rw [List.getLast?_concat]
  rintro ⟨rfl⟩
  rw [hd] at hc
  cases hc

/-! ## Parts of headers -/

/-- A part starts with a letter, does not end with a blank, and stands before any phrase
that does not go on with its last word. -/
structure Part (s : List Char) : Prop where
  starts : s.head?.any isIdentStart = true
  ends : Trimmed s
  leads {marks r : List Char} : typeMarks ⊆ marks → Stops isIdentChar r →
    Phrase reserved marks r → Phrase reserved marks (s ++ r)

namespace Part

variable {s t : List Char}

theorem exists_cons (h : Part s) : ∃ c rest, s = c :: rest ∧ isIdentStart c = true := by
  cases s with
  | nil => exact absurd h.starts (by decide)
  | cons c rest => exact ⟨c, rest, rfl, h.starts⟩

theorem stops (h : Part s) {p : Char → Bool} (hp : ∀ c, isIdentStart c = true → p c = false)
    (r : List Char) : Stops p (s ++ r) := by
  obtain ⟨c, rest, rfl, hc⟩ := h.exists_cons
  exact stops_cons (hp c hc) _

theorem stops_space (h : Part s) (r : List Char) : Stops (· == ' ') (s ++ r) :=
  h.stops (fun _ hc => beq_of_isIdentStart hc rfl) r

theorem phrase (h : Part s) : Phrase reserved typeMarks s := by
  have := h.leads (List.Subset.refl _) (stops_nil _) .nil
  rwa [List.append_nil] at this

theorem of_name (name : Name) : Part name.chars where
  starts := name.word.starts
  ends := endsIn_of_forall name.word.ne_nil fun c hc => by
    rw [not_isBlank_of_isIdentChar (name.word.inside c hc)]
    rfl
  leads _ hstop hp := .word name.word name.free hstop hp

/-- What is put behind a part decides how the whole ends. -/
theorem append (h : Part s) (ht : Trimmed t)
    (hleads : ∀ {marks r : List Char}, typeMarks ⊆ marks → Stops isIdentChar r →
      Phrase reserved marks r → Phrase reserved marks (s ++ (t ++ r))) : Part (s ++ t) where
  starts := by
    obtain ⟨c, rest, rfl, hc⟩ := h.exists_cons
    exact hc
  ends := endsIn_append ht s
  leads hm hstop hp := by
    rw [List.append_assoc]
    exact hleads hm hstop hp

theorem nullable (h : Part s) : Part (s ++ ['?']) := by
  refine h.append ⟨[], '?', rfl, by decide⟩ fun hm _ hp => ?_
  exact h.leads hm (stops_cons rfl _) (.mark (hm (by decide)) (by decide) hp)

theorem member (h : Part s) (ht : Part t) : Part (s ++ '.' :: t) := by
  refine h.append (endsIn_cons ht.ends _) fun hm hstop hp => ?_
  exact h.leads hm (stops_cons rfl _) (.mark (hm (by decide)) (by decide) (ht.leads hm hstop hp))

theorem spaced (h : Part s) (ht : Part t) : Part (s ++ ' ' :: t) := by
  refine h.append (endsIn_cons ht.ends _) fun hm hstop hp => ?_
  exact h.leads hm (stops_cons rfl _) (.space (ht.stops_space _) (ht.leads hm hstop hp))

theorem bracketed (h : Part s) {opening closing : Char} (ho : opening ∈ typeMarks)
    (hb : (opening, closing) ∈ [('(', ')'), ('<', '>'), ('[', ']')])
    (ht : Phrase reserved listMarks t) : Part (s ++ opening :: (t ++ [closing])) := by
  have hopen := of_mark (bracket_marks hb).1
  have hclose : isBlank closing = false := by
    simp only [List.mem_cons, Prod.mk.injEq, List.not_mem_nil, or_false] at hb
    rcases hb with ⟨-, rfl⟩ | ⟨-, rfl⟩ | ⟨-, rfl⟩ <;> decide
  refine h.append ⟨opening :: t, closing, rfl, by simp [hclose]⟩ fun {marks r} hm _ hp => ?_
  have := Phrase.brackets (hm ho) hb ht hp
  rw [List.cons_append, List.append_assoc]
  exact h.leads hm (stops_cons hopen.2.1 _) this

end Part

/-! ## Lists of parts -/

theorem joined_cons (first : List Char) (rest : List (List Char)) :
    joined (first :: rest) = first ++ rest.flatMap fun s => ", ".toList ++ s := by
  induction rest generalizing first with
  | nil => simp [joined, List.intercalate]
  | cons s rest ih =>
      have := ih s
      rw [joined] at this ⊢
      rw [List.flatMap_cons, List.append_assoc, ← this]
      simp [List.intercalate]

theorem joined_leads {first : List Char} {rest : List (List Char)} (hfirst : Part first)
    (hrest : ∀ s ∈ rest, Part s) {marks r : List Char} (hm : listMarks ⊆ marks)
    (hstop : Stops isIdentChar r) (hr : Phrase reserved marks r) :
    Phrase reserved marks (joined (first :: rest) ++ r) := by
  have hm' : typeMarks ⊆ marks := fun c hc => hm (List.mem_cons_of_mem _ hc)
  rw [joined_cons, List.append_assoc]
  induction rest generalizing first with
  | nil => exact hfirst.leads hm' hstop hr
  | cons s rest ih =>
      have hs := hrest s List.mem_cons_self
      have := ih hs fun t ht => hrest t (List.mem_cons_of_mem _ ht)
      rw [List.flatMap_cons, List.append_assoc, List.append_assoc]
      exact hfirst.leads hm' (stops_cons rfl _)
        (.mark (hm (by decide)) (by decide) (.space (hs.stops_space _) this))

theorem joined_phrase {texts : List (List Char)} (h : ∀ s ∈ texts, Part s) :
    Phrase reserved listMarks (joined texts) := by
  cases texts with
  | nil => exact .nil
  | cons first rest =>
      have := joined_leads (h first List.mem_cons_self)
        (fun s hs => h s (List.mem_cons_of_mem _ hs)) (List.Subset.refl _) (stops_nil _) .nil
      rwa [List.append_nil] at this

/-! ## Types -/

theorem genericText_part (name : Name) {arguments : List (List Char)}
    (h : ∀ s ∈ arguments, Part s) : Part (genericText name arguments) := by
  rw [genericText]
  split
  · exact Part.of_name name
  · exact (Part.of_name name).bracketed (by decide) (by decide) (joined_phrase h)

theorem replicate_phrase (commas : Nat) :
    Phrase reserved listMarks (List.replicate commas ',') := by
  induction commas with
  | zero => exact .nil
  | succ commas ih => exact .mark (by decide) (by decide) ih

mutual
theorem TypeName.part : (t : TypeName) → Part t.text
  | .simple name arguments => by
      rw [TypeName.text]
      exact genericText_part name (typeTexts_part arguments)
  | .member outer name arguments => by
      rw [TypeName.text]
      exact outer.part.member (genericText_part name (typeTexts_part arguments))

theorem TypeExpr.part : (t : TypeExpr) → Part t.text
  | .named name => by
      rw [TypeExpr.text]
      exact name.part
  | .array element commas => by
      rw [TypeExpr.text]
      exact element.part.bracketed (by decide) (by decide) (replicate_phrase commas)
  | .nullable inner => by
      rw [TypeExpr.text]
      exact inner.part.nullable

theorem typeTexts_part : (ts : List TypeExpr) → ∀ s ∈ typeTexts ts, Part s
  | [] => by
      intro s hs
      cases hs
  | t :: rest => by
      intro s hs
      rw [typeTexts] at hs
      rcases List.mem_cons.1 hs with rfl | hs
      · exact t.part
      · exact typeTexts_part rest s hs
end

theorem propertyHeader_part (type : TypeExpr) (name : Name) : Part (propertyHeader type name) :=
  type.part.spaced (Part.of_name name)

theorem names_part (names : List Name) : ∀ s ∈ names.map (·.chars), Part s := by
  intro s hs
  obtain ⟨name, -, rfl⟩ := List.mem_map.1 hs
  exact Part.of_name name

theorem fieldHeader_eq (type : TypeExpr) (first : Name) (more : List Name) :
    fieldHeader type (first :: more) =
      joined (propertyHeader type first :: more.map (·.chars)) := by
  rw [fieldHeader, List.map_cons, joined_cons, joined_cons, propertyHeader, typedText, typedText,
    List.append_assoc]
  rfl

theorem fieldHeader_phrase (type : TypeExpr) (first : Name) (more : List Name) :
    Phrase reserved listMarks (fieldHeader type (first :: more)) := by
  rw [fieldHeader_eq]
  apply joined_phrase
  intro s hs
  rcases List.mem_cons.1 hs with rfl | hs
  · exact propertyHeader_part type first
  · exact names_part more s hs

theorem methodHeader_eq (type : TypeExpr) (name : Name) (parameters : List (TypeExpr × Name)) :
    methodHeader type name parameters =
      propertyHeader type name ++ '(' :: (joined (parameters.map parameterText) ++ [')']) := by
  rw [methodHeader, propertyHeader, typedText, typedText, List.append_assoc]
  rfl

theorem methodHeader_phrase (type : TypeExpr) (name : Name) (parameters : List (TypeExpr × Name)) :
    Phrase reserved ('(' :: typeMarks) (methodHeader type name parameters) := by
  have hparameters : ∀ s ∈ parameters.map parameterText, Part s := by
    intro s hs
    obtain ⟨parameter, -, rfl⟩ := List.mem_map.1 hs
    exact propertyHeader_part parameter.1 parameter.2
  have hlist : Phrase reserved ('(' :: typeMarks)
      ('(' :: (joined (parameters.map parameterText) ++ [')'])) :=
    .brackets List.mem_cons_self (by decide) (joined_phrase hparameters) .nil
  rw [methodHeader_eq]
  exact (propertyHeader_part type name).leads (List.subset_cons_self _ _) (stops_cons rfl _) hlist

/-! ## Reading members -/

theorem findAssignmentFrom_eq_none {s : List Char} (h : '=' ∉ s) (prev : Char) (depth : Nat)
    (quoted : Bool) : findAssignmentFrom prev depth quoted s = none := by
  induction s generalizing prev depth quoted with
  | nil => rfl
  | cons c s ih =>
      rw [List.mem_cons, not_or] at h
      have hc : ¬ (c = '=' ∧ depth = 0 ∧ s.head?.getD ' ' ≠ '=' ∧
          !"=!<>".toList.contains prev) := fun e => h.1 e.1.symm
      rw [findAssignmentFrom]
      simp only [ih h.2, Option.map_none, if_neg hc, ite_self]

theorem findAssignment_eq_none {s : List Char} (h : '=' ∉ s) : findAssignment s = none :=
  findAssignmentFrom_eq_none h ' ' 0 false

theorem stops_at_of_isWord {s : List Char} (h : IsWord s) : Stops (· == '@') s := by
  obtain ⟨c, rest, rfl, hc, -⟩ := h.exists_cons
  exact stops_cons (p := (· == '@')) (beq_of_isIdentStart hc rfl) _

/-- A name after a space is the last identifier. -/
theorem lastIdentifier_spaced (s : List Char) {w : List Char} (hw : IsWord w) :
    lastIdentifier (s ++ ' ' :: w) = some w := by
  have hdrop : ([] ++ w).dropWhile (· == '@') = w :=
    dropWhile_append_stops (by simp) (stops_at_of_isWord hw)
  rw [lastIdentifier, identifiers_append (stops_cons rfl _), identifiers_other rfl (by decide),
    identifiers_isWord hw, List.getLast?_concat, Option.map_some]
  exact congrArg some hdrop

theorem spaced_endsIn (s : List Char) {w : List Char} (hw : IsWord w) :
    EndsIn isIdentChar (s ++ ' ' :: w) :=
  endsIn_append (endsIn_cons (endsIn_of_forall hw.ne_nil hw.inside) _) _

theorem trimmed_of_ident {s : List Char} (h : EndsIn isIdentChar s) : Trimmed s :=
  h.mono fun c hc => by rw [not_isBlank_of_isIdentChar hc]; rfl

theorem declaratorName_spaced {s : List Char} (hs : '=' ∉ s) {w : List Char} (hw : IsWord w) :
    declaratorName (s ++ ' ' :: w) = some w := by
  have hends := spaced_endsIn s hw
  have hassign : '=' ∉ s ++ ' ' :: w := by
    have hn : '=' ∉ w := fun hmem => ne_of_isIdentChar (hw.inside _ hmem) (by decide) rfl
    simp [hs, hn]
  have hstrip : stripEnd? [']'] (s ++ ' ' :: w) = none := by
    obtain ⟨before, c, he, hc⟩ := hends
    rw [he, stripEnd?, List.reverse_append, List.reverse_singleton, List.reverse_singleton,
      List.singleton_append, stripStart?_cons_ne (ne_of_isIdentChar hc rfl).symm]
    rfl
  rw [declaratorName, beforeAssignment, findAssignment_eq_none hassign, Option.map_none,
    Option.getD_none, trimEnd_of_trimmed (trimmed_of_ident hends), hstrip]
  exact lastIdentifier_spaced s hw

theorem fieldNames_fieldHeader (type : TypeExpr) (first : Name) (more : List Name) :
    fieldNames (fieldHeader type (first :: more)) = (first :: more).map (·.chars) := by
  have hfirst : declaratorName (propertyHeader type first) = some first.chars :=
    declaratorName_spaced (type.part.phrase.notMem rfl (by decide) (by decide)) first.word
  have hmore : ((more.map (·.chars)).map (' ' :: ·)).filterMap declaratorName =
      more.map (·.chars) := by
    induction more with
    | nil => rfl
    | cons name more ih =>
        have hname : declaratorName (' ' :: name.chars) = some name.chars :=
          declaratorName_spaced (s := []) List.not_mem_nil name.word
        rw [List.map_cons, List.map_cons, List.filterMap_cons_some hname, ih]
  rw [fieldHeader_eq, fieldNames, joined_cons,
    splitTop_joined (propertyHeader_part type first).phrase.unsplit fun s hs =>
      (names_part more s hs).phrase.unsplit,
    List.filterMap_cons_some hfirst, hmore, List.map_cons]

/-- Without type parameters at its end, the text in front of the parameters is read as it is. -/
theorem methodName_plain {header head : List Char} (typeName : List Char)
    (hhead : trimEnd (header.takeWhile (· ≠ '(')) = head) (htilde : '~' ∉ head)
    (hlast : head.getLast? ≠ some '>') :
    methodName header typeName =
      if hasWord "operator" head then none
      else (lastIdentifier head).filter fun name => name ≠ typeName ∧ name ≠ "this".toList := by
  have hgeneric : dropGeneric head = head := by
    rw [dropGeneric, if_neg]
    simpa using hlast
  rw [methodName, hhead]
  simp only [List.contains_eq_mem, htilde, decide_false, Bool.false_or, hgeneric]

theorem methodName_methodHeader (type : TypeExpr) (name : Name)
    (parameters : List (TypeExpr × Name)) {typeName : List Char} (h : typeName ≠ name.chars) :
    methodName (methodHeader type name parameters) typeName = some name.chars := by
  have hpart := propertyHeader_part type name
  have hends : EndsIn isIdentChar (propertyHeader type name) := spaced_endsIn type.text name.word
  have hparen : ∀ c ∈ propertyHeader type name, decide (c ≠ '(') = true := by
    intro c hc
    rw [decide_eq_true_eq]
    rintro rfl
    exact hpart.phrase.notMem rfl (by decide) (by decide) hc
  have hhead : trimEnd ((methodHeader type name parameters).takeWhile (· ≠ '(')) =
      propertyHeader type name := by
    rw [methodHeader_eq, takeWhile_append_stops hparen (stops_cons rfl _)]
    exact trimEnd_of_trimmed (trimmed_of_ident hends)
  have htilde : '~' ∉ propertyHeader type name :=
    hpart.phrase.notMem rfl (by decide) (by decide)
  have hthis : name.chars ≠ "this".toList := by
    intro e
    exact name.free (e ▸ by decide)
  rw [methodName_plain typeName hhead htilde (getLast?_of_endsIn hends rfl),
    hpart.phrase.not_hasWord "operator" (by decide), if_neg Bool.false_ne_true, propertyHeader,
    typedText, lastIdentifier_spaced _ name.word, Option.filter_some,
    if_pos (decide_eq_true ⟨h.symm, hthis⟩)]

/-! ## Reading properties -/

theorem occurs_cons_iff {mark s : List Char} {c : Char} :
    occurs mark (c :: s) = true ↔ mark <+: c :: s ∨ occurs mark s = true := by
  rw [occurs, breakOn]
  split
  · rename_i after hafter
    simp [stripStart?_eq_some.1 hafter]
  · rename_i hnone
    have : ¬ mark <+: c :: s := by
      rintro ⟨r, hr⟩
      rw [stripStart?_eq_some.2 hr.symm] at hnone
      cases hnone
    simp [this, occurs]

theorem occurs_mark (mark s t : List Char) : occurs mark (s ++ (mark ++ t)) = true := by
  induction s with
  | nil =>
      cases mark with
      | nil => cases t <;> rfl
      | cons m mark => exact occurs_cons_iff.2 (.inl (List.prefix_append _ _))
  | cons c s ih => exact occurs_cons_iff.2 (.inr ih)

theorem occurs_this_mark {c : Char} (hc : c ≠ 't') (s : List Char) :
    occurs "this[".toList (c :: s) = true ↔ occurs "this[".toList s = true := by
  rw [occurs_cons_iff, or_iff_right]
  rintro ⟨r, hr⟩
  exact hc (List.cons.inj hr).1.symm

/-- The mark of an indexer is found at the end of a name in front of a bracket. -/
theorem occurs_this_run {run s : List Char} (hrun : ∀ c ∈ run, isIdentChar c = true)
    (hs : Stops isIdentChar s) :
    occurs "this[".toList (run ++ s) = true ↔
      ("this".toList <:+ run ∧ s.head? = some '[') ∨ occurs "this[".toList s = true := by
  induction run with
  | nil => simp
  | cons c run ih =>
      have hstart : "this[".toList <+: c :: (run ++ s) ↔
          "this".toList = c :: run ∧ s.head? = some '[' := by
        constructor
        · rintro ⟨r, hr⟩
          have hword : (c :: run ++ s).takeWhile isIdentChar = c :: run :=
            takeWhile_append_stops hrun hs
          rw [List.cons_append, ← hr] at hword
          have hthis : "this".toList = c :: run := hword
          rw [← List.cons_append, ← hthis] at hr
          have hr : "this".toList ++ '[' :: r = "this".toList ++ s := hr
          rw [← List.append_cancel_left hr]
          exact ⟨hthis, rfl⟩
        · rintro ⟨hthis, hhead⟩
          obtain ⟨r, rfl⟩ : ∃ r, s = '[' :: r := by
            cases s with
            | nil => cases hhead
            | cons d r => cases hhead; exact ⟨r, rfl⟩
          exact ⟨r, by rw [← List.cons_append, ← hthis]; rfl⟩
      -- The mark starts here if this is the last `this` of the run, and else further on.
      rw [List.cons_append, occurs_cons_iff, hstart, List.suffix_cons_iff,
        ih fun d hd => hrun d (List.mem_cons_of_mem _ hd)]
      grind

/-- Where the mark of an indexer occurs in a part: inside, or across its end. -/
def ThisIn (s : List Char) (inside atEnd : Bool) : Prop :=
  ∀ r, Stops isIdentChar r →
    (occurs "this[".toList (s ++ r) = true ↔
      inside = true ∨ (atEnd = true ∧ r.head? = some '[') ∨ occurs "this[".toList r = true)

theorem thisIn_name (name : Name) :
    ThisIn name.chars false ("this".toList.isSuffixOf name.chars) := by
  intro r hr
  rw [occurs_this_run name.word.inside hr, List.isSuffixOf_iff_suffix]
  simp

theorem occurs_replicate (commas : Nat) (r : List Char) :
    occurs "this[".toList (List.replicate commas ',' ++ ']' :: r) = true ↔
      occurs "this[".toList r = true := by
  induction commas with
  | zero => exact occurs_this_mark (by decide) r
  | succ commas ih =>
      rw [List.replicate_succ, List.cons_append, occurs_this_mark (by decide), ih]

theorem thisIn_member {outer s : List Char} {inOuter endsOuter inside atEnd : Bool}
    (houter : ThisIn outer inOuter endsOuter) (hs : ThisIn s inside atEnd) :
    ThisIn (outer ++ '.' :: s) (inOuter || inside) atEnd := by
  intro r hr
  rw [List.append_assoc, List.cons_append, houter _ (stops_cons rfl _),
    occurs_this_mark (by decide), hs r hr]
  simp [or_assoc]

/-- The comma or bracket after each argument keeps the mark from reaching across. -/
theorem stops_arguments (more : List (List Char)) {r : List Char} (hr : Stops isIdentChar r)
    (hb : r.head? ≠ some '[') :
    Stops isIdentChar ((more.flatMap fun s => ", ".toList ++ s) ++ r) ∧
      ((more.flatMap fun s => ", ".toList ++ s) ++ r).head? ≠ some '[' := by
  cases more with
  | nil => exact ⟨hr, hb⟩
  | cons s more => exact ⟨stops_cons rfl _, by simp⟩

theorem thisIn_generic (name : Name) {first : List Char} {more : List (List Char)}
    {inFirst endsFirst inMore : Bool} (hfirst : ThisIn first inFirst endsFirst)
    (hmore : ∀ r, Stops isIdentChar r → r.head? ≠ some '[' →
      (occurs "this[".toList ((more.flatMap fun s => ", ".toList ++ s) ++ r) = true ↔
        inMore = true ∨ occurs "this[".toList r = true)) :
    ThisIn (genericText name (first :: more)) (inFirst || inMore) false := by
  intro r hr
  have hclose : Stops isIdentChar ('>' :: r) ∧ ('>' :: r).head? ≠ some '[' :=
    ⟨stops_cons rfl _, by simp⟩
  have hargs := stops_arguments more hclose.1 hclose.2
  have htext : genericText name (first :: more) ++ r =
      name.chars ++ '<' :: (first ++ ((more.flatMap fun s => ", ".toList ++ s) ++ '>' :: r)) := by
    rw [genericText, joined_cons]
    simp
  rw [htext, thisIn_name name _ (stops_cons rfl _), occurs_this_mark (by decide),
    hfirst _ hargs.1, hmore _ hclose.1 hclose.2, occurs_this_mark (by decide)]
  simp only [hargs.2, List.head?_cons, Option.some.injEq, Char.reduceEq, and_false, false_or,
    Bool.or_eq_true, or_assoc, Bool.false_eq_true, false_and]

mutual
theorem TypeName.thisIn : (t : TypeName) → ThisIn t.text t.hasThisArray t.endsInThis
  | .simple name [] => by
      have := thisIn_name name
      rwa [TypeName.text, typeTexts, TypeName.hasThisArray, anyThisArray, TypeName.endsInThis]
  | .simple name (t :: rest) => by
      have := thisIn_generic name t.thisIn (occurs_typeTexts rest)
      rwa [TypeName.text, typeTexts, TypeName.hasThisArray, anyThisArray]
  | .member outer name [] => by
      have := thisIn_member outer.thisIn (thisIn_name name)
      rwa [TypeName.text, typeTexts, TypeName.hasThisArray, anyThisArray, TypeName.endsInThis]
  | .member outer name (t :: rest) => by
      have := thisIn_member outer.thisIn (thisIn_generic name t.thisIn (occurs_typeTexts rest))
      rwa [TypeName.text, typeTexts, TypeName.hasThisArray, anyThisArray]

theorem TypeExpr.thisIn : (t : TypeExpr) → ThisIn t.text t.hasThisArray t.endsInThis
  | .named name => by
      rw [TypeExpr.text, TypeExpr.hasThisArray, TypeExpr.endsInThis]
      exact name.thisIn
  | .array element commas => by
      intro r hr
      have hend : (TypeExpr.array element commas).endsInThis = false := rfl
      rw [TypeExpr.text, TypeExpr.hasThisArray, hend, List.append_assoc, List.cons_append,
        List.append_assoc, List.singleton_append, element.thisIn _ (stops_cons rfl _),
        occurs_this_mark (by decide), occurs_replicate]
      grind
  | .nullable inner => by
      intro r hr
      have hend : (TypeExpr.nullable inner).endsInThis = false := rfl
      rw [TypeExpr.text, TypeExpr.hasThisArray, hend, List.append_assoc, List.singleton_append,
        inner.thisIn _ (stops_cons rfl _), occurs_this_mark (by decide)]
      simp

theorem occurs_typeTexts : (ts : List TypeExpr) → (r : List Char) → Stops isIdentChar r →
    r.head? ≠ some '[' →
    (occurs "this[".toList (((typeTexts ts).flatMap fun s => ", ".toList ++ s) ++ r) = true ↔
      anyThisArray ts = true ∨ occurs "this[".toList r = true)
  | [], r, _, _ => by simp [typeTexts, anyThisArray]
  | t :: rest, r, hr, hb => by
      have hargs := stops_arguments (typeTexts rest) hr hb
      have htext : ((typeTexts (t :: rest)).flatMap fun s => ", ".toList ++ s) ++ r =
          ',' :: ' ' ::
            (t.text ++ (((typeTexts rest).flatMap fun s => ", ".toList ++ s) ++ r)) := by
        rw [typeTexts]
        simp
      rw [htext, occurs_this_mark (by decide), occurs_this_mark (by decide), t.thisIn _ hargs.1,
        occurs_typeTexts rest r hr hb, anyThisArray]
      simp only [hargs.2, and_false, false_or, Bool.or_eq_true, or_assoc]
end

/-- A property is named unless its type takes the header for an indexer. -/
theorem propertyName_propertyHeader (type : TypeExpr) (name : Name) :
    propertyName (propertyHeader type name) =
      if type.hasThisArray then none else some name.chars := by
  have hname : ¬ occurs "this[".toList (' ' :: name.chars) = true := by
    have := thisIn_name name [] (stops_nil _)
    rw [List.append_nil] at this
    rw [occurs_this_mark (by decide), this]
    simp [occurs, breakOn]
  have hthis : occurs "this[".toList (propertyHeader type name) = type.hasThisArray := by
    rw [Bool.eq_iff_iff, propertyHeader, typedText, type.thisIn _ (stops_cons rfl _)]
    simp only [hname, List.head?_cons, Option.some.injEq, Char.reduceEq, and_false,
      Bool.false_eq_true, or_false]
  rw [propertyName, hthis, (propertyHeader_part type name).phrase.not_hasWord "event" (by decide),
    Bool.or_false]
  rw [propertyHeader, typedText, lastIdentifier_spaced _ name.word]

/-! ## Reading types -/

theorem readTypeName_name (name : Name) {s : List Char} (hs : Stops isIdentChar s) :
    readTypeName (' ' :: (name.chars ++ s)) = some (name.chars, s) := by
  have hpart := Part.of_name name
  obtain ⟨c, rest, hchars, hc⟩ := hpart.exists_cons
  have htrim : trimStart (' ' :: (name.chars ++ s)) = name.chars ++ s := by
    rw [trimStart_blank (by decide)]
    exact trimStart_of_stops
      (hpart.stops (fun d hd => not_isBlank_of_isIdentChar (isIdentChar_of_isIdentStart hd)) s)
  have hat : stripStart? ['@'] (name.chars ++ s) = none := by
    rw [hchars, List.cons_append]
    apply stripStart?_cons_ne
    rintro rfl
    exact absurd hc (by decide)
  have hstart : (name.chars ++ s).head?.any isIdentStart = true := by
    rw [hchars]
    exact hc
  have hblank : (' ' :: (name.chars ++ s)).head?.any isBlank = true := rfl
  simp only [readTypeName, hblank, htrim, hat, Option.getD_none, hstart, if_true,
    name.word.takeWhile_append hs, name.word.dropWhile_append hs]

theorem readTyped_name (kind : DeclKind) (word : String) (name : Name) {s : List Char}
    (hs : Stops isIdentChar s) :
    readTyped kind word none (word.toList ++ ' ' :: (name.chars ++ s)) =
      some (kind, name.chars, s) := by
  rw [readTyped, stripStart?_append]
  simp [readTypeName_name name hs]

/-- The kinds that have a word of their own in a type header. -/
def IsTypeKind (kind : DeclKind) : Prop :=
  kind.isContainer = true ∨ kind = .enumType

theorem word_isWord (kind : DeclKind) : IsWord kind.word.toList := by
  cases kind <;> exact ⟨by decide, List.all_eq_true.1 (by decide)⟩

theorem readType_name {kind : DeclKind} (hkind : IsTypeKind kind) (name : Name) {s : List Char}
    (hs : Stops isIdentChar s) :
    readType (kind.word.toList ++ ' ' :: (name.chars ++ s)) = some (kind, name.chars, s) := by
  have hread := readTyped_name kind kind.word name hs
  have hstop : Stops isIdentChar (' ' :: (name.chars ++ s)) := stops_cons rfl _
  have hother : ∀ (k : DeclKind) (w : String), (w.toList.all isIdentChar) = true →
      kind.word.toList ≠ w.toList →
      readTyped k w none (kind.word.toList ++ ' ' :: (name.chars ++ s)) = none := by
    intro k w hw hne
    exact readTyped_eq_none (fun _ => not_isBlank_of_isIdentChar) (word_isWord kind).inside hstop
      (List.all_eq_true.1 hw) (fun e => absurd e hne) k none
  rw [readType]
  cases kind with
  | classType => rw [show "class" = DeclKind.classType.word from rfl, hread]; rfl
  | structType =>
      rw [hother .classType "class" (by decide) (by decide),
        show "struct" = DeclKind.structType.word from rfl, hread]
      rfl
  | interfaceType =>
      rw [hother .classType "class" (by decide) (by decide),
        hother .structType "struct" (by decide) (by decide),
        show "interface" = DeclKind.interfaceType.word from rfl, hread]
      rfl
  | enumType =>
      rw [hother .classType "class" (by decide) (by decide),
        hother .structType "struct" (by decide) (by decide),
        hother .interfaceType "interface" (by decide) (by decide),
        show "enum" = DeclKind.enumType.word from rfl, hread]
      rfl
  | method => rcases hkind with h | h <;> cases h
  | property => rcases hkind with h | h <;> cases h
  | field => rcases hkind with h | h <;> cases h

theorem beforeWord_of_notMem {word : String} {s : List Char} (h : word.toList ∉ identifiers s) :
    beforeWord word s = s := by
  have hall : ∀ p ∈ pieces s, decide (p ≠ .name word.toList) = true := by
    intro p hp
    rw [decide_eq_true_eq]
    rintro rfl
    exact h (List.mem_filterMap.2 ⟨_, hp, rfl⟩)
  have htake : (pieces s ++ []).takeWhile (· ≠ Piece.name word.toList) = pieces s ++ [] :=
    List.takeWhile_append_of_pos hall
  rw [List.append_nil] at htake
  rw [beforeWord, htake, flatMap_chars_pieces]

/-- A text that a list between commas gives back. -/
structure Listed (s : List Char) : Prop where
  unsplit : Unsplit s
  starts : Stops isBlank s
  ends : Trimmed s

namespace Listed

variable {s : List Char}

theorem trim_pad (h : Listed s) {gap : List Char} (hgap : allBlank gap = true) :
    trim (gap ++ s) = s := by
  have hstart : trimStart (gap ++ s) = s :=
    dropWhile_append_stops (List.all_eq_true.1 hgap) h.starts
  rw [trim, hstart, trimEnd_of_trimmed h.ends]

theorem trim_eq (h : Listed s) : trim s = s :=
  h.trim_pad (show allBlank [] = true from rfl)

theorem isEmpty_eq (h : Listed s) : s.isEmpty = false := List.isEmpty_eq_false_iff.2 h.ends.ne_nil

end Listed

theorem map_trim_spaced {texts : List (List Char)} (h : ∀ s ∈ texts, Listed s) :
    (texts.map (' ' :: ·)).map trim = texts := by
  rw [List.map_map, List.map_congr_left, List.map_id]
  exact fun s hs => (h s hs).trim_pad (show allBlank [' '] = true from rfl)

theorem filter_listed {texts : List (List Char)} (h : ∀ s ∈ texts, Listed s) :
    texts.filter (! ·.isEmpty) = texts :=
  List.filter_eq_self.2 fun s hs => by rw [(h s hs).isEmpty_eq, Bool.not_false]

theorem Part.listed {s : List Char} (h : Part s) : Listed s where
  unsplit := h.phrase.unsplit
  starts := by
    obtain ⟨c, rest, rfl, hc⟩ := h.exists_cons
    exact stops_cons (not_isBlank_of_isIdentChar (isIdentChar_of_isIdentStart hc)) _
  ends := h.ends

theorem bases_part (bases : List TypeName) : ∀ s ∈ bases.map TypeName.text, Part s := by
  intro s hs
  obtain ⟨base, -, rfl⟩ := List.mem_map.1 hs
  exact base.part

theorem baseList_basesText (bases : List TypeName) :
    baseList (basesText bases) = bases.map TypeName.text := by
  cases bases with
  | nil => rfl
  | cons first more =>
      have hparts := bases_part (first :: more)
      rw [List.map_cons] at hparts
      have hfirst := hparts first.text List.mem_cons_self
      have hmore : ∀ s ∈ more.map TypeName.text, Part s :=
        fun s hs => hparts s (List.mem_cons_of_mem _ hs)
      have hspace : Phrase reserved typeMarks (' ' :: first.text) := by
        have := hfirst.stops_space []
        rw [List.append_nil] at this
        exact .space this hfirst.phrase
      have hlist : Phrase reserved listMarks
          (' ' :: joined (first.text :: more.map TypeName.text)) := by
        have := hfirst.stops_space ((more.map TypeName.text).flatMap fun s => ", ".toList ++ s)
        rw [← joined_cons] at this
        exact .space this (joined_phrase hparts)
      have hwhere : "where".toList ∉
          identifiers (' ' :: joined (first.text :: more.map TypeName.text)) := by
        intro hmem
        have := hlist.not_hasWord "where" (by decide)
        rw [hasWord, List.contains_iff_mem.2 hmem] at this
        cases this
      have htext : basesText (first :: more) =
          ' ' :: ':' :: ' ' :: joined (first.text :: more.map TypeName.text) := rfl
      have hskip : skipBracketed '(' ')'
          (skipBracketed '<' '>' (trimStart (basesText (first :: more)))) =
            ':' :: ' ' :: joined (first.text :: more.map TypeName.text) := by
        rw [htext, trimStart_blank (by decide), trimStart_of_stops (stops_cons (by decide) _)]
        rfl
      have hsplit : splitTop ',' (' ' :: joined (first.text :: more.map TypeName.text)) =
          (first.text :: more.map TypeName.text).map (' ' :: ·) := by
        rw [joined_cons]
        exact splitTop_joined hspace.unsplit fun s hs => (hmore s hs).phrase.unsplit
      rw [baseList, hskip]
      simp only [beforeWord_of_notMem hwhere, hsplit]
      rw [map_trim_spaced fun s hs => (hparts s hs).listed,
        filter_listed fun s hs => (hparts s hs).listed, List.map_cons]

theorem stops_basesText (bases : List TypeName) : Stops isIdentChar (basesText bases) := by
  cases bases with
  | nil => exact stops_nil _
  | cons first more => exact stops_cons rfl _

theorem readTypeHeader_name {kind : DeclKind} (hkind : IsTypeKind kind) (name : Name)
    {s : List Char} (hs : Stops isIdentChar s) :
    readTypeHeader (kind.word.toList ++ ' ' :: (name.chars ++ s)) =
      some ⟨kind, name.chars, baseList s⟩ := by
  have hread := readType_name hkind name hs
  have hfind : findTypeFrom none (kind.word.toList ++ ' ' :: (name.chars ++ s)) =
      some ([], kind, name.chars, s) := by
    cases hword : kind.word.toList with
    | nil => cases kind <;> cases hword
    | cons c rest =>
        rw [hword] at hread
        rw [List.cons_append] at hread ⊢
        rw [findTypeFrom, Option.any_none, if_neg (by decide), hread]
  rw [readTypeHeader, hfind]
  rfl

theorem readTypeHeader_typeHeader {kind : DeclKind} (hkind : IsTypeKind kind) (name : Name)
    (bases : List TypeName) :
    ∃ type, readTypeHeader (typeHeader kind name bases) = some type ∧ type.kind = kind ∧
      type.name = name.chars ∧ type.bases = bases.map TypeName.text :=
  ⟨_, readTypeHeader_name hkind name (stops_basesText bases), rfl, rfl, baseList_basesText bases⟩

theorem afterBracketFrom_inside {opening closing : Char} {inside : List Char}
    (ho : opening ∉ inside) (hc : closing ∉ inside) (s : List Char) :
    afterBracketFrom opening closing 1 (inside ++ closing :: s) =
      afterBracketFrom opening closing 1 (closing :: s) := by
  induction inside with
  | nil => rfl
  | cons c rest ih =>
      rw [List.mem_cons, not_or] at ho hc
      rw [List.cons_append, afterBracketFrom, if_neg (Ne.symm ho.1), if_neg (Ne.symm hc.1)]
      exact ih ho.2 hc.2

/-- A list of type parameters is skipped. -/
theorem baseList_generic {inside : List Char} (ho : '<' ∉ inside) (hc : '>' ∉ inside)
    (bases : List TypeName) :
    baseList ('<' :: (inside ++ '>' :: basesText bases)) = baseList (basesText bases) := by
  have hafter : afterBracketFrom '<' '>' 0 ('<' :: (inside ++ '>' :: basesText bases)) =
      basesText bases := by
    rw [afterBracketFrom, if_pos rfl, afterBracketFrom_inside ho hc]
    rfl
  have htrim : trimStart ('<' :: (inside ++ '>' :: basesText bases)) =
      '<' :: (inside ++ '>' :: basesText bases) :=
    trimStart_of_stops (stops_cons (by decide) _)
  have hskip : skipBracketed '<' '>' ('<' :: (inside ++ '>' :: basesText bases)) =
      trimStart (basesText bases) := by
    rw [skipBracketed, List.head?_cons, beq_self_eq_true, if_pos rfl, hafter]
  have hbases : skipBracketed '<' '>' (trimStart (basesText bases)) =
      trimStart (basesText bases) := by
    cases bases with
    | nil => rfl
    | cons first more => rfl
  rw [baseList, baseList, htrim, hskip, hbases]

theorem bracket_notMem_joined {bracket : Char} (hb : bracket = '<' ∨ bracket = '>')
    (names : List Name) : bracket ∉ joined (names.map (·.chars)) := by
  have hname : ∀ s ∈ names.map (·.chars), bracket ∉ s := by
    intro s hs hmem
    obtain ⟨name, _, rfl⟩ := List.mem_map.1 hs
    refine ne_of_isIdentChar (name.word.inside bracket hmem) ?_ rfl
    rcases hb with rfl | rfl <;> decide
  cases hnames : names.map (·.chars) with
  | nil => exact List.not_mem_nil
  | cons first rest =>
      rw [hnames] at hname
      rw [joined_cons]
      intro hmem
      rcases List.mem_append.1 hmem with hfirst | hrest
      · exact hname first List.mem_cons_self hfirst
      · obtain ⟨s, hs, hmem⟩ := List.mem_flatMap.1 hrest
        rcases List.mem_append.1 hmem with hcomma | hmem
        · rcases hb with rfl | rfl <;> exact absurd hcomma (by decide)
        · exact hname s (List.mem_cons_of_mem _ hs) hmem

/-- A type header says the same whatever type parameters it lists. -/
theorem readTypeHeader_generic {kind : DeclKind} (hkind : IsTypeKind kind) (name : Name)
    (parameters : List Name) (bases : List TypeName) :
    readTypeHeader (kind.word.toList ++
        ' ' :: (genericText name (parameters.map (·.chars)) ++ basesText bases)) =
      readTypeHeader (typeHeader kind name bases) := by
  rw [genericText]
  split
  · rfl
  · rw [List.append_assoc, List.cons_append, List.append_assoc, List.singleton_append,
      readTypeHeader_name hkind name (stops_cons (by decide) _), typeHeader,
      readTypeHeader_name hkind name (stops_basesText bases),
      baseList_generic (bracket_notMem_joined (.inl rfl) parameters)
        (bracket_notMem_joined (.inr rfl) parameters)]

/-! ## Reading attributes -/

theorem commaList_joined {texts : List (List Char)} (h : ∀ s ∈ texts, Listed s)
    (hne : texts ≠ []) {gap : List Char} (hgap : allBlank gap = true) :
    commaList (gap ++ joined texts) = texts := by
  cases texts with
  | nil => exact absurd rfl hne
  | cons first more =>
      have hfirst := h first List.mem_cons_self
      have hmore : ∀ s ∈ more, Listed s := fun s hs => h s (List.mem_cons_of_mem _ hs)
      rw [commaList, joined_cons, ← List.append_assoc,
        splitTop_joined (hfirst.unsplit.pad hgap) fun s hs => (hmore s hs).unsplit, List.map_cons,
        hfirst.trim_pad hgap, map_trim_spaced hmore, filter_listed h]

/-- Without a colon a section names no target. -/
theorem readTarget_eq_none {s : List Char} (h : ':' ∉ s) : readTarget s = none := by
  rw [readTarget, List.findSome?_eq_none_iff]
  intro target _
  split
  · rename_i c rest hmatch
    obtain ⟨t, ht, htrim⟩ := Option.map_eq_some_iff.1 hmatch
    have hmem : ':' ∈ t := by
      apply (List.dropWhile_suffix isBlank).mem
      rw [trimStart] at htrim
      rw [htrim]
      exact List.mem_cons_self
    have : ':' ∈ trimStart s := by
      rw [stripStart?_eq_some.1 ht]
      exact List.mem_append_right _ hmem
    exact absurd ((List.dropWhile_suffix isBlank).mem this) h
  · rfl

theorem readAttribute_part {s : List Char} (h : Part s) :
    readAttribute s = ⟨String.ofList s, []⟩ := by
  have hno : breakOn ['('] s = none := by
    cases hb : breakOn ['('] s with
    | none => rfl
    | some cut =>
        have hmem : '(' ∈ s := by
          rw [breakOn_eq hb]
          simp
        exact absurd hmem (h.phrase.notMem rfl (by decide) (by decide))
  rw [readAttribute, hno]

theorem readAttributes_joined (attributes : List TypeName) (hne : attributes ≠ []) :
    readAttributes (joined (attributeTexts attributes)) = plainAttributes attributes := by
  have hparts := bases_part attributes
  have hcolon : ':' ∉ joined (attributeTexts attributes) :=
    (joined_phrase hparts).notMem rfl (by decide) (by decide)
  rw [readAttributes, readTarget_eq_none hcolon]
  simp only
  have hlist := commaList_joined (fun s hs => (hparts s hs).listed) (by simpa using hne)
    (show allBlank [] = true from rfl)
  rw [List.nil_append] at hlist
  rw [attributeTexts, hlist, List.map_map]
  apply List.map_congr_left
  intro a _
  exact readAttribute_part a.part

end Declaration
end DocPages

/-
Values and lines that are written are read back.

A written text is followed to its last character, so that the lines of a document can be
put together one by one: `ReadsAs.append`.
-/
import DocPages.Config.Stored
import DocPages.Proofs.Toml.Quoted

namespace DocPages
namespace Toml

open Text

/-! ## Spaces -/

/-- A character that is no space and starts neither a comment nor a line break. -/
def startsItem (c : Char) : Bool := !isSpace c && c != '#' && c != '\n' && c != '\r'

theorem skipLines_eq (s : List Char) :
    skipLines s =
      match afterNewline? (skipComment (skipSpace s)) with
      | none => skipComment (skipSpace s)
      | some rest => skipLines rest := by
  rw [skipLines]
  dsimp only
  split
  · rename_i hnone
    rw [hnone]
  · rename_i hsome
    rw [hsome]

theorem skipLines_newline (s : List Char) : skipLines ('\n' :: s) = skipLines s :=
  skipLines_eq ('\n' :: s)

theorem skipLines_space (s : List Char) : skipLines (' ' :: s) = skipLines s := by
  rw [skipLines_eq, skipLines_eq s]
  rfl

section Start

variable {c : Char} (h : startsItem c = true) (s : List Char)
include h

theorem skipSpace_start : skipSpace (c :: s) = c :: s := by
  simp only [startsItem, Bool.and_eq_true, Bool.not_eq_true'] at h
  exact List.dropWhile_cons_of_neg (by simp [h.1.1.1])

theorem skipLines_start : skipLines (c :: s) = c :: s := by
  have hspace := skipSpace_start h s
  simp only [startsItem, Bool.and_eq_true, bne_iff_ne] at h
  have hcomment : skipComment (c :: s) = c :: s := by
    rw [skipComment]
    exact fun _ e => absurd (List.cons.inj e).1 h.1.1.2
  have hline : afterNewline? (c :: s) = none := by
    rw [afterNewline?]
    · exact fun _ e => absurd (List.cons.inj e).1 h.1.2
    · exact fun _ e => absurd (List.cons.inj e).1 h.2
  rw [skipLines_eq, hspace, hcomment, hline]

end Start

/-! ## Values -/

/-- A text that is read as a value of a depth. -/
structure Written (depth : Nat) (text : List Char) (value : Value) : Prop where
  starts : ∃ c s, text = c :: s ∧ startsItem c = true ∧ c ≠ ']'
  reads : ∀ {r : List Char}, EndsText r → readValue? depth (text ++ r) = some (value, r)

theorem quote_starts (s : List Char) : ∃ c t, quote s = c :: t ∧ (c = '"' ∨ c = '\'') := by
  unfold quote
  split
  · exact ⟨_, _, rfl, .inl rfl⟩
  · exact ⟨_, _, rfl, .inr rfl⟩
  · exact ⟨_, _, rfl, .inl rfl⟩
  · exact ⟨_, _, rfl, .inr rfl⟩

theorem written_quote (depth : Nat) (s : List Char) :
    Written depth (quote s) (.text (String.ofList s)) := by
  obtain ⟨c, t, hquote, hc⟩ := quote_starts s
  constructor
  · refine ⟨c, t, hquote, ?_⟩
    rcases hc with rfl | rfl <;> exact ⟨rfl, by decide⟩
  · intro r hr
    have hread := readText?_quote s hr
    have hsimple : readValue? depth (quote s ++ r) = readSimple? (quote s ++ r) := by
      rw [hquote]
      rcases hc with rfl | rfl <;> cases depth <;> rfl
    rw [hsimple]
    rw [hquote] at hread ⊢
    rcases hc with rfl | rfl
    all_goals
      rw [List.cons_append] at hread ⊢
      rw [readSimple?, hread]
      rfl

theorem written_boolean (depth : Nat) (b : Bool) :
    Written depth (Config.booleanText b).toList (.boolean b) := by
  cases b
  all_goals
    refine ⟨⟨_, _, rfl, rfl, by decide⟩, fun {r} _ => ?_⟩
    cases depth <;> rfl

/-! ## Arrays -/

section Elements

variable {depth : Nat} {text s more : List Char} {value : Value} (hw : Written depth text value)
include hw

/-- An element with a comma behind it. -/
theorem readElements?_comma (hs : skipLines s = text ++ ',' :: more)
    (hlen : more.length < s.length) :
    readElements? (readValue? depth) s =
      (readElements? (readValue? depth) more).map fun (values, rest) =>
        (value :: values, rest) := by
  obtain ⟨c, t, htext, -, hclose⟩ := hw.starts
  have hread : readValue? depth (text ++ ',' :: more) = some (value, ',' :: more) :=
    hw.reads (stops_cons rfl _)
  rw [readElements?, hs]
  rw [htext, List.cons_append] at hread ⊢
  split
  · rename_i e
    exact absurd (List.cons.inj e).1 hclose
  · rw [hread]
    simp only [Option.bind_eq_bind, Option.bind_some, skipLines_start (c := ',') rfl, if_pos hlen]
    cases readElements? (readValue? depth) more <;> rfl

/-- An element with the closing bracket behind it. -/
theorem readElements?_last (hs : skipLines s = text ++ ']' :: more) :
    readElements? (readValue? depth) s = some ([value], more) := by
  obtain ⟨c, t, htext, -, hclose⟩ := hw.starts
  have hread : readValue? depth (text ++ ']' :: more) = some (value, ']' :: more) :=
    hw.reads (stops_cons rfl _)
  rw [readElements?, hs]
  rw [htext, List.cons_append] at hread ⊢
  split
  · rename_i e
    exact absurd (List.cons.inj e).1 hclose
  · rw [hread]
    simp only [Option.bind_eq_bind, Option.bind_some, skipLines_start (c := ']') rfl]

end Elements

/-- A text in an array that takes several lines. -/
def elementLine (s : String) : List Char := "    ".toList ++ quote s.toList ++ ",\n".toList

theorem readElements?_lines (depth : Nat) (texts : List String) (r : List Char) :
    readElements? (readValue? depth) ('\n' :: (texts.flatMap elementLine ++ ']' :: r)) =
      some (texts.map .text, r) := by
  induction texts with
  | nil =>
      have hskip : skipLines ('\n' :: (List.flatMap elementLine [] ++ ']' :: r)) = ']' :: r := by
        rw [skipLines_newline]
        exact skipLines_start rfl r
      rw [readElements?, hskip]
      rfl
  | cons s texts ih =>
      have hw := written_quote depth s.toList
      rw [String.ofList_toList] at hw
      obtain ⟨c, t, htext, hc, -⟩ := hw.starts
      have hsplit : (s :: texts).flatMap elementLine ++ ']' :: r = ' ' :: ' ' :: ' ' :: ' ' ::
          (quote s.toList ++ ',' :: '\n' :: (texts.flatMap elementLine ++ ']' :: r)) := by
        rw [List.flatMap_cons, elementLine]
        simp only [List.append_assoc]
        rfl
      have hskip : skipLines ('\n' :: ((s :: texts).flatMap elementLine ++ ']' :: r)) =
          quote s.toList ++ ',' :: '\n' :: (texts.flatMap elementLine ++ ']' :: r) := by
        rw [hsplit, skipLines_newline, skipLines_space, skipLines_space, skipLines_space,
          skipLines_space, htext]
        exact skipLines_start hc _
      rw [readElements?_comma hw hskip, ih]
      · rfl
      · rw [hsplit]
        simp only [List.length_cons, List.length_append]
        omega

theorem Written.skipLines_eq {depth : Nat} {text : List Char} {value : Value}
    (hw : Written depth text value) (r : List Char) : skipLines (text ++ r) = text ++ r := by
  obtain ⟨c, t, rfl, hc, -⟩ := hw.starts
  exact skipLines_start hc _

theorem Written.skipSpace_eq {depth : Nat} {text : List Char} {value : Value}
    (hw : Written depth text value) (r : List Char) : skipSpace (text ++ r) = text ++ r := by
  obtain ⟨c, t, rfl, hc, -⟩ := hw.starts
  exact skipSpace_start hc _

theorem written_array {depth : Nat} {body : List Char} {values : List Value}
    (h : ∀ r, readElements? (readValue? depth) (body ++ r) = some (values, r)) :
    Written (depth + 1) ('[' :: body) (.array values) := by
  refine ⟨⟨_, _, rfl, rfl, by decide⟩, fun {r} _ => ?_⟩
  rw [List.cons_append, readValue?, h]
  rfl

theorem written_texts (depth : Nat) (texts : List String) :
    Written (depth + 1) (Config.textsText texts).toList (.array (texts.map .text)) := by
  match texts with
  | [] =>
      apply @written_array depth "]".toList
      intro r
      have hskip : skipLines ("]".toList ++ r) = ']' :: r := skipLines_start rfl r
      rw [readElements?, hskip]
      rfl
  | [one] =>
      have htext : (Config.textsText [one]).toList = '[' :: (quote one.toList ++ "]".toList) := by
        simp only [Config.textsText, Config.quoted, String.toList_append, String.toList_ofList]
        rfl
      have hw := written_quote depth one.toList
      rw [String.ofList_toList] at hw
      rw [htext]
      refine written_array fun r => ?_
      rw [List.append_assoc]
      exact readElements?_last hw (hw.skipLines_eq _)
  | one :: two :: more =>
      have htext : (Config.textsText (one :: two :: more)).toList =
          '[' :: ('\n' :: ((one :: two :: more).flatMap elementLine ++ "]".toList)) := by
        simp only [Config.textsText, Config.quoted, String.toList_append, String.toList_join,
          List.flatMap_map, String.toList_ofList]
        rfl
      rw [htext]
      refine written_array fun r => ?_
      rw [List.cons_append, List.append_assoc]
      exact readElements?_lines depth (one :: two :: more) r

/-! ## Keys -/

/-- A key that needs no quotes. -/
structure IsBare (key : String) : Prop where
  nonempty : key.toList.isEmpty = false
  chars : key.toList.all isBareKeyChar = true

instance (key : String) : Decidable (IsBare key) :=
  decidable_of_iff (key.toList.isEmpty = false ∧ key.toList.all isBareKeyChar = true)
    ⟨fun h => ⟨h.1, h.2⟩, fun h => ⟨h.nonempty, h.chars⟩⟩

theorem ne_of_isBareKeyChar {c d : Char} (hc : isBareKeyChar c = true)
    (hd : isBareKeyChar d = false) : c ≠ d := by
  rintro rfl
  rw [hc] at hd
  cases hd

theorem startsItem_of_isBareKeyChar {c : Char} (hc : isBareKeyChar c = true) :
    startsItem c = true := by
  simp [startsItem, isSpace, ne_of_isBareKeyChar hc (d := ' ') rfl,
    ne_of_isBareKeyChar hc (d := '\t') rfl, ne_of_isBareKeyChar hc (d := '#') rfl,
    ne_of_isBareKeyChar hc (d := '\n') rfl, ne_of_isBareKeyChar hc (d := '\r') rfl]

theorem IsBare.starts {key : String} (h : IsBare key) :
    ∃ c s, key.toList = c :: s ∧ isBareKeyChar c = true := by
  obtain ⟨c, s, hs⟩ := List.exists_cons_of_ne_nil (List.isEmpty_eq_false_iff.1 h.nonempty)
  exact ⟨c, s, hs, List.all_eq_true.1 h.chars c (hs ▸ List.mem_cons_self)⟩

theorem readKeyPart?_bare {key : String} (h : IsBare key) {r : List Char}
    (hr : Stops isBareKeyChar r) : readKeyPart? (key.toList ++ r) = some (key.toList, r) := by
  obtain ⟨c, s, hs, hc⟩ := h.starts
  have hchars := List.all_eq_true.1 h.chars
  have htake := takeWhile_append_stops hchars hr
  have hdrop := dropWhile_append_stops hchars hr
  rw [hs] at htake hdrop ⊢
  rw [readKeyPart?]
  · rw [htake, hdrop]
    rfl
  · exact fun _ e => absurd (List.cons.inj e).1 (ne_of_isBareKeyChar hc rfl)
  · exact fun _ e => absurd (List.cons.inj e).1 (ne_of_isBareKeyChar hc rfl)

theorem readKey?_bare {key : String} (h : IsBare key) {r : List Char} (hr : Stops isBareKeyChar r)
    (hdot : Stops (· == '.') (skipSpace r)) :
    readKey? (key.toList ++ r) = some ([key], skipSpace r) := by
  obtain ⟨c, s, hs, hc⟩ := h.starts
  have hspace : skipSpace (key.toList ++ r) = key.toList ++ r := by
    rw [hs]
    exact skipSpace_start (startsItem_of_isBareKeyChar hc) _
  have hparts : readKeyParts? (key.toList ++ r) = some ([key], skipSpace r) := by
    rw [readKeyParts?, hspace, readKeyPart?_bare h hr]
    simp only [Option.bind_eq_bind, Option.bind_some, String.ofList_toList]
    split
    · rename_i hmore
      rw [hmore] at hdot
      exact absurd (hdot '.' rfl) (by decide)
    · rfl
  rw [readKey?, hparts]
  rfl

/-! ## Lines -/

/-- A text that is read as some lines, whatever follows it. -/
def ReadsAs (text : List Char) (lines : List Line) : Prop :=
  ∀ r, readLines? (text ++ r) = (readLines? r).map (lines ++ ·)

theorem ReadsAs.nil : ReadsAs [] [] := by
  intro r
  cases h : readLines? r <;> simp [h]

theorem ReadsAs.append {s t : List Char} {ls ms : List Line} (hs : ReadsAs s ls)
    (ht : ReadsAs t ms) : ReadsAs (s ++ t) (ls ++ ms) := by
  intro r
  rw [List.append_assoc, hs, ht, Option.map_map]
  simp only [Function.comp_def, List.append_assoc]

theorem ReadsAs.flatMap {α : Type} {text : α → List Char} {lines : α → List Line}
    (h : ∀ a, ReadsAs (text a) (lines a)) (as : List α) :
    ReadsAs (as.flatMap text) (as.flatMap lines) := by
  induction as with
  | nil => exact ReadsAs.nil
  | cons a as ih => exact (h a).append ih

theorem ReadsAs.read {text : List Char} {lines : List Line} (h : ReadsAs text lines) :
    readLines? text = some lines := by
  have hall := h []
  have hskip : skipLines [] = [] := skipLines_eq []
  have hnil : readLines? [] = some [] := by rw [readLines?, hskip]
  rwa [List.append_nil, hnil, Option.map_some, List.append_nil] at hall

theorem readLines?_line {s t rest r : List Char} {line : Line} (hskip : skipLines s = t)
    (hne : t ≠ []) (hline : readLine? t = some (line, rest)) (hend : afterLine? rest = some r)
    (hlen : r.length < s.length) :
    readLines? s = (readLines? r).map ([line] ++ ·) := by
  obtain ⟨c, t, rfl⟩ := List.exists_cons_of_ne_nil hne
  rw [readLines?, hskip]
  simp only [Option.bind_eq_bind, hline, Option.bind_some, hend, if_pos hlen]
  cases readLines? r <;> rfl

theorem readsAs_pair {key : String} (hkey : IsBare key) {text : List Char} {value : Value}
    (hw : Written depthLimit text value) :
    ReadsAs (key.toList ++ " = ".toList ++ text ++ "\n".toList) [.pair [key] value] := by
  intro r
  have hsplit : key.toList ++ " = ".toList ++ text ++ "\n".toList ++ r =
      key.toList ++ ' ' :: '=' :: ' ' :: (text ++ '\n' :: r) := by
    simp only [List.append_assoc]
    rfl
  obtain ⟨c, s, hs, hc⟩ := hkey.starts
  have hpair : readPair? (readValue? depthLimit)
      (key.toList ++ ' ' :: '=' :: ' ' :: (text ++ '\n' :: r)) =
        some (([key], value), '\n' :: r) := by
    have hspace : skipSpace (' ' :: (text ++ '\n' :: r)) = text ++ '\n' :: r :=
      hw.skipSpace_eq ('\n' :: r)
    have hkey' := readKey?_bare hkey (r := ' ' :: '=' :: ' ' :: (text ++ '\n' :: r))
      (stops_cons rfl _) (stops_cons rfl _)
    have hmark : stripStart? ['='] (skipSpace (' ' :: '=' :: ' ' :: (text ++ '\n' :: r))) =
        some (' ' :: (text ++ '\n' :: r)) := rfl
    have hvalue : readValue? depthLimit (text ++ '\n' :: r) = some (value, '\n' :: r) :=
      hw.reads (stops_cons rfl r)
    rw [readPair?, hkey']
    simp only [Option.bind_eq_bind, Option.bind_some, hmark, hspace, hvalue]
  have hline : readLine? (key.toList ++ ' ' :: '=' :: ' ' :: (text ++ '\n' :: r)) =
      some (.pair [key] value, '\n' :: r) := by
    rw [hs, List.cons_append] at hpair ⊢
    rw [readLine?, hpair]
    · rfl
    · exact fun _ e => absurd (List.cons.inj e).1 (ne_of_isBareKeyChar hc rfl)
    · exact fun _ e => absurd (List.cons.inj e).1 (ne_of_isBareKeyChar hc rfl)
  have hskip : skipLines (key.toList ++ ' ' :: '=' :: ' ' :: (text ++ '\n' :: r)) =
      key.toList ++ ' ' :: '=' :: ' ' :: (text ++ '\n' :: r) := by
    rw [hs]
    exact skipLines_start (startsItem_of_isBareKeyChar hc) _
  rw [hsplit]
  refine readLines?_line hskip (by simp [hs]) hline rfl ?_
  simp only [List.length_append, List.length_cons]
  omega

theorem readsAs_element {key : String} (hkey : IsBare key) :
    ReadsAs ("\n[[".toList ++ key.toList ++ "]]\n".toList) [.element [key]] := by
  intro r
  have hsplit : "\n[[".toList ++ key.toList ++ "]]\n".toList ++ r =
      '\n' :: '[' :: '[' :: (key.toList ++ ']' :: ']' :: '\n' :: r) := by
    simp only [List.append_assoc]
    rfl
  have hline : readLine? ('[' :: '[' :: (key.toList ++ ']' :: ']' :: '\n' :: r)) =
      some (.element [key], '\n' :: r) := by
    have hkey' := readKey?_bare hkey (r := ']' :: ']' :: '\n' :: r) (stops_cons rfl _)
      (stops_cons rfl _)
    have hspace : skipSpace (']' :: ']' :: '\n' :: r) = ']' :: ']' :: '\n' :: r :=
      skipSpace_start rfl _
    have hclose : stripStart? [']', ']'] (']' :: ']' :: '\n' :: r) = some ('\n' :: r) := rfl
    rw [readLine?, hkey']
    simp only [Option.bind_eq_bind, Option.bind_some, hspace, hclose]
  rw [hsplit]
  refine readLines?_line ?_ (List.cons_ne_nil _ _) hline rfl ?_
  · rw [skipLines_newline]
    exact skipLines_start rfl _
  · simp only [List.length_append, List.length_cons]
    omega

end Toml
end DocPages

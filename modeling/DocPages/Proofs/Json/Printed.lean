/-
What is written as JSON is read back.

A quoted text gives its characters again, whatever they are (`readText?_quote`), and a list
of tokens that are written next to each other falls apart into the same tokens
(`tokens?_render`).
-/
import DocPages.Json.Token
import DocPages.Proofs.Text.Digits

namespace DocPages
namespace Json

open Text

/-! ## Quoted texts -/

/-- Puts a unit in front of those that are read. -/
def addUnit (unit : Nat) (read : Option (List Nat × List Char)) :
    Option (List Nat × List Char) := do
  let (units, after) ← read
  some (unit :: units, after)

theorem readUnits_escape {letter c : Char} (hu : letter ≠ 'u') (h : escaped? letter = some c)
    (rest : List Char) :
    readUnits ('\\' :: letter :: rest) = addUnit c.toNat (readUnits rest) := by
  rw [readUnits]
  · rw [h]
    rfl
  · rintro _ _ _ _ _ rfl
    exact absurd rfl hu

theorem readUnits_hex {n : Nat} (hn : n < 65536) (rest : List Char) :
    readUnits ('\\' :: 'u' :: (fourHex lowerHex n ++ rest)) = addUnit n (readUnits rest) := by
  have hvalue := digitsValue?_fourHex hexDigit?_lowerHex hn
  rw [fourHex, List.map_cons, List.map_cons, List.map_cons, List.map_cons, List.map_nil] at *
  rw [List.cons_append, List.cons_append, List.cons_append, List.cons_append, List.nil_append,
    readUnits, hvalue]
  rfl

theorem readUnits_plain {c : Char} (hq : c ≠ '"') (hb : c ≠ '\\') (hc : ¬ c.toNat < 0x20)
    (rest : List Char) : readUnits (c :: rest) = addUnit c.toNat (readUnits rest) := by
  rw [readUnits]
  · rw [if_neg (not_or.2 ⟨hb, hc⟩)]
    rfl
  · exact hq
  · rintro a b d e more rfl
    exact absurd rfl hb
  · rintro letter more rfl
    exact absurd rfl hb

/-- One written character is one unit, whether it is escaped or not. -/
theorem readUnits_quoteChar (c : Char) (rest : List Char) :
    readUnits (quoteChar c ++ rest) = addUnit c.toNat (readUnits rest) := by
  unfold quoteChar
  split
  · subst_vars
    exact readUnits_escape (by decide) rfl rest
  rename_i hq
  split
  · subst_vars
    exact readUnits_escape (by decide) rfl rest
  rename_i hb
  iterate 5
    split
    · subst_vars
      exact readUnits_escape (by decide) rfl rest
  split
  · exact readUnits_hex (by omega) rest
  · rename_i hc
    exact readUnits_plain hq hb hc rest

theorem readUnits_quote (s rest : List Char) :
    readUnits (s.flatMap quoteChar ++ '"' :: rest) = some (s.map Char.toNat, rest) := by
  induction s with
  | nil => rfl
  | cons c s ih =>
    rw [List.flatMap_cons, List.append_assoc, readUnits_quoteChar, ih]
    rfl

/-- No character has the code of half a pair. -/
theorem not_isFirstHalf (c : Char) : isFirstHalf c.toNat = false := by
  have hvalid : c.toNat < 0xd800 ∨ 0xdfff < c.toNat ∧ c.toNat < 0x110000 := c.valid
  simp only [isFirstHalf, decide_eq_false_iff_not]
  omega

theorem characters?_map_toNat (s : List Char) : characters? (s.map Char.toNat) = some s := by
  induction s with
  | nil => rfl
  | cons c s ih =>
    cases s with
    | nil =>
      rw [List.map_cons, List.map_nil, characters?, charOfCode?_toNat]
      rfl
    | cons d s =>
      rw [List.map_cons] at ih
      rw [List.map_cons, List.map_cons, characters?, not_isFirstHalf, ih, charOfCode?_toNat]
      rfl

theorem readText?_quote (s rest : List Char) :
    readText? (s.flatMap quoteChar ++ '"' :: rest) = some (.text (String.ofList s), rest) := by
  rw [readText?, readUnits_quote, Option.map_some]
  simp only [characters?_map_toNat]

/-! ## Tokens -/

/-- A token that is written as what it is: a mark or a text. -/
def Token.IsExact : Token → Prop
  | .brokenText _ => False
  | .other _ => False
  | _ => True

theorem tokens?_mark {c : Char} {t : Token} (hspace : isSpace c = false) (hmark : mark? c = some t)
    (rest : List Char) : tokens? (c :: rest) = (tokens? rest).map (t :: ·) := by
  rw [tokens?, hspace, hmark]
  rfl

theorem tokens?_quote (s rest : List Char) :
    tokens? (quote s ++ rest) = (tokens? rest).map (.text (String.ofList s) :: ·) := by
  have hread : readToken? ('"' :: (s.flatMap quoteChar ++ '"' :: rest)) =
      some (.text (String.ofList s), rest) := readText?_quote s rest
  have hquote : quote s ++ rest = '"' :: (s.flatMap quoteChar ++ '"' :: rest) := by
    simp [quote]
  rw [hquote, tokens?, show isSpace '"' = false from rfl, show mark? '"' = none from rfl]
  simp only [Bool.false_eq_true, if_false]
  split
  · rename_i hnone
    rw [hread] at hnone
    cases hnone
  · rename_i found
    rw [hread] at found
    cases found
    rfl

theorem tokens?_token {t : Token} (h : t.IsExact) (rest : List Char) :
    tokens? (t.render ++ rest) = (tokens? rest).map (t :: ·) := by
  cases t with
  | text content =>
    have := tokens?_quote content.toList rest
    rwa [String.ofList_toList] at this
  | brokenText | other => exact h.elim
  | _ => exact tokens?_mark rfl rfl rest

/-- Tokens that are written without any space fall apart into the same tokens. -/
theorem tokens?_render {ts : List Token} (h : ∀ t ∈ ts, t.IsExact) :
    tokens? (ts.flatMap Token.render) = some ts := by
  induction ts with
  | nil => rw [List.flatMap_nil, tokens?]
  | cons t ts ih =>
    rw [List.forall_mem_cons] at h
    rw [List.flatMap_cons, tokens?_token h.1, ih h.2]
    rfl

end Json
end DocPages

/-
Digits and code points that are written come back when they are read.
-/
import DocPages.Text.Digit

namespace DocPages
namespace Text

theorem charOfCode?_toNat (c : Char) : charOfCode? c.toNat = some c := by
  have hvalid : c.toNat.isValidChar := c.valid
  rw [charOfCode?, if_pos hvalid, Char.ofNat_toNat]

/-- A number is written in digits. -/
theorem notMem_toString {c : Char} (hc : c.isDigit = false) (n : Nat) : c ∉ (toString n).toList := by
  rw [Nat.toString_eq_repr, Nat.toList_repr]
  intro hmem
  rw [Nat.isDigit_of_mem_toDigits (by decide) (Nat.le_refl 10) hmem] at hc
  cases hc

theorem hexDigit?_lowerHex : ∀ d < 16, hexDigit? (lowerHex.getD d '0') = some d := by decide

theorem hexDigit?_upperHex : ∀ d < 16, hexDigit? (upperHex.getD d '0') = some d := by decide

theorem digitsValue?_fourHex {digits : List Char}
    (hdigits : ∀ d < 16, hexDigit? (digits.getD d '0') = some d) {n : Nat} (hn : n < 65536) :
    digitsValue? 16 hexDigit? (fourHex digits n) = some n := by
  have hdigit : ∀ m, hexDigit? (digits.getD (m % 16) '0') = some (m % 16) := fun m =>
    hdigits _ (Nat.mod_lt m (by decide))
  have hvalue : (((n / 4096 % 16) * 16 + n / 256 % 16) * 16 + n / 16 % 16) * 16 + n % 16 = n := by
    omega
  simp only [digitsValue?, fourHex, List.map_cons, List.map_nil, List.foldlM_cons,
    List.foldlM_nil, hdigit, Option.map_some, Option.bind_eq_bind, Option.bind_some,
    Nat.zero_mul, Nat.zero_add, hvalue]
  rfl

end Text
end DocPages

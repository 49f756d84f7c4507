/-
Character properties as tables of runs of code points.
-/
namespace DocPages
namespace Text

/-- The code points `first`, `first + step`, and so on up to `last`.  The step is
there because capital and small letters alternate in most scripts. -/
abbrev Run := Nat × Nat × Nat

def Run.covers (r : Run) (n : Nat) : Bool :=
  decide (r.1 ≤ n) && decide (n ≤ r.2.1) && (n - r.1) % r.2.2 == 0

/-- Membership in an ascending table.  The search stops at the first run that
starts beyond `n`, so a character near the front of the table is cheap. -/
def covers : List Run → Nat → Bool
  | [], _ => false
  | r :: rest, n => if n < r.1 then false else r.covers n || covers rest n

end Text
end DocPages

/-
The loops that pass over code.

There are three, for bodies, for the initializers of properties and for attribute sections.  They
read literals alike, but only the first reads comments.  Where a loop stands is told by what it
`Reaches`, turn by turn, and a turn does not look behind an edge.
-/
import DocPages.Proofs.Declaration.Statements

namespace DocPages
namespace Declaration

open Text

inductive Loop where
  | block
  | initializer
  | attributes
deriving DecidableEq

namespace Loop

/-- Does the loop read comments? -/
def comments : Loop → Bool
  | .block => true
  | .initializer | .attributes => false

/-- The depth behind a character.  The loop ends at the closing character of its own. -/
def nest (opening closing : Char) (depth : Nat) (c : Char) : Option Nat :=
  if c = opening then some (depth + 1)
  else if c = closing then
    match depth with
    | 0 => none
    | depth + 1 => some depth
  else some depth

/-- What a character comes to that starts nothing longer. -/
def code (loop : Loop) (depth : Nat) (c : Char) (rest : List Char) : Option (Nat × List Char) :=
  match loop with
  | .block => (nest '\x7b' '\x7d' depth c).map fun depth => (depth, rest)
  | .attributes => (nest '[' ']' depth c).map fun depth => (depth, rest)
  | .initializer =>
    if c = ';' then none
    else if c = '\x7b' then (afterBlock rest).toOption.map fun after => (depth, after)
    else some (depth, rest)

/-- The text after what is read whole. -/
def lexeme? (loop : Loop) (s : List Char) : Option Rest :=
  if loop.comments then (afterComment? s).or (afterLiteral? s) else afterLiteral? s

/-- One turn of the loop: the depth and the text after it, unless the loop ends. -/
def turn (loop : Loop) (depth : Nat) (c : Char) (rest : List Char) : Option (Nat × List Char) :=
  match loop.lexeme? (c :: rest) with
  | some read => read.toOption.map fun after => (depth, after)
  | none => loop.code depth c rest

/-- What the loop comes to from here. -/
def after (loop : Loop) (opens : List Char) (depth : Nat) (s : List Char) : Rest :=
  match loop with
  | .block => afterBlockFrom opens depth s
  | .initializer => afterInitializerFrom opens s
  | .attributes => toSectionEnd opens depth s

/-- Turn by turn the loop comes from one depth and text to another. -/
inductive Reaches (loop : Loop) : Nat → List Char → Nat → List Char → Prop
  | here {depth : Nat} {s : List Char} : loop.Reaches depth s depth s
  | step {depth mid last : Nat} {c : Char} {rest after r : List Char} :
      loop.turn depth c rest = some (mid, after) → loop.Reaches mid after last r →
      loop.Reaches depth (c :: rest) last r

variable {loop : Loop}

/-! ## One turn -/

theorem lexeme?_eq_some {s : List Char} {read : Rest} :
    loop.lexeme? s = some read ↔
      (loop.comments = true ∧ afterComment? s = some read) ∨ afterLiteral? s = some read := by
  unfold lexeme?
  cases loop.comments with
  | false => simp
  | true =>
      simp only [if_true, true_and, Option.or_eq_some_iff]
      constructor
      · rintro (hcomment | ⟨-, hliteral⟩)
        · exact .inl hcomment
        · exact .inr hliteral
      · rintro (hcomment | hliteral)
        · exact .inl hcomment
        · exact .inr ⟨afterComment?_of_literal hliteral, hliteral⟩

theorem lexeme?_eq_none {s : List Char} :
    loop.lexeme? s = none ↔
      (loop.comments = true → afterComment? s = none) ∧ afterLiteral? s = none := by
  unfold lexeme?
  cases loop.comments <;> simp

theorem lexeme?_length {s rest : List Char} (h : loop.lexeme? s = some (.ok rest)) :
    rest.length < s.length := by
  rcases lexeme?_eq_some.1 h with ⟨-, hcomment⟩ | hliteral
  · exact afterComment?_length hcomment
  · exact afterLiteral?_length hliteral

/-- A turn reads something whole, or a single character. -/
theorem turn_eq_some {depth mid : Nat} {c : Char} {rest s : List Char} :
    loop.turn depth c rest = some (mid, s) ↔
      (loop.lexeme? (c :: rest) = some (.ok s) ∧ mid = depth) ∨
        (loop.lexeme? (c :: rest) = none ∧ loop.code depth c rest = some (mid, s)) := by
  unfold turn
  cases loop.lexeme? (c :: rest) with
  | none => simp
  | some read =>
      cases read with
      | error u => simp [Except.toOption]
      | ok after => simp [Except.toOption, and_comm, eq_comm]

theorem code_initializer {depth mid : Nat} {c : Char} {rest s : List Char} :
    initializer.code depth c rest = some (mid, s) ↔
      mid = depth ∧ c ≠ ';' ∧ (if c = '\x7b' then afterBlock rest = .ok s else s = rest) := by
  unfold code
  dsimp only
  by_cases hend : c = ';'
  · simp [hend]
  · by_cases hopen : c = '\x7b'
    · cases afterBlock rest <;> simp [hopen, Except.toOption, and_comm, eq_comm]
    · simp [hend, hopen, eq_comm]

theorem code_nest {opening closing : Char} {depth mid : Nat} {c : Char} {rest s : List Char}
    (h : ((nest opening closing depth c).map fun depth => (depth, rest)) = some (mid, s)) :
    nest opening closing depth c = some mid ∧ s = rest := by
  obtain ⟨d, hd, heq⟩ := Option.map_eq_some_iff.1 h
  obtain ⟨rfl, rfl⟩ := Prod.mk.inj heq
  exact ⟨hd, rfl⟩

/-- What a loop does at a bracket, if it does not end there. -/
theorem nest_eq_some {opening closing : Char} {depth mid : Nat} {c : Char}
    (h : nest opening closing depth c = some mid) :
    (c = opening ∧ mid = depth + 1) ∨ (c ≠ opening ∧ c = closing ∧ depth = mid + 1) ∨
      (c ≠ opening ∧ c ≠ closing ∧ mid = depth) := by
  unfold nest at h
  split at h
  · rename_i hopen
    cases h
    exact .inl ⟨hopen, rfl⟩
  · rename_i hopen
    split at h
    · rename_i hclose
      cases depth with
      | zero => cases h
      | succ depth =>
          cases h
          exact .inr (.inl ⟨hopen, hclose, rfl⟩)
    · rename_i hclose
      cases h
      exact .inr (.inr ⟨hopen, hclose, rfl⟩)

theorem code_length {depth mid : Nat} {c : Char} {rest s : List Char}
    (h : loop.code depth c rest = some (mid, s)) : s.length ≤ rest.length := by
  cases loop with
  | block | attributes => exact Nat.le_of_eq (congrArg List.length (code_nest h).2)
  | initializer =>
      obtain ⟨-, -, hread⟩ := code_initializer.1 h
      split at hread
      · exact Nat.le_of_lt (afterBlock_length hread)
      · exact Nat.le_of_eq (congrArg List.length hread)

theorem turn_length {depth mid : Nat} {c : Char} {rest s : List Char}
    (h : loop.turn depth c rest = some (mid, s)) : s.length ≤ rest.length := by
  rcases turn_eq_some.1 h with ⟨hread, -⟩ | ⟨-, hcode⟩
  · exact Nat.le_of_lt_succ (lexeme?_length hread)
  · exact code_length hcode

theorem after_lexeme {s rest : List Char} (h : loop.lexeme? s = some (.ok rest))
    (opens : List Char) (depth : Nat) : loop.after opens depth s = loop.after opens depth rest := by
  rcases lexeme?_eq_some.1 h with ⟨hcomments, hcomment⟩ | hliteral
  · cases loop with
    | block => exact afterBlockFrom_of_comment hcomment
    | initializer | attributes => cases hcomments
  · cases loop with
    | block => exact afterBlockFrom_read hliteral opens depth
    | initializer => exact afterInitializerFrom_literal hliteral
    | attributes => exact toSectionEnd_literal hliteral

theorem after_code {depth mid : Nat} {c : Char} {rest s : List Char}
    (hnone : loop.lexeme? (c :: rest) = none) (h : loop.code depth c rest = some (mid, s))
    (opens : List Char) : loop.after opens depth (c :: rest) = loop.after opens mid s := by
  obtain ⟨hcomment, hliteral⟩ := lexeme?_eq_none.1 hnone
  cases loop with
  | block =>
      obtain ⟨hdepth, rfl⟩ := code_nest h
      rw [after, after, afterBlockFrom_code (hcomment rfl) hliteral]
      rcases nest_eq_some hdepth with ⟨hopen, rfl⟩ | ⟨hopen, hclose, rfl⟩ | ⟨hopen, hclose, rfl⟩
      · rw [if_pos hopen]
      · rw [if_neg hopen, if_pos hclose]
      · rw [if_neg hopen, if_neg hclose]
  | attributes =>
      obtain ⟨hdepth, rfl⟩ := code_nest h
      rw [after, after, toSectionEnd_code hliteral]
      rcases nest_eq_some hdepth with ⟨hopen, rfl⟩ | ⟨hopen, hclose, rfl⟩ | ⟨hopen, hclose, rfl⟩
      · rw [if_pos hopen]
      · rw [if_neg hopen, if_pos hclose]
      · rw [if_neg hopen, if_neg hclose]
  | initializer =>
      obtain ⟨rfl, hend, hread⟩ := code_initializer.1 h
      rw [after, after, afterInitializerFrom_code hliteral, if_neg hend]
      split at hread
      · rename_i hopen
        rw [if_pos hopen, hread]
        rfl
      · rename_i hopen
        rw [if_neg hopen, hread]

/-- A turn does not change what the loop comes to. -/
theorem after_turn {depth mid : Nat} {c : Char} {rest s : List Char}
    (h : loop.turn depth c rest = some (mid, s)) (opens : List Char) :
    loop.after opens depth (c :: rest) = loop.after opens mid s := by
  rcases turn_eq_some.1 h with ⟨hread, rfl⟩ | ⟨hnone, hcode⟩
  · exact after_lexeme hread opens mid
  · exact after_code hnone hcode opens

section Edge

variable {edge : Char} [IsEdge edge]

theorem local_lexeme? {p x rest : List Char} (h : loop.lexeme? (p ++ edge :: x) = some (.ok rest))
    (hlt : x.length < rest.length) : ∃ q, rest = q ++ edge :: x ∧
      ∀ y, loop.lexeme? (p ++ edge :: y) = some (.ok (q ++ edge :: y)) := by
  rcases lexeme?_eq_some.1 h with ⟨hcomments, hcomment⟩ | hliteral
  · obtain ⟨q, hq, hread⟩ := local_afterComment? edge hcomment hlt fun _ _ hedge => hedge
    exact ⟨q, hq, fun y => lexeme?_eq_some.2 (.inl ⟨hcomments, hread y⟩)⟩
  · obtain ⟨q, hq, hread⟩ := local_afterLiteral? edge hliteral hlt
    exact ⟨q, hq, fun y => lexeme?_eq_some.2 (.inr (hread y))⟩

theorem lexeme?_append {c : Char} {p x : List Char}
    (h : loop.lexeme? (c :: (p ++ edge :: x)) = none) (y : List Char) :
    loop.lexeme? (c :: (p ++ edge :: y)) = none := by
  obtain ⟨hcomment, hliteral⟩ := lexeme?_eq_none.1 h
  exact lexeme?_eq_none.2 ⟨fun hcomments => afterComment?_append edge (hcomment hcomments) y,
    afterLiteral?_append edge (p := c :: p) hliteral y⟩

theorem local_code {depth mid : Nat} {c : Char} {p x after : List Char}
    (h : loop.code depth c (p ++ edge :: x) = some (mid, after)) (hlt : x.length < after.length) :
    ∃ q, after = q ++ edge :: x ∧
      ∀ y, loop.code depth c (p ++ edge :: y) = some (mid, q ++ edge :: y) := by
  cases loop with
  | block | attributes =>
      obtain ⟨hdepth, rfl⟩ := code_nest h
      exact ⟨p, rfl, fun y => Option.map_eq_some_iff.2 ⟨mid, hdepth, rfl⟩⟩
  | initializer =>
      obtain ⟨rfl, hend, hread⟩ := code_initializer.1 h
      split at hread
      · rename_i hopen
        obtain ⟨q, hq, hread'⟩ := local_afterBlock edge hread hlt
        exact ⟨q, hq, fun y => code_initializer.2 ⟨rfl, hend, by rw [if_pos hopen]; exact hread' y⟩⟩
      · rename_i hopen
        exact ⟨p, hread, fun y => code_initializer.2 ⟨rfl, hend, by rw [if_neg hopen]⟩⟩

/-- A turn does not look behind an edge in front of which it stops. -/
theorem local_turn {depth mid : Nat} {c : Char} {p x after : List Char}
    (h : loop.turn depth c (p ++ edge :: x) = some (mid, after)) (hlt : x.length < after.length) :
    ∃ q, after = q ++ edge :: x ∧
      ∀ y, loop.turn depth c (p ++ edge :: y) = some (mid, q ++ edge :: y) := by
  rcases turn_eq_some.1 h with ⟨hread, rfl⟩ | ⟨hnone, hcode⟩
  · obtain ⟨q, hq, hread'⟩ := local_lexeme? (p := c :: p) hread hlt
    exact ⟨q, hq, fun y => turn_eq_some.2 (.inl ⟨hread' y, rfl⟩)⟩
  · obtain ⟨q, hq, hcode'⟩ := local_code hcode hlt
    exact ⟨q, hq, fun y => turn_eq_some.2 (.inr ⟨lexeme?_append hnone y, hcode' y⟩)⟩

end Edge

/-! ## Many turns -/

theorem reaches_cons {depth last : Nat} {c : Char} {rest r : List Char} :
    loop.Reaches depth (c :: rest) last r ↔ (depth = last ∧ c :: rest = r) ∨
      ∃ mid after, loop.turn depth c rest = some (mid, after) ∧ loop.Reaches mid after last r := by
  constructor
  · intro h
    cases h with
    | here => exact .inl ⟨rfl, rfl⟩
    | step hturn hreaches => exact .inr ⟨_, _, hturn, hreaches⟩
  · rintro (⟨rfl, rfl⟩ | ⟨mid, after, hturn, hreaches⟩)
    · exact .here
    · exact .step hturn hreaches

namespace Reaches

variable {depth last : Nat} {s r : List Char}

theorem after_eq (h : loop.Reaches depth s last r) (opens : List Char) :
    loop.after opens depth s = loop.after opens last r := by
  induction h with
  | here => rfl
  | step hturn _ ih => rw [after_turn hturn, ih]

theorem length_le (h : loop.Reaches depth s last r) : r.length ≤ s.length := by
  induction h with
  | here => exact Nat.le_refl _
  | step hturn _ ih => exact Nat.le_succ_of_le (Nat.le_trans ih (turn_length hturn))

theorem replace {edge : Char} [IsEdge edge] {p q x : List Char}
    (h : loop.Reaches depth (p ++ edge :: x) last (q ++ edge :: x)) (y : List Char) :
    loop.Reaches depth (p ++ edge :: y) last (q ++ edge :: y) := by
  generalize hs : p ++ edge :: x = s at h
  generalize hr : q ++ edge :: x = r at h
  induction h generalizing p with
  | here =>
      subst hr
      rw [List.append_cancel_right_eq] at hs
      rw [hs]
      exact .here
  | @step depth mid last c rest after r hturn hreaches ih =>
      subst hr
      have hlen := hreaches.length_le
      have hrest := turn_length hturn
      rw [List.length_append, List.length_cons] at hlen
      obtain ⟨p, rfl, rfl⟩ := exists_of_append_eq (u := [c]) hs (by omega)
      obtain ⟨q', rfl, hturn'⟩ := local_turn hturn (by omega)
      exact .step (hturn' y) (ih rfl rfl)

end Reaches

/-! ## Inserting a text -/

/-- The characters that the loop does not just pass over. -/
def signs : Loop → List Char
  | .block => "/'\"@$\x7b\x7d".toList
  | .initializer => "'\"@$;\x7b".toList
  | .attributes => "'\"@$[]".toList

theorem turn_plain {c : Char} (h : c ∉ loop.signs) (depth : Nat) (rest : List Char) :
    loop.turn depth c rest = some (depth, rest) := by
  have hne : ∀ d ∈ loop.signs, c ≠ d := fun d hd hc => h (hc ▸ hd)
  have hquotes : ∀ d ∈ "'\"@$".toList, d ∈ loop.signs := by cases loop <;> decide
  have hmark : isStringMark c = false := by
    rw [isStringMark, beq_eq_false_iff_ne.2 (hne '@' (hquotes _ (by decide))),
      beq_eq_false_iff_ne.2 (hne '$' (hquotes _ (by decide))), Bool.or_false]
  have hliteral : afterLiteral? (c :: rest) = none :=
    afterLiteral?_of_plain (hne '\'' (hquotes _ (by decide))) (hne '"' (hquotes _ (by decide))) hmark
      rest
  refine turn_eq_some.2 (.inr ⟨lexeme?_eq_none.2 ⟨fun hcomments => ?_, hliteral⟩, ?_⟩)
  · cases loop with
    | block => exact afterComment?_of_ne (hne '/' (by decide)) rest
    | initializer | attributes => cases hcomments
  · cases loop with
    | block =>
        rw [code, nest.eq_def, if_neg (hne '\x7b' (by decide)), if_neg (hne '\x7d' (by decide))]
        rfl
    | attributes =>
        rw [code, nest.eq_def, if_neg (hne '[' (by decide)), if_neg (hne ']' (by decide))]
        rfl
    | initializer => rw [code, if_neg (hne ';' (by decide)), if_neg (hne '\x7b' (by decide))]

theorem reaches_plain {run : List Char} (h : ∀ c ∈ run, c ∉ loop.signs) (depth : Nat)
    (r : List Char) : loop.Reaches depth (run ++ r) depth r := by
  induction run with
  | nil => exact .here
  | cons c run ih =>
      exact .step (turn_plain (h c List.mem_cons_self) depth _)
        (ih fun d hd => h d (List.mem_cons_of_mem c hd))

/-- A blank that the loop comes to is passed over. -/
theorem after_blank {w : Char} (hw : isBlank w = true) (opens : List Char) (depth : Nat)
    (r : List Char) : loop.after opens depth (w :: r) = loop.after opens depth r := by
  have htable : ∀ d ∈ loop.signs, isBlank d = false := by
    cases loop <;> decide
  refine after_turn (turn_plain (fun hmem => ?_) depth r) opens
  rw [htable w hmem] at hw
  cases hw

/-- Behind a blank that the loop comes to, it goes on with whatever stands there. -/
theorem after_behind {w : Char} (hw : isBlank w = true) {depth : Nat} {p v : List Char}
    (h : loop.Reaches 0 (p ++ w :: v) depth (w :: v)) (opens r : List Char) :
    loop.after opens 0 (p ++ w :: r) = loop.after opens depth r := by
  have hedge : IsEdge w := ⟨.inr hw⟩
  have hother : loop.Reaches 0 (p ++ w :: r) depth (w :: r) := Reaches.replace (q := []) h r
  rw [hother.after_eq, after_blank hw]

/-- So a text that the loop passes over may stand there. -/
theorem after_insert {w : Char} (hw : isBlank w = true) {depth : Nat} {p t v : List Char}
    (h : loop.Reaches 0 (p ++ w :: v) depth (w :: v))
    (ht : ∀ opens, loop.after opens depth (t ++ v) = loop.after opens depth v)
    (opens : List Char) :
    loop.after opens 0 (p ++ w :: (t ++ v)) = loop.after opens 0 (p ++ w :: v) := by
  rw [after_behind hw h, after_behind hw h, ht]

end Loop

/-! ## Bodies of an accepted source -/

/-- The braces of an initializer that are passed over are those that the loop comes to. -/
theorem mem_initializerBodiesFrom_iff {x s : List Char} :
    x ∈ initializerBodiesFrom s ↔ Loop.initializer.Reaches 0 s 0 ('\x7b' :: x) := by
  have hread : ∀ {c : Char} {rest : List Char} {read : Rest},
      afterLiteral? (c :: rest) = some read → c ≠ '\x7b' ∧
        Loop.initializer.turn 0 c rest = read.toOption.map fun after => (0, after) := by
    intro c rest read h
    constructor
    · rintro rfl
      rw [afterLiteral?_of_plain (by decide) (by decide) rfl rest] at h
      cases h
    · rw [Loop.turn, Loop.lexeme?_eq_some.2 (.inr h)]
  have hcode : ∀ {c : Char} {rest : List Char}, afterLiteral? (c :: rest) = none →
      Loop.initializer.turn 0 c rest = Loop.initializer.code 0 c rest := by
    intro c rest h
    rw [Loop.turn, Loop.lexeme?_eq_none.2 ⟨fun hcomments => Bool.noConfusion hcomments, h⟩]
  fun_induction initializerBodiesFrom s with
  | case1 =>
      constructor
      · intro h
        cases h
      · intro h
        cases h
  | case2 c rest u hliteral =>
      obtain ⟨hne, hturn⟩ := hread hliteral
      simp [Loop.reaches_cons, hturn, hne, Except.toOption]
  | case3 c rest after hliteral _ ih =>
      obtain ⟨hne, hturn⟩ := hread hliteral
      simp [Loop.reaches_cons, hturn, hne, Except.toOption, ih]
  | case4 rest hliteral => simp [Loop.reaches_cons, hcode hliteral, Loop.code]
  | case5 rest u hblock hliteral =>
      simp [Loop.reaches_cons, hcode hliteral, Loop.code, hblock, Except.toOption, eq_comm]
  | case6 rest mid hblock _ hliteral hend ih =>
      simp [Loop.reaches_cons, hcode hliteral, Loop.code, hblock, Except.toOption, ih, eq_comm]
  | case7 c rest hliteral hend hopen ih =>
      simp [Loop.reaches_cons, hcode hliteral, Loop.code, hend, hopen, ih]

theorem afterBlock_of_mem_initializerBodiesFrom {x s opens after : List Char}
    (hmem : x ∈ initializerBodiesFrom s) (h : afterInitializerFrom opens s = .ok after) :
    ∃ rest, afterBlock x = .ok rest := by
  have hloop := (mem_initializerBodiesFrom_iff.1 hmem).after_eq opens
  rw [Loop.after, Loop.after, h, afterInitializerFrom_code (afterLiteral?_of_plain (by decide)
    (by decide) rfl x), if_neg (by decide), if_pos rfl] at hloop
  obtain ⟨rest, hblock, -⟩ := bind_eq_ok.1 hloop.symm
  exact ⟨rest, hblock⟩

theorem Opening.afterBlock_of_mem_bodies {opening : Opening} {x s after : List Char}
    (hmem : x ∈ opening.bodies s) (h : opening.pass s = .ok after) :
    ∃ rest, afterBlock x = .ok rest := by
  cases opening with
  | scope => cases hmem
  | body =>
      cases List.mem_singleton.1 hmem
      exact ⟨after, h⟩
  | property =>
      obtain ⟨mid, hblock, hinit⟩ := bind_eq_ok.1 h
      simp only [bodies, hblock] at hmem
      rcases List.mem_cons.1 hmem with rfl | hmem
      · exact ⟨mid, hblock⟩
      · unfold initializerBodies at hmem
        unfold afterInitializer at hinit
        split at hmem
        · rename_i hassign
          rw [if_pos hassign] at hinit
          exact afterBlock_of_mem_initializerBodiesFrom hmem hinit
        · cases hmem

/-- What a scan passes over ends, unless the scan fails. -/
theorem afterBlock_of_mem_bodies {st : State} {x s : List Char} {ds : List Declaration}
    (hmem : x ∈ bodies st s) (h : scanFrom st s = .ok ds) : ∃ rest, afterBlock x = .ok rest := by
  obtain ⟨last, rest, hcomes, hbodies⟩ := mem_bodies_iff.1 hmem
  rw [scanFrom_comesTo hcomes, scanFrom_cons, bind_eq_ok] at h
  obtain ⟨⟨st', after⟩, hnext, -⟩ := h
  exact last.opening.afterBlock_of_mem_bodies hbodies (State.next_brace_eq_ok.1 hnext).1

theorem mem_initializerBodies_replace {p x : List Char}
    (h : x ∈ initializerBodies (p ++ '\x7b' :: x)) (y : List Char) :
    y ∈ initializerBodies (p ++ '\x7b' :: y) := by
  obtain ⟨hp, hassign, hmem⟩ := mem_initializerBodies_brace h
  rw [atAssignment_append '\x7b' hp x y] at hassign
  rw [initializerBodies, if_pos hassign, mem_initializerBodiesFrom_iff]
  exact Loop.Reaches.replace (q := []) (mem_initializerBodiesFrom_iff.1 hmem) y

theorem Opening.mem_bodies_self {opening : Opening} (h : opening ≠ .scope) (s : List Char) :
    s ∈ opening.bodies s := by
  cases opening with
  | scope => exact absurd rfl h
  | body => exact List.mem_singleton_self s
  | property =>
      unfold bodies
      dsimp only
      split
      · exact List.mem_singleton_self s
      · exact List.mem_cons_self

theorem Opening.mem_bodies_replace {opening : Opening} {p x : List Char}
    (h : x ∈ opening.bodies (p ++ '\x7b' :: x)) (y : List Char) :
    y ∈ opening.bodies (p ++ '\x7b' :: y) := by
  obtain ⟨rfl, mid, hblock, hmem⟩ := mem_bodies_brace h
  obtain ⟨q, rfl, hread⟩ := local_afterBlock '\x7b' hblock (length_of_mem_initializerBodies hmem)
  simp only [bodies, hread y]
  exact List.mem_cons_of_mem _ (mem_initializerBodies_replace hmem y)

theorem ComesTo.exists_append {edge : Char} [IsEdge edge] {st last : State} {p x r : List Char}
    (h : ComesTo st (p ++ edge :: x) last r) (hlt : x.length < r.length) :
    ∃ q, r = q ++ edge :: x := by
  generalize hs : p ++ edge :: x = s at h
  induction h generalizing p with
  | here => exact ⟨p, hs.symm⟩
  | @step st st' last c rest after r hnext hcomes ih =>
      have hafter := Nat.lt_of_lt_of_le hlt hcomes.length_le
      obtain ⟨p, rfl, rfl⟩ :=
        exists_of_append_eq (u := [c]) hs (Nat.lt_of_lt_of_le hafter (State.next_length hnext))
      obtain ⟨q, rfl, -⟩ := State.local_next edge hnext hafter fun _ _ hedge => hedge
      exact ih hlt rfl

/-- Whether what stands behind a brace is passed over does not depend on it. -/
theorem mem_bodies_replace {st : State} {p x : List Char} (h : x ∈ bodies st (p ++ '\x7b' :: x))
    (y : List Char) : y ∈ bodies st (p ++ '\x7b' :: y) := by
  obtain ⟨last, rest, hcomes, hbodies⟩ := mem_bodies_iff.1 h
  have hlen : x.length < ('\x7b' :: rest).length :=
    length_of_mem_bodiesAt (State.mem_bodiesAt.2 ⟨rfl, hbodies⟩)
  obtain ⟨q, hq⟩ := hcomes.exists_append hlen
  rw [hq] at hcomes
  have hcomes' := hcomes.replace '\x7b' (.inl (atAssignment_brace y))
    (fun _ hedge => absurd hedge (by decide))
  cases q with
  | nil =>
      obtain rfl : rest = x := (List.cons.inj hq).2
      have hscope : last.opening ≠ .scope := fun hscope => by
        rw [hscope] at hbodies
        cases hbodies
      exact mem_bodies_iff.2 ⟨last, y, hcomes', Opening.mem_bodies_self hscope y⟩
  | cons c q =>
      obtain ⟨rfl, rfl⟩ := List.cons.inj hq
      exact mem_bodies_iff.2 ⟨last, _, hcomes', Opening.mem_bodies_replace hbodies y⟩

end Declaration
end DocPages

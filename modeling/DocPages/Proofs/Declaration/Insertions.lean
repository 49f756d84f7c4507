/-
Texts inserted into code that is passed over.

Three loops pass over code, and only the one for bodies reads comments; none reads directives.
So a comment is inert in a body, but elsewhere only if it is passed over as code:
`scan_insert_comment`.  A directive is inert in a body only if it is closed:
`scan_insert_directive`.
-/
import DocPages.Proofs.Declaration.Loops

namespace DocPages
namespace Declaration

open Text

/-! ## Attributes that are recorded -/

/-- All of a declaration but its attributes. -/
def bare (d : Declaration) : Declaration := { d with attributes := [] }

namespace State

def recorded (st : State) (attributes : List Attribute) : State :=
  { st with statement := { st.statement with attributes } }

theorem recorded_of_beside {f : State → State}
    (hf : ∀ st other : State, f (st.beside other) = (f st).beside other) (st : State)
    (attributes : List Attribute) : f (st.recorded attributes) = (f st).recorded attributes := by
  have hself : f st = (f st).beside st := hf st st
  have hother : f (st.recorded attributes) = (f st).beside (st.recorded attributes) :=
    hf st (st.recorded attributes)
  rw [hother, hself]
  rfl

end State

/-- While a statement goes on, its attributes are only added to. -/
theorem carried_recorded : Carried fun st other => ∃ attributes, other = st.recorded attributes where
  alike := by
    rintro st _ ⟨attributes, rfl⟩
    exact ⟨⟨rfl, rfl⟩, rfl, rfl⟩
  lineUsed := by
    rintro st _ ⟨attributes, rfl⟩
    rfl
  run := by
    rintro act st _ - hgoes ⟨attributes, rfl⟩
    cases act with
    | comment s text =>
        exact ⟨attributes, State.recorded_of_beside
          (fun st other => st.readComment_beside other s text) st attributes⟩
    | attributes inner => exact ⟨attributes ++ readAttributes inner, rfl⟩
    | openBrace =>
        have hother : ¬Act.openBrace.Ends (st.recorded attributes) := hgoes
        rw [Act.run, Act.run, State.braced_of_goes hgoes, State.braced_of_goes hother]
        exact ⟨attributes, rfl⟩
    | blank c =>
        exact ⟨attributes, State.recorded_of_beside (fun st other => st.blank_beside other c) st
          attributes⟩
    | directive | write => exact ⟨attributes, rfl⟩
    | semicolon | closeBrace => exact absurd trivial hgoes

/-- Other attributes in front of a statement are other attributes of its declaration. -/
theorem scanFrom_recorded {st : State} {s : List Char} {ds : List Declaration}
    (h : scanFrom st s = .ok ds) (attributes : List Attribute) :
    ∃ ds', scanFrom (st.recorded attributes) s = .ok ds' ∧ ds'.map bare = ds.map bare := by
  rcases scanFrom_related carried_recorded ⟨attributes, rfl⟩ h with
    ⟨last, _, names, kind, bases, more, ⟨_, rfl⟩, -, -, rfl, hscan⟩ | ⟨-, more, rfl, hscan⟩
  · refine ⟨_, hscan, ?_⟩
    rw [List.map_append, List.map_append, List.map_cons, List.map_cons]
    rfl
  · exact ⟨_, hscan, rfl⟩

theorem State.next_bracket {st st' : State} (h : st.headerBlank = true) {s after : List Char} :
    st.next '[' s = .ok (st', after) ↔
      ∃ inner, readSection ('[' :: s) s = .ok (inner, after) ∧ st' = st.attributeSection inner := by
  rw [State.next_code (afterComment?_of_ne (by decide) s) (fun hash => by cases hash.1)
    (afterLiteral?_of_plain (by decide) (by decide) rfl s), if_pos ⟨rfl, h⟩]
  cases readSection ('[' :: s) s with
  | error u =>
      constructor
      · intro h
        cases h
      · rintro ⟨_, ⟨⟩, _⟩
  | ok read =>
      obtain ⟨inner, rest⟩ := read
      constructor
      · intro h
        cases h
        exact ⟨inner, rfl, rfl⟩
      · rintro ⟨_, ⟨⟩, rfl⟩
        rfl

/-! ## Places between two parts of a source -/

/-- A scan of the two parts passes over code where the second one starts. -/
inductive PassesOver : Loop → Nat → List Char → List Char → Prop
  | block {before inner rest : List Char} {depth : Nat} :
      inner ++ rest ∈ bodies {} (before ++ '\x7b' :: (inner ++ rest)) →
      Loop.block.Reaches 0 (inner ++ rest) depth rest →
      PassesOver .block depth (before ++ '\x7b' :: inner) rest
  /-- Behind the sign that follows the body of a property. -/
  | initializer {before body inner rest : List Char} {st : State} {depth : Nat} :
      ComesTo {} (before ++ '\x7b' :: (body ++ (inner ++ rest))) st
        ('\x7b' :: (body ++ (inner ++ rest))) →
      st.opening = .property → afterBlock (body ++ (inner ++ rest)) = .ok (inner ++ rest) →
      atAssignment (inner ++ rest) = true → allBlank inner = false →
      Loop.initializer.Reaches 0 (inner ++ rest) depth rest →
      PassesOver .initializer depth (before ++ '\x7b' :: (body ++ inner)) rest
  | attributes {before inner rest : List Char} {st : State} {depth : Nat} :
      ComesTo {} (before ++ '[' :: (inner ++ rest)) st ('[' :: (inner ++ rest)) →
      st.headerBlank = true → Loop.attributes.Reaches 0 (inner ++ rest) depth rest →
      PassesOver .attributes depth (before ++ '[' :: inner) rest

theorem header_of_property {st : State} (h : st.opening = .property) :
    st.statement.header ≠ [] := by
  intro hheader
  have htrim : trim ([] : List Char) = [] := rfl
  have hassign : findAssignment [] = none := rfl
  have hname : stripStart? "namespace ".toList [] = none := rfl
  have htype : readTypeHeader [] = none := rfl
  unfold State.opening at h
  rw [hheader, htrim] at h
  simp only [hassign, hname, htype] at h
  cases henclosing : st.enclosingType with
  | none | some =>
      rw [henclosing] at h
      cases h

section Insert

variable {depth : Nat} {w : Char} {before inner t v : List Char} {st : State}
variable {ds : List Declaration} (hw : isBlank w = true)
include hw

theorem agree_insert_block
    (hmem : inner ++ w :: v ∈ bodies {} (before ++ '\x7b' :: (inner ++ w :: v)))
    (hreaches : Loop.block.Reaches 0 (inner ++ w :: v) depth (w :: v))
    (ht : ∀ opens, Loop.block.after opens depth (t ++ v) = Loop.block.after opens depth v) :
    Agree (scanFrom {} (before ++ '\x7b' :: (inner ++ w :: v)))
      (scanFrom {} (before ++ '\x7b' :: (inner ++ w :: (t ++ v)))) := by
  intro ds
  have hsame := Loop.after_insert hw hreaches ht
  constructor
  · intro hscan
    obtain ⟨after, hx⟩ := afterBlock_of_mem_bodies hmem hscan
    have hy : afterBlock (inner ++ w :: (t ++ v)) = .ok after :=
      afterBlockFrom_opens ((hsame _).trans hx) _
    exact (agree_scanFrom hx hy hmem ds).1 hscan
  · intro hscan
    have hmem' := mem_bodies_replace hmem (inner ++ w :: (t ++ v))
    obtain ⟨after, hy⟩ := afterBlock_of_mem_bodies hmem' hscan
    have hx : afterBlock (inner ++ w :: v) = .ok after :=
      afterBlockFrom_opens ((hsame _).symm.trans hy) _
    exact (agree_scanFrom hx hy hmem ds).2 hscan

theorem scanFrom_insert_initializer {body : List Char}
    (hcomes : ComesTo {} (before ++ '\x7b' :: (body ++ (inner ++ w :: v))) st
      ('\x7b' :: (body ++ (inner ++ w :: v))))
    (hopening : st.opening = .property)
    (hblock : afterBlock (body ++ (inner ++ w :: v)) = .ok (inner ++ w :: v))
    (hassign : atAssignment (inner ++ w :: v) = true) (hinner : allBlank inner = false)
    (hreaches : Loop.initializer.Reaches 0 (inner ++ w :: v) depth (w :: v))
    (ht : ∀ opens, Loop.initializer.after opens depth (t ++ v) = Loop.initializer.after opens depth v)
    (hscan : scanFrom {} (before ++ '\x7b' :: (body ++ (inner ++ w :: v))) = .ok ds) :
    scanFrom {} (before ++ '\x7b' :: (body ++ (inner ++ w :: (t ++ v)))) = .ok ds := by
  have hedge : IsEdge w := ⟨.inr hw⟩
  have hcomes' : ComesTo {} (before ++ '\x7b' :: (body ++ (inner ++ w :: (t ++ v)))) st
      ('\x7b' :: (body ++ (inner ++ w :: (t ++ v)))) := by
    have h := @ComesTo.replace w w _ _ _ _ (before ++ '\x7b' :: (body ++ inner))
      ('\x7b' :: (body ++ inner)) v (t ++ v) (by simpa using hcomes)
      (.inr (header_of_property hopening)) (fun h => absurd h (List.cons_ne_nil _ _))
    simpa using h
  rw [scanFrom_comesTo hcomes, scanFrom_cons, bind_eq_ok] at hscan
  obtain ⟨⟨st', after⟩, hnext, hrest⟩ := hscan
  obtain ⟨hpass, rfl⟩ := State.next_brace_eq_ok.1 hnext
  rw [hopening, Opening.pass, hblock] at hpass
  have hinit : Loop.initializer.after (inner ++ w :: v) 0 (inner ++ w :: v) = .ok after := by
    unfold afterInitializer at hpass
    rwa [Except.bind, if_pos hassign] at hpass
  have hblock' : afterBlock (body ++ (inner ++ w :: (t ++ v))) = .ok (inner ++ w :: (t ++ v)) := by
    rw [← List.append_assoc] at hblock ⊢
    obtain ⟨q, hq, hread⟩ := @local_afterBlock w w _ _ (body ++ inner) v _ hblock (by simp; omega)
    rw [List.append_cancel_right_eq] at hq
    rw [hread, hq]
  have hassign' : atAssignment (inner ++ w :: (t ++ v)) = true :=
    (@atAssignment_append w w _ _ inner hinner v (t ++ v)).symm.trans hassign
  have hpass' : st.opening.pass (body ++ (inner ++ w :: (t ++ v))) = .ok after := by
    rw [hopening, Opening.pass, hblock', Except.bind, afterInitializer, if_pos hassign']
    exact afterInitializerFrom_opens ((Loop.after_insert hw hreaches ht _).trans hinit) _
  rw [scanFrom_comesTo hcomes', scanFrom_cons, State.next_brace_eq_ok.2 ⟨hpass', rfl⟩]
  exact hrest

/-- The inside of a section is recorded, so the attributes may be others. -/
theorem scanFrom_insert_attributes
    (hcomes : ComesTo {} (before ++ '[' :: (inner ++ w :: v)) st ('[' :: (inner ++ w :: v)))
    (hblank : st.headerBlank = true)
    (hreaches : Loop.attributes.Reaches 0 (inner ++ w :: v) depth (w :: v))
    (ht : ∀ opens, Loop.attributes.after opens depth (t ++ v) = Loop.attributes.after opens depth v)
    (hassign : atAssignment (w :: (t ++ v)) = false)
    (hscan : scanFrom {} (before ++ '[' :: (inner ++ w :: v)) = .ok ds) :
    ∃ ds', scanFrom {} (before ++ '[' :: (inner ++ w :: (t ++ v))) = .ok ds' ∧
      ds'.map bare = ds.map bare := by
  have hedge : IsEdge w := ⟨.inr hw⟩
  have hcomes' : ComesTo {} (before ++ '[' :: (inner ++ w :: (t ++ v))) st
      ('[' :: (inner ++ w :: (t ++ v))) := by
    have h := @ComesTo.replace w w _ _ _ _ (before ++ '[' :: inner) ('[' :: inner) v (t ++ v)
      (by simpa using hcomes) (.inl hassign) (fun h => absurd h (List.cons_ne_nil _ _))
    simpa using h
  rw [scanFrom_comesTo hcomes, scanFrom_cons, bind_eq_ok] at hscan
  obtain ⟨⟨st', after⟩, hnext, hrest⟩ := hscan
  obtain ⟨text, hread, rfl⟩ := (State.next_bracket hblank).1 hnext
  obtain ⟨closing, hclosing, -, rfl⟩ := readSection_eq_ok.1 hread
  have hclosing' := toSectionEnd_opens ((Loop.after_insert hw hreaches ht _).trans hclosing)
    ('[' :: (inner ++ w :: (t ++ v)))
  have hnext' := (State.next_bracket hblank).2
    ⟨_, readSection_eq_ok.2 ⟨closing, hclosing', rfl, rfl⟩, rfl⟩
  obtain ⟨ds', hscan', hbare⟩ := scanFrom_recorded hrest _
  refine ⟨ds', ?_, hbare⟩
  rw [scanFrom_comesTo hcomes', scanFrom_cons, hnext']
  exact hscan'

end Insert

/-- A text at which the loop fails makes the scan fail. -/
theorem scanFrom_insert_ne {depth : Nat} {w : Char} {before inner r v : List Char}
    (hw : isBlank w = true) (hmem : inner ++ w :: v ∈ bodies {} (before ++ '\x7b' :: (inner ++ w :: v)))
    (hreaches : Loop.block.Reaches 0 (inner ++ w :: v) depth (w :: v))
    (hr : ∀ opens rest, Loop.block.after opens depth r ≠ .ok rest) (ds : List Declaration) :
    scanFrom {} (before ++ '\x7b' :: (inner ++ w :: r)) ≠ .ok ds := by
  intro hscan
  obtain ⟨rest, hblock⟩ := afterBlock_of_mem_bodies (mem_bodies_replace hmem (inner ++ w :: r)) hscan
  exact hr _ rest ((Loop.after_behind hw hreaches _ r).symm.trans hblock)

/-! ## Directives and comments -/

theorem afterCharBody_line {u : List Char} (hu : ∀ c ∈ u, c ∉ "'\\\n".toList) (v : List Char) :
    afterCharBody (u ++ '\n' :: v) = none := by
  induction u with
  | nil => rfl
  | cons c u ih =>
      have hc := hu c List.mem_cons_self
      simp only [String.reduceToList, List.mem_cons, List.not_mem_nil, or_false, not_or] at hc
      rw [List.cons_append, afterCharBody]
      · exact ih fun d hd => hu d (List.mem_cons_of_mem c hd)
      all_goals simp [hc]

/-- A quote that nothing on its line closes ends no body. -/
theorem afterBlockFrom_quote {s u : List Char} (h : LexicallyClosed s)
    (hu : ∀ c ∈ u, c ∉ "'\\\n".toList) (opens v rest : List Char) (depth : Nat) :
    afterBlockFrom opens depth (s ++ '\'' :: (u ++ '\n' :: v)) ≠ .ok rest := by
  have hparted : Parted s ('\'' :: (u ++ '\n' :: v)) := .inl (stops_cons (by decide) _)
  have hliteral : afterLiteral? ('\'' :: (u ++ '\n' :: v)) =
      some (.error ⟨.charLiteral, '\'' :: (u ++ '\n' :: v)⟩) := by
    have hat : atString ('\'' :: (u ++ '\n' :: v)) = false := rfl
    rw [afterLiteral?, hat, afterCharBody_line hu]
    rfl
  have hcomment : afterComment? ('\'' :: (u ++ '\n' :: v)) = none := rfl
  rw [afterBlockFrom_closed h opens depth hparted, afterBlockFrom.eq_def]
  simp only
  split
  · simp_all
  · simp_all
  · split <;> simp_all

/-- Between two lines of a body, a line that starts with a number sign is passed over if it is
closed.  With a quote that it does not close it is fatal. -/
theorem scan_insert_directive {before v : List Char} {depth : Nat}
    (h : PassesOver .block depth before ('\n' :: v)) :
    (∀ t, LexicallyClosed ('#' :: (t ++ ['\n'])) → ∀ ds,
      scan (String.ofList (before ++ '\n' :: v)) = .ok ds ↔
        scan (String.ofList (before ++ '\n' :: ('#' :: (t ++ '\n' :: v)))) = .ok ds) ∧
    ∀ t u, LexicallyClosed ('#' :: t) → (∀ c ∈ u, c ∉ "'\\\n".toList) → ∀ ds,
      scan (String.ofList (before ++ '\n' :: ('#' :: (t ++ '\'' :: (u ++ '\n' :: v))))) ≠ .ok ds := by
  have hw : isBlank '\n' = true := rfl
  cases h with
  | @block before inner _ _ hmem hreaches =>
      simp only [scan, mapError_eq_ok, String.toList_ofList, List.append_assoc, List.cons_append,
        ne_eq]
      constructor
      · intro t ht ds
        have hparted : Parted ('#' :: (t ++ ['\n'])) v := by
          refine .inr fun c hc => ?_
          rw [← List.cons_append, List.getLast?_concat] at hc
          cases hc
          decide
        have hpassed : ∀ opens, Loop.block.after opens depth ('#' :: (t ++ ['\n']) ++ v) =
            Loop.block.after opens depth v := fun opens =>
          afterBlockFrom_closed ht opens depth hparted
        have hagree := agree_insert_block hw hmem hreaches hpassed ds
        simpa using hagree
      · intro t u ht hu ds
        refine scanFrom_insert_ne hw hmem hreaches (fun opens rest => ?_) ds
        exact afterBlockFrom_quote ht hu opens v rest depth

/-- Behind the brace of a method. -/
def methodBefore : List Char := "class A \x7b\nvoid M() ".toList ++ ['\x7b']

def methodBehind : List Char := "\x7d\n\x7d\n".toList

theorem passesOver_method : PassesOver .block 0 methodBefore ('\n' :: methodBehind) := by
  have hmem : [] ++ '\n' :: methodBehind ∈
      bodies {} ("class A \x7b\nvoid M() ".toList ++ '\x7b' :: ([] ++ '\n' :: methodBehind)) := by
    decide +kernel
  exact .block hmem .here

theorem scan_method : scan (String.ofList (methodBefore ++ '\n' :: methodBehind)) =
    .ok [{ names := ["A"], kind := .classType }, { names := ["M"], kind := .method, parent := some 0 }] :=
  scan_eq_ok (by decide +kernel)

theorem scan_insert_directive_region :
    PassesOver .block 0 methodBefore ('\n' :: methodBehind) ∧
      LexicallyClosed ('#' :: ("region \"it's\"".toList ++ ['\n'])) ∧
      scan (String.ofList (methodBefore ++
          '\n' :: ('#' :: ("region \"it's\"".toList ++ '\n' :: methodBehind)))) =
        .ok [{ names := ["A"], kind := .classType },
             { names := ["M"], kind := .method, parent := some 0 }] := by
  have hclosed : LexicallyClosed ('#' :: ("region \"it's\"".toList ++ ['\n'])) := by
    have hquoted : Quoted '"' "it's".toList :=
      .plain (by decide) (by decide) (by decide) (.plain (by decide) (by decide) (by decide)
        (.plain (by decide) (by decide) (by decide) (.plain (by decide) (by decide) (by decide) .nil)))
    exact @closed_plain "#region ".toList _ rfl
      (.string (@StringLiteral.regular [] _ (by decide) hquoted) (stops_cons rfl _) (closed_run rfl))
  exact ⟨passesOver_method, hclosed,
    ((scan_insert_directive passesOver_method).1 _ hclosed _).1 scan_method⟩

/-- Between declarations such a line is passed over whatever it says. -/
theorem scan_insert_directive_apostrophe :
    PassesOver .block 0 methodBefore ('\n' :: methodBehind) ∧
      scan "class A \x7b\nvoid M() \x7b\n\x7d\n\x7d\n" =
        .ok [{ names := ["A"], kind := .classType },
             { names := ["M"], kind := .method, parent := some 0 }] ∧
      scan "class A \x7b\n#region it's\nvoid M() \x7b\n\x7d\n\x7d\n" =
        .ok [{ names := ["A"], kind := .classType },
             { names := ["M"], kind := .method, parent := some 0 }] ∧
      scan "class A \x7b\nvoid M() \x7b\n#region it's\n\x7d\n\x7d\n" =
        .error (.unterminated .charLiteral 3) :=
  ⟨passesOver_method, scan_method, scan_eq_ok (by decide +kernel), by decide +kernel⟩

/-- A comment may stand behind a blank of any code that is passed over.  In bodies it is read as
such.  Elsewhere it has to be passed over as code, and in a section it is recorded. -/
theorem scan_insert_comment {loop : Loop} {before v c : List Char} {w : Char} {depth : Nat}
    (h : PassesOver loop depth before (w :: v)) (hw : isBlank w = true) (hc : ¬"*/".toList <:+: c)
    (hcode : loop ≠ .block →
      loop.Reaches depth ("/*".toList ++ c ++ "*/".toList ++ v) depth v)
    {ds : List Declaration} (hscan : scan (String.ofList (before ++ w :: v)) = .ok ds) :
    ∃ ds', scan (String.ofList (before ++ w :: ("/*".toList ++ c ++ "*/".toList ++ v))) = .ok ds' ∧
      ds'.map bare = ds.map bare ∧ (loop ≠ .attributes → ds' = ds) := by
  have hassign : atAssignment (w :: ("/*".toList ++ c ++ "*/".toList ++ v)) = false := by
    rw [← List.singleton_append, atAssignment_blank (by simpa [allBlank] using hw)]
    rfl
  simp only [scan, mapError_eq_ok, String.toList_ofList] at hscan ⊢
  cases h with
  | block hmem hreaches =>
      have hpassed : ∀ opens, Loop.block.after opens depth ("/*".toList ++ c ++ "*/".toList ++ v) =
          Loop.block.after opens depth v := by
        intro opens
        have hcomment := afterComment?_block hc v
        simpa [Loop.after] using @afterBlockFrom_of_comment opens _ _ depth hcomment
      rw [List.append_assoc, List.cons_append] at hscan ⊢
      exact ⟨ds, (agree_insert_block hw hmem hreaches hpassed ds).1 hscan, rfl, fun _ => rfl⟩
  | initializer hcomes hopening hblock hassign' hinner hreaches =>
      have hpassed := (hcode (by decide)).after_eq
      rw [List.append_assoc, List.cons_append, List.append_assoc] at hscan ⊢
      exact ⟨ds, scanFrom_insert_initializer hw hcomes hopening hblock hassign' hinner hreaches
        hpassed hscan, rfl, fun _ => rfl⟩
  | attributes hcomes hblank hreaches =>
      have hpassed := (hcode (by decide)).after_eq
      rw [List.append_assoc, List.cons_append] at hscan ⊢
      obtain ⟨ds', hscan', hbare⟩ :=
        scanFrom_insert_attributes hw hcomes hblank hreaches hpassed hassign hscan
      exact ⟨ds', hscan', hbare, fun hne => absurd rfl hne⟩

/-- Behind the sign of the initializer of a property. -/
def propertyBefore : List Char := "class A \x7b\nint P ".toList ++ '\x7b' :: (" get; \x7d".toList ++ " =".toList)

def propertyBehind : List Char := "1;\n\x7d\n".toList

theorem passesOver_property : PassesOver .initializer 0 propertyBefore (' ' :: propertyBehind) := by
  have hcomes : ComesTo {} ("class A \x7b\nint P ".toList ++
      '\x7b' :: (" get; \x7d".toList ++ (" =".toList ++ ' ' :: propertyBehind))) _
      ('\x7b' :: (" get; \x7d".toList ++ (" =".toList ++ ' ' :: propertyBehind))) :=
    comesTo_walk (n := 16) rfl
  have hblock : afterBlock (" get; \x7d".toList ++ (" =".toList ++ ' ' :: propertyBehind)) =
      .ok (" =".toList ++ ' ' :: propertyBehind) :=
    @afterBlock_closed " get; ".toList (closed_run rfl) _
  have hreaches : Loop.initializer.Reaches 0 (" =".toList ++ ' ' :: propertyBehind) 0
      (' ' :: propertyBehind) := Loop.reaches_plain (by decide) 0 _
  exact .initializer hcomes (by decide +kernel) hblock rfl rfl hreaches

/-- A property with another text in its initializer. -/
theorem scan_insert_comment_initializer :
    PassesOver .initializer 0 propertyBefore (' ' :: propertyBehind) ∧
      ¬"*/".toList <:+: " one ".toList ∧
      Loop.initializer.Reaches 0 ("/*".toList ++ " one ".toList ++ "*/".toList ++ propertyBehind) 0
        propertyBehind ∧
      scan (String.ofList (propertyBefore ++
          ' ' :: ("/*".toList ++ " one ".toList ++ "*/".toList ++ propertyBehind))) =
        .ok [{ names := ["A"], kind := .classType },
             { names := ["P"], kind := .property, parent := some 0 }] := by
  have hinfix : ¬"*/".toList <:+: " one ".toList := by decide
  have hreaches : Loop.initializer.Reaches 0
      ("/*".toList ++ " one ".toList ++ "*/".toList ++ propertyBehind) 0 propertyBehind :=
    Loop.reaches_plain (by decide) 0 _
  have hscan : scan (String.ofList (propertyBefore ++ ' ' :: propertyBehind)) =
      .ok [{ names := ["A"], kind := .classType },
           { names := ["P"], kind := .property, parent := some 0 }] := scan_eq_ok (by decide +kernel)
  obtain ⟨ds', hscan', -, hsame⟩ :=
    scan_insert_comment passesOver_property rfl hinfix (fun _ => hreaches) hscan
  rw [hsame (by decide)] at hscan'
  exact ⟨passesOver_property, hinfix, hreaches, hscan'⟩

/-- A semicolon in the comment ends the initializer, and a bracket ends the section. -/
theorem scan_insert_comment_ends :
    PassesOver .initializer 0 propertyBefore (' ' :: propertyBehind) ∧
      scan "class A \x7b\nint P \x7b get; \x7d = 1;\n\x7d\n" =
        .ok [{ names := ["A"], kind := .classType },
             { names := ["P"], kind := .property, parent := some 0 }] ∧
      scan "class A \x7b\nint P \x7b get; \x7d = /* ; int x; */1;\n\x7d\n" =
        .ok [{ names := ["A"], kind := .classType },
             { names := ["P"], kind := .property, parent := some 0 },
             { names := ["x"], kind := .field, parent := some 0 }] ∧
      scan "[A( 1)]\nclass C;\n" =
        .ok [{ names := ["C"], kind := .classType, attributes := [⟨"A", [("", "1")]⟩] }] ∧
      scan "[A( /* it's */1)]\nclass C;\n" = .error (.unterminated .charLiteral 1) :=
  ⟨passesOver_property, scan_eq_ok (by decide +kernel), scan_eq_ok (by decide +kernel),
    scan_eq_ok (by decide +kernel), by decide +kernel⟩

end Declaration
end DocPages

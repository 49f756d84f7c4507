/-
What one step of a scan does to the declarations and the open scopes.

Most of what is read only adds to the current statement.  `Move` lists all that a step can
do beyond that, and `move_next` says that every step does one of these things.  A scan
makes one move after the other from nothing, so whatever moves keep holds of what is
scanned, and no proof after this file looks at how a text is read.
-/
import DocPages.Proofs.Declaration.Phrase
import DocPages.Proofs.Declaration.Transitions
import Mathlib.Data.List.Chain
import Mathlib.Data.List.TakeWhile

namespace DocPages
namespace Declaration

open Text

/-! ## Declared names are words -/

theorem isWord_cons {c : Char} (h : isIdentStart c = true) (rest : List Char) :
    IsWord (c :: rest.takeWhile isIdentChar) where
  starts := h
  inside := by
    intro d hd
    rcases List.mem_cons.1 hd with rfl | hrest
    · exact isIdentChar_of_isIdentStart h
    · exact List.mem_takeWhile_imp hrest

theorem isWord_takeWhile {s : List Char} (h : s.head?.any isIdentStart = true) :
    IsWord (s.takeWhile isIdentChar) := by
  cases s with
  | nil => exact absurd h (by decide)
  | cons c rest =>
      rw [List.takeWhile_cons_of_pos (isIdentChar_of_isIdentStart h)]
      exact isWord_cons h rest

/-- An identifier is a word behind at most one at sign. -/
theorem isWord_of_mem_identifiers {s name : List Char} (h : name ∈ identifiers s) :
    IsWord (name.dropWhile (· == '@')) := by
  rw [identifiers, List.mem_filterMap] at h
  obtain ⟨piece, hpiece, hname⟩ := h
  have hword : ∀ {c : Char}, isIdentStart c = true → ∀ rest : List Char,
      IsWord ((c :: rest.takeWhile isIdentChar).dropWhile (· == '@')) := by
    intro c hc rest
    have hat : (c == '@') = false := beq_of_isIdentStart hc rfl
    rw [List.dropWhile_cons_of_neg (by simp [hat])]
    exact isWord_cons hc rest
  fun_induction pieces s with
  | case1 => cases hpiece
  | case2 c rest _ hstart ih =>
      rcases List.mem_cons.1 hpiece with rfl | hrest
      · cases hname
        rw [Bool.or_eq_true, Bool.and_eq_true, beq_iff_eq] at hstart
        rcases hstart with hc | ⟨rfl, hnext⟩
        · exact hword hc rest
        · rw [List.dropWhile_cons_of_pos (by decide)]
          cases rest with
          | nil => exact absurd hnext (by decide)
          | cons d more =>
              rw [List.takeWhile_cons_of_pos (isIdentChar_of_isIdentStart hnext)]
              exact hword hnext more
      · exact ih hrest
  | case3 c rest _ _ ih =>
      rcases List.mem_cons.1 hpiece with rfl | hrest
      · cases hname
      · exact ih hrest

theorem isWord_lastIdentifier {s name : List Char} (h : lastIdentifier s = some name) :
    IsWord name := by
  rw [lastIdentifier, Option.map_eq_some_iff] at h
  obtain ⟨last, hlast, rfl⟩ := h
  exact isWord_of_mem_identifiers (List.mem_of_getLast? hlast)

theorem isWord_methodName {header typeName name : List Char}
    (h : methodName header typeName = some name) : IsWord name := by
  simp only [methodName] at h
  split at h
  · cases h
  · exact isWord_lastIdentifier (Option.filter_eq_some_iff.1 h).1

theorem isWord_propertyName {header name : List Char} (h : propertyName header = some name) :
    IsWord name := by
  rw [propertyName] at h
  split at h
  · cases h
  · exact isWord_lastIdentifier h

theorem isWord_fieldNames {header name : List Char} (h : name ∈ fieldNames header) :
    IsWord name := by
  rw [fieldNames, List.mem_filterMap] at h
  obtain ⟨declarator, _, hname⟩ := h
  exact isWord_lastIdentifier hname

theorem isWord_readTypeName {s name rest : List Char} (h : readTypeName s = some (name, rest)) :
    IsWord name := by
  simp only [readTypeName] at h
  split at h
  · split at h
    · rename_i hstart
      cases h
      exact isWord_takeWhile hstart
    · cases h
  · cases h

theorem isWord_readTyped {kind found : DeclKind} {first : String} {second : Option String}
    {s name rest : List Char} (h : readTyped kind first second s = some (found, name, rest)) :
    IsWord name := by
  simp only [readTyped, bind, pure] at h
  obtain ⟨after, _, h⟩ := Option.bind_eq_some_iff.1 h
  have hread : ∀ {s : List Char}, ((readTypeName s).bind fun found =>
      some (kind, found.1, found.2)) = some (found, name, rest) → IsWord name := by
    intro s hs
    obtain ⟨⟨name', rest'⟩, hname, heq⟩ := Option.bind_eq_some_iff.1 hs
    cases heq
    exact isWord_readTypeName hname
  cases second with
  | none => exact hread h
  | some word =>
      simp only at h
      split at h
      · obtain ⟨_, _, h⟩ := Option.bind_eq_some_iff.1 h
        exact hread h
      · cases h

theorem isWord_readType {s name rest : List Char} {kind : DeclKind}
    (h : readType s = some (kind, name, rest)) : IsWord name := by
  simp only [readType, Option.orElse_eq_orElse, Option.orElse_eq_or, Option.or_eq_some_iff] at h
  rcases h with h | ⟨-, h | ⟨-, h | ⟨-, h | ⟨-, h | ⟨-, h | ⟨-, h⟩⟩⟩⟩⟩⟩
  all_goals exact isWord_readTyped h

theorem isWord_findTypeFrom {prev : Option Char} {s before name rest : List Char}
    {kind : DeclKind} (h : findTypeFrom prev s = some (before, kind, name, rest)) :
    IsWord name := by
  induction s generalizing prev before with
  | nil => cases h
  | cons c s ih =>
      rw [findTypeFrom] at h
      split at h
      · rename_i found hfound
        cases h
        split at hfound
        · cases hfound
        · exact isWord_readType hfound
      · obtain ⟨found, hfound, heq⟩ := Option.map_eq_some_iff.1 h
        obtain ⟨before', kind', name', rest'⟩ := found
        cases heq
        exact ih hfound

theorem isWord_readTypeHeader {header : List Char} {type : TypeHeader}
    (h : readTypeHeader header = some type) : IsWord type.name := by
  rw [readTypeHeader] at h
  split at h
  · rename_i hfound
    split at h
    · cases h
    · cases h
      exact isWord_findTypeFrom hfound
  · cases h

/-! ## Moves -/

/-- The declarations so far and the open scopes, the innermost first. -/
abbrev Frame := List Declaration × List Scope

def State.frame (st : State) : Frame := (st.declarations, st.scopes)

/-- The index of the type whose body we are directly in. -/
def innermostType : List Scope → Option Nat
  | .typeScope index _ :: _ => some index
  | _ => none

/-- A declaration belongs to the type whose body it is directly in, its names are words,
and a type has one name. -/
structure MadeIn (scopes : List Scope) (d : Declaration) : Prop where
  parent : d.parent = innermostType scopes
  names : ∀ name ∈ d.names, IsWord name.toList
  single : d.kind.isContainer = true → ∃ name, d.names = [name]

/-- What a step may do.  Only a type with a body is both declared and opened. -/
inductive Move : Frame → Frame → Prop where
  | stay (f : Frame) : Move f f
  | declare {ds : List Declaration} {scopes : List Scope} {d : Declaration}
      (h : MadeIn scopes d) : Move (ds, scopes) (ds ++ [d], scopes)
  | openType {ds : List Declaration} {scopes : List Scope} {d : Declaration} (name : List Char)
      (h : MadeIn scopes d) (hc : d.kind.isContainer = true) :
      Move (ds, scopes) (ds ++ [d], .typeScope ds.length name :: scopes)
  | openNamespace {ds : List Declaration} {scopes : List Scope} (name : List Char) :
      Move (ds, scopes) (ds, .namespaceScope name :: scopes)
  | close {ds : List Declaration} {scopes : List Scope} (scope : Scope) :
      Move (ds, scope :: scopes) (ds, scopes)

namespace State

theorem frame_endStatement (st : State) : st.endStatement.frame = st.frame := rfl

theorem frame_touchLine (st : State) : st.touchLine.frame = st.frame := rfl

theorem enclosingType_eq (st : State) :
    st.enclosingType.map Prod.fst = innermostType st.frame.2 := by
  unfold enclosingType innermostType frame
  cases st.scopes with
  | nil => rfl
  | cons scope _ => cases scope <;> rfl

theorem frame_declare (st : State) {names : List (List Char)} (kind : DeclKind)
    (bases : List (List Char)) (hnames : ∀ name ∈ names, IsWord name)
    (hsingle : kind.isContainer = true → ∃ name, names = [name]) :
    ∃ d, MadeIn st.frame.2 d ∧ d.kind = kind ∧
      (st.declare names kind bases).frame = (st.frame.1 ++ [d], st.frame.2) := by
  refine ⟨_, ⟨st.enclosingType_eq, ?_, ?_⟩, rfl, rfl⟩
  · intro name hname
    obtain ⟨word, hword, rfl⟩ := List.mem_map.1 hname
    rw [String.toList_ofList]
    exact hnames word hword
  · intro hc
    obtain ⟨name, rfl⟩ := hsingle hc
    exact ⟨_, rfl⟩

theorem move_declare (st : State) {names : List (List Char)} (kind : DeclKind)
    (bases : List (List Char)) (hnames : ∀ name ∈ names, IsWord name)
    (hsingle : kind.isContainer = true → ∃ name, names = [name]) :
    Move st.frame (st.declare names kind bases).frame := by
  obtain ⟨d, hd, _, hframe⟩ := st.frame_declare kind bases hnames hsingle
  rw [hframe]
  exact .declare hd

theorem move_openType (st : State) {name : List Char} {kind : DeclKind}
    (bases : List (List Char)) (hname : ∀ n ∈ [name], IsWord n) (hc : kind.isContainer = true) :
    Move st.frame (((st.declare [name] kind bases).openScope
      (.typeScope st.declarations.length name)).endStatement).frame := by
  obtain ⟨d, hd, hkind, hframe⟩ := st.frame_declare kind bases hname fun _ => ⟨name, rfl⟩
  have hopened : (((st.declare [name] kind bases).openScope
      (.typeScope st.declarations.length name)).endStatement).frame =
        (st.frame.1 ++ [d], .typeScope st.frame.1.length name :: st.frame.2) := by
    have := congrArg Prod.fst hframe
    exact Prod.ext this rfl
  rw [hopened]
  exact .openType name hd (hkind ▸ hc)

theorem move_declareNamed (st : State) (kind : DeclKind) {name : Option (List Char)}
    (hname : ∀ n, name = some n → IsWord n) : Move st.frame (st.declareNamed kind name).frame := by
  cases name with
  | none => exact .stay _
  | some n =>
      refine st.move_declare kind [] (fun m hm => ?_) fun _ => ⟨n, rfl⟩
      rw [List.mem_singleton.1 hm]
      exact hname n rfl

theorem move_memberStatement (st : State) (header typeName : List Char) :
    Move st.frame (st.memberStatement header typeName).frame := by
  unfold memberStatement
  simp only
  split
  · exact .stay _
  · split
    · exact st.move_declareNamed .method fun _ => isWord_methodName
    · split
      · exact st.move_declareNamed .property fun _ => isWord_propertyName
      · split
        · exact .stay _
        · exact st.move_declare .field [] (fun _ => isWord_fieldNames) nofun

theorem isWord_of_mem_single {type : TypeHeader} {header : List Char}
    (h : readTypeHeader header = some type) : ∀ name ∈ [type.name], IsWord name := by
  intro name hname
  rw [List.mem_singleton.1 hname]
  exact isWord_readTypeHeader h

theorem move_semicolon (st : State) : Move st.frame st.semicolon.frame := by
  unfold semicolon
  simp only
  split
  · exact .stay _
  · split
    · exact .stay _
    · rename_i htype
      exact st.move_declare _ _ (isWord_of_mem_single htype) fun _ => ⟨_, rfl⟩
    · exact st.move_memberStatement _ _
    · exact .stay _

theorem move_braced (st : State) : Move st.frame st.braced.frame := by
  unfold braced
  simp only
  split
  · exact .stay _
  · split
    · exact .openNamespace _
    · rename_i type _ htype
      have hnames := isWord_of_mem_single htype
      split
      · rename_i hc
        exact st.move_openType type.bases hnames hc
      · rw [frame_touchLine, frame_endStatement]
        exact st.move_declare type.kind type.bases hnames fun _ => ⟨type.name, rfl⟩
    · split
      · rw [frame_touchLine, frame_endStatement]
        exact st.move_declareNamed .method fun _ => isWord_methodName
      · split
        · exact .stay _
        · rw [frame_touchLine, frame_endStatement]
          exact st.move_declareNamed .property fun _ => isWord_propertyName
    · exact .stay _

theorem frame_lineComment (st : State) (text : List Char) :
    (st.lineComment text).frame = st.frame := by
  unfold lineComment
  simp only
  split
  · split
    · rfl
    · split <;> rfl
  · rfl

theorem frame_blockComment (st : State) (text : List Char) :
    (st.blockComment text).frame = st.frame := by
  unfold blockComment
  simp only
  split <;> rfl

theorem frame_blank (st : State) (c : Char) : (st.blank c).frame = st.frame := by
  unfold blank
  simp only
  split <;> split <;> (try split) <;> rfl

theorem frame_readComment (st : State) (s text : List Char) :
    (st.readComment s text).frame = st.frame := by
  unfold readComment
  split
  · rfl
  · exact st.frame_lineComment _
  · rfl
  · exact st.frame_blockComment _
  · rfl

theorem CodeStep.move {st st' : State} {c : Char} {rest after : List Char}
    (h : st.CodeStep c rest st' after) : Move st.frame st'.frame := by
  cases h with
  | attributes => exact .stay _
  | openBrace => exact st.move_braced
  | semicolon => exact st.move_semicolon
  | @closeBrace scope outer _ hscopes =>
      unfold frame
      rw [hscopes]
      exact .close scope
  | blank =>
      rw [frame_blank]
      exact .stay _
  | write => exact .stay _

/-- Every step of a scan is a move. -/
theorem move_next {st st' : State} {c : Char} {rest after : List Char}
    (h : st.next c rest = .ok (st', after)) : Move st.frame st'.frame := by
  cases next_eq_ok_iff.1 h with
  | comment =>
      rw [frame_readComment]
      exact .stay _
  | directive => exact .stay _
  | literal => exact .stay _
  | code _ _ _ hstep => exact hstep.move

end State

/-! ## The moves of a scan -/

/-- The frames that scanning passes through, the given state's own first. -/
def trail (st : State) (s : List Char) : List Frame :=
  match s with
  | [] => [st.frame]
  | c :: rest =>
    match h : st.next c rest with
    | .error _ => [st.frame]
    | .ok (st', after) =>
      have := State.next_length h
      st.frame :: trail st' after
termination_by s.length

theorem trail_nil (st : State) : trail st [] = [st.frame] := by
  rw [trail]

theorem trail_cons {st st' : State} {c : Char} {rest after : List Char}
    (h : st.next c rest = .ok (st', after)) :
    trail st (c :: rest) = st.frame :: trail st' after := by
  rw [trail]
  split
  · rename_i h'
    rw [h] at h'
    cases h'
  · rename_i h'
    rw [h] at h'
    cases h'
    rfl

theorem head?_trail (st : State) (s : List Char) : (trail st s).head? = some st.frame := by
  unfold trail
  split
  · rfl
  · split <;> rfl

/-- What holds at the end of a text and before a step if it holds after it holds of every
scan that succeeds. -/
theorem scanFrom_induction {ds : List Declaration} {motive : State → List Char → Prop}
    (done : ∀ st : State, st.frame = (ds, []) → motive st [])
    (step : ∀ st c rest st' after, st.next c rest = .ok (st', after) → motive st' after →
      motive st (c :: rest))
    {st : State} {s : List Char} (h : scanFrom st s = .ok ds) : motive st s := by
  induction hn : s.length using Nat.strong_induction_on generalizing st s with
  | _ n ih =>
      cases s with
      | nil =>
          rw [scanFrom] at h
          split at h
          · rename_i hempty
            cases h
            exact done st (Prod.ext rfl (List.isEmpty_iff.1 hempty))
          · cases h
      | cons c rest =>
          rw [scanFrom_cons] at h
          cases hnext : st.next c rest with
          | error stop =>
              rw [hnext] at h
              cases h
          | ok found =>
              rw [hnext] at h
              have hlength := State.next_length hnext
              refine step st c rest found.1 found.2 hnext (ih found.2.length ?_ h rfl)
              rw [← hn, List.length_cons]
              exact Nat.lt_succ_of_le hlength

theorem trail_ends {st : State} {s : List Char} {ds : List Declaration}
    (h : scanFrom st s = .ok ds) : (trail st s).getLast? = some (ds, []) := by
  refine scanFrom_induction (motive := fun st s => (trail st s).getLast? = some (ds, [])) ?_ ?_ h
  · intro st hst
    rw [trail_nil, hst]
    rfl
  · intro st c rest st' after hnext ih
    rw [trail_cons hnext, List.getLast?_cons, ih]
    rfl

theorem trail_isChain {st : State} {s : List Char} {ds : List Declaration}
    (h : scanFrom st s = .ok ds) : (trail st s).IsChain Move := by
  refine scanFrom_induction (motive := fun st s => (trail st s).IsChain Move) ?_ ?_ h
  · intro st _
    rw [trail_nil]
    exact .singleton _
  · intro st c rest st' after hnext ih
    rw [trail_cons hnext, List.isChain_cons]
    refine ⟨?_, ih⟩
    intro f hf
    rw [head?_trail, Option.mem_some_iff] at hf
    rw [← hf]
    exact State.move_next hnext

/-- What each step between the frames of a trail keeps holds of the declarations. -/
theorem trail_keeps {R : Frame → Frame → Prop} {I : Frame → Prop} (start : I ([], []))
    (step : ∀ f g, R f g → I f → I g) {source : String} {ds : List Declaration}
    (h : scan source = .ok ds) (hchain : (trail {} source.toList).IsChain R) : I (ds, []) := by
  refine List.IsChain.induction I _ hchain step (fun hne => ?_) _
    (List.mem_of_getLast? (trail_ends (mapError_eq_ok.1 h)))
  rw [(List.head_eq_iff_head?_eq_some hne).2 (head?_trail {} source.toList)]
  exact start

/-- What every move keeps holds of the declarations of a source text. -/
theorem scan_keeps {I : Frame → Prop} (start : I ([], [])) (step : ∀ f g, Move f g → I f → I g)
    {source : String} {ds : List Declaration} (h : scan source = .ok ds) : I (ds, []) :=
  trail_keeps start step h (trail_isChain (mapError_eq_ok.1 h))

/-- What holds of every declaration that is made holds of all that are scanned. -/
theorem forall_of_scan {P : Declaration → Prop} (hmade : ∀ scopes d, MadeIn scopes d → P d)
    {source : String} {ds : List Declaration} (h : scan source = .ok ds) : ∀ d ∈ ds, P d := by
  refine scan_keeps (I := fun f => ∀ d ∈ f.1, P d) nofun ?_ h
  have hconcat : ∀ {ds : List Declaration} {scopes : List Scope} {new : Declaration},
      MadeIn scopes new → (∀ d ∈ ds, P d) → ∀ d ∈ ds ++ [new], P d := by
    intro ds scopes new hnew hds d hd
    rcases List.mem_append.1 hd with hd | hd
    · exact hds d hd
    · rw [List.mem_singleton.1 hd]
      exact hmade scopes new hnew
  intro f g hmove hf
  cases hmove with
  | stay => exact hf
  | declare hd => exact hconcat hd hf
  | openType name hd hc => exact hconcat hd hf
  | openNamespace name => exact hf
  | close scope => exact hf

/-- Whether a text scans to some declarations can be decided by `Except.toOption`. -/
theorem scan_eq_ok {source : String} {ds : List Declaration}
    (h : (scan source).toOption = some ds) : scan source = .ok ds := by
  cases hs : scan source with
  | error fault =>
      rw [hs] at h
      cases h
  | ok found =>
      rw [hs] at h
      cases h
      rfl

end Declaration
end DocPages

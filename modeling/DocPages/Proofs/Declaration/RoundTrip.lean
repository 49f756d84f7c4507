/-
Scanning undoes printing, apart from one kind of property.

`scan_print` says what is read back from any printed forest.  A property whose type has
an array of a type whose name ends in `this` is taken for an indexer, and is lost; all
else comes back as it was declared.
-/
import DocPages.Proofs.Declaration.Steps

namespace DocPages
namespace Declaration

open Text

/-! ## Between two declarations -/

/-- Nothing of the next statement has been read, and the line is empty. -/
def resting (declarations : List Declaration) (scopes : List Scope) : State :=
  { declarations, scopes }

/-- A statement of which only what leads it has been read. -/
structure Waiting (lead : Lead) (statement : Statement) : Prop where
  header : statement.header = []
  comment : statement.comment.getD [] = List.intercalate ['\n'] (lead.docs.map docText)
  attributes : statement.attributes = plainAttributes lead.attributes

def led (declarations : List Declaration) (scopes : List Scope) (statement : Statement) : State :=
  { resting declarations scopes with statement }

def placeOf (scopes : List Scope) : Place where
  namespaces := scopes.reverse.filterMap fun
    | .namespaceScope name => some name
    | .typeScope .. => none
  parent := match scopes with
    | .typeScope index _ :: _ => some index
    | _ => none

/-- The name of the type whose body we are directly in. -/
def ownerOf : List Scope → Option (List Char)
  | .typeScope _ name :: _ => some name
  | _ => none

section

variable (ds : List Declaration) (scopes : List Scope)

theorem scanFrom_newline {statement : Statement} (h : statement.header = []) (r : List Char) :
    scanFrom (led ds scopes statement).touchLine ('\n' :: r) =
      scanFrom (led ds scopes statement) r := by
  rw [scanFrom_blank (c := '\n') (by decide)]
  congr 1
  simp only [State.blank, State.touchLine, led, resting, h, if_true, List.isEmpty_nil,
    Bool.true_or]

theorem scanFrom_rested (r : List Char) :
    scanFrom (resting ds scopes).touchLine ('\n' :: r) = scanFrom (resting ds scopes) r :=
  scanFrom_newline ds scopes rfl r

/-! ## Documentation and attributes -/

/-- A comment that a further line would continue. -/
def commented (text : List Char) : Statement := { comment := some text, commentOpen := true }

theorem scanFrom_docLine (st : State) (line : DocLine) (r : List Char) :
    scanFrom st (docText line ++ '\n' :: r) =
      scanFrom (st.lineComment (docText line)) ('\n' :: r) :=
  scanFrom_doc line.oneLine line.threeSlashes

theorem scanFrom_docs (docs : List DocLine) (text r : List Char) :
    scanFrom (led ds scopes (commented text)) (docs.flatMap (fun d => docText d ++ ['\n']) ++ r) =
      scanFrom (led ds scopes (commented (text ++ docs.flatMap fun d => '\n' :: docText d))) r := by
  induction docs generalizing text with
  | nil => rw [List.flatMap_nil, List.flatMap_nil, List.append_nil, List.nil_append]
  | cons line docs ih =>
      have hline : (led ds scopes (commented text)).lineComment (docText line) =
          (led ds scopes (commented (text ++ '\n' :: docText line))).touchLine := rfl
      rw [List.flatMap_cons, List.append_assoc, List.append_assoc, List.singleton_append,
        scanFrom_docLine, hline, scanFrom_newline ds scopes rfl, ih,
        List.flatMap_cons, List.append_assoc]

theorem intercalate_newline (first : List Char) (rest : List DocLine) :
    List.intercalate ['\n'] (first :: rest.map docText) =
      first ++ rest.flatMap fun d => '\n' :: docText d := by
  induction rest generalizing first with
  | nil => simp [List.intercalate]
  | cons d rest ih =>
      rw [List.flatMap_cons, List.cons_append, ← ih (docText d)]
      simp [List.intercalate]

theorem exists_waiting_docs (docs : List DocLine) :
    ∃ statement, Waiting ⟨docs, []⟩ statement ∧ ∀ r,
      scanFrom (resting ds scopes) (docs.flatMap (fun d => docText d ++ ['\n']) ++ r) =
        scanFrom (led ds scopes statement) r := by
  cases docs with
  | nil => exact ⟨{}, ⟨rfl, rfl, rfl⟩, fun r => rfl⟩
  | cons line docs =>
      refine ⟨commented (docText line ++ docs.flatMap fun d => '\n' :: docText d),
        ⟨rfl, ?_, rfl⟩, fun r => ?_⟩
      · rw [List.map_cons, intercalate_newline]
        rfl
      · have hline : (resting ds scopes).lineComment (docText line) =
            (led ds scopes (commented (docText line))).touchLine := rfl
        rw [List.flatMap_cons, List.append_assoc, List.append_assoc, List.singleton_append,
          scanFrom_docLine, hline, scanFrom_newline ds scopes rfl, scanFrom_docs]

def withAttributes (statement : Statement) (attributes : List Attribute) : Statement :=
  { statement with attributes, attributed := true, commentOpen := false }

theorem exists_waiting (lead : Lead) :
    ∃ statement, Waiting lead statement ∧ ∀ r,
      scanFrom (resting ds scopes) (lead.text ++ r) = scanFrom (led ds scopes statement) r := by
  obtain ⟨statement, hwait, hdocs⟩ := exists_waiting_docs ds scopes lead.docs
  by_cases hempty : lead.attributes = []
  · refine ⟨statement, ⟨hwait.header, hwait.comment, ?_⟩, fun r => ?_⟩
    · rw [hwait.attributes, hempty]
    · rw [Lead.text, hempty, List.append_assoc]
      exact hdocs r
  · have hread := readAttributes_joined lead.attributes hempty
    refine ⟨withAttributes statement (plainAttributes lead.attributes),
      ⟨hwait.header, hwait.comment, rfl⟩, fun r => ?_⟩
    have htext : lead.text ++ r = lead.docs.flatMap (fun d => docText d ++ ['\n']) ++
        '[' :: (joined (attributeTexts lead.attributes) ++ ']' :: '\n' :: r) := by
      rw [Lead.text, if_neg (by simpa using hempty)]
      simp
    have hblank : (led ds scopes statement).headerBlank = true := by
      rw [State.headerBlank, led, hwait.header]
      rfl
    have hsection := (joined_phrase (bases_part lead.attributes)).readSection_append
      ('[' :: (joined (attributeTexts lead.attributes) ++ ']' :: '\n' :: r)) ('\n' :: r)
    have hstate : (led ds scopes statement).attributeSection
        (joined (attributeTexts lead.attributes)) =
          (led ds scopes
            (withAttributes statement (plainAttributes lead.attributes))).touchLine := by
      rw [State.attributeSection, hread]
      simp only [led, resting, hwait.attributes, plainAttributes, List.map_nil, List.nil_append]
      rfl
    have hheader : (withAttributes statement (plainAttributes lead.attributes)).header = [] :=
      hwait.header
    rw [htext, hdocs, scanFrom_section hblank hsection]
    exact (congrArg (fun st => scanFrom st ('\n' :: r)) hstate).trans
      (scanFrom_newline ds scopes hheader r)

/-! ## Declaring -/

/-- A declaration takes what waits for it, and nothing of the statement is left. -/
theorem declare_led {lead : Lead} {statement : Statement} (hw : Waiting lead statement)
    (header : List Char) (names : List Name) (kind : DeclKind) (bases : List TypeName) :
    (((led ds scopes statement).write header).declare (names.map (·.chars)) kind
      (bases.map TypeName.text)).endStatement =
        (resting (ds ++ [lead.declaration (placeOf scopes) names kind bases])
          scopes).touchLine := by
  have hparent : ((led ds scopes statement).write header).enclosingType.map Prod.fst =
      (placeOf scopes).parent := by
    cases scopes with
    | nil => rfl
    | cons scope scopes => cases scope <;> rfl
  have hnamespace : ((led ds scopes statement).write header).currentNamespace =
      List.intercalate ['.'] (placeOf scopes).namespaces := rfl
  have hcomment : ((led ds scopes statement).write header).statement.comment.getD [] =
      List.intercalate ['\n'] (lead.docs.map docText) := hw.comment
  have hattributes : ((led ds scopes statement).write header).statement.attributes =
      plainAttributes lead.attributes := hw.attributes
  simp only [State.declare, State.endStatement, hparent, hnamespace, hcomment, hattributes,
    List.map_map]
  rfl

theorem declareNamed_led {lead : Lead} {statement : Statement} (hw : Waiting lead statement)
    (header : List Char) (name : Name) (kind : DeclKind) :
    (((led ds scopes statement).write header).declareNamed kind (some name.chars)).endStatement =
      (resting (ds ++ [lead.declaration (placeOf scopes) [name] kind]) scopes).touchLine :=
  declare_led ds scopes hw header [name] kind []

theorem header_write {statement : Statement} (h : statement.header = []) (text : List Char) :
    ((led ds scopes statement).write text).statement.header = text := by
  simp only [State.write, State.setHeader, led, h, List.nil_append]

theorem enclosingType_write (statement : Statement) (text owner : List Char)
    (h : ownerOf scopes = some owner) :
    ∃ index, ((led ds scopes statement).write text).enclosingType = some (index, owner) := by
  cases scopes with
  | nil => cases h
  | cons scope scopes =>
      cases scope with
      | namespaceScope name => cases h
      | typeScope index name =>
          cases h
          exact ⟨index, rfl⟩

/-! ## Braces and semicolons -/

theorem openScope_endStatement (st : State) (scope : Scope) :
    (st.openScope scope).endStatement = st.endStatement.openScope scope := rfl

theorem openBrace_namespace (first : Name) (more : List Name) (r : List Char) :
    ((resting ds scopes).write (namespaceHeader (first :: more) ++ [' '])).openBrace r =
        .ok ((resting ds (.namespaceScope (namespaceName (first :: more)) :: scopes)).touchLine,
          r) := by
  have hh := namespaceHeader_isHeader first more
  have hheader : ∀ text, ((resting ds scopes).write text).statement.header = text :=
    header_write ds scopes rfl
  have hname : stripStart? "namespace ".toList (namespaceHeader (first :: more)) =
      some (namespaceName (first :: more)) := stripStart?_append _ _
  simp only [State.openBrace, hheader, hh.trim_space, hh.findAssignment_eq, hname,
    (namespaceName_part first more).listed.trim_eq, Option.isSome_none, pure, Except.pure]
  rw [if_neg (by decide)]
  rfl

section Brace

variable {lead : Lead} {statement : Statement} (hw : Waiting lead statement)
include hw

theorem openBrace_type {kind : DeclKind} (hkind : kind.isContainer = true) (name : Name)
    (bases : List TypeName) (r : List Char) :
    ((led ds scopes statement).write (typeHeader kind name bases ++ [' '])).openBrace r =
      .ok ((resting (ds ++ [lead.declaration (placeOf scopes) [name] kind bases])
        (.typeScope ds.length name.chars :: scopes)).touchLine, r) := by
  have hh := typeHeader_isHeader kind name bases
  have hns := typeHeader_notNamespace kind name bases
  obtain ⟨type, htype, hk, hn, hb⟩ := readTypeHeader_typeHeader (Or.inl hkind) name bases
  have hdeclare := declare_led ds scopes hw (typeHeader kind name bases ++ [' ']) [name] kind bases
  simp only [State.openBrace, header_write ds scopes hw.header, hh.trim_space,
    hh.findAssignment_eq, hns, htype, hk, hn, hb, hkind, Option.isSome_none, if_true, pure,
    Except.pure]
  rw [if_neg (by decide), openScope_endStatement]
  rw [List.map_singleton] at hdeclare
  rw [hdeclare]
  rfl

theorem openBrace_enum (name : Name) (body : Body) (r : List Char) :
    ((led ds scopes statement).write (typeHeader .enumType name [] ++ [' '])).openBrace
      (body.text ++ '\x7d' :: r) =
        .ok ((resting (ds ++ [lead.declaration (placeOf scopes) [name] .enumType])
          scopes).touchLine, r) := by
  have hh := typeHeader_isHeader .enumType name []
  have hns := typeHeader_notNamespace .enumType name []
  obtain ⟨type, htype, hk, hn, hb⟩ := readTypeHeader_typeHeader (Or.inr rfl) name []
  have hdeclare := declare_led ds scopes hw (typeHeader .enumType name [] ++ [' ']) [name]
    .enumType []
  have hkind : ¬ DeclKind.enumType.isContainer = true := by decide
  rw [List.map_singleton] at hdeclare
  simp only [State.openBrace, header_write ds scopes hw.header, hh.trim_space,
    hh.findAssignment_eq, hns, htype, hk, hn, hb, hkind, Option.isSome_none, bind,
    Except.bind, pure, Except.pure, afterBlock_closed body.closed, hdeclare]
  rw [if_neg (by decide)]
  rfl

variable {owner : List Char} (howner : ownerOf scopes = some owner)
include howner

/-- A header in a type that declares no type is that of a method or a property. -/
theorem openBrace_member {marks h : List Char} (hh : IsHeader h) (hp : Phrase reserved marks h)
    (body : Body) (r : List Char) :
    ((led ds scopes statement).write (h ++ [' '])).openBrace (body.text ++ '\x7d' :: r) =
      if h.contains '(' then
        .ok ((((led ds scopes statement).write (h ++ [' '])).declareNamed .method
          (methodName h owner)).endStatement.touchLine, r)
      else
        (afterInitializer r).map fun after =>
          ((((led ds scopes statement).write (h ++ [' '])).declareNamed .property
            (propertyName h)).endStatement.touchLine, after) := by
  obtain ⟨index, henclosing⟩ := enclosingType_write ds scopes statement (h ++ [' ']) owner howner
  simp only [State.openBrace, header_write ds scopes hw.header, hh.trim_space,
    hh.findAssignment_eq, member_notNamespace hh.starts hp, hp.readTypeHeader_eq_none (by decide),
    henclosing, hh.isEmpty_eq, Option.isSome_none, bind, Except.bind, pure, Except.pure,
    afterBlock_closed body.closed]
  rw [if_neg (by decide)]
  split
  · rfl
  · cases afterInitializer r <;> rfl

theorem openBrace_method (type : TypeExpr) (name : Name) (parameters : List (TypeExpr × Name))
    (hname : owner ≠ name.chars) (body : Body) (r : List Char) :
    ((led ds scopes statement).write (methodHeader type name parameters ++ [' '])).openBrace
      (body.text ++ '\x7d' :: r) =
        .ok ((resting (ds ++ [lead.declaration (placeOf scopes) [name] .method])
          scopes).touchLine, r) := by
  rw [openBrace_member ds scopes hw howner (methodHeader_isHeader type name parameters)
    (methodHeader_phrase type name parameters), if_pos (methodHeader_paren type name parameters),
    methodName_methodHeader type name parameters hname, declareNamed_led ds scopes hw]
  rfl

theorem openBrace_property (type : TypeExpr) (name : Name) (body : Body) {r : List Char}
    (hr : afterInitializer r = .ok r) :
    ((led ds scopes statement).write (propertyHeader type name ++ [' '])).openBrace
      (body.text ++ '\x7d' :: r) =
        .ok ((resting (ds ++ if type.hasThisArray then []
          else [lead.declaration (placeOf scopes) [name] .property]) scopes).touchLine, r) := by
  have hpart := propertyHeader_part type name
  have hparen : ¬ (propertyHeader type name).contains '(' = true := by
    rw [List.contains_iff_mem]
    exact hpart.phrase.notMem rfl (by decide) (by decide)
  rw [openBrace_member ds scopes hw howner hpart.isHeader hpart.phrase, if_neg hparen, hr,
    propertyName_propertyHeader]
  by_cases hthis : type.hasThisArray = true
  · rw [if_pos hthis, if_pos hthis, List.append_nil]
    rfl
  · rw [if_neg hthis, if_neg hthis, declareNamed_led ds scopes hw]
    rfl

theorem semicolon_member {marks h : List Char} (hh : IsHeader h) (hp : Phrase reserved marks h) :
    ((led ds scopes statement).write h).semicolon =
      if h.contains '(' then
        (((led ds scopes statement).write h).declareNamed .method (methodName h owner)).endStatement
      else if (fieldNames h).isEmpty then ((led ds scopes statement).write h).endStatement
      else (((led ds scopes statement).write h).declare (fieldNames h) .field).endStatement := by
  obtain ⟨index, henclosing⟩ := enclosingType_write ds scopes statement h owner howner
  simp only [State.semicolon, header_write ds scopes hw.header, hh.trim_eq, hh.isEmpty_eq,
    not_directive hh.starts (first_notMem hh.starts hp), member_notNamespace hh.starts hp,
    hp.readTypeHeader_eq_none (by decide), henclosing, State.memberStatement,
    hp.not_hasWord "event" (by decide), hp.not_hasWord "delegate" (by decide),
    hh.findAssignment_eq, Option.getD_none, Bool.or_false, Bool.false_eq_true, if_false]
  split
  · rfl
  · split <;> rfl

theorem semicolon_method (type : TypeExpr) (name : Name) (parameters : List (TypeExpr × Name))
    (hname : owner ≠ name.chars) :
    ((led ds scopes statement).write (methodHeader type name parameters)).semicolon =
      (resting (ds ++ [lead.declaration (placeOf scopes) [name] .method]) scopes).touchLine := by
  rw [semicolon_member ds scopes hw howner (methodHeader_isHeader type name parameters)
    (methodHeader_phrase type name parameters), if_pos (methodHeader_paren type name parameters),
    methodName_methodHeader type name parameters hname, declareNamed_led ds scopes hw]

theorem semicolon_field (type : TypeExpr) (first : Name) (more : List Name) :
    ((led ds scopes statement).write (fieldHeader type (first :: more))).semicolon =
      (resting (ds ++ [lead.declaration (placeOf scopes) (first :: more) .field])
        scopes).touchLine := by
  have hp := fieldHeader_phrase type first more
  have hparen : ¬ (fieldHeader type (first :: more)).contains '(' = true := by
    rw [List.contains_iff_mem]
    exact hp.notMem rfl (by decide) (by decide)
  rw [semicolon_member ds scopes hw howner (fieldHeader_isHeader type first more) hp,
    if_neg hparen, fieldNames_fieldHeader, if_neg (by simp)]
  exact declare_led ds scopes hw (fieldHeader type (first :: more)) (first :: more) .field []

end Brace

end

/-! ## What follows a declaration -/

/-- What follows is neither a blank nor an assignment, so no initializer. -/
abbrev Follows (s : List Char) : Prop := Stops (fun c => isBlank c || c == '=') s

theorem afterInitializer_newline {r : List Char} (h : Follows r) :
    afterInitializer ('\n' :: r) = .ok ('\n' :: r) := by
  have htrim : trimStart ('\n' :: r) = r := by
    rw [trimStart_blank (by decide)]
    apply trimStart_of_stops
    intro c hc
    have := h c hc
    simp only [Bool.or_eq_false_iff] at this
    exact this.1
  have hassign : atAssignment ('\n' :: r) = false := by
    rw [atAssignment, htrim]
    cases r with
    | nil => rfl
    | cons c r =>
        have hc : c ≠ '=' := by
          rintro rfl
          exact absurd (h '=' rfl) (by decide)
        split
        · rfl
        · rename_i e
          exact absurd (List.cons.inj e).1 hc
        · rfl
  rw [afterInitializer, hassign]
  rfl

theorem follows_of_starts {h : List Char} (hs : h.head?.any isIdentStart = true) (r : List Char) :
    Follows (h ++ r) := by
  cases h with
  | nil => exact absurd hs (by decide)
  | cons c rest =>
      apply stops_cons
      rw [not_isBlank_of_isIdentChar (isIdentChar_of_isIdentStart hs), Bool.false_or]
      exact beq_of_isIdentStart hs rfl

theorem follows_lead (lead : Lead) {s : List Char} (h : Follows s) : Follows (lead.text ++ s) := by
  rw [Lead.text, List.append_assoc]
  cases lead.docs with
  | cons line docs => exact stops_cons (by decide) _
  | nil =>
      rw [List.flatMap_nil, List.nil_append]
      split
      · exact h
      · exact stops_cons (by decide) _

theorem follows_member (m : Member) (r : List Char) : Follows (m.text ++ r) := by
  cases m with
  | field lead type first more =>
      rw [Member.text, List.append_assoc, List.append_assoc]
      exact follows_lead lead (follows_of_starts (fieldHeader_isHeader type first more).starts _)
  | method lead type name parameters body =>
      rw [Member.text, List.append_assoc, List.append_assoc]
      exact follows_lead lead
        (follows_of_starts (methodHeader_isHeader type name parameters).starts _)
  | property lead type name body =>
      rw [Member.text, List.append_assoc, List.append_assoc]
      exact follows_lead lead (follows_of_starts (propertyHeader_part type name).starts _)
  | enumeration lead name body =>
      rw [Member.text, List.append_assoc, List.append_assoc]
      exact follows_lead lead (follows_of_starts (typeHeader_isHeader .enumType name []).starts _)
  | type lead kind _ name bases members =>
      rw [Member.text, List.append_assoc, List.append_assoc]
      exact follows_lead lead (follows_of_starts (typeHeader_isHeader kind name bases).starts _)

theorem follows_members (members : List Member) {r : List Char} (hr : Follows r) :
    Follows (membersText members ++ r) := by
  cases members with
  | nil => exact hr
  | cons m rest =>
      rw [membersText, List.append_assoc]
      exact follows_member m _

theorem follows_entries (entries : List Entry) {r : List Char} (hr : Follows r) :
    Follows (entriesText entries ++ r) := by
  cases entries with
  | nil => exact hr
  | cons e rest =>
      rw [entriesText, List.append_assoc]
      cases e with
      | block first more inner => exact stops_cons (by decide) _
      | declaration member => exact follows_member member _

/-! ## Whole declarations -/

section Ends

variable {ds ds' : List Declaration} {scopes : List Scope} {statement : Statement}
  (hheader : statement.header = []) {h : List Char} (hh : IsHeader h)
include hheader hh

theorem scanFrom_body {body : Body} {r : List Char}
    (hopen : ((led ds scopes statement).write (h ++ [' '])).openBrace
      (body.text ++ '\x7d' :: '\n' :: r) = .ok ((resting ds' scopes).touchLine, '\n' :: r)) :
    scanFrom (led ds scopes statement) (h ++ (braced body.text ++ r)) =
      scanFrom (resting ds' scopes) r := by
  have htext : h ++ (braced body.text ++ r) =
      h ++ ' ' :: '\x7b' :: (body.text ++ '\x7d' :: '\n' :: r) := by
    simp [braced]
  rw [htext, hh.scanFrom_space hheader, scanFrom_brace hopen, scanFrom_rested]

theorem scanFrom_end {r : List Char}
    (hend : ((led ds scopes statement).write h).semicolon = (resting ds' scopes).touchLine) :
    scanFrom (led ds scopes statement) (h ++ (endText none ++ r)) =
      scanFrom (resting ds' scopes) r := by
  have htext : h ++ (endText none ++ r) = h ++ ';' :: '\n' :: r := rfl
  rw [htext, hh.scanFrom_append hheader, scanFrom_semicolon, hend, scanFrom_rested]

/-- A scope is left as it was entered, with what was declared inside. -/
theorem scanFrom_scope {inside r : List Char} {inner : List Declaration} {scope : Scope}
    (hopen : ∀ s, ((led ds scopes statement).write (h ++ [' '])).openBrace s =
      .ok ((resting ds' (scope :: scopes)).touchLine, s))
    (hinside : ∀ s, Follows s → scanFrom (resting ds' (scope :: scopes)) (inside ++ s) =
      scanFrom (resting inner (scope :: scopes)) s) :
    scanFrom (led ds scopes statement) (h ++ (braced ('\n' :: inside) ++ r)) =
      scanFrom (resting inner scopes) r := by
  have htext : h ++ (braced ('\n' :: inside) ++ r) =
      h ++ ' ' :: '\x7b' :: '\n' :: (inside ++ '\x7d' :: '\n' :: r) := by
    simp [braced]
  have hclose : scanFrom (resting inner (scope :: scopes)) ('\x7d' :: '\n' :: r) =
      scanFrom (resting inner scopes).touchLine ('\n' :: r) := scanFrom_close rfl
  rw [htext, hh.scanFrom_space hheader, scanFrom_brace (hopen _), scanFrom_rested,
    hinside _ (stops_cons (by decide) _), hclose, scanFrom_rested]

end Ends

/-- The types whose properties are read as such. -/
def readable (type : TypeExpr) : Bool := !type.hasThisArray

theorem placeOf_type (index : Nat) (name : List Char) (scopes : List Scope) :
    placeOf (.typeScope index name :: scopes) = { placeOf scopes with parent := some index } := by
  simp [placeOf]

theorem placeOf_namespace (name : List Char) (scopes : List Scope) :
    placeOf (.namespaceScope name :: scopes) = ⟨(placeOf scopes).namespaces ++ [name], none⟩ := by
  simp [placeOf]

mutual
/-- The step of the induction: a member adds just its declarations. -/
theorem Member.scanFrom_text : (m : Member) → (ds : List Declaration) → (scopes : List Scope) →
    m.Fits (ownerOf scopes) → (r : List Char) → Follows r →
    scanFrom (resting ds scopes) (m.text ++ r) =
      scanFrom (resting (ds ++ m.declared readable (placeOf scopes) ds.length) scopes) r
  | .field lead type first more, ds, scopes, hfits, r, _ => by
      rw [Member.Fits] at hfits
      obtain ⟨owner, howner⟩ := Option.isSome_iff_exists.1 hfits
      obtain ⟨statement, hw, hlead⟩ := exists_waiting ds scopes lead
      rw [Member.text, List.append_assoc, List.append_assoc, hlead]
      exact scanFrom_end hw.header (fieldHeader_isHeader type first more)
        (semicolon_field ds scopes hw howner type first more)
  | .method lead type name parameters none, ds, scopes, hfits, r, _ => by
      rw [Member.Fits] at hfits
      obtain ⟨owner, howner⟩ := Option.isSome_iff_exists.1 hfits.1
      obtain ⟨statement, hw, hlead⟩ := exists_waiting ds scopes lead
      have hname : owner ≠ name.chars := fun e => hfits.2 (e ▸ howner)
      rw [Member.text, List.append_assoc, List.append_assoc, hlead]
      exact scanFrom_end hw.header (methodHeader_isHeader type name parameters)
        (semicolon_method ds scopes hw howner type name parameters hname)
  | .method lead type name parameters (some body), ds, scopes, hfits, r, _ => by
      rw [Member.Fits] at hfits
      obtain ⟨owner, howner⟩ := Option.isSome_iff_exists.1 hfits.1
      obtain ⟨statement, hw, hlead⟩ := exists_waiting ds scopes lead
      have hname : owner ≠ name.chars := fun e => hfits.2 (e ▸ howner)
      rw [Member.text, List.append_assoc, List.append_assoc, hlead]
      exact scanFrom_body hw.header (methodHeader_isHeader type name parameters)
        (openBrace_method ds scopes hw howner type name parameters hname body _)
  | .property lead type name body, ds, scopes, hfits, r, hr => by
      rw [Member.Fits] at hfits
      obtain ⟨owner, howner⟩ := Option.isSome_iff_exists.1 hfits
      obtain ⟨statement, hw, hlead⟩ := exists_waiting ds scopes lead
      have hopen := openBrace_property ds scopes hw howner type name body
        (afterInitializer_newline hr)
      rw [Member.text, List.append_assoc, List.append_assoc, hlead,
        scanFrom_body hw.header (propertyHeader_part type name).isHeader hopen, Member.declared,
        readable]
      cases type.hasThisArray <;> rfl
  | .enumeration lead name body, ds, scopes, _, r, _ => by
      obtain ⟨statement, hw, hlead⟩ := exists_waiting ds scopes lead
      rw [Member.text, List.append_assoc, List.append_assoc, hlead]
      exact scanFrom_body hw.header (typeHeader_isHeader .enumType name [])
        (openBrace_enum ds scopes hw name body _)
  | .type lead kind hkind name bases members, ds, scopes, hfits, r, _ => by
      rw [Member.Fits] at hfits
      obtain ⟨statement, hw, hlead⟩ := exists_waiting ds scopes lead
      rw [Member.text, List.append_assoc, List.append_assoc, hlead, Member.declared,
        List.append_cons]
      -- The members are scanned in the scope of the type, whose index is the place of its
      -- own declaration in the list so far.
      apply scanFrom_scope hw.header (typeHeader_isHeader kind name bases)
        (openBrace_type ds scopes hw hkind name bases)
      intro s hs
      rw [scanFrom_membersText members _ (.typeScope ds.length name.chars :: scopes) hfits s hs,
        placeOf_type, List.length_append]
      rfl

theorem scanFrom_membersText : (members : List Member) → (ds : List Declaration) →
    (scopes : List Scope) → MembersFit (ownerOf scopes) members → (r : List Char) → Follows r →
    scanFrom (resting ds scopes) (membersText members ++ r) =
      scanFrom (resting (ds ++ membersDeclared readable (placeOf scopes) ds.length members)
        scopes) r
  | [], ds, scopes, _, r, _ => by
      rw [membersText, membersDeclared, List.nil_append, List.append_nil]
  | m :: rest, ds, scopes, hfits, r, hr => by
      rw [MembersFit] at hfits
      rw [membersText, List.append_assoc,
        Member.scanFrom_text m ds scopes hfits.1 _ (follows_members rest hr),
        scanFrom_membersText rest _ scopes hfits.2 r hr, membersDeclared, List.length_append,
        List.append_assoc]
end

mutual
theorem Entry.scanFrom_text : (e : Entry) → (ds : List Declaration) → (scopes : List Scope) →
    ownerOf scopes = none → (placeOf scopes).parent = none → e.Fits → (r : List Char) → Follows r →
    scanFrom (resting ds scopes) (e.text ++ r) =
      scanFrom (resting (ds ++ e.declared readable (placeOf scopes).namespaces ds.length) scopes) r
  | .block first more entries, ds, scopes, _, _, hfits, r, _ => by
      rw [Entry.Fits] at hfits
      rw [Entry.text, Entry.declared, List.append_assoc]
      apply @scanFrom_scope ds ds scopes {} rfl _ (namespaceHeader_isHeader first more)
      · exact openBrace_namespace ds scopes first more
      · intro s hs
        rw [scanFrom_entriesText entries ds
          (.namespaceScope (namespaceName (first :: more)) :: scopes) rfl rfl hfits s hs,
          placeOf_namespace]
  | .declaration member, ds, scopes, howner, hparent, hfits, r, hr => by
      rw [Entry.Fits, ← howner] at hfits
      have hplace : placeOf scopes = ⟨(placeOf scopes).namespaces, none⟩ := by rw [← hparent]
      rw [Entry.text, Entry.declared, ← hplace]
      exact member.scanFrom_text ds scopes hfits r hr

theorem scanFrom_entriesText : (entries : List Entry) → (ds : List Declaration) →
    (scopes : List Scope) → ownerOf scopes = none → (placeOf scopes).parent = none →
    EntriesFit entries → (r : List Char) → Follows r →
    scanFrom (resting ds scopes) (entriesText entries ++ r) =
      scanFrom (resting (ds ++ entriesDeclared readable (placeOf scopes).namespaces ds.length
        entries) scopes) r
  | [], ds, scopes, _, _, _, r, _ => by
      rw [entriesText, entriesDeclared, List.nil_append, List.append_nil]
  | e :: rest, ds, scopes, howner, hparent, hfits, r, hr => by
      rw [EntriesFit] at hfits
      rw [entriesText, List.append_assoc,
        e.scanFrom_text ds scopes howner hparent hfits.1 _ (follows_entries rest hr),
        scanFrom_entriesText rest _ scopes howner hparent hfits.2 r hr, entriesDeclared,
        List.length_append, List.append_assoc]
end

/-- Every printed forest can be scanned, and all its declarations are found but the
properties that look like indexers. -/
theorem scan_print_readable {forest : List Entry} (h : EntriesFit forest) :
    scan (print forest) = .ok (declared readable forest) := by
  have hrun := scanFrom_entriesText forest [] [] rfl rfl h [] (stops_nil _)
  rw [List.append_nil, List.nil_append, List.length_nil] at hrun
  have hend : scanFrom (resting (declared readable forest) []) [] =
      .ok (declared readable forest) := by
    rw [scanFrom.eq_def]
    rfl
  rw [scan, print, String.toList_ofList]
  have : scanFrom {} (entriesText forest) = .ok (declared readable forest) := hrun.trans hend
  rw [this]
  rfl

/-! ## Which declarations are lost -/

section Lost

variable (keep : TypeExpr → Bool)

mutual
theorem Member.length_declared : (m : Member) → (place place' : Place) → (start start' : Nat) →
    (m.declared keep place start).length + (m.propertyTypes.countP fun t => !keep t) =
      (m.declared (fun _ => true) place' start').length
  | .field .., _, _, _, _ => rfl
  | .method .., _, _, _, _ => rfl
  | .property _ type _ _, _, _, _, _ => by
      rw [Member.declared, Member.declared, Member.propertyTypes]
      cases h : keep type <;> simp [h]
  | .enumeration .., _, _, _, _ => rfl
  | .type _ _ _ _ _ members, place, place', start, start' => by
      have := length_membersDeclared members { place with parent := some start }
        { place' with parent := some start' } (start + 1) (start' + 1)
      rw [Member.declared, Member.declared, Member.propertyTypes, List.length_cons,
        List.length_cons]
      omega

theorem length_membersDeclared : (members : List Member) → (place place' : Place) →
    (start start' : Nat) →
    (membersDeclared keep place start members).length +
      ((membersPropertyTypes members).countP fun t => !keep t) =
        (membersDeclared (fun _ => true) place' start' members).length
  | [], _, _, _, _ => rfl
  | m :: rest, place, place', start, start' => by
      have hm := m.length_declared place place' start start'
      have hrest := length_membersDeclared rest place place'
        (start + (m.declared keep place start).length)
        (start' + (m.declared (fun _ => true) place' start').length)
      rw [membersDeclared, membersDeclared, membersPropertyTypes, List.length_append,
        List.length_append, List.countP_append]
      omega
end

mutual
theorem Entry.length_declared : (e : Entry) → (namespaces namespaces' : List (List Char)) →
    (start start' : Nat) →
    (e.declared keep namespaces start).length + (e.propertyTypes.countP fun t => !keep t) =
      (e.declared (fun _ => true) namespaces' start').length
  | .block _ _ entries, _, _, start, start' => by
      rw [Entry.declared, Entry.declared, Entry.propertyTypes]
      exact length_entriesDeclared entries _ _ start start'
  | .declaration member, _, _, start, start' => by
      rw [Entry.declared, Entry.declared, Entry.propertyTypes]
      exact member.length_declared keep _ _ start start'

theorem length_entriesDeclared : (entries : List Entry) →
    (namespaces namespaces' : List (List Char)) → (start start' : Nat) →
    (entriesDeclared keep namespaces start entries).length +
      ((propertyTypes entries).countP fun t => !keep t) =
        (entriesDeclared (fun _ => true) namespaces' start' entries).length
  | [], _, _, _, _ => rfl
  | e :: rest, namespaces, namespaces', start, start' => by
      have he := e.length_declared namespaces namespaces' start start'
      have hrest := length_entriesDeclared rest namespaces namespaces'
        (start + (e.declared keep namespaces start).length)
        (start' + (e.declared (fun _ => true) namespaces' start').length)
      rw [entriesDeclared, entriesDeclared, propertyTypes, List.length_append,
        List.length_append, List.countP_append]
      omega
end

mutual
theorem Member.declared_eq : (m : Member) → (∀ t ∈ m.propertyTypes, keep t = true) →
    (place : Place) → (start : Nat) →
    m.declared keep place start = m.declared (fun _ => true) place start
  | .field .., _, _, _ => rfl
  | .method .., _, _, _ => rfl
  | .property _ type _ _, h, _, _ => by
      have := h type (by rw [Member.propertyTypes]; exact List.mem_cons_self)
      rw [Member.declared, Member.declared, this]
  | .enumeration .., _, _, _ => rfl
  | .type _ _ _ _ _ members, h, place, start => by
      rw [Member.propertyTypes] at h
      rw [Member.declared, Member.declared, membersDeclared_eq members h]

theorem membersDeclared_eq : (members : List Member) →
    (∀ t ∈ membersPropertyTypes members, keep t = true) → (place : Place) → (start : Nat) →
    membersDeclared keep place start members =
      membersDeclared (fun _ => true) place start members
  | [], _, _, _ => rfl
  | m :: rest, h, place, start => by
      rw [membersPropertyTypes] at h
      rw [membersDeclared, membersDeclared,
        m.declared_eq (fun t ht => h t (List.mem_append_left _ ht)),
        membersDeclared_eq rest fun t ht => h t (List.mem_append_right _ ht)]
end

mutual
theorem Entry.declared_eq : (e : Entry) → (∀ t ∈ e.propertyTypes, keep t = true) →
    (namespaces : List (List Char)) → (start : Nat) →
    e.declared keep namespaces start = e.declared (fun _ => true) namespaces start
  | .block _ _ entries, h, namespaces, start => by
      rw [Entry.propertyTypes] at h
      rw [Entry.declared, Entry.declared, entriesDeclared_eq entries h]
  | .declaration member, h, namespaces, start => by
      rw [Entry.propertyTypes] at h
      rw [Entry.declared, Entry.declared, member.declared_eq keep h]

theorem entriesDeclared_eq : (entries : List Entry) →
    (∀ t ∈ propertyTypes entries, keep t = true) → (namespaces : List (List Char)) →
    (start : Nat) →
    entriesDeclared keep namespaces start entries =
      entriesDeclared (fun _ => true) namespaces start entries
  | [], _, _, _ => rfl
  | e :: rest, h, namespaces, start => by
      rw [propertyTypes] at h
      rw [entriesDeclared, entriesDeclared,
        e.declared_eq (fun t ht => h t (List.mem_append_left _ ht)),
        entriesDeclared_eq rest fun t ht => h t (List.mem_append_right _ ht)]
end

/-- The list is complete just if no property is left out. -/
theorem declared_eq_iff (forest : List Entry) :
    declared keep forest = declared (fun _ => true) forest ↔
      ∀ t ∈ propertyTypes forest, keep t = true := by
  constructor
  · -- What is left out makes the list shorter, whatever it does to the indices.
    intro h t ht
    have hlen := length_entriesDeclared keep forest [] [] 0 0
    have hsame : (entriesDeclared keep [] 0 forest).length =
        (entriesDeclared (fun _ => true) [] 0 forest).length := congrArg List.length h
    have hzero : ((propertyTypes forest).countP fun t => !keep t) = 0 := by omega
    simpa using List.countP_eq_zero.1 hzero t ht
  · intro h
    exact entriesDeclared_eq keep forest h [] 0

end Lost

/-- Scanning a printed forest never fails and finds its declarations, in their order and
with all they carry, but for the properties whose type has an array of a type with a
name that ends in `this`.  So it undoes printing just if there are no such properties. -/
theorem scan_print (forest : List Entry) (h : EntriesFit forest) :
    scan (print forest) = .ok (declared (fun t => !t.hasThisArray) forest) ∧
      (scan (print forest) = .ok (declared (fun _ => true) forest) ↔
        ∀ t ∈ propertyTypes forest, t.hasThisArray = false) := by
  have hscan : scan (print forest) = .ok (declared readable forest) := scan_print_readable h
  refine ⟨hscan, ?_⟩
  rw [hscan, Except.ok.injEq, declared_eq_iff]
  simp only [readable, Bool.not_eq_true']

/-! ## Samples -/

def nameOf (text : String) (h : (text.toList.head?.any isIdentStart &&
    text.toList.all isIdentChar && !reserved.contains text.toList) = true) : Name where
  chars := text.toList
  word := by
    simp only [Bool.and_eq_true] at h
    exact ⟨h.1.1, List.all_eq_true.1 h.1.2⟩
  free := by
    simp only [Bool.and_eq_true, Bool.not_eq_true'] at h
    intro hmem
    rw [List.contains_iff_mem.2 hmem] at h
    cases h.2

def plainType (name : Name) : TypeExpr := .named (.simple name [])

def bareLead : Lead := ⟨[], []⟩

/-- `class A` with a property whose type is an array of `Othis`. -/
def lostSample : List Entry :=
  [.declaration (.type bareLead .classType rfl (nameOf "A" rfl) []
    [.property bareLead (.array (plainType (nameOf "Othis" rfl)) 0) (nameOf "P" rfl)
      ⟨" get; ".toList ++ [], closed_plain rfl .nil⟩])]

theorem fits_lostSample : EntriesFit lostSample := by
  simp [lostSample, EntriesFit, Entry.Fits, Member.Fits, MembersFit]

/-- Printing is not always undone: the property of the sample is lost. -/
theorem scan_print_lostSample :
    ¬ ∀ forest, EntriesFit forest →
      scan (print forest) = .ok (declared (fun _ => true) forest) := by
  intro h
  have hall := h lostSample fits_lostSample
  rw [scan_print_readable fits_lostSample, Except.ok.injEq, declared_eq_iff] at hall
  exact absurd (hall (.array (plainType (nameOf "Othis" rfl)) 0) List.mem_cons_self) (by decide)

example : print lostSample = "class A \x7b\nOthis[] P \x7b get; \x7d\n\x7d\n" := by decide

def noisyBody : Body where
  text := " return ".toList ++ ("\"\x7d\"".toList ++ ("; ".toList ++ "// \x7b\n".toList))
  closed := by
    have hquoted : Quoted '"' ['\x7d'] := .plain (by decide) (by decide) (by decide) .nil
    have hliteral : StringLiteral "\"\x7d\"".toList :=
      @StringLiteral.regular [] _ (by decide) hquoted
    apply closed_plain rfl
    refine .string hliteral (stops_cons rfl _) ?_
    apply closed_plain rfl
    exact .lineComment (t := " \x7b".toList) (by decide) .nil

/-- Two namespaces, and a type with members of every kind. -/
def playerSample : List Entry :=
  [.block (nameOf "Game" rfl) [nameOf "Core" rfl]
    [.block (nameOf "Actors" rfl) []
      [.declaration (.type
        ⟨[⟨" A player.".toList, by decide, stops_cons rfl _⟩, ⟨[], by decide, stops_nil _⟩],
          [.simple (nameOf "Tracked" rfl) [],
            .member (.simple (nameOf "Game" rfl) []) (nameOf "Saved" rfl)
              [.array (plainType (nameOf "int" rfl)) 1]]⟩
        .classType rfl (nameOf "Player" rfl)
        [.simple (nameOf "Actor" rfl) [],
          .simple (nameOf "IDictionary" rfl)
            [plainType (nameOf "string" rfl), .nullable (plainType (nameOf "int" rfl))]]
        [.field bareLead (.array (plainType (nameOf "int" rfl)) 0) (nameOf "x" rfl)
            [nameOf "y" rfl],
          .property bareLead (.array (plainType (nameOf "Othis" rfl)) 0) (nameOf "Lost" rfl)
            noisyBody,
          .type bareLead .structType rfl (nameOf "Inner" rfl) []
            [.method bareLead (plainType (nameOf "void" rfl)) (nameOf "Player" rfl) [] none],
          .method bareLead (plainType (nameOf "void" rfl)) (nameOf "Hit" rfl)
            [(plainType (nameOf "int" rfl), nameOf "amount" rfl)] (some noisyBody),
          .property bareLead (plainType (nameOf "string" rfl)) (nameOf "Name" rfl) noisyBody])],
    .declaration (.enumeration bareLead (nameOf "Mode" rfl) noisyBody)]]

theorem scan_print_playerSample :
    EntriesFit playerSample ∧
      (scan (print playerSample) = .ok (declared (fun t => !t.hasThisArray) playerSample) ∧
        (scan (print playerSample) = .ok (declared (fun _ => true) playerSample) ↔
          ∀ t ∈ propertyTypes playerSample, t.hasThisArray = false)) ∧
      ((declared (fun t => !t.hasThisArray) playerSample).map fun d => (d.names, d.parent)) =
        [(["Player"], none), (["x", "y"], some 0), (["Inner"], some 0), (["Player"], some 2),
          (["Hit"], some 0), (["Name"], some 0), (["Mode"], none)] := by
  have hfits : EntriesFit playerSample := by
    simp [playerSample, EntriesFit, Entry.Fits, Member.Fits, MembersFit, nameOf]
  exact ⟨hfits, scan_print playerSample hfits, by decide⟩

end Declaration
end DocPages

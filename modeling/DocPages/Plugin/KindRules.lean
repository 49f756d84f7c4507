/-
Kinds by attribute: items of one kind that carry an attribute get another kind.

The first rule that fits an item decides.  Rules are stored as JSON, as an object with a
list of items or, by position, as arrays.
-/
import DocPages.Json.Value
import DocPages.Plugin.Pipeline

namespace DocPages

/-- Items of a kind that carry an attribute get a new kind. -/
structure KindRule where
  oldKind : String
  attributeName : String
  newKind : String
deriving Repr, DecidableEq

/-- A list of rules, and whether it differs from what is stored. -/
structure KindRules where
  rules : List KindRule := []
  dirty : Bool := false
deriving Repr, DecidableEq

namespace KindRule

/-- A rule needs a kind and an attribute to look for. -/
def canFit (r : KindRule) : Bool := !r.oldKind.isEmpty && !r.attributeName.isEmpty

def fits (r : KindRule) (item : Item) : Bool :=
  item.kind == r.oldKind && item.hasAttribute r.attributeName

def hasNewKind (r : KindRule) : Bool := !Text.allBlank r.newKind.toList

def fieldNames : List String := ["old_kind", "attribute_name", "new_kind"]

/-- The three texts of a rule, as an object or by position. -/
def ofValue? : Json.Value → Option KindRule
  | .array [.text oldKind, .text attributeName, .text newKind] =>
    some ⟨oldKind, attributeName, newKind⟩
  | .object members =>
    match Json.Value.fields? fieldNames members with
    | some [some (.text oldKind), some (.text attributeName), some (.text newKind)] =>
      some ⟨oldKind, attributeName, newKind⟩
    | _ => none
  | _ => none

/-- A rule as an object. -/
def tokens (r : KindRule) : List Json.Token :=
  [.openObject,
    .text "old_kind", .colon, .text r.oldKind, .comma,
    .text "attribute_name", .colon, .text r.attributeName, .comma,
    .text "new_kind", .colon, .text r.newKind,
    .closeObject]

end KindRule

namespace KindRules

/-- The rules of stored settings.  Nothing stored means no rules. -/
def ofValue? : Json.Value → Option (List KindRule)
  | .array [] => some []
  | .array [items] => ofItems? items
  | .object members =>
    match Json.Value.fields? ["items"] members with
    | some [some items] => ofItems? items
    | some [none] => some []
    | _ => none
  | _ => none
where
  ofItems? (items : Json.Value) : Option (List KindRule) :=
    items.array?.bind fun elements => elements.mapM KindRule.ofValue?

def separated : List KindRule → List Json.Token
  | [] => []
  | [r] => r.tokens
  | r :: rest => r.tokens ++ .comma :: separated rest

/-- The settings as they are stored. -/
def serialize (rules : List KindRule) : String :=
  Json.renderTokens
    ([.openObject, .text "items", .colon, .openArray] ++ separated rules
      ++ [.closeArray, .closeObject])

def pluginName : String := "kind-attribute"

/-- Reads stored settings.  Rules that can fit nothing are dropped. -/
def load (settings : String) : Except PluginError (KindRules × Log) :=
  match (Json.Value.read? settings).bind ofValue? with
  | none => .error .settings
  | some all =>
    let rules := all.filter KindRule.canFit
    let dropped := all.length - rules.length
    if dropped = 0 then .ok ({ rules }, [])
    else
      .ok ({ rules, dirty := true },
        [.trace .warn (pluginName ++ ": dropped " ++ toString dropped
          ++ " replacement(s) without a kind or attribute")])

def describe (rules : List KindRule) : String :=
  if rules.isEmpty then "  no replacements\n"
  else
    String.join (rules.zipIdx.map fun (r, i) =>
      "  " ++ toString (i + 1) ++ ". " ++ r.oldKind ++ " [" ++ r.attributeName ++ "] -> "
        ++ r.newKind ++ "\n")

/-- An item and all that it holds, the item first and its last member next. -/
def reach (p : Project) (id : ItemId) : List ItemId :=
  let members := (p.members id).filter fun m => decide (id < m) && decide (m < p.items.size)
  id :: members.reverse.attach.flatMap fun m => reach p m.1
termination_by p.items.size - id
decreasing_by
  have hm := m.2
  simp only [members, List.mem_reverse, List.mem_filter, Bool.and_eq_true, decide_eq_true_eq] at hm
  exact Nat.sub_lt_sub_left (Nat.lt_trans hm.2.1 hm.2.2) hm.2.1

/-- All items in the order in which they are visited: from the last at the top to the
first. -/
def visited (p : Project) : List ItemId := p.topLevel.reverse.flatMap (reach p)

/-- Applies the first rule that fits an item. -/
def reclassify (rules : List KindRule) (p : Project) (id : ItemId) : Project × Log :=
  match (p.item? id).bind fun item => rules.find? (·.fits item) with
  | none => (p, [])
  | some r =>
    (p.setKind id r.newKind,
      [.debug (p.fullName id ++ ": " ++ r.oldKind ++ " -> " ++ r.newKind)])

def reclassifyAll (rules : List KindRule) (p : Project) : List ItemId → Project × Log
  | [] => (p, [])
  | id :: rest =>
    let (p, log) := reclassify rules p id
    let (p, more) := reclassifyAll rules p rest
    (p, log ++ more)

/-- Applies the rules to all items.  A rule without a new kind keeps all of them from
being applied. -/
def generate (plugin : KindRules) (p : Project) : Pass KindRules :=
  match plugin.rules.find? (!·.hasNewKind) with
  | some r =>
    { plugin
      project := p
      failure := some (.execution
        ("replacement for " ++ r.oldKind ++ " [" ++ r.attributeName ++ "] has no new kind")) }
  | none =>
    let (project, log) := reclassifyAll plugin.rules p (visited p)
    { plugin
      project
      log := log
        ++ [.debug (pluginName ++ ": " ++ toString log.length ++ " items reclassified")] }

instance : Plugin KindRules where
  name _ := pluginName
  generate := generate
  describe plugin := describe plugin.rules
  saveSettings plugin := .ok (serialize plugin.rules)
  loadSettings _ settings := load settings
  isDirty plugin := plugin.dirty
  clearDirty plugin := { plugin with dirty := false }

end KindRules

/-- The plugins of the program. -/
def registry : List (Registration KindRules) := [⟨KindRules.pluginName, .ok {}⟩]

end DocPages

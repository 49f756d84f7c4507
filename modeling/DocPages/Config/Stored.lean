/-
Configurations as TOML documents.

Every setting may be missing, and names that are not known are passed over.  A
configuration is written with its tables last, since what follows a table header belongs
to that table.
-/
import DocPages.Config.Basic
import DocPages.Toml.Document

namespace DocPages
namespace Config

open Toml (Value)

/-! ## Reading -/

def text? : Value → Option String
  | .text content => some content
  | _ => none

def boolean? : Value → Option Bool
  | .boolean value => some value
  | _ => none

def list? {α : Type} (element? : Value → Option α) : Value → Option (List α)
  | .array elements => elements.mapM element?
  | _ => none

/-- A setting that may be missing. -/
def setting? {α : Type} (read? : Value → Option α) (default : α) : Option Value → Option α
  | some value => read? value
  | none => some default

/-- A folder or a plugin is a table, or an array with the same values in order. -/
def record? {α : Type} (names : List String) (ofFields? : List (Option Value) → Option α) :
    Value → Option α
  | .table entries => ofFields? (names.map (entries.lookup ·))
  | .array elements => ofFields? ((List.range names.length).map (elements[·]?))
  | _ => none

def inputFolder? : Value → Option InputFolder :=
  record? ["path", "enabled"] fun
    | [path, enabled] => do
      let path ← path.bind text?
      let enabled ← setting? boolean? true enabled
      some { path, enabled }
    | _ => none

def plugin? : Value → Option PluginConfig :=
  record? ["name", "enabled", "settings"] fun
    | [name, enabled, settings] => do
      let name ← name.bind text?
      let enabled ← setting? boolean? true enabled
      let settings ← setting? text? "" settings
      some { name, enabled, settings }
    | _ => none

/-- The configuration of the top table of a document. -/
def ofEntries? (entries : List (String × Value)) : Option Config := do
  let get {α : Type} (name : String) (read? : Value → Option α) (default : α) : Option α :=
    setting? read? default (entries.lookup name)
  let d : Config := {}
  let kinds := d.options.kinds
  let outputFolder ← get "output_folder" (fun v => (text? v).map some) none
  let writeTitle ← get "write_title" boolean? d.options.writeTitle
  let writeContents ← get "generate_toc" boolean? d.options.writeContents
  let writeAttributes ← get "write_attributes" boolean? d.options.writeAttributes
  let inlineTypes ← get "inline_classes" boolean? d.options.inlineTypes
  let order ← get "kind_order" (list? text?) kinds.order
  let templates ← get "kind_templates" (list? text?) kinds.templates
  let titles ← get "kind_titles" (list? text?) kinds.titles
  let inputFolders ← get "input_folders" (list? inputFolder?) []
  let plugins ← get "plugins" (list? plugin?) []
  some
    { outputFolder
      options :=
        { writeTitle, writeContents, writeAttributes, inlineTypes
          kinds := { order, templates, titles } }
      inputFolders
      plugins }

def ofToml? (document : String) : Option Config := (Toml.read? document).bind ofEntries?

/-- Reads a configuration file. -/
def load {m : Type → Type} [Monad m] [FileSystem m] (path : String) :
    m (Except ConfigError Config) := do
  match ← FileSystem.readFile path with
  | .error failure => return .error (.unreadable path failure)
  | .ok document =>
    match ofToml? document with
    | some config => return .ok config
    | none => return .error (.malformed path)

/-! ## Writing -/

def quoted (s : String) : String := String.ofList (Toml.quote s.toList)

def booleanText (b : Bool) : String := if b then "true" else "false"

/-- An array of texts, on several lines if there are two or more. -/
def textsText : List String → String
  | [] => "[]"
  | [one] => "[" ++ quoted one ++ "]"
  | texts => "[\n" ++ String.join (texts.map fun s => "    " ++ quoted s ++ ",\n") ++ "]"

def line (name value : String) : String := name ++ " = " ++ value ++ "\n"

/-- An array of tables that is empty has to be written as a value. -/
def emptyArray {α : Type} (name : String) (elements : List α) : String :=
  if elements.isEmpty then line name "[]" else ""

def inputFolderTable (f : InputFolder) : String :=
  "\n[[input_folders]]\n" ++ line "path" (quoted f.path) ++ line "enabled" (booleanText f.enabled)

def pluginTable (p : PluginConfig) : String :=
  "\n[[plugins]]\n" ++ line "name" (quoted p.name) ++ line "enabled" (booleanText p.enabled)
    ++ line "settings" (quoted p.settings)

def toToml (c : Config) : String :=
  let o := c.options
  String.join
    [match c.outputFolder with
      | some folder => line "output_folder" (quoted folder)
      | none => "",
     line "write_title" (booleanText o.writeTitle),
     line "generate_toc" (booleanText o.writeContents),
     line "write_attributes" (booleanText o.writeAttributes),
     line "inline_classes" (booleanText o.inlineTypes),
     line "kind_order" (textsText o.kinds.order),
     line "kind_templates" (textsText o.kinds.templates),
     line "kind_titles" (textsText o.kinds.titles),
     emptyArray "input_folders" c.inputFolders,
     emptyArray "plugins" c.plugins,
     String.join (c.inputFolders.map inputFolderTable),
     String.join (c.plugins.map pluginTable)]

end Config
end DocPages

/-
The configuration of a run.
-/
import DocPages.Files.FileSystem
import DocPages.Page.Outline
import DocPages.Plugin.Basic

namespace DocPages

structure InputFolder where
  path : String
  enabled : Bool := true
deriving Repr, DecidableEq

structure Config where
  outputFolder : Option String := none
  options : Page.Options := {}
  inputFolders : List InputFolder := []
  plugins : List PluginConfig := []
deriving Repr, DecidableEq

inductive ConfigError where
  | noInputFolders
  | noOutputFolder
  | unreadable (path : String) (failure : FileFailure)
  | malformed (path : String)
deriving Repr, DecidableEq

def ConfigError.message : ConfigError → String
  | .noInputFolders => "select at least one enabled input folder"
  | .noOutputFolder => "select an output folder"
  | .unreadable path failure => "failed to read config " ++ path ++ ": " ++ failure.message
  | .malformed path => "failed to parse config " ++ path

namespace Config

/-- The file that is read if no other is named. -/
def defaultFile : String := "csdoc.toml"

/-- A list that is not as long as the list of kinds is made anew. -/
def aligned (what : String) (order entries : List String) (fallback : String → String) :
    List String × Log :=
  if entries.length = order.length then (entries, [])
  else
    (order.map fallback,
      [.warning (toString entries.length ++ " kind " ++ what ++ " for "
        ++ toString order.length ++ " kinds, regenerating")])

/-- Makes the lists of kinds run in step. -/
def alignKinds (c : Config) : Config × Log :=
  let kinds := c.options.kinds
  let (templates, log) := aligned "templates" kinds.order kinds.templates KindTable.defaultTemplate
  let (titles, more) := aligned "titles" kinds.order kinds.titles KindTable.defaultTitle
  ({ c with options := { c.options with kinds := { kinds with templates, titles } } }, log ++ more)

def enabledInputs (c : Config) : List String :=
  (c.inputFolders.filter (·.enabled)).map (·.path)

/-- A run needs something to read and a place to write to. -/
def validate (c : Config) : Except ConfigError Unit :=
  if c.enabledInputs.isEmpty then .error .noInputFolders
  else if (c.outputFolder.getD "").isEmpty then .error .noOutputFolder
  else .ok ()

/-- Turns a plugin on or off, by the first entry of that name or by a new one. -/
def setPluginEnabled (c : Config) (name : String) (enabled : Bool) : Config :=
  { c with plugins := set c.plugins }
where
  set : List PluginConfig → List PluginConfig
    | [] => [{ name, enabled }]
    | plugin :: rest =>
      if plugin.name == name then { plugin with enabled } :: rest else plugin :: set rest

end Config
end DocPages

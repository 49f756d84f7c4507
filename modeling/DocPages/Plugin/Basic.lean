/-
Plugins: passes over a project that give items other kinds.

A plugin has settings, which are kept as text in the configuration and which only the
plugin can read.
-/
import DocPages.Log
import DocPages.Project.Basic

namespace DocPages

inductive PluginError where
  | instantiation (name message : String)
  | settings
  | execution (message : String)
deriving Repr, DecidableEq

def PluginError.message : PluginError → String
  | .instantiation name message => "plugin " ++ name ++ " could not be created: " ++ message
  | .settings => "invalid settings"
  | .execution message => message

/-- What a pass leaves behind.  A pass that fails may have done a part of its work. -/
structure Pass (σ : Type) where
  plugin : σ
  project : Project
  log : Log := []
  failure : Option PluginError := none

/-- The plugins whose state is a `σ`. -/
class Plugin (σ : Type) where
  name : σ → String
  generate : σ → Project → Pass σ
  /-- The settings for a reader. -/
  describe : σ → String
  saveSettings : σ → Except PluginError String
  loadSettings : σ → String → Except PluginError (σ × Log)
  /-- Have the settings changed since they were loaded or saved? -/
  isDirty : σ → Bool
  clearDirty : σ → σ

/-- A name under which a plugin can be made. -/
structure Registration (σ : Type) where
  name : String
  create : Except PluginError σ

/-- What the configuration stores for a plugin. -/
structure PluginConfig where
  name : String
  enabled : Bool := true
  settings : String := ""
deriving Repr, DecidableEq

end DocPages

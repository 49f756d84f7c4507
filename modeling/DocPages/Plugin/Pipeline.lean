/-
The plugins of a run, in the order in which they are registered.

A plugin that cannot be made or does not take its settings is left out, and one that
fails is not run again.  Neither keeps the others from their work.
-/
import DocPages.Plugin.Basic
import DocPages.Text.Blank

namespace DocPages

structure Slot (σ : Type) where
  plugin : σ
  enabled : Bool
  failed : Bool := false
deriving Repr

structure Pipeline (σ : Type) where
  slots : List (Slot σ) := []
deriving Repr

namespace Registration

variable {σ : Type} [Plugin σ]

/-- Makes the plugin, which has to know its name. -/
def instantiate (r : Registration σ) : Except PluginError σ := do
  let plugin ← r.create
  if Plugin.name plugin == r.name then .ok plugin
  else
    .error (.instantiation r.name ("plugin reports its name as " ++ Plugin.name plugin))

/-- Gives a plugin its stored settings.  Blank settings are as good as none. -/
def configure (plugin : σ) (config : Option PluginConfig) : Except PluginError (σ × Log) :=
  match config with
  | some config =>
    if Text.allBlank config.settings.toList then .ok (plugin, [])
    else Plugin.loadSettings plugin config.settings
  | none => .ok (plugin, [])

/-- The slot of a registered plugin, absent if the plugin is left out. -/
def slot (r : Registration σ) (configs : List PluginConfig) : Option (Slot σ) × Log :=
  let config := configs.find? (·.name == r.name)
  match r.instantiate >>= (configure · config) with
  | .ok (plugin, log) => (some { plugin, enabled := config.all (·.enabled) }, log)
  | .error e => (none, [.error ("plugin " ++ r.name ++ ": " ++ e.message)])

end Registration

namespace Slot

variable {σ : Type} [Plugin σ]

/-- Will the next run call the plugin? -/
def isActive (s : Slot σ) : Bool := s.enabled && !s.failed

/-- Runs one plugin. -/
def run (s : Slot σ) (p : Project) : Slot σ × Project × Log :=
  let pass := Plugin.generate s.plugin p
  let start : Event := .debug ("running plugin " ++ Plugin.name s.plugin)
  match pass.failure with
  | none => ({ s with plugin := pass.plugin }, pass.project, start :: pass.log)
  | some e =>
    ({ s with plugin := pass.plugin, failed := true }, pass.project,
      start :: pass.log
        ++ [.error ("plugin " ++ Plugin.name pass.plugin ++ " failed: " ++ e.message)])

/-- Stores settings under a name, in the first entry that has it or in a new one. -/
def store (configs : List PluginConfig) (name : String) (enabled : Bool) (settings : String) :
    List PluginConfig :=
  match configs with
  | [] => [{ name, enabled, settings }]
  | config :: rest =>
    if config.name == name then { config with settings } :: rest
    else config :: store rest name enabled settings

/-- Stores the settings of one plugin if they have changed. -/
def sync (s : Slot σ) (configs : List PluginConfig) : Slot σ × List PluginConfig × Log :=
  if Plugin.isDirty s.plugin then
    let name := Plugin.name s.plugin
    match Plugin.saveSettings s.plugin with
    | .ok settings =>
      ({ s with plugin := Plugin.clearDirty s.plugin }, store configs name s.enabled settings,
        [.info ("saved settings for plugin " ++ name)])
    | .error e => (s, configs, [.error ("plugin " ++ name ++ ": " ++ e.message)])
  else (s, configs, [])

def describe (s : Slot σ) : String :=
  Plugin.name s.plugin ++ (if s.enabled then " (enabled)\n" else " (disabled)\n")
    ++ Plugin.describe s.plugin

end Slot

namespace Pipeline

variable {σ : Type} [Plugin σ]

def unknownConfigs (registry : List (Registration σ)) (configs : List PluginConfig) :
    List PluginConfig :=
  configs.filter fun config => !registry.any (·.name == config.name)

/-- Makes the registered plugins with their stored settings. -/
def load (registry : List (Registration σ)) (configs : List PluginConfig) : Pipeline σ × Log :=
  let unknown := (unknownConfigs registry configs).map fun config =>
    Event.warning ("unknown plugin in configuration: " ++ config.name)
  let made := registry.map (·.slot configs)
  (⟨made.filterMap (·.1)⟩, unknown ++ made.flatMap (·.2))

/-- The names of the plugins that the next run calls. -/
def active (pipeline : Pipeline σ) : List String :=
  (pipeline.slots.filter Slot.isActive).map fun s => Plugin.name s.plugin

def runSlots (p : Project) : List (Slot σ) → List (Slot σ) × Project × Log
  | [] => ([], p, [])
  | s :: rest =>
    let (s, p, log) := if s.isActive then s.run p else (s, p, [])
    let (slots, p, more) := runSlots p rest
    (s :: slots, p, log ++ more)

/-- Runs the active plugins, each on the project as the one before left it. -/
def run (pipeline : Pipeline σ) (p : Project) : Pipeline σ × Project × Log :=
  let (slots, p, log) := runSlots p pipeline.slots
  (⟨slots⟩, p, log)

def syncSlots (configs : List PluginConfig) :
    List (Slot σ) → List (Slot σ) × List PluginConfig × Log
  | [] => ([], configs, [])
  | s :: rest =>
    let (s, configs, log) := s.sync configs
    let (slots, configs, more) := syncSlots configs rest
    (s :: slots, configs, log ++ more)

/-- Stores the settings that have changed. -/
def syncSettings (pipeline : Pipeline σ) (configs : List PluginConfig) :
    Pipeline σ × List PluginConfig × Log :=
  let (slots, configs, log) := syncSlots configs pipeline.slots
  (⟨slots⟩, configs, log)

/-- Each plugin with its state and its settings. -/
def describe (pipeline : Pipeline σ) : String := String.join (pipeline.slots.map Slot.describe)

end Pipeline
end DocPages

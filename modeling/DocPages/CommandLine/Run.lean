/-
A run of the program: read the configuration, parse the input folders, run the plugins
and write the pages.
-/
import DocPages.CommandLine.Arguments
import DocPages.Config.Stored
import DocPages.Files.Sources
import DocPages.Plugin.KindRules
import DocPages.Site

namespace DocPages
namespace CommandLine

/-- How a run ends. -/
structure Outcome where
  exitCode : Nat := 0
  output : String := ""
  log : Log := []
  /-- How much of the log is wanted. -/
  verbosity : Nat := 0
  error : Option String := none

/-- The configuration with what the command line says. -/
def override (c : Config) (a : Arguments) : Config :=
  let o := c.options
  let options : Page.Options :=
    { o with
      writeTitle := o.writeTitle && !a.noTitle
      writeContents := o.writeContents || a.contents
      writeAttributes := o.writeAttributes && !a.noAttributes
      inlineTypes := o.inlineTypes || a.inlineTypes }
  let inputFolders :=
    if a.inputs.isEmpty then c.inputFolders else a.inputs.map fun path => { path }
  a.disabledPlugins.foldl (fun c name => c.setPluginEnabled name false)
    { c with options, inputFolders, outputFolder := a.output.or c.outputFolder }

section
variable {m : Type → Type} [Monad m] [FileSystem m]

/-- The configuration of a run: a file that is named, the usual file if it is there, or
none. -/
def loadConfig (path : Option String) : m (Except ConfigError Config) := do
  match path with
  | some path => Config.load path
  | none =>
    if ← FileSystem.isFile Config.defaultFile then Config.load Config.defaultFile
    else return .ok {}

/-- Parses the input folders one after another into one project. -/
def parseFolders (project : Project) : List String → m (Project × Log)
  | [] => return (project, [])
  | folder :: rest => do
    let (project, log) : Project × Log ← do
      if ← FileSystem.isFolder folder then
        let parsed ← Sources.parseFolder project folder
        pure (parsed.project, parsed.log)
      else pure (project, [.error ("input folder not found: " ++ folder)])
    let (project, more) ← parseFolders project rest
    return (project, log ++ more)

/-- Makes the pages.  `before` is what was reported so far.  Only pages that could not be
written make a run fail. -/
def generate (c : Config) (root : String) (pipeline : Pipeline KindRules) (before : Log) :
    m (Log × Option String) := do
  let (project, log) ← parseFolders {} c.enabledInputs
  let (_, project, more) := pipeline.run project
  let running : Event := .info ("running plugins: " ++ ", ".intercalate pipeline.active)
  let (report, written) ← Site.write project c.options root
  let log := before ++ log ++ running :: more ++ written
  let summary : Event := .info (toString report.written ++ " pages, "
    ++ toString (log.count .warning) ++ " warnings, "
    ++ toString (log.count .error) ++ " errors")
  let error :=
    if report.failed = 0 then none
    else some (toString report.failed ++ " page(s) could not be written")
  return (log ++ [summary], error)

/-- Does what the arguments ask for. -/
def execute (a : Arguments) : m Outcome := do
  let verbosity := a.verbosity
  match ← loadConfig a.config with
  | .error e => return { exitCode := 1, verbosity, error := some e.message }
  | .ok config =>
    let (config, log) := (override config a).alignKinds
    let (pipeline, loading) := Pipeline.load registry config.plugins
    let log := log ++ loading
    if a.listPlugins then return { output := pipeline.describe, verbosity, log }
    else if a.dumpConfig then
      let (_, plugins, more) := pipeline.syncSettings config.plugins
      return { output := { config with plugins }.toToml, verbosity, log := log ++ more }
    else
      match config.validate with
      | .error e => return { exitCode := 1, verbosity, log, error := some e.message }
      | .ok _ =>
        let (log, error) ← generate config (config.outputFolder.getD "") pipeline log
        return { exitCode := if error.isNone then 0 else 1, verbosity, log, error }

def versionText : String := "csdoc 0.1.0\n"

def helpText : String :=
"Generate Markdown documentation from C# XML documentation comments

Usage: csdoc [OPTIONS] [INPUTS]...

Arguments:
  [INPUTS]...  Input folders, scanned recursively for .cs files. Replaces the folders from the config file

Options:
  -o, --output <OUTPUT>        Output folder
  -c, --config <CONFIG>        Config file (default: ./csdoc.toml if present)
      --no-title               Do not write the `# Full.Name` title
      --toc                    Generate a table of contents on each page
      --no-attributes          Do not list attributes above item documentation
      --inline-classes         Render nested types inside their parent's page
      --disable-plugin <NAME>  Disable a plugin by name. Can be specified multiple times
      --list-plugins           Print the available plugins and their settings, then exit
      --dump-config            Print the effective configuration as TOML, then exit
  -v, --verbose...             Increase log verbosity (-v info, -vv debug)
  -h, --help                   Print help
  -V, --version                Print version
"

/-- Runs the program with its arguments. -/
def run (arguments : List String) : m Outcome := do
  match parse arguments with
  | .error e => return { exitCode := 2, error := some e.message }
  | .ok .help => return { output := helpText }
  | .ok .version => return { output := versionText }
  | .ok (.run a) => execute a

end
end CommandLine
end DocPages

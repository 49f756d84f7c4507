/-
Writing the pages of a project to files.

Each namespace has a folder.  What cannot be written is reported and counted, and the
rest is still written.
-/
import DocPages.Files.FileSystem
import DocPages.Files.Path
import DocPages.Page.Writer

namespace DocPages
namespace Site

structure Report where
  written : Nat := 0
  failed : Nat := 0
deriving Repr, DecidableEq

def Report.add (a b : Report) : Report := ⟨a.written + b.written, a.failed + b.failed⟩

/-- The pages of a namespace. -/
def pages (p : Project) (o : Page.Options) (ns : Namespace) : List WrittenPage × Log :=
  let entries := Page.sortEntries o.kinds (ns.items.filterMap (Page.entryOf? p))
  Page.writeAll p o {} (entries.map (·.id))

def folder (root : String) (ns : Namespace) : String :=
  Path.namespaceFolder root ns.package ns.directory

def file (folder : String) (page : WrittenPage) : String :=
  Path.join folder (page.fileName ++ ".md")

section
variable {m : Type → Type} [Monad m] [FileSystem m]

def writePages (folder : String) : List WrittenPage → m (Report × Log)
  | [] => return ({}, [])
  | page :: rest => do
    let path := file folder page
    let (report, event) : Report × Event ← do
      match ← FileSystem.writeFile path page.content with
      | .ok _ => pure (⟨1, 0⟩, .debug ("wrote " ++ path))
      | .error e => pure (⟨0, 1⟩, .error ("failed to write " ++ path ++ ": " ++ e.message))
    let (more, log) ← writePages folder rest
    return (report.add more, event :: log)

/-- Writes the pages of one namespace. -/
def writeNamespace (p : Project) (o : Page.Options) (root : String) (ns : Namespace) :
    m (Report × Log) := do
  let (pages, log) := pages p o ns
  if pages.isEmpty then return ({}, log)
  else
    let folder := folder root ns
    match ← FileSystem.makeFolders folder with
    | .error e =>
      return (⟨0, pages.length⟩,
        log ++ [.error ("failed to create " ++ folder ++ ": " ++ e.message)])
    | .ok _ =>
      let (report, more) ← writePages folder pages
      return (report, log ++ more)

def writeNamespaces (p : Project) (o : Page.Options) (root : String) :
    List Namespace → m (Report × Log)
  | [] => return ({}, [])
  | ns :: rest => do
    let (report, log) ← writeNamespace p o root ns
    let (more, moreLog) ← writeNamespaces p o root rest
    return (report.add more, log ++ moreLog)

/-- Writes all pages of a project under an output folder. -/
def write (p : Project) (o : Page.Options) (root : String) : m (Report × Log) := do
  let (report, log) ← writeNamespaces p o root p.namespaces.toList
  return (report,
    log ++ [.info (toString report.written ++ " pages written to " ++ root)])

end
end Site
end DocPages

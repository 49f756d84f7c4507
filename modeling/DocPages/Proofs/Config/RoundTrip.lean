/-
A configuration that is written is read back as it was: `load_toToml`.
-/
import DocPages.Files.Disk
import DocPages.Proofs.Toml.Lines
import DocPages.Proofs.Toml.Tables
import Mathlib.Data.List.Forall2

namespace DocPages
namespace Config

open Toml

/-! ## The lines of a configuration -/

def folderPairs (f : InputFolder) : List (String × Value) :=
  [("path", .text f.path), ("enabled", .boolean f.enabled)]

def pluginPairs (p : PluginConfig) : List (String × Value) :=
  [("name", .text p.name), ("enabled", .boolean p.enabled), ("settings", .text p.settings)]

def texts (l : List String) : Value := .array (l.map .text)

def emptyPair {α : Type} (name : String) (elements : List α) : List (String × Value) :=
  if elements.isEmpty then [(name, .array [])] else []

/-- The settings at the top of the document. -/
def topPairs (c : Config) : List (String × Value) :=
  (c.outputFolder.toList.map fun folder => ("output_folder", .text folder)) ++
    [("write_title", .boolean c.options.writeTitle),
     ("generate_toc", .boolean c.options.writeContents),
     ("write_attributes", .boolean c.options.writeAttributes),
     ("inline_classes", .boolean c.options.inlineTypes),
     ("kind_order", texts c.options.kinds.order),
     ("kind_templates", texts c.options.kinds.templates),
     ("kind_titles", texts c.options.kinds.titles)] ++
    (emptyPair "input_folders" c.inputFolders ++ emptyPair "plugins" c.plugins)

def lines (c : Config) : List Line :=
  pairLines (topPairs c) ++
    (elementLines "input_folders" folderPairs c.inputFolders ++
      elementLines "plugins" pluginPairs c.plugins)

theorem readsAs_line (name : String) (hname : IsBare name) {value : String} {v : Value}
    (hw : Written depthLimit value.toList v) :
    ReadsAs (line name value).toList [.pair [name] v] := by
  simp only [line, String.toList_append]
  exact readsAs_pair hname hw

theorem written_quoted (depth : Nat) (s : String) : Written depth (quoted s).toList (.text s) := by
  have hw := written_quote depth s.toList
  rwa [String.ofList_toList, ← String.toList_ofList (l := quote s.toList)] at hw

theorem readsAs_emptyArray {α : Type} (name : String) (hname : IsBare name) (elements : List α) :
    ReadsAs (emptyArray name elements).toList (pairLines (emptyPair name elements)) := by
  unfold emptyArray emptyPair
  split
  · exact readsAs_line name hname (written_texts _ [])
  · exact ReadsAs.nil

/-- The header of a table, given as one text. -/
theorem readsAs_header {key header : String} (hkey : IsBare key)
    (hheader : header = "\n[[" ++ key ++ "]]\n") : ReadsAs header.toList [.element [key]] := by
  rw [hheader, String.toList_append, String.toList_append]
  exact readsAs_element hkey

theorem readsAs_inputFolderTable (f : InputFolder) :
    ReadsAs (inputFolderTable f).toList
      (.element ["input_folders"] :: pairLines (folderPairs f)) := by
  have hheader : ReadsAs "\n[[input_folders]]\n".toList [.element ["input_folders"]] :=
    readsAs_header (by decide) (by decide)
  have hpath := readsAs_line "path" (by decide) (written_quoted _ f.path)
  have henabled := readsAs_line "enabled" (by decide)
    (written_boolean _ f.enabled)
  unfold inputFolderTable
  rw [String.toList_append, String.toList_append]
  exact (hheader.append hpath).append henabled

theorem readsAs_pluginTable (p : PluginConfig) :
    ReadsAs (pluginTable p).toList (.element ["plugins"] :: pairLines (pluginPairs p)) := by
  have hheader : ReadsAs "\n[[plugins]]\n".toList [.element ["plugins"]] :=
    readsAs_header (by decide) (by decide)
  have hname := readsAs_line "name" (by decide) (written_quoted _ p.name)
  have henabled := readsAs_line "enabled" (by decide)
    (written_boolean _ p.enabled)
  have hsettings := readsAs_line "settings" (by decide)
    (written_quoted _ p.settings)
  unfold pluginTable
  rw [String.toList_append, String.toList_append, String.toList_append]
  exact ((hheader.append hname).append henabled).append hsettings

/-- Texts that are put together. -/
theorem readsAs_join {texts : List String} {parts : List (List Line)}
    (h : List.Forall₂ (fun text part => ReadsAs text.toList part) texts parts) :
    ReadsAs (String.join texts).toList parts.flatten := by
  induction h with
  | nil => exact ReadsAs.nil
  | cons hfirst _ ih =>
      rw [String.join_cons, String.toList_append, List.flatten_cons]
      exact hfirst.append ih

theorem readsAs_tables {α : Type} {key : String} {text : α → String}
    {pairs : α → List (String × Value)}
    (h : ∀ a, ReadsAs (text a).toList (.element [key] :: pairLines (pairs a))) (as : List α) :
    ReadsAs (String.join (as.map text)).toList (elementLines key pairs as) := by
  rw [String.toList_join, List.flatMap_map]
  exact ReadsAs.flatMap h as

theorem readsAs_folder (folder : Option String) :
    ReadsAs (folder.elim "" fun folder => line "output_folder" (quoted folder)).toList
      (pairLines (folder.toList.map fun folder => ("output_folder", .text folder))) := by
  cases folder with
  | none => exact ReadsAs.nil
  | some folder => exact readsAs_line _ (by decide) (written_quoted _ folder)

theorem readsAs_toToml (c : Config) : ReadsAs c.toToml.toList (lines c) := by
  obtain ⟨folder, options, inputs, plugins⟩ := c
  have hoptions := fun b : Bool => written_boolean depthLimit b
  have hkinds := fun l : List String => written_texts 78 l
  have hjoin := readsAs_join <| .cons (readsAs_folder folder) <|
    .cons (readsAs_line "write_title" (by decide) (hoptions options.writeTitle)) <|
    .cons (readsAs_line "generate_toc" (by decide) (hoptions options.writeContents)) <|
    .cons (readsAs_line "write_attributes" (by decide) (hoptions options.writeAttributes)) <|
    .cons (readsAs_line "inline_classes" (by decide) (hoptions options.inlineTypes)) <|
    .cons (readsAs_line "kind_order" (by decide) (hkinds options.kinds.order)) <|
    .cons (readsAs_line "kind_templates" (by decide) (hkinds options.kinds.templates)) <|
    .cons (readsAs_line "kind_titles" (by decide) (hkinds options.kinds.titles)) <|
    .cons (readsAs_emptyArray "input_folders" (by decide) inputs) <|
    .cons (readsAs_emptyArray "plugins" (by decide) plugins) <|
    .cons (readsAs_tables readsAs_inputFolderTable inputs) <|
    .cons (readsAs_tables readsAs_pluginTable plugins) .nil
  simp only [List.flatten_cons, List.flatten_nil, List.append_nil] at hjoin
  simp only [lines, topPairs, pairLines, texts, List.map_append, List.map_cons,
    List.append_assoc, List.cons_append, List.nil_append] at hjoin ⊢
  unfold toToml
  cases folder with
  | none => exact hjoin
  | some folder => exact hjoin

/-! ## The tables of a configuration -/

theorem readLines?_toToml (c : Config) : readLines? c.toToml.toList = some (lines c) :=
  (readsAs_toToml c).read

theorem sections_lines (c : Config) :
    sections (lines c) = (plainPairs (topPairs c),
      elements "input_folders" folderPairs c.inputFolders ++
        elements "plugins" pluginPairs c.plugins) := by
  have hnil : sections [] = ([], []) := rfl
  have hplugins := sections_elementLines "plugins" pluginPairs c.plugins hnil
  rw [List.append_nil, List.append_nil] at hplugins
  have htables := sections_elementLines "input_folders" folderPairs c.inputFolders hplugins
  rw [lines, sections_pairLines, htables, List.append_nil]

/-- The top table of the document. -/
def entries (c : Config) : Entries :=
  plainEntries (topPairs c) ++ tables "input_folders" folderPairs c.inputFolders ++
    tables "plugins" pluginPairs c.plugins

/-- The names in `topPairs`, by what is there. -/
def topNames (folder noInputs noPlugins : Bool) : List String :=
  (if folder then ["output_folder"] else []) ++
    ["write_title", "generate_toc", "write_attributes", "inline_classes", "kind_order",
     "kind_templates", "kind_titles"] ++
    ((if noInputs then ["input_folders"] else []) ++ (if noPlugins then ["plugins"] else []))

theorem topPairs_names (c : Config) :
    (topPairs c).map Prod.fst =
      topNames c.outputFolder.isSome c.inputFolders.isEmpty c.plugins.isEmpty := by
  unfold topPairs topNames emptyPair
  cases c.outputFolder <;> cases c.inputFolders.isEmpty <;> cases c.plugins.isEmpty <;> rfl

theorem topNames_nodup : ∀ folder noInputs noPlugins,
    (topNames folder noInputs noPlugins).Nodup := by decide

theorem inputFolders_notMem : ∀ folder noPlugins,
    "input_folders" ∉ topNames folder false noPlugins := by decide

theorem plugins_notMem : ∀ folder noInputs,
    "plugins" ∉ topNames folder noInputs false ++ if noInputs then [] else ["input_folders"] := by
  decide

theorem addSections_lines (c : Config) :
    (sections (lines c)).2.foldlM addSection (plainEntries (topPairs c)) = some (entries c) := by
  have htop : Entries.keys (plainEntries (topPairs c)) =
      topNames c.outputFolder.isSome c.inputFolders.isEmpty c.plugins.isEmpty := by
    rw [Entries.keys_plain, topPairs_names]
  have hfolders : c.inputFolders ≠ [] →
      "input_folders" ∉ Entries.keys (plainEntries (topPairs c)) := by
    intro hne
    rw [htop, List.isEmpty_eq_false_iff.2 hne]
    exact inputFolders_notMem _ _
  have hplugins : c.plugins ≠ [] → "plugins" ∉ Entries.keys
      (plainEntries (topPairs c) ++ tables "input_folders" folderPairs c.inputFolders) := by
    intro hne
    rw [Entries.keys_append, htop, List.isEmpty_eq_false_iff.2 hne, keys_tables]
    exact plugins_notMem _ _
  have hfolderPairs : ∀ f, ((folderPairs f).map Prod.fst).Nodup := fun f =>
    (by decide : ["path", "enabled"].Nodup)
  have hpluginPairs : ∀ p, ((pluginPairs p).map Prod.fst).Nodup := fun p =>
    (by decide : ["name", "enabled", "settings"].Nodup)
  rw [sections_lines, List.foldlM_append, addSections_elements hfolderPairs hfolders]
  exact addSections_elements hpluginPairs hplugins

theorem head?_line {name : String} {c : Char} (h : name.toList.head? = some c) (value : String)
    (rest : List Char) : ((line name value).toList ++ rest).head? = some c := by
  simp only [line, String.toList_append, List.append_assoc, List.head?_append, h, Option.some_or]

theorem toToml_start (c : Config) : c.toToml.toList.head? ≠ some '\ufeff' := by
  have hstart : c.toToml.toList.head? = some 'w' ∨ c.toToml.toList.head? = some 'o' := by
    unfold toToml
    rw [String.toList_join, List.flatMap_cons]
    cases c.outputFolder with
    | none => exact .inl (head?_line rfl _ _)
    | some folder => exact .inr (head?_line rfl _ _)
  rcases hstart with h | h <;> rw [h] <;> decide

theorem read?_toToml (c : Config) : read? c.toToml = some (toValues (entries c)) := by
  have hnodup : (Entries.keys [] ++ (topPairs c).map Prod.fst).Nodup := by
    rw [topPairs_names]
    exact topNames_nodup _ _ _
  have htop : Entries.addValues [] (sections (lines c)).1 = some (plainEntries (topPairs c)) := by
    rw [sections_lines]
    exact Entries.addValues_plain hnodup
  rw [read?_eq (toToml_start c) (readLines?_toToml c), htop, Option.bind_some, addSections_lines,
    Option.map_some]

/-! ## The configuration of the tables -/

theorem mapM_map_some {α β : Type} {f : α → β} {g : β → Option α} (h : ∀ a, g (f a) = some a)
    (as : List α) : (as.map f).mapM g = some as := by
  induction as with
  | nil => rfl
  | cons a as ih => rw [List.map_cons, List.mapM_cons, h, ih]; rfl

theorem list?_map {α : Type} {f : α → Value} {element? : Value → Option α}
    (h : ∀ a, element? (f a) = some a) (as : List α) :
    list? element? (.array (as.map f)) = some as :=
  mapM_map_some h as

theorem inputFolder?_table (f : InputFolder) : inputFolder? (.table (folderPairs f)) = some f := rfl

theorem plugin?_table (p : PluginConfig) : plugin? (.table (pluginPairs p)) = some p := rfl

/-- The names of the settings do not hide each other. -/
theorem lookup_entries (c : Config) :
    (toValues (entries c)).lookup "output_folder" = c.outputFolder.map .text ∧
    (toValues (entries c)).lookup "write_title" = some (.boolean c.options.writeTitle) ∧
    (toValues (entries c)).lookup "generate_toc" = some (.boolean c.options.writeContents) ∧
    (toValues (entries c)).lookup "write_attributes" = some (.boolean c.options.writeAttributes) ∧
    (toValues (entries c)).lookup "inline_classes" = some (.boolean c.options.inlineTypes) ∧
    (toValues (entries c)).lookup "kind_order" = some (texts c.options.kinds.order) ∧
    (toValues (entries c)).lookup "kind_templates" = some (texts c.options.kinds.templates) ∧
    (toValues (entries c)).lookup "kind_titles" = some (texts c.options.kinds.titles) ∧
    (toValues (entries c)).lookup "input_folders" =
      some (.array (c.inputFolders.map fun f => .table (folderPairs f))) ∧
    (toValues (entries c)).lookup "plugins" =
      some (.array (c.plugins.map fun p => .table (pluginPairs p))) := by
  unfold entries
  rw [toValues_append, toValues_append, toValues_plain, toValues_tables, toValues_tables]
  unfold topPairs emptyPair
  cases c.outputFolder <;> cases c.inputFolders <;> cases c.plugins <;>
    simp [List.lookup_cons]

theorem setting?_some {α : Type} (read? : Value → Option α) (default : α) (value : Value) :
    setting? read? default (some value) = read? value := rfl

theorem ofEntries?_entries (c : Config) : ofEntries? (toValues (entries c)) = some c := by
  obtain ⟨hfolder, htitle, hcontents, hattributes, hinline, horder, htemplates, htitles, hinputs,
    hplugins⟩ := lookup_entries c
  have hoptional : setting? (fun v => (text? v).map some) none (c.outputFolder.map .text) =
      some c.outputFolder := by
    cases c.outputFolder <;> rfl
  have hboolean : ∀ b, boolean? (.boolean b) = some b := fun _ => rfl
  have htexts : ∀ l, list? text? (texts l) = some l := list?_map fun _ => rfl
  have hinputs' := list?_map inputFolder?_table c.inputFolders
  have hplugins' := list?_map plugin?_table c.plugins
  unfold ofEntries?
  simp only [hfolder, htitle, hcontents, hattributes, hinline, horder, htemplates, htitles,
    hinputs, hplugins, hoptional, setting?_some, hboolean, htexts, hinputs', hplugins',
    Option.bind_eq_bind, Option.bind_some]

/-- A configuration that is written is read back as it was. -/
theorem load_toToml (c : Config) :
    ofToml? c.toToml = some c ∧
      ∀ (d : Disk) (path : String), d.readFile path = .ok c.toToml →
        (load path : StateM Disk (Except ConfigError Config)).run d = (.ok c, d) := by
  have hread : ofToml? c.toToml = some c := by
    rw [ofToml?, read?_toToml, Option.bind_some, ofEntries?_entries]
  refine ⟨hread, fun d path hfile => ?_⟩
  have hstep : (FileSystem.readFile path : StateM Disk (Except FileFailure String)).run d =
      (d.readFile path, d) := rfl
  unfold load
  rw [StateT.run_bind, hstep, hfile]
  simp only [bind, hread]
  rfl

/-- Texts for which every way of enclosing them is chosen. -/
def strangeConfig : Config :=
  { outputFolder := some "C:\\out"
    options :=
      { writeTitle := false
        kinds :=
          { order := ["class", "say \"\"\"", "it's \\", "two\nlines", "'''\\\n\"\"\""]
            templates := [""]
            titles := [] } }
    inputFolders := [⟨"in\x01\r\n", false⟩]
    plugins := [⟨"kind-attribute", true, "\x7b\"items\":[]\x7d"⟩] }

/-- A folder with one file in it. -/
def oneFile (name text : String) : Disk := Disk.put {} [name] (.file (.text text))

theorem load_toToml_strangeConfig :
    (oneFile "csdoc.toml" strangeConfig.toToml).readFile "csdoc.toml" =
        .ok strangeConfig.toToml ∧
      ofToml? strangeConfig.toToml = some strangeConfig ∧
      (load "csdoc.toml" : StateM Disk (Except ConfigError Config)).run
          (oneFile "csdoc.toml" strangeConfig.toToml) =
        (.ok strangeConfig, oneFile "csdoc.toml" strangeConfig.toToml) := by
  have hfile : (oneFile "csdoc.toml" strangeConfig.toToml).readFile "csdoc.toml" =
      .ok strangeConfig.toToml := by
    rfl
  have hload := load_toToml strangeConfig
  exact ⟨hfile, hload.1, hload.2 _ _ hfile⟩

end Config
end DocPages

/-
Settings that are stored are loaded again.

A list of rules is stored as JSON, and loading that gives the rules which can fit something
(`KindRules.load_serialize`).  A plugin holds only such rules, so the first entry of its name,
where its settings are stored, makes the same plugin the next time.  The theorem this file
exists for is `syncSettings_settles`: after the settings are stored once there is nothing more
to store, and the stored list loads to the same slots.
-/
import DocPages.Plugin.KindRules
import DocPages.Proofs.Json.Printed
import DocPages.Proofs.Plugin.Runs

namespace DocPages

open Json (Reading Token Value)

/-! ## Rules as JSON -/

namespace KindRule

/-- A rule as a value. -/
def value (r : KindRule) : Value :=
  .object
    [(some "old_kind", .text r.oldKind), (some "attribute_name", .text r.attributeName),
      (some "new_kind", .text r.newKind)]

theorem ofValue?_value (r : KindRule) : ofValue? r.value = some r := by
  rfl

theorem isExact_tokens (r : KindRule) : ∀ t ∈ r.tokens, t.IsExact := by
  simp [tokens, Token.IsExact]

theorem run_tokens (r : KindRule) (stack : List Json.Frame) :
    r.tokens.foldlM Reading.step? (.value stack) = some (.after r.value stack) := rfl

end KindRule

namespace KindRules

theorem isExact_separated (rules : List KindRule) : ∀ t ∈ separated rules, t.IsExact := by
  fun_induction separated rules with
  | case1 => exact nofun
  | case2 r => exact r.isExact_tokens
  | case3 r rest _ ih =>
      intro t ht
      rcases List.mem_append.1 ht with ht | ht
      · exact r.isExact_tokens t ht
      · rcases List.mem_cons.1 ht with rfl | ht
        · trivial
        · exact ih t ht

/-- The elements that are already complete stay in front of those that are read. -/
theorem run_separated {rules : List KindRule} (hrules : rules ≠ []) (done : List Value)
    (stack : List Json.Frame) :
    (separated rules ++ [Token.closeArray]).foldlM Reading.step? (.value (.array done :: stack)) =
      some (.after (.array (done ++ rules.map KindRule.value)) stack) := by
  fun_induction separated rules generalizing done with
  | case1 => exact absurd rfl hrules
  | case2 r =>
      rw [List.foldlM_append, r.run_tokens]
      rfl
  | case3 r rest hrest ih =>
      rw [List.append_assoc, List.foldlM_append, r.run_tokens, List.map_cons,
        List.append_cons done r.value]
      exact ih hrest (done ++ [r.value])

/-- An element at the front of an array is read as one behind a comma is. -/
theorem run_firstElement (r : KindRule) (rest : List KindRule) (ts : List Token)
    (stack : List Json.Frame) :
    (separated (r :: rest) ++ ts).foldlM Reading.step? (.firstElement stack) =
      (separated (r :: rest) ++ ts).foldlM Reading.step? (.value (.array [] :: stack)) := by
  cases rest <;> rfl

theorem run_array (rules : List KindRule) (stack : List Json.Frame) :
    (separated rules ++ [Token.closeArray]).foldlM Reading.step? (.firstElement stack) =
      some (.after (.array (rules.map KindRule.value)) stack) := by
  cases rules with
  | nil => rfl
  | cons r rest =>
      rw [run_firstElement, run_separated (List.cons_ne_nil r rest), List.nil_append]

theorem read?_serialize (rules : List KindRule) :
    Value.read? (serialize rules) =
      some (.object [(some "items", .array (rules.map KindRule.value))]) := by
  have hexact : ∀ t ∈ [Token.openObject, .text "items", .colon, .openArray] ++ separated rules
      ++ [.closeArray, .closeObject], t.IsExact := by
    intro t ht
    simp only [List.mem_append, List.mem_cons, List.not_mem_nil, or_false] at ht
    rcases ht with (h | ht) | h
    · rcases h with rfl | rfl | rfl | rfl <;> trivial
    · exact isExact_separated rules t ht
    · rcases h with rfl | rfl <;> trivial
  have hsplit : [Token.openObject, .text "items", .colon, .openArray] ++ separated rules
      ++ [.closeArray, .closeObject] = [Token.openObject, .text "items", .colon, .openArray] ++
        ((separated rules ++ [.closeArray]) ++ [.closeObject]) := by
    rw [List.append_assoc, List.append_assoc]
    rfl
  have hopen : ∀ ts : List Token,
      ([Token.openObject, .text "items", .colon, .openArray] ++ ts).foldlM Reading.step?
        (.value []) = ts.foldlM Reading.step? (.firstElement [.object [] (some "items")]) :=
    fun _ => rfl
  rw [Value.read?, serialize, Json.renderTokens, String.toList_ofList, Json.tokens?_render hexact,
    Option.bind_eq_bind, Option.bind_some, hsplit, hopen, List.foldlM_append, run_array]
  rfl

theorem ofValue?_items (rules : List KindRule) :
    ofValue? (.object [(some "items", .array (rules.map KindRule.value))]) = some rules := by
  have hitems : ofValue?.ofItems? (.array (rules.map KindRule.value)) = some rules := by
    rw [ofValue?.ofItems?, Value.array?, Option.bind_some, List.mapM_map]
    induction rules with
    | nil => rfl
    | cons r rest ih =>
        rw [List.mapM_cons, Function.comp, r.ofValue?_value, ih]
        rfl
  exact hitems

/-- Rules that can fit nothing are dropped, and the others are read as they were written. -/
theorem load_serialize (rules : List KindRule) :
    ∃ log, load (serialize rules) =
      .ok ({ rules := rules.filter KindRule.canFit,
             dirty := !rules.all KindRule.canFit }, log) := by
  rw [load, read?_serialize, Option.bind_some, ofValue?_items]
  dsimp only
  by_cases hall : ∀ r ∈ rules, r.canFit = true
  · have hkept : rules.filter KindRule.canFit = rules := List.filter_eq_self.2 hall
    rw [hkept, Nat.sub_self, if_pos rfl, List.all_eq_true.2 hall]
    exact ⟨[], rfl⟩
  · have hfewer : (rules.filter KindRule.canFit).length < rules.length := by
      apply Nat.lt_of_le_of_ne (List.length_filter_le _ _)
      rwa [List.length_filter_eq_length_iff]
    rw [if_neg (Nat.sub_ne_zero_of_lt hfewer), List.all_eq_false.2 (by simpa using hall)]
    exact ⟨_, rfl⟩

/-- Rules that were loaded can all fit. -/
theorem canFit_of_load {settings : String} {plugin : KindRules} {log : Log}
    (h : load settings = .ok (plugin, log)) : ∀ r ∈ plugin.rules, r.canFit = true := by
  have hfilter : ∀ {all : List KindRule}, ∀ r ∈ all.filter KindRule.canFit, r.canFit = true :=
    fun r hr => (List.mem_filter.1 hr).2
  unfold load at h
  split at h
  · cases h
  · dsimp only at h
    split at h <;> cases h <;> exact hfilter

/-- A plugin that has loaded its rules takes up the same rules from what it stores. -/
theorem load_serialize_of_load {settings : String} {plugin : KindRules} {log : Log}
    (h : load settings = .ok (plugin, log)) :
    ∃ log, load (serialize plugin.rules) = .ok ({ rules := plugin.rules }, log) := by
  have hfit := canFit_of_load h
  obtain ⟨log, hload⟩ := load_serialize plugin.rules
  rw [List.filter_eq_self.2 hfit, List.all_eq_true.2 hfit] at hload
  exact ⟨log, hload⟩

theorem serialize_not_blank (rules : List KindRule) :
    Text.allBlank (serialize rules).toList = false := by
  rw [serialize, Json.renderTokens, String.toList_ofList]
  rfl

end KindRules

/-- The slot with nothing left to save: the same rules, and not dirty. -/
def Slot.saved (s : Slot KindRules) : Slot KindRules :=
  { s with plugin := { s.plugin with dirty := false } }

/-! ## The first entry of a name -/

/-- The list is `before`, `config` and `after`, and `config` is the first of its name. -/
structure FirstNamed (name : String) (configs before : List PluginConfig) (config : PluginConfig)
    (after : List PluginConfig) : Prop where
  splits : configs = before ++ config :: after
  named : config.name = name
  first : ∀ c ∈ before, c.name ≠ name

namespace FirstNamed

variable {name : String} {configs before after : List PluginConfig} {config : PluginConfig}

theorem find?_eq (h : FirstNamed name configs before config after) :
    configs.find? (·.name == name) = some config := by
  refine List.find?_eq_some_iff_append.2 ⟨beq_iff_eq.2 h.named, before, after, h.splits, ?_⟩
  intro c hc
  simpa using h.first c hc

theorem exists_of_find? (h : configs.find? (·.name == name) = some config) :
    ∃ before after, FirstNamed name configs before config after := by
  obtain ⟨hname, before, after, hsplits, hfirst⟩ := List.find?_eq_some_iff_append.1 h
  exact ⟨before, after, hsplits, beq_iff_eq.1 hname, fun c hc => by simpa using hfirst c hc⟩

theorem store_eq (h : FirstNamed name configs before config after) (enabled : Bool)
    (settings : String) :
    Slot.store configs name enabled settings = before ++ { config with settings } :: after := by
  obtain ⟨rfl, hnamed, hfirst⟩ := h
  induction before with
  | nil =>
      rw [List.nil_append, Slot.store, if_pos (beq_iff_eq.2 hnamed)]
      rfl
  | cons c before ih =>
      rw [List.forall_mem_cons] at hfirst
      rw [List.cons_append, Slot.store, if_neg (by simpa using hfirst.1), ih hfirst.2]
      rfl

theorem stored (h : FirstNamed name configs before config after) (settings : String) :
    FirstNamed name (before ++ { config with settings } :: after) before { config with settings }
      after :=
  ⟨rfl, h.named, h.first⟩

end FirstNamed

namespace Pipeline

/-! ## Loading and storing -/

/-- The plugins of the program, made with the settings in `configs`. -/
theorem slots_load (configs : List PluginConfig) :
    (load registry configs).1.slots =
      match Registration.configure ({} : KindRules)
          (configs.find? (·.name == KindRules.pluginName)) with
      | .ok (plugin, _) =>
        [{ plugin, enabled := (configs.find? (·.name == KindRules.pluginName)).all (·.enabled) }]
      | .error _ => [] := by
  have hmade : Registration.instantiate ⟨KindRules.pluginName, .ok ({} : KindRules)⟩ = .ok {} :=
    Registration.instantiate_eq_ok.2 ⟨rfl, rfl⟩
  simp only [load, registry, List.map_cons, List.map_nil, Registration.slot, hmade]
  simp only [Bind.bind, Except.bind]
  split <;> rename_i h <;> rw [h] <;> rfl

/-- Settings that are not blank and load make the plugin. -/
theorem slots_load_of_first {configs before after : List PluginConfig} {config : PluginConfig}
    (h : FirstNamed KindRules.pluginName configs before config after)
    (hblank : Text.allBlank config.settings.toList = false) {plugin : KindRules} {log : Log}
    (hload : KindRules.load config.settings = .ok (plugin, log)) :
    (load registry configs).1.slots = [{ plugin, enabled := config.enabled }] := by
  have hconfigure : Registration.configure ({} : KindRules) (some config) = .ok (plugin, log) := by
    rw [Registration.configure, hblank]
    exact hload
  rw [slots_load, h.find?_eq, hconfigure]
  rfl

/-- A plugin is dirty only if there are settings with rules that it dropped. -/
theorem load_of_configure {config : PluginConfig} {plugin : KindRules} {log : Log}
    (h : Registration.configure ({} : KindRules) (some config) = .ok (plugin, log))
    (hdirty : plugin.dirty = true) : KindRules.load config.settings = .ok (plugin, log) := by
  unfold Registration.configure at h
  dsimp only at h
  split at h
  · cases h
    cases hdirty
  · exact h

theorem exists_first_of_dirty {configs : List PluginConfig} {s : Slot KindRules}
    (hs : s ∈ (load registry configs).1.slots) (hdirty : s.plugin.dirty = true) :
    ∃ before config after log, FirstNamed KindRules.pluginName configs before config after ∧
      KindRules.load config.settings = .ok (s.plugin, log) ∧
      s = { plugin := s.plugin, enabled := config.enabled } ∧
      (load registry configs).1.slots = [s] := by
  rw [slots_load] at hs ⊢
  cases hfind : configs.find? (·.name == KindRules.pluginName) with
  | none =>
      rw [hfind] at hs
      cases List.mem_singleton.1 hs
      cases hdirty
  | some config =>
      rw [hfind] at hs
      cases hmade : Registration.configure ({} : KindRules) (some config) with
      | error e =>
          rw [hmade] at hs
          cases hs
      | ok made =>
          rw [hmade] at hs
          cases List.mem_singleton.1 hs
          obtain ⟨before, after, hfirst⟩ := FirstNamed.exists_of_find? hfind
          exact ⟨before, config, after, made.2, hfirst, load_of_configure hmade hdirty, rfl, rfl⟩

section

variable {σ : Type} [Plugin σ]

theorem sync_of_clean {s : Slot σ} (h : Plugin.isDirty s.plugin = false)
    (configs : List PluginConfig) : s.sync configs = (s, configs, []) := by
  rw [Slot.sync, if_neg (by simpa using h)]

theorem syncSettings_of_clean {pipeline : Pipeline σ}
    (h : ∀ s ∈ pipeline.slots, Plugin.isDirty s.plugin = false) (configs : List PluginConfig) :
    pipeline.syncSettings configs = (pipeline, configs, []) := by
  have hslots : ∀ slots : List (Slot σ), (∀ s ∈ slots, Plugin.isDirty s.plugin = false) →
      syncSlots configs slots = (slots, configs, []) := by
    intro slots hslots
    induction slots with
    | nil => rfl
    | cons s rest ih =>
        rw [List.forall_mem_cons] at hslots
        simp only [syncSlots, sync_of_clean hslots.1, ih hslots.2, List.append_nil]
  rw [syncSettings, hslots pipeline.slots h]

end

/-- What is stored for a dirty plugin is what its rules are loaded from again. -/
theorem syncSettings_of_dirty {configs : List PluginConfig} {s : Slot KindRules}
    (hs : s ∈ (load registry configs).1.slots) (hdirty : s.plugin.dirty = true) :
    ∃ before config after,
      FirstNamed KindRules.pluginName configs before config after ∧
      let stored :=
        before ++ { config with settings := KindRules.serialize s.plugin.rules } :: after
      (load registry configs).1 = ⟨[s]⟩ ∧
      (load registry stored).1 = ⟨[s.saved]⟩ ∧
      ∃ log, (load registry configs).1.syncSettings configs = (⟨[s.saved]⟩, stored, log) := by
  obtain ⟨before, config, after, log, hfirst, hload, hslot, hslots⟩ :=
    exists_first_of_dirty hs hdirty
  obtain ⟨log', hreload⟩ := KindRules.load_serialize_of_load hload
  have hloaded : (load registry configs).1 = ⟨[s]⟩ := congrArg Pipeline.mk hslots
  refine ⟨before, config, after, hfirst, hloaded, ?_, ?_⟩
  · have hslots' := slots_load_of_first
      (hfirst.stored (KindRules.serialize s.plugin.rules)) (KindRules.serialize_not_blank _) hreload
    have hsaved : s.saved = { plugin := { rules := s.plugin.rules }, enabled := config.enabled } :=
      congrArg Slot.saved hslot
    rw [hsaved]
    exact congrArg Pipeline.mk hslots'
  · have hisDirty : Plugin.isDirty s.plugin = true := hdirty
    refine ⟨[.info ("saved settings for plugin " ++ KindRules.pluginName)], ?_⟩
    rw [hloaded, syncSettings, syncSlots, Slot.sync, if_pos hisDirty,
      ← hfirst.store_eq s.enabled (KindRules.serialize s.plugin.rules)]
    rfl

/-- Once stored, the settings load to the same slots with nothing left to save, storing them
again changes nothing, and only the first entry of a dirty plugin has got other settings. -/
theorem syncSettings_settles (configs : List PluginConfig) :
    let p := (load registry configs).1
    let synced := p.syncSettings configs
    let reloaded := (load registry synced.2.1).1
    reloaded.slots = p.slots.map Slot.saved ∧
    synced.1.syncSettings synced.2.1 = (synced.1, synced.2.1, []) ∧
    reloaded.syncSettings synced.2.1 = (reloaded, synced.2.1, []) ∧
    (synced.2.1 = configs ∨ ∃ s ∈ p.slots, s.plugin.dirty = true ∧
      ∃ before config after,
        FirstNamed (Plugin.name s.plugin) configs before config after ∧
        synced.2.1 =
          before ++ { config with settings := KindRules.serialize s.plugin.rules } :: after) ∧
    ∀ rules, ∃ log, KindRules.load (KindRules.serialize rules) =
      .ok ({ rules := rules.filter KindRule.canFit,
             dirty := !rules.all KindRule.canFit }, log) := by
  dsimp only
  by_cases hdirty : ∃ s ∈ (load registry configs).1.slots, s.plugin.dirty = true
  · obtain ⟨s, hs, hdirty⟩ := hdirty
    obtain ⟨before, config, after, hfirst, hloaded, hreloaded, log, hsynced⟩ :=
      syncSettings_of_dirty hs hdirty
    have hclean : ∀ s' ∈ (Pipeline.mk [s.saved]).slots, Plugin.isDirty s'.plugin = false := by
      intro s' hs'
      rw [List.mem_singleton.1 hs']
      rfl
    rw [hsynced, hreloaded, hloaded]
    exact ⟨rfl, syncSettings_of_clean hclean _, syncSettings_of_clean hclean _,
      Or.inr ⟨s, List.mem_singleton_self s, hdirty, before, config, after, hfirst, rfl⟩,
      KindRules.load_serialize⟩
  · have hclean : ∀ s ∈ (load registry configs).1.slots, s.plugin.dirty = false := by
      intro s hs
      exact Bool.eq_false_iff.2 fun h => hdirty ⟨s, hs, h⟩
    have hsaved : (load registry configs).1.slots.map Slot.saved =
        (load registry configs).1.slots := by
      refine (List.map_congr_left fun s hs => ?_).trans (List.map_id _)
      rw [Slot.saved, ← hclean s hs]
      rfl
    have hsame := syncSettings_of_clean hclean configs
    rw [hsame, hsaved]
    exact ⟨rfl, hsame, hsame, Or.inl rfl, KindRules.load_serialize⟩

/-- A rule without a kind is written, but it is not read again. -/
theorem load_serialize_kindless :
    ∃ plugin log, KindRules.load (KindRules.serialize [⟨"", "Output", "out"⟩]) =
      .ok (plugin, log) ∧ plugin.rules ≠ [⟨"", "Output", "out"⟩] := by
  obtain ⟨log, h⟩ := KindRules.load_serialize [⟨"", "Output", "out"⟩]
  exact ⟨_, log, h, by decide⟩

end Pipeline
end DocPages

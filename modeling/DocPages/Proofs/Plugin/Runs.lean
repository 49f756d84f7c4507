/-
A plugin that fails keeps no other from its work.

What the registry and the configuration say of a plugin settles whether a slot is made for
it.  From then on only its own passes change the slot, and a pass that fails is its last.
`Fits` says which calls belong to a run after the runs before it, without a word about slots.
The theorem this file exists for is `load_unfolds`: runs that start from a loaded pipeline
make these calls and no others, however many there are.
-/
import DocPages.Plugin.Pipeline
import Mathlib.Data.List.Forall2
import Mathlib.Data.List.Nodup

namespace DocPages

variable {σ : Type} [Plugin σ]

/-! ## Plugins that are made -/

namespace Registration

variable (configs : List PluginConfig) (r : Registration σ)

/-- The factory gives a plugin, and that plugin goes by the name it is registered under. -/
def Creates (plugin : σ) : Prop := r.create = .ok plugin ∧ Plugin.name plugin = r.name

/-- The settings that count: those of the first entry with this name, unless blank. -/
def settings? : Option String :=
  ((configs.find? (·.name == r.name)).map (·.settings)).filter (!Text.allBlank ·.toList)

/-- The first entry with this name does not turn the plugin off. -/
def Enabled : Prop := ∀ config ∈ configs.find? (·.name == r.name), config.enabled = true

/-- The plugin is made, takes its settings, if any, and tells `log` about them. -/
inductive Makes : σ → Log → Prop where
  | plain {plugin : σ} (created : r.Creates plugin) (unset : r.settings? configs = none) :
      Makes plugin []
  | stored {fresh plugin : σ} {settings : String} {log : Log} (created : r.Creates fresh)
      (set : r.settings? configs = some settings)
      (accepted : Plugin.loadSettings fresh settings = .ok (plugin, log)) : Makes plugin log

/-- The plugin cannot be made, or does not take its settings. -/
inductive Refuses : PluginError → Prop where
  | creation {e : PluginError} (failed : r.create = .error e) : Refuses e
  | impostor {plugin : σ} (created : r.create = .ok plugin)
      (other : Plugin.name plugin ≠ r.name) :
      Refuses (.instantiation r.name ("plugin reports its name as " ++ Plugin.name plugin))
  | settings {fresh : σ} {settings : String} {e : PluginError} (created : r.Creates fresh)
      (set : r.settings? configs = some settings)
      (refused : Plugin.loadSettings fresh settings = .error e) : Refuses e

/-- What loading reports of one registered plugin: a single error if it is left out, and
else what the plugin tells itself. -/
inductive Reports : Log → Prop where
  | made {plugin : σ} {log : Log} (makes : r.Makes configs plugin log) : Reports log
  | refused {e : PluginError} (refuses : r.Refuses configs e) :
      Reports [.error ("plugin " ++ r.name ++ ": " ++ e.message)]

variable {configs r}

theorem makes_unique {a b : σ} {log log' : Log} (h : r.Makes configs a log)
    (h' : r.Makes configs b log') : a = b ∧ log = log' := by
  have hcreated : ∀ {x y : σ}, r.Creates x → r.Creates y → x = y := fun hx hy =>
    Except.ok.inj (hx.1.symm.trans hy.1)
  cases h with
  | plain ha hunset =>
      cases h' with
      | plain hb => exact ⟨hcreated ha hb, rfl⟩
      | stored _ hset => exact absurd (hunset.symm.trans hset) (by simp)
  | stored ha hset haccepted =>
      cases h' with
      | plain _ hunset => exact absurd (hunset.symm.trans hset) (by simp)
      | stored hb hset' haccepted' =>
          cases hcreated ha hb
          cases hset.symm.trans hset'
          cases haccepted.symm.trans haccepted'
          exact ⟨rfl, rfl⟩

theorem configure_eq (plugin : σ) :
    configure plugin (configs.find? (·.name == r.name)) =
      match r.settings? configs with
      | some settings => Plugin.loadSettings plugin settings
      | none => .ok (plugin, []) := by
  unfold configure settings?
  cases configs.find? (·.name == r.name) with
  | none => rfl
  | some config =>
      cases hblank : Text.allBlank config.settings.toList <;> simp [Option.filter, hblank]

theorem instantiate_eq_ok {plugin : σ} : r.instantiate = .ok plugin ↔ r.Creates plugin := by
  unfold instantiate Creates
  cases r.create with
  | error e => simp [Bind.bind, Except.bind]
  | ok fresh =>
      by_cases hname : Plugin.name fresh = r.name
      · simp only [Bind.bind, Except.bind, hname, BEq.rfl, if_true, Except.ok.injEq]
        exact ⟨fun h => ⟨h, h ▸ hname⟩, And.left⟩
      · simp only [Bind.bind, Except.bind, beq_iff_eq, hname, if_false, Except.ok.injEq,
          reduceCtorEq, false_iff]
        rintro ⟨rfl, h⟩
        exact hname h

theorem refuses_of_instantiate {e : PluginError} (h : r.instantiate = .error e) :
    r.Refuses configs e := by
  unfold instantiate at h
  cases hcreate : r.create with
  | error e' =>
      rw [hcreate] at h
      cases h
      exact .creation hcreate
  | ok fresh =>
      by_cases hname : Plugin.name fresh = r.name
      · simp [hcreate, Bind.bind, Except.bind, hname] at h
      · simp only [hcreate, Bind.bind, Except.bind, beq_iff_eq, hname, if_false,
          Except.error.injEq] at h
        exact h ▸ .impostor hcreate hname

/-- All that a slot can be. -/
inductive SlotIs (configs : List PluginConfig) (r : Registration σ) :
    Option (Slot σ) × Log → Prop where
  | made {plugin : σ} {log : Log} (makes : r.Makes configs plugin log) {enabled : Bool}
      (henabled : enabled = true ↔ r.Enabled configs) :
      SlotIs configs r (some { plugin, enabled }, log)
  | refused {e : PluginError} (refuses : r.Refuses configs e) :
      SlotIs configs r (none, [.error ("plugin " ++ r.name ++ ": " ++ e.message)])

theorem slotIs (configs : List PluginConfig) (r : Registration σ) :
    SlotIs configs r (r.slot configs) := by
  have henabled : (configs.find? (·.name == r.name)).all (·.enabled) = true ↔
      r.Enabled configs := by
    rw [Option.all_eq_true, Enabled]
    rfl
  unfold slot
  cases hmade : r.instantiate with
  | error e => exact .refused (refuses_of_instantiate hmade)
  | ok fresh =>
      have hcreated := instantiate_eq_ok.1 hmade
      simp only [Bind.bind, Except.bind, configure_eq]
      cases hset : r.settings? configs with
      | none => exact .made (.plain hcreated hset) henabled
      | some settings =>
          dsimp only
          cases haccepted : Plugin.loadSettings fresh settings with
          | error e => exact .refused (.settings hcreated hset haccepted)
          | ok loaded => exact .made (.stored hcreated hset haccepted) henabled

/-- A plugin that is refused is not made. -/
theorem not_makes_of_refuses {e : PluginError} (h : r.Refuses configs e) {plugin : σ}
    {log : Log} : ¬ r.Makes configs plugin log := by
  have hcreated : ∀ {x : σ}, r.Creates x → ∀ {fresh : σ}, r.create = .ok fresh → fresh = x :=
    fun hx _ hcreate => Except.ok.inj (hcreate.symm.trans hx.1)
  intro hmakes
  obtain ⟨x, hx⟩ : ∃ x, r.Creates x := by
    cases hmakes with
    | plain hx => exact ⟨_, hx⟩
    | stored hx => exact ⟨_, hx⟩
  cases h with
  | creation hfailed => exact absurd (hfailed.symm.trans hx.1) (by simp)
  | impostor hcreate hother => exact hother (hcreated hx hcreate ▸ hx.2)
  | settings hfresh hset hrefused =>
      cases hmakes with
      | plain _ hunset => exact absurd (hunset.symm.trans hset) (by simp)
      | stored hfresh' hset' haccepted =>
          cases hcreated hfresh hfresh'.1
          cases hset.symm.trans hset'
          exact absurd (hrefused.symm.trans haccepted) (by simp)

end Registration

namespace Pipeline

/-! ## Runs -/

/-- A plugin is called for a pass over a project.  The place is that of its registration. -/
structure Call (σ : Type) where
  place : Nat
  plugin : σ
  project : Project

namespace Call

variable (call : Call σ)

def pass : Pass σ := Plugin.generate call.plugin call.project

def failed : Bool := call.pass.failure.isSome

/-- What is told of a call: what the plugin tells itself, and one error if it fails. -/
def log : Log :=
  .debug ("running plugin " ++ Plugin.name call.plugin) :: call.pass.log
    ++ call.pass.failure.toList.map fun e =>
      .error ("plugin " ++ Plugin.name call.pass.plugin ++ " failed: " ++ e.message)

/-- The first call is made on `p`, and each other one on what the one before it left. -/
def Chained : Project → List (Call σ) → Prop
  | _, [] => True
  | p, call :: rest => call.project = p ∧ Chained call.pass.project rest

/-- The project after the calls. -/
def result (p : Project) (calls : List (Call σ)) : Project :=
  calls.foldl (fun _ call => call.pass.project) p

end Call

/-- The calls of one run, and the project that it is given. -/
structure Run (σ : Type) where
  given : Project
  calls : List (Call σ)

def callsOf (runs : List (Run σ)) : List (Call σ) := runs.flatMap (·.calls)

/-- What the calls have made of the plugin that was loaded at a place. -/
def stateAfter (calls : List (Call σ)) (place : Nat) (loaded : σ) : σ :=
  calls.foldl (fun plugin call => if call.place = place then call.pass.plugin else plugin) loaded

section

variable (registry : List (Registration σ)) (configs : List PluginConfig)

/-- At this place `loaded` is made, and no earlier run has seen it fail. -/
structure Due (past : List (Run σ)) (place : Nat) (loaded : σ) : Prop where
  makes : ∃ r log, registry[place]? = some r ∧ r.Makes configs loaded log ∧ r.Enabled configs
  intact : ∀ call ∈ callsOf past, call.place = place → call.failed = false

/-- The run calls the plugins that are due after the runs before it, in the order of the
registry and each once, as their own calls have left them. -/
structure Fits (past : List (Run σ)) (run : Run σ) : Prop where
  ordered : run.calls.Pairwise (·.place < ·.place)
  called_iff : ∀ place,
    (∃ call ∈ run.calls, call.place = place) ↔ ∃ loaded, Due registry configs past place loaded
  state : ∀ call ∈ run.calls, ∀ loaded, Due registry configs past call.place loaded →
    call.plugin = stateAfter (callsOf past) call.place loaded
  chained : Call.Chained run.given run.calls

/-- A pipeline goes through these runs: each makes the calls that fit what came before, and
the active plugins are those that the next run calls. -/
inductive Unfolds : List (Run σ) → Pipeline σ → List (Run σ) → Prop where
  | done (past : List (Run σ)) (pipeline : Pipeline σ) : Unfolds past pipeline []
  | run {past later : List (Run σ)} {pipeline next : Pipeline σ} {run : Run σ}
      (fits : Fits registry configs past run)
      (active : pipeline.active = run.calls.map (Plugin.name ·.plugin))
      (ran : pipeline.run run.given =
        (next, Call.result run.given run.calls, run.calls.flatMap Call.log))
      (rest : Unfolds (past ++ [run]) next later) : Unfolds past pipeline (run :: later)

end

/-! ## Slots and the places they were made for -/

/-- A slot and the place of its registration. -/
abbrev PlacedSlot (σ : Type) := Nat × Slot σ

/-- The calls that a run over these slots makes. -/
def callsOn (p : Project) : List (PlacedSlot σ) → List (Call σ)
  | [] => []
  | (place, s) :: rest =>
      if s.isActive then
        let call : Call σ := { place, plugin := s.plugin, project := p }
        call :: callsOn call.pass.project rest
      else callsOn p rest

/-- The slot as the calls of a run leave it. -/
def settle (calls : List (Call σ)) (slot : PlacedSlot σ) : Slot σ :=
  match calls.find? (·.place == slot.1) with
  | some call => { slot.2 with plugin := call.pass.plugin, failed := call.failed }
  | none => slot.2

/-- The slots after a run. -/
def settleAll (p : Project) (slots : List (PlacedSlot σ)) : List (PlacedSlot σ) :=
  slots.map fun slot => (slot.1, settle (callsOn p slots) slot)

theorem run_active (place : Nat) (s : Slot σ) (p : Project) (h : s.isActive = true) :
    let call : Call σ := { place, plugin := s.plugin, project := p }
    s.run p = ({ s with plugin := call.pass.plugin, failed := call.failed }, call.pass.project,
      call.log) := by
  have hintact : s.failed = false := by
    simpa using (Bool.and_eq_true_iff.1 h).2
  dsimp only [Slot.run, Call.log, Call.failed, Call.pass]
  cases hfailure : (Plugin.generate s.plugin p).failure <;> simp [hintact]

/-- The calls are those of the active slots, in their order. -/
theorem callers_callsOn (p : Project) (slots : List (PlacedSlot σ)) :
    (callsOn p slots).map (fun call => (call.place, call.plugin)) =
      (slots.filter (·.2.isActive)).map fun slot => (slot.1, slot.2.plugin) := by
  induction slots generalizing p with
  | nil => rfl
  | cons slot rest ih =>
      rw [callsOn, List.filter_cons]
      split
      · rw [List.map_cons, List.map_cons, ih]
      · exact ih p

theorem places_callsOn (p : Project) (slots : List (PlacedSlot σ)) :
    (callsOn p slots).map (·.place) = (slots.filter (·.2.isActive)).map (·.1) := by
  simpa [Function.comp_def] using congrArg (List.map Prod.fst) (callers_callsOn p slots)

theorem plugins_callsOn (p : Project) (slots : List (PlacedSlot σ)) :
    (callsOn p slots).map (·.plugin) = (slots.filter (·.2.isActive)).map (·.2.plugin) := by
  simpa [Function.comp_def] using congrArg (List.map Prod.snd) (callers_callsOn p slots)

theorem exists_slot_of_call {p : Project} {slots : List (PlacedSlot σ)} {call : Call σ}
    (h : call ∈ callsOn p slots) :
    ∃ s, (call.place, s) ∈ slots ∧ s.isActive = true ∧ call.plugin = s.plugin := by
  have hcaller : (call.place, call.plugin) ∈
      (slots.filter (·.2.isActive)).map fun slot => (slot.1, slot.2.plugin) := by
    rw [← callers_callsOn p]
    exact List.mem_map.2 ⟨call, h, rfl⟩
  obtain ⟨⟨place, s⟩, hslot, hsame⟩ := List.mem_map.1 hcaller
  obtain ⟨rfl, hplugin⟩ := Prod.mk.inj hsame
  obtain ⟨hmem, hactive⟩ := List.mem_filter.1 hslot
  exact ⟨s, hmem, hactive, hplugin.symm⟩

theorem chained_callsOn (p : Project) (slots : List (PlacedSlot σ)) :
    Call.Chained p (callsOn p slots) := by
  induction slots generalizing p with
  | nil => trivial
  | cons slot rest ih =>
      rw [callsOn]
      split
      · exact ⟨rfl, ih _⟩
      · exact ih p

theorem ordered_callsOn (p : Project) {slots : List (PlacedSlot σ)}
    (h : slots.Pairwise (·.1 < ·.1)) : (callsOn p slots).Pairwise (·.place < ·.place) := by
  rw [← List.pairwise_map, places_callsOn]
  exact List.pairwise_map.2 (h.filter _)

theorem settle_of_not_called {calls : List (Call σ)} {slot : PlacedSlot σ}
    (h : ∀ call ∈ calls, call.place ≠ slot.1) : settle calls slot = slot.2 := by
  rw [settle, List.find?_eq_none.2 fun call hcall => by simpa using h call hcall]

theorem map_settleAll (p : Project) (slots : List (PlacedSlot σ)) :
    (settleAll p slots).map (·.2) = slots.map (settle (callsOn p slots)) := by
  rw [settleAll, List.map_map]
  rfl

/-- A run changes the slots as its calls say. -/
theorem runSlots_eq (p : Project) {slots : List (PlacedSlot σ)}
    (h : slots.Pairwise (·.1 < ·.1)) :
    runSlots p (slots.map (·.2)) =
      ((settleAll p slots).map (·.2), Call.result p (callsOn p slots),
        (callsOn p slots).flatMap Call.log) := by
  induction slots generalizing p with
  | nil => rfl
  | cons slot rest ih =>
      obtain ⟨place, s⟩ := slot
      obtain ⟨hlater, hrest⟩ := List.pairwise_cons.1 h
      rw [List.map_cons, runSlots]
      by_cases hactive : s.isActive = true
      · have hcalls : ∃ call : Call σ, call.place = place ∧
            s.run p = ({ s with plugin := call.pass.plugin, failed := call.failed },
              call.pass.project, call.log) ∧
            callsOn p ((place, s) :: rest) = call :: callsOn call.pass.project rest :=
          ⟨_, rfl, run_active place s p hactive, by rw [callsOn, if_pos hactive]⟩
        obtain ⟨call, rfl, hrun, hcalls⟩ := hcalls
        have hown : settle (callsOn p ((call.place, s) :: rest)) (call.place, s) =
            { s with plugin := call.pass.plugin, failed := call.failed } := by
          simp [settle, hcalls]
        have hothers : ∀ other ∈ rest, settle (callsOn p ((call.place, s) :: rest)) other =
            settle (callsOn call.pass.project rest) other := by
          intro other hother
          have hne : call.place ≠ other.1 := Nat.ne_of_lt (hlater other hother)
          simp [settle, hcalls, hne]
        have htail : rest.map (settle (callsOn p ((call.place, s) :: rest))) =
            rest.map (settle (callsOn call.pass.project rest)) := List.map_congr_left hothers
        simp only [if_pos hactive, hrun, ih _ hrest, map_settleAll, List.map_cons, hown, htail]
        rw [hcalls]
        rfl
      · have hcalls : callsOn p ((place, s) :: rest) = callsOn p rest := by
          rw [callsOn, if_neg hactive]
        have hown : settle (callsOn p rest) (place, s) = s := by
          refine settle_of_not_called fun call hcall => ?_
          obtain ⟨s', hs', -⟩ := exists_slot_of_call hcall
          exact Nat.ne_of_gt (hlater _ hs')
        simp only [if_neg hactive, ih _ hrest, map_settleAll, List.map_cons, hcalls, hown,
          List.nil_append]

/-! ## Slots after runs -/

theorem stateAfter_append (calls more : List (Call σ)) (place : Nat) (loaded : σ) :
    stateAfter (calls ++ more) place loaded =
      stateAfter more place (stateAfter calls place loaded) :=
  List.foldl_append

theorem stateAfter_of_not_called {calls : List (Call σ)} {place : Nat}
    (h : ∀ call ∈ calls, call.place ≠ place) (loaded : σ) :
    stateAfter calls place loaded = loaded := by
  induction calls with
  | nil => rfl
  | cons call rest ih =>
      obtain ⟨hcall, hrest⟩ := List.forall_mem_cons.1 h
      rw [stateAfter, List.foldl_cons, if_neg hcall]
      exact ih hrest

/-- A run calls a plugin once, and leaves it as that call does. -/
theorem stateAfter_of_called {calls : List (Call σ)} (hordered : calls.Pairwise (·.place < ·.place))
    {call : Call σ} (hcall : call ∈ calls) (loaded : σ) :
    stateAfter calls call.place loaded = call.pass.plugin := by
  obtain ⟨before, after, rfl⟩ := List.append_of_mem hcall
  have hafter : ∀ other ∈ after, other.place ≠ call.place := fun other hother =>
    Nat.ne_of_gt ((List.pairwise_cons.1 (List.pairwise_append.1 hordered).2.1).1 other hother)
  rw [stateAfter_append, stateAfter, List.foldl_cons, if_pos rfl]
  exact stateAfter_of_not_called hafter _

omit [Plugin σ] in
theorem find?_place {calls : List (Call σ)} (hordered : calls.Pairwise (·.place < ·.place))
    {call : Call σ} (hcall : call ∈ calls) :
    calls.find? (·.place == call.place) = some call := by
  obtain ⟨before, after, rfl⟩ := List.append_of_mem hcall
  have hbefore : ∀ other ∈ before, other.place ≠ call.place := fun other hother =>
    Nat.ne_of_lt ((List.pairwise_append.1 hordered).2.2 other hother call List.mem_cons_self)
  have hnone : before.find? (·.place == call.place) = none :=
    List.find?_eq_none.2 fun other hother => by simpa using hbefore other hother
  rw [List.find?_append, hnone, List.find?_cons_of_pos (by simp)]
  rfl

/-- The one call of a plugin says whether it has failed. -/
theorem failed_of_called {calls : List (Call σ)} (hordered : calls.Pairwise (·.place < ·.place))
    {call : Call σ} (hcall : call ∈ calls) :
    (∃ other ∈ calls, other.place = call.place ∧ other.failed = true) ↔ call.failed = true := by
  constructor
  · rintro ⟨other, hother, hplace, hfailed⟩
    have hfound := find?_place hordered hother
    rw [hplace, find?_place hordered hcall] at hfound
    cases hfound
    exact hfailed
  · exact fun hfailed => ⟨call, hcall, rfl, hfailed⟩

section

variable (registry : List (Registration σ)) (configs : List PluginConfig)

/-- What the slot at a place is after these runs. -/
structure SlotAfter (past : List (Run σ)) (place : Nat) (s : Slot σ) (loaded : σ) : Prop where
  makes : ∃ r log, registry[place]? = some r ∧ r.Makes configs loaded log ∧
    (s.enabled = true ↔ r.Enabled configs)
  plugin : s.plugin = stateAfter (callsOf past) place loaded
  failed : s.failed = true ↔ ∃ call ∈ callsOf past, call.place = place ∧ call.failed = true

/-- There is one slot for each plugin that is made, in the order of the registry. -/
structure Stands (past : List (Run σ)) (slots : List (PlacedSlot σ)) : Prop where
  ordered : slots.Pairwise (·.1 < ·.1)
  sound : ∀ slot ∈ slots, ∃ loaded, SlotAfter registry configs past slot.1 slot.2 loaded
  complete : ∀ place r loaded log, registry[place]? = some r → r.Makes configs loaded log →
    ∃ s, (place, s) ∈ slots

variable {registry configs}

/-- An active slot is one whose plugin is due. -/
theorem SlotAfter.isActive_iff {past : List (Run σ)} {place : Nat} {s : Slot σ} {loaded : σ}
    (h : SlotAfter registry configs past place s loaded) :
    s.isActive = true ↔ Due registry configs past place loaded := by
  obtain ⟨r, log, hr, hmakes, henabled⟩ := h.makes
  have hfailed : s.failed = false ↔ ∀ call ∈ callsOf past, call.place = place →
      call.failed = false := by
    rw [← Bool.not_eq_true, h.failed]
    simp
  rw [Slot.isActive, Bool.and_eq_true, Bool.not_eq_true', henabled, hfailed]
  constructor
  · rintro ⟨hon, hintact⟩
    exact ⟨⟨r, log, hr, hmakes, hon⟩, hintact⟩
  · rintro ⟨⟨r', log', hr', -, hon⟩, hintact⟩
    cases hr.symm.trans hr'
    exact ⟨hon, hintact⟩

theorem Due.loaded_unique {past : List (Run σ)} {place : Nat} {a b : σ}
    (ha : Due registry configs past place a) {r : Registration σ} {log : Log}
    (hr : registry[place]? = some r) (hb : r.Makes configs b log) : a = b := by
  obtain ⟨r', log', hr', hmakes, -⟩ := ha.makes
  cases hr.symm.trans hr'
  exact (Registration.makes_unique hmakes hb).1

theorem Stands.slot_unique {past : List (Run σ)} {slots : List (PlacedSlot σ)}
    (h : Stands registry configs past slots) {place : Nat} {a b : Slot σ}
    (ha : (place, a) ∈ slots) (hb : (place, b) ∈ slots) : a = b := by
  have hnodup : (slots.map (·.1)).Nodup :=
    (List.pairwise_map.2 h.ordered).imp fun hlt => Nat.ne_of_lt hlt
  have hsame := List.inj_on_of_nodup_map hnodup ha hb rfl
  exact congrArg Prod.snd hsame

/-- What one run does to the slot of a plugin. -/
theorem slotAfter_settle {past : List (Run σ)} {slots : List (PlacedSlot σ)}
    (hstands : Stands registry configs past slots) (p : Project) {slot : PlacedSlot σ}
    (hslot : slot ∈ slots) {loaded : σ} (h : SlotAfter registry configs past slot.1 slot.2 loaded) :
    SlotAfter registry configs (past ++ [⟨p, callsOn p slots⟩]) slot.1
      (settle (callsOn p slots) slot) loaded := by
  have hordered := ordered_callsOn p hstands.ordered
  have hcallsOf : callsOf (past ++ [⟨p, callsOn p slots⟩]) = callsOf past ++ callsOn p slots := by
    simp [callsOf]
  obtain ⟨place, s⟩ := slot
  have hfailures : (∃ call ∈ callsOf (past ++ [⟨p, callsOn p slots⟩]),
        call.place = place ∧ call.failed = true) ↔
      (∃ call ∈ callsOf past, call.place = place ∧ call.failed = true) ∨
        ∃ call ∈ callsOn p slots, call.place = place ∧ call.failed = true := by
    simp only [hcallsOf, List.mem_append, or_and_right, exists_or]
  by_cases hcalled : ∃ call ∈ callsOn p slots, call.place = place
  · obtain ⟨call, hcall, rfl⟩ := hcalled
    have hsettled : settle (callsOn p slots) (call.place, s) =
        { s with plugin := call.pass.plugin, failed := call.failed } := by
      rw [settle, find?_place hordered hcall]
    have hpast : ¬ ∃ other ∈ callsOf past, other.place = call.place ∧ other.failed = true := by
      obtain ⟨s', hs', hactive, -⟩ := exists_slot_of_call hcall
      cases hstands.slot_unique hslot hs'
      rw [← h.failed]
      simpa using (Bool.and_eq_true_iff.1 hactive).2
    rw [hsettled]
    refine ⟨h.makes, ?_, ?_⟩
    · rw [hcallsOf, stateAfter_append, stateAfter_of_called hordered hcall]
    · rw [hfailures, or_iff_right hpast, failed_of_called hordered hcall]
  · have hnone : ∀ call ∈ callsOn p slots, call.place ≠ place := fun call hcall hplace =>
      hcalled ⟨call, hcall, hplace⟩
    rw [settle_of_not_called hnone]
    refine ⟨h.makes, ?_, ?_⟩
    · rw [hcallsOf, stateAfter_append, stateAfter_of_not_called hnone]
      exact h.plugin
    · rw [h.failed, hfailures, or_iff_left]
      exact fun ⟨call, hcall, hplace, _⟩ => hnone call hcall hplace

/-- The slots before the first run. -/
def loadedSlots (registry : List (Registration σ)) (configs : List PluginConfig) :
    List (PlacedSlot σ) :=
  registry.zipIdx.filterMap fun (r, place) => (r.slot configs).1.map (place, ·)

theorem mem_loadedSlots {place : Nat} {s : Slot σ} :
    (place, s) ∈ loadedSlots registry configs ↔
      ∃ r, registry[place]? = some r ∧ (r.slot configs).1 = some s := by
  simp only [loadedSlots, List.mem_filterMap, Prod.exists, List.mem_zipIdx_iff_getElem?,
    Option.map_eq_some_iff, Prod.mk.injEq]
  constructor
  · rintro ⟨r, _, hr, _, hs, rfl, rfl⟩
    exact ⟨r, hr, hs⟩
  · rintro ⟨r, hr, hs⟩
    exact ⟨r, place, hr, s, hs, rfl, rfl⟩

theorem map_loadedSlots :
    (loadedSlots registry configs).map (·.2) = (load registry configs).1.slots := by
  have hplain : registry = registry.zipIdx.map Prod.fst := (List.zipIdx_map_fst 0 registry).symm
  show _ = (registry.map (·.slot configs)).filterMap (·.1)
  conv_rhs => rw [hplain]
  rw [loadedSlots, List.map_filterMap, List.map_map, List.filterMap_map]
  refine List.filterMap_congr fun entry _ => ?_
  simp [Function.comp_def]

theorem stands_loadedSlots : Stands registry configs [] (loadedSlots registry configs) := by
  refine ⟨?_, ?_, ?_⟩
  · have hplaces : registry.zipIdx.Pairwise (·.2 < ·.2) := by
      rw [← List.pairwise_map, List.zipIdx_map_snd]
      exact List.pairwise_lt_range'
    refine List.Pairwise.filterMap _ (fun a b hlt x hx y hy => ?_) hplaces
    obtain ⟨_, -, rfl⟩ := Option.map_eq_some_iff.1 hx
    obtain ⟨_, -, rfl⟩ := Option.map_eq_some_iff.1 hy
    exact hlt
  · rintro ⟨place, s⟩ hslot
    obtain ⟨r, hr, hs⟩ := mem_loadedSlots.1 hslot
    have hslotIs := Registration.slotIs configs r
    generalize r.slot configs = made at hs hslotIs
    cases hslotIs with
    | refused => cases hs
    | made hmakes henabled =>
        cases hs
        exact ⟨_, ⟨r, _, hr, hmakes, henabled⟩, rfl, by simp [callsOf]⟩
  · intro place r loaded log hr hmakes
    have hslotIs := Registration.slotIs configs r
    generalize hmade : r.slot configs = made at hslotIs
    cases hslotIs with
    | refused hrefuses => exact absurd hmakes (Registration.not_makes_of_refuses hrefuses)
    | made => exact ⟨_, mem_loadedSlots.2 ⟨r, hr, congrArg Prod.fst hmade⟩⟩

/-- What loading tells of the registered plugins. -/
theorem reports_slot (registry : List (Registration σ)) (configs : List PluginConfig) :
    List.Forall₂ (Registration.Reports configs) registry
      (registry.map fun r => (r.slot configs).2) := by
  refine List.forall₂_map_right_iff.2 (List.forall₂_same.2 fun r _ => ?_)
  have hslotIs := Registration.slotIs configs r
  generalize r.slot configs = made at hslotIs
  cases hslotIs with
  | made hmakes => exact .made hmakes
  | refused hrefuses => exact .refused hrefuses

theorem stands_settleAll {past : List (Run σ)} {slots : List (PlacedSlot σ)}
    (h : Stands registry configs past slots) (p : Project) :
    Stands registry configs (past ++ [⟨p, callsOn p slots⟩]) (settleAll p slots) := by
  refine ⟨?_, ?_, ?_⟩
  · exact List.pairwise_map.2 h.ordered
  · intro slot hslot
    obtain ⟨before, hbefore, rfl⟩ := List.mem_map.1 hslot
    obtain ⟨loaded, hloaded⟩ := h.sound before hbefore
    exact ⟨loaded, slotAfter_settle h p hbefore hloaded⟩
  · intro place r loaded log hr hmakes
    obtain ⟨s, hs⟩ := h.complete place r loaded log hr hmakes
    exact ⟨_, List.mem_map.2 ⟨(place, s), hs, rfl⟩⟩

/-- The calls of a run fit what came before. -/
theorem fits_callsOn {past : List (Run σ)} {slots : List (PlacedSlot σ)}
    (h : Stands registry configs past slots) (p : Project) :
    Fits registry configs past ⟨p, callsOn p slots⟩ := by
  have hcall : ∀ call ∈ callsOn p slots, ∃ loaded, Due registry configs past call.place loaded ∧
      call.plugin = stateAfter (callsOf past) call.place loaded := by
    intro call hcall
    obtain ⟨s, hs, hactive, hplugin⟩ := exists_slot_of_call hcall
    obtain ⟨loaded, hloaded⟩ := h.sound _ hs
    exact ⟨loaded, hloaded.isActive_iff.1 hactive, hplugin.trans hloaded.plugin⟩
  refine ⟨ordered_callsOn p h.ordered, fun place => ⟨?_, ?_⟩, ?_, chained_callsOn p slots⟩
  · rintro ⟨call, hmem, rfl⟩
    obtain ⟨loaded, hdue, -⟩ := hcall call hmem
    exact ⟨loaded, hdue⟩
  · rintro ⟨loaded, hdue⟩
    obtain ⟨r, log, hr, hmakes, -⟩ := hdue.makes
    obtain ⟨s, hs⟩ := h.complete place r loaded log hr hmakes
    obtain ⟨loaded', hloaded⟩ := h.sound _ hs
    obtain ⟨r', log', hr', hmakes', -⟩ := hloaded.makes
    cases hdue.loaded_unique hr' hmakes'
    have hplace : place ∈ (callsOn p slots).map (·.place) := by
      rw [places_callsOn]
      exact List.mem_map.2 ⟨_, List.mem_filter.2 ⟨hs, hloaded.isActive_iff.2 hdue⟩, rfl⟩
    exact List.mem_map.1 hplace
  · intro call hmem loaded hdue
    obtain ⟨loaded', hdue', hplugin⟩ := hcall call hmem
    obtain ⟨r, log, hr, hmakes, -⟩ := hdue'.makes
    cases hdue.loaded_unique hr hmakes
    exact hplugin

theorem active_eq (p : Project) (slots : List (PlacedSlot σ)) :
    active ⟨slots.map (·.2)⟩ = (callsOn p slots).map (Plugin.name ·.plugin) := by
  have hnames := congrArg (List.map Plugin.name) (plugins_callsOn p slots)
  rw [List.map_map, List.map_map] at hnames
  rw [active, List.filter_map, List.map_map]
  exact hnames.symm

/-- However many projects come, a pipeline that stands for its past goes on as it should. -/
theorem unfolds_of_stands (given : List Project) {past : List (Run σ)}
    {slots : List (PlacedSlot σ)} (h : Stands registry configs past slots) :
    ∃ runs, runs.map (·.given) = given ∧ Unfolds registry configs past ⟨slots.map (·.2)⟩ runs := by
  induction given generalizing past slots with
  | nil => exact ⟨[], rfl, .done _ _⟩
  | cons p rest ih =>
      obtain ⟨later, hgiven, hlater⟩ := ih (stands_settleAll h p)
      refine ⟨⟨p, callsOn p slots⟩ :: later, by rw [List.map_cons, hgiven], ?_⟩
      refine .run (fits_callsOn h p) (active_eq p slots) ?_ hlater
      rw [run, runSlots_eq p h.ordered]

end

/-- Loading warns of each entry that names no registered plugin and has one report for each
registration, and every run after it calls the plugins that are due. -/
theorem load_unfolds (registry : List (Registration σ)) (configs : List PluginConfig)
    (given : List Project) :
    (∃ reports, List.Forall₂ (Registration.Reports configs) registry reports ∧
      (load registry configs).2 =
        (configs.filter fun config => ∀ r ∈ registry, r.name ≠ config.name).map
            (fun config => .warning ("unknown plugin in configuration: " ++ config.name)) ++
          reports.flatten) ∧
      ∃ runs, runs.map (·.given) = given ∧
        Unfolds registry configs [] (load registry configs).1 runs := by
  have hunknown : unknownConfigs registry configs =
      configs.filter fun config => ∀ r ∈ registry, r.name ≠ config.name :=
    List.filter_congr fun config _ => by rw [Bool.eq_iff_iff]; simp
  refine ⟨⟨_, reports_slot registry configs, ?_⟩, ?_⟩
  · rw [load, hunknown, List.flatMap_map, List.flatMap_def]
  · have hstands : Stands registry configs [] (loadedSlots registry configs) := stands_loadedSlots
    obtain ⟨runs, hgiven, hruns⟩ := unfolds_of_stands given hstands
    rw [map_loadedSlots] at hruns
    exact ⟨runs, hgiven, hruns⟩

end Pipeline
end DocPages

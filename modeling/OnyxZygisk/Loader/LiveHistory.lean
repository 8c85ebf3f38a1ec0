import OnyxZygisk.Loader.CompanionIds
import OnyxZygisk.Loader.LiveLoad

/-!
# The live loader over wakeups

`hotplug_loaded` remembers by name what system_server has loaded, the classic modules and the FN nodes alike.
So over any history of wakeups an entry runs once at most, and a module is missed just where a loaded node
bears its name (`live_loads_iff`).
-/

namespace OnyxZygisk.Loader

open Daemon

/-! ### The process -/

/-- What system_server is given to load when it specializes: the daemon's replies, and `loads` as for
`run_modules_pre`. A reply names a module once. -/
structure ServerStart where
  loads : Origin → Bool
  modules : List Daemon.Module
  nodes : List FnNode
  distinct : (modules.map Daemon.Module.name).Nodup

/-- `mod.getName()` -/
def Origin.getName : Origin → String
  | module name => name
  | node n => n.id

def Origin.module? : Origin → Option String
  | module name => some name
  | node _ => none

/-- What `run_modules_pre` has loaded; it has run the entry of each. -/
def ServerStart.loaded (s : ServerStart) : List Origin :=
  (runModulesPreIds s.loads s.modules s.nodes).map Prod.snd

/-- `hotplug_loaded`, and the classic modules whose entry has run so far. -/
structure Live where
  hotplugLoaded : List String
  entries : List String

/-- As `server_specialize_post` leaves it. -/
def ServerStart.live (s : ServerStart) : Live where
  hotplugLoaded := s.loaded.map Origin.getName
  entries := s.loaded.filterMap Origin.module?

/-- A wakeup: the reply to `ReadModules`, and which libraries can be loaded now. -/
structure Wakeup where
  env : Env
  reply : List Daemon.Module

def entryOf : Op → Option String
  | .onLoad name _ => some name
  | _ => none

/-- One turn of `hotplug_worker` over the reply. -/
def Live.wake (s : Live) (wk : Wakeup) : Live :=
  match Prog.run exec wk.env (liveLoad s.hotplugLoaded wk.reply) (World.idle .empty) with
  | some (loaded, w) => ⟨loaded, s.entries ++ w.log.reverse.filterMap entryOf⟩
  | none => s

def ServerStart.after (s : ServerStart) (wakeups : List Wakeup) : Live := wakeups.foldl Live.wake s.live

/-! ### One wakeup -/

/-- The modules of a reply that are loaded. -/
def liveNews (loads : Memfd → Bool) (hotplugLoaded : List String) : List Daemon.Module → List Daemon.Module
  | [] => []
  | m :: ms =>
    if hotplugLoaded.contains m.name then liveNews loads hotplugLoaded ms
    else if loads m.libFd then m :: liveNews loads (hotplugLoaded ++ [m.name]) ms
    else liveNews loads hotplugLoaded ms

variable {loads : Memfd → Bool} {loaded : List String} {ms : List Daemon.Module} {m : Daemon.Module}

theorem run_liveLoad (e : Env) (loaded : List String) (ms : List Daemon.Module) (w : World) :
    Prog.run exec e (liveLoad loaded ms) w =
      some (loaded ++ (liveNews e.loads loaded ms).map Daemon.Module.name,
        { w with log := ((liveNews e.loads loaded ms).map fun m => Op.onLoad m.name m.libFd).reverse ++ w.log }) := by
  induction ms generalizing loaded w with
  | nil => simp [liveLoad, liveNews]
  | cons m ms ih =>
    rw [liveLoad, liveNews]
    by_cases hseen : loaded.contains m.name = true
    · rw [if_pos hseen, if_pos hseen]
      exact ih loaded w
    · rw [if_neg hseen, if_neg hseen]
      by_cases hload : e.loads m.libFd = true
      · simp [perform, Prog.run_call, exec, hload, World.note, ih, List.append_assoc]
      · simp [perform, Prog.run_call, exec, hload, ih]

/-- A wakeup adds the same names to both lists. -/
theorem wake_eq (s : Live) (wk : Wakeup) :
    s.wake wk =
      ⟨s.hotplugLoaded ++ (liveNews wk.env.loads s.hotplugLoaded wk.reply).map Daemon.Module.name,
        s.entries ++ (liveNews wk.env.loads s.hotplugLoaded wk.reply).map Daemon.Module.name⟩ := by
  rw [Live.wake, run_liveLoad]
  simp [World.idle, List.filterMap_map, Function.comp_def, entryOf]

/-- What is loaded was not in the list, and is loaded once. -/
theorem nodup_liveNews :
    ((liveNews loads loaded ms).map Daemon.Module.name).Nodup ∧
      ∀ name ∈ (liveNews loads loaded ms).map Daemon.Module.name, name ∉ loaded := by
  induction ms generalizing loaded with
  | nil => simp [liveNews]
  | cons m ms ih =>
    rw [liveNews]
    split_ifs with hseen hload
    · exact ih
    · obtain ⟨hnodup, hnew⟩ := @ih (loaded ++ [m.name])
      rw [List.map_cons, List.nodup_cons, List.forall_mem_cons]
      refine ⟨⟨fun hm => hnew _ hm (by simp), hnodup⟩, by simpa using hseen, fun name hname hold => ?_⟩
      exact hnew name hname (List.mem_append_left _ hold)
    · exact ih

/-- What can be loaded and is not in the list is loaded. -/
theorem mem_liveNews (hm : m ∈ ms) (hload : loads m.libFd = true) (hnew : m.name ∉ loaded) :
    m.name ∈ (liveNews loads loaded ms).map Daemon.Module.name := by
  induction ms generalizing loaded with
  | nil => exact absurd hm List.not_mem_nil
  | cons m' ms ih =>
    rw [liveNews]
    rcases List.mem_cons.1 hm with rfl | hm
    · rw [if_neg (by simpa using hnew), if_pos hload]
      exact List.mem_cons_self
    · split_ifs with hseen hload'
      · exact ih hm hnew
      · rw [List.map_cons]
        by_cases hname : m.name = m'.name
        · rw [hname]
          exact List.mem_cons_self
        · refine List.mem_cons_of_mem _ (ih hm fun h => ?_)
          rcases List.mem_append.1 h with h | h
          · exact hnew h
          · exact hname (List.mem_singleton.1 h)
      · exact ih hm hnew

/-! ### The history -/

section History

variable {s : ServerStart} {wakeups : List Wakeup}

/-- The wakeups have added names of their own, each once. -/
structure Added (s : ServerStart) (now : Live) (added : List String) : Prop where
  loaded : now.hotplugLoaded = s.live.hotplugLoaded ++ added
  entries : now.entries = s.live.entries ++ added
  nodup : added.Nodup
  new : ∀ name ∈ added, name ∉ s.live.hotplugLoaded

theorem Added.wake {now : Live} {added : List String} (h : Added s now added) (wk : Wakeup) :
    ∃ added', Added s (now.wake wk) added' := by
  have hnews := @nodup_liveNews wk.env.loads now.hotplugLoaded wk.reply
  rw [wake_eq]
  refine ⟨added ++ (liveNews wk.env.loads now.hotplugLoaded wk.reply).map Daemon.Module.name, ?_, ?_, ?_, ?_⟩
  · rw [h.loaded, List.append_assoc]
  · rw [h.entries, List.append_assoc]
  · rw [List.nodup_append]
    refine ⟨h.nodup, hnews.1, fun a ha b hb hab => hnews.2 b hb ?_⟩
    rw [h.loaded, ← hab]
    exact List.mem_append_right _ ha
  · intro name hname
    rcases List.mem_append.1 hname with hname | hname
    · exact h.new name hname
    · intro hold
      refine hnews.2 name hname ?_
      rw [h.loaded]
      exact List.mem_append_left _ hold

theorem added_after (s : ServerStart) (wakeups : List Wakeup) : ∃ added, Added s (s.after wakeups) added := by
  induction wakeups using List.reverseRecOn with
  | nil => exact ⟨[], by simp [ServerStart.after], by simp [ServerStart.after], List.nodup_nil, nofun⟩
  | append_singleton wakeups wk ih =>
    obtain ⟨added, h⟩ := ih
    rw [ServerStart.after, List.foldl_concat]
    exact h.wake wk

/-- The names in `hotplug_loaded` are those of the entries and the ids of the nodes. -/
theorem mem_hotplugLoaded {name : String} : name ∈ s.live.hotplugLoaded ↔
    name ∈ s.live.entries ∨ ∃ n, Origin.node n ∈ s.loaded ∧ n.id = name := by
  simp only [ServerStart.live, List.mem_map, List.mem_filterMap]
  constructor
  · rintro ⟨o, ho, rfl⟩
    cases o with
    | module name => exact .inl ⟨_, ho, rfl⟩
    | node n => exact .inr ⟨n, ho, rfl⟩
  · rintro (⟨o, ho, hname⟩ | ⟨n, hn, rfl⟩)
    · cases o with
      | module name =>
        obtain rfl := Option.some.inj hname
        exact ⟨_, ho, rfl⟩
      | node n => nomatch hname
    · exact ⟨_, hn, rfl⟩

theorem nodup_entries (s : ServerStart) : s.live.entries.Nodup := by
  have hmodules : (s.modules.zipIdx.map fun m => (m.2, Origin.module m.1.name)).filterMap
      (fun id => id.2.module?) = s.modules.map Daemon.Module.name := by
    rw [List.filterMap_map]
    change s.modules.zipIdx.filterMap (some ∘ fun m => m.1.name) = _
    rw [List.filterMap_eq_map]
    change s.modules.zipIdx.map (Daemon.Module.name ∘ Prod.fst) = _
    rw [← List.map_map, List.zipIdx_map_fst]
  have hnodes : ∀ ids : List (Nat × Origin), (∀ id ∈ ids, ∃ n, id.2 = .node n) →
      ids.filterMap (fun id => id.2.module?) = [] := by
    intro ids hids
    rw [List.filterMap_eq_nil_iff]
    intro id hid
    obtain ⟨n, hn⟩ := hids id hid
    rw [hn]
    rfl
  change (s.loaded.filterMap Origin.module?).Nodup
  rw [ServerStart.loaded, List.filterMap_map]
  change ((runModulesPreIds s.loads s.modules s.nodes).filterMap fun id => id.2.module?).Nodup
  have hrest : (((s.nodes.zipIdx.map fun fn => (s.modules.length + fn.2, Origin.node fn.1)).filter
      fun id => s.loads id.2).filterMap fun id => id.2.module?) = [] := by
    refine hnodes _ fun id hid => ?_
    obtain ⟨fn, -, rfl⟩ := List.mem_map.1 (List.mem_of_mem_filter hid)
    exact ⟨fn.1, rfl⟩
  rw [runModulesPreIds, List.filterMap_append, hrest, List.append_nil]
  refine List.Nodup.sublist ?_ s.distinct
  rw [← hmodules]
  exact List.filter_sublist.filterMap _

/-- No entry runs twice, and a module that can be loaded and has not run is loaded at the wakeup. -/
def LoadsOnce (s : ServerStart) (wakeups : List Wakeup) : Prop :=
  (s.after wakeups).entries.Nodup ∧
    ∀ front wk back, wakeups = front ++ wk :: back → ∀ m ∈ wk.reply, wk.env.loads m.libFd = true →
      m.name ∉ (s.after front).entries → m.name ∈ (s.after (front ++ [wk])).entries

/-- The live loader runs each entry once and misses no module, just where no module it could load bears the
name of a loaded FN node. -/
theorem live_loads_iff (s : ServerStart) (wakeups : List Wakeup) :
    LoadsOnce s wakeups ↔ ∀ wk ∈ wakeups, ∀ m ∈ wk.reply, wk.env.loads m.libFd = true →
      m.name ∉ s.live.entries → ∀ n, .node n ∈ s.loaded → n.id ≠ m.name := by
  constructor
  · rintro ⟨-, hmissed⟩ wk hwk m hm hload hnew n hn hname
    obtain ⟨front, back, rfl⟩ := List.append_of_mem hwk
    have hold : m.name ∈ s.live.hotplugLoaded := mem_hotplugLoaded.2 (.inr ⟨n, hn, hname⟩)
    have hnever : ∀ wakeups, m.name ∉ (s.after wakeups).entries := by
      intro wakeups hmem
      obtain ⟨added, h⟩ := added_after s wakeups
      rw [h.entries] at hmem
      rcases List.mem_append.1 hmem with hmem | hmem
      · exact hnew hmem
      · exact h.new _ hmem hold
    exact hnever _ (hmissed front wk back rfl m hm hload (hnever front))
  · intro hnames
    constructor
    · obtain ⟨added, h⟩ := added_after s wakeups
      rw [h.entries, List.nodup_append]
      refine ⟨nodup_entries s, h.nodup, fun a ha b hb hab => h.new b hb ?_⟩
      exact mem_hotplugLoaded.2 (.inl (hab ▸ ha))
    · rintro front wk back rfl m hm hload hnew
      obtain ⟨added, h⟩ := added_after s front
      have hstart : m.name ∉ s.live.entries := fun hmem => hnew (by rw [h.entries]; exact List.mem_append_left _ hmem)
      have hloaded : m.name ∉ (s.after front).hotplugLoaded := by
        rw [h.loaded]
        intro hmem
        rcases List.mem_append.1 hmem with hmem | hmem
        · rcases mem_hotplugLoaded.1 hmem with hmem | ⟨n, hn, hname⟩
          · exact hstart hmem
          · exact hnames wk (by simp) m hm hload hstart n hn hname
        · exact hnew (by rw [h.entries]; exact List.mem_append_right _ hmem)
      rw [ServerStart.after, List.foldl_concat, wake_eq]
      exact List.mem_append_right _ (mem_liveNews hm hload hloaded)

end History

/-- The FN node `a` is loaded with system_server. -/
def nodeAlike : ServerStart where
  loads _ := true
  modules := []
  nodes := [{
    id := "a", dir := fnRoot ++ ["a"], name := "a", version := "1", versionCode := 1, author := "",
    description := "", entry := some "lib.so", triggers := ["system_server"], scope := .all, apps := [],
    priority := 0, capabilities := [], uiSummary := none, status := .enabled }]
  distinct := List.nodup_nil

/-- A classic module `a` comes with the first wakeup, and is taken for the node. -/
theorem module_taken_for_node :
    ¬ LoadsOnce nodeAlike [⟨Env.fine, [⟨"a", ⟨librarySo (activeDir "a") "arm64-v8a", .empty⟩⟩]⟩] := fun h =>
  absurd (h.2 [] _ [] rfl _ List.mem_cons_self rfl (by decide)) (by decide)

end OnyxZygisk.Loader

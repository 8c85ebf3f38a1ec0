import Mathlib.Data.List.Sort
import OnyxZygisk.Daemon.Markers

/-!
# Module discovery

`eligibleModules` merges the active directory with the opted-in staged copies. The scan is many system
calls, so other processes can change the disk under it; on a disk that stays as it is it computes
`eligibleIn` (`run_eligibleModules`).
-/

namespace OnyxZygisk.Daemon

open Prog (gather)

/-- Name to directory and disabled flag, as the scan's hash map. -/
abbrev ModuleMap := List (String × FilePath × Bool)

def ModuleMap.insert (m : ModuleMap) (name : String) (dir : FilePath) (disabled : Bool) : ModuleMap :=
  (name, dir, disabled) :: m.filter fun e => e.1 ≠ name

def ModuleMap.isDisabled (m : ModuleMap) (name : String) : Bool :=
  (m.lookup name).any fun e => e.2

/-- The enabled entries, sorted by name. -/
def ModuleMap.found (m : ModuleMap) : List (String × FilePath) :=
  ((m.filter fun e => !e.2.2).map fun e => (e.1, e.2.1)).insertionSort fun a b => a.1 ≤ b.1

def optedInStagedModules : Program (List (String × FilePath)) := do
  if ← hotplugMasterEnabled then
    let dir ← readDir pathModulesUpdateDir
    gather (dir.getD []) fun name => do
      if ← stagedUpdateReady name then
        if ← hotplugOptedIn name then pure (some (name, stagedDir name))
        else pure none
      else pure none
  else pure []

/-- `activation_marker(name, "post_fs_data").exists() && !hotplug_opted_in(name)` -/
def isUnplugged (name : String) : Program Bool := do
  if ← pathExists (activationMarker name "post_fs_data") then
    let optedIn ← hotplugOptedIn name
    pure !optedIn
  else pure false

/-- `join("disable").exists() || join("remove").exists()` -/
def isFlagged (moduleDir : FilePath) : Program Bool := do
  if ← pathExists (moduleDir ++ ["disable"]) then pure true
  else pathExists (moduleDir ++ ["remove"])

/-- The scan's entry for one active directory, if it carries this ABI's library. -/
def activeModule (arch name : String) : Program (Option (String × FilePath × Bool)) := do
  let moduleDir := activeDir name
  if ← pathExists (librarySo moduleDir arch) then
    if ← isUnplugged name then pure none
    else
      let disabled ← isFlagged moduleDir
      pure (some (name, moduleDir, disabled))
  else pure none

/-- The second look at the unplugged modules: those still enabled are disabled. -/
def unplug (modules : ModuleMap) : Program ModuleMap :=
  gather modules fun (name, dir, disabled) => do
    if disabled then pure (some (name, dir, true))
    else
      let unplugged ← isUnplugged name
      pure (some (name, dir, unplugged))

/-- The staged copies that carry this ABI's library. -/
def stagedModules (arch : String) : Program (List (String × FilePath)) := do
  let staged ← optedInStagedModules
  gather staged fun (name, moduleDir) => do
    if ← pathExists (librarySo moduleDir arch) then pure (some (name, moduleDir)) else pure none

/-- A staged entry replaces the active one of its name and inherits its flag. -/
def overlay (modules : ModuleMap) (staged : List (String × FilePath)) : ModuleMap :=
  staged.foldl (fun m e => m.insert e.1 e.2 (m.isDisabled e.1)) modules

def eligibleModules (arch : String) : Program (List (String × FilePath)) := do
  let dir ← readDir pathModulesDir
  let active ← gather (dir.getD []) (activeModule arch)
  let modules ← unplug active
  let staged ← stagedModules arch
  pure (overlay modules staged).found

/-! ### The map -/

theorem mem_iff_lookup {β : Type} {m : List (String × β)} (h : (m.map Prod.fst).Nodup) {k : String}
    {v : β} : (k, v) ∈ m ↔ m.lookup k = some v := by
  induction m with
  | nil => simp
  | cons e m ih =>
    obtain ⟨k', v'⟩ := e
    obtain ⟨hk', hm⟩ := List.nodup_cons.1 h
    by_cases hkk : k = k'
    · subst hkk
      have hnot : ∀ w, (k, w) ∉ m := fun w hw => hk' (List.mem_map.2 ⟨_, hw, rfl⟩)
      simp [hnot, eq_comm]
    · have hne : (k == k') = false := by simpa using hkk
      simp [List.lookup_cons, hne, hkk, ih hm]

namespace ModuleMap

variable {m : ModuleMap}

theorem lookup_insert (m : ModuleMap) (name n : String) (dir : FilePath) (disabled : Bool) :
    (m.insert name dir disabled).lookup n =
      if n = name then some (dir, disabled) else m.lookup n := by
  by_cases h : n = name
  · simp [insert, h]
  · have hne : (n == name) = false := by simpa using h
    rw [insert, List.lookup_cons, hne, if_neg h]
    simp only
    induction m with
    | nil => rfl
    | cons e m ih =>
      by_cases he : e.1 = name
      · have hn : (n == e.1) = false := by simpa [he] using h
        rw [List.filter_cons_of_neg (by simpa using he), ih, List.lookup_cons, hn]
      · rw [List.filter_cons_of_pos (by simpa using he), List.lookup_cons, List.lookup_cons, ih]

theorem nodup_insert (h : (m.map Prod.fst).Nodup) (name : String) (dir : FilePath) (disabled : Bool) :
    ((m.insert name dir disabled).map Prod.fst).Nodup := by
  rw [insert, List.map_cons, List.nodup_cons]
  refine ⟨?_, (h.sublist (List.Sublist.map _ List.filter_sublist))⟩
  simp [List.mem_map]

theorem isDisabled_insert {name n : String} (h : n ≠ name) (dir : FilePath) (disabled : Bool) :
    (m.insert name dir disabled).isDisabled n = m.isDisabled n := by
  rw [isDisabled, lookup_insert, if_neg h, isDisabled]

theorem nodup_overlay (h : (m.map Prod.fst).Nodup) (staged : List (String × FilePath)) :
    ((overlay m staged).map Prod.fst).Nodup := by
  induction staged generalizing m with
  | nil => exact h
  | cons e staged ih => exact ih (nodup_insert h _ _ _)

theorem lookup_overlay {staged : List (String × FilePath)} (hs : (staged.map Prod.fst).Nodup)
    (n : String) :
    (overlay m staged).lookup n =
      match staged.lookup n with
      | some d => some (d, m.isDisabled n)
      | none => m.lookup n := by
  induction staged generalizing m with
  | nil => rfl
  | cons e staged ih =>
    obtain ⟨k, d⟩ := e
    obtain ⟨hk, hs'⟩ := List.nodup_cons.1 hs
    rw [overlay, List.foldl_cons, ← overlay, ih hs', List.lookup_cons]
    by_cases hn : n = k
    · subst hn
      have hnone : staged.lookup n = none := by
        rw [Option.eq_none_iff_forall_ne_some]
        exact fun v hv => hk (List.mem_map.2 ⟨_, (mem_iff_lookup hs').2 hv, rfl⟩)
      simp [hnone, lookup_insert]
    · have hne : (n == k) = false := by simpa using hn
      rw [hne]
      cases staged.lookup n with
      | none => simp [lookup_insert, hn]
      | some d' => simp [isDisabled_insert hn]

theorem mem_found (h : (m.map Prod.fst).Nodup) {n : String} {d : FilePath} :
    (n, d) ∈ m.found ↔ m.lookup n = some (d, false) := by
  rw [found, List.mem_insertionSort, List.mem_map, ← mem_iff_lookup h]
  constructor
  · rintro ⟨⟨n', d', b⟩, he, heq⟩
    obtain ⟨hmem, hb⟩ := List.mem_filter.1 he
    obtain ⟨rfl, rfl⟩ := Prod.mk.inj heq
    obtain rfl : b = false := by simpa using hb
    exact hmem
  · intro he
    exact ⟨(n, d, false), List.mem_filter.2 ⟨he, rfl⟩, rfl⟩

theorem nodup_found (h : (m.map Prod.fst).Nodup) : (m.found.map Prod.fst).Nodup := by
  refine ((List.perm_insertionSort _ _).map Prod.fst).nodup_iff.2 ?_
  rw [List.map_map]
  exact h.sublist (List.Sublist.map _ List.filter_sublist)

theorem sorted_found (m : ModuleMap) : m.found.Pairwise fun a b => a.1 ≤ b.1 := by
  have : IsTrans (String × FilePath) fun a b => a.1 ≤ b.1 := ⟨fun _ _ _ => String.le_trans⟩
  have : @Std.Total (String × FilePath) fun a b => a.1 ≤ b.1 := ⟨fun a b => String.le_total a.1 b.1⟩
  exact List.pairwise_insertionSort _ _

end ModuleMap

/-! ### The scan of a disk that stays as it is -/

section Disk

variable (fs : FileTree) (arch : String)

/-- The result of `eligible_modules` on a disk. -/
def eligibleIn : List (String × FilePath) := askOf fs (eligibleModules arch)

/-- A staged copy the scan serves: opted in, complete, with this ABI's library. -/
def stagedServed (name : String) : Bool :=
  masterOn fs && stagedReady fs name && optedIn fs name && carries fs (stagedDir name) arch

/-- An active directory the scan records. -/
def activeRecorded (name : String) : Bool :=
  carries fs (activeDir name) arch && !unplugged fs name

theorem asks_isUnplugged (name : String) : Asks (isUnplugged name) :=
  Prog.only_bind (asks_pathExists _) fun _ =>
    Prog.only_ite (Prog.only_bind (asks_hotplugOptedIn name) fun _ => trivial) trivial

theorem asks_activeModule (name : String) : Asks (activeModule arch name) := by
  refine Prog.only_bind (asks_pathExists _) fun _ => Prog.only_ite ?_ trivial
  refine Prog.only_bind (asks_isUnplugged name) fun _ => Prog.only_ite trivial ?_
  refine Prog.only_bind (Prog.only_bind (asks_pathExists _) fun _ => ?_) fun _ => trivial
  exact Prog.only_ite trivial (asks_pathExists _)

theorem asks_optedInStagedModules : Asks optedInStagedModules := by
  refine Prog.only_bind asks_hotplugMasterEnabled fun _ => Prog.only_ite ?_ trivial
  refine Prog.only_bind (asks_readDir _) fun _ => Prog.only_gather fun name _ => ?_
  refine Prog.only_bind (asks_stagedUpdateReady name) fun _ => Prog.only_ite ?_ trivial
  exact Prog.only_bind (asks_hotplugOptedIn name) fun _ => Prog.only_ite trivial trivial

theorem asks_eligibleModules : Asks (eligibleModules arch) := by
  refine Prog.only_bind (asks_readDir _) fun _ => ?_
  refine Prog.only_bind (Prog.only_gather fun name _ => asks_activeModule arch name) fun _ => ?_
  refine Prog.only_bind (Prog.only_gather fun e _ => ?_) fun _ => ?_
  · exact Prog.only_ite trivial (Prog.only_bind (asks_isUnplugged _) fun _ => trivial)
  · refine Prog.only_bind (Prog.only_bind asks_optedInStagedModules fun _ =>
      Prog.only_gather fun e _ => ?_) fun _ => trivial
    exact Prog.only_bind (asks_pathExists _) fun _ => Prog.only_ite trivial trivial

theorem run_eligibleModules {e : Env} (he : e.Answers) (w : World) :
    Prog.run exec e (eligibleModules arch) w = some (eligibleIn w.fs arch, w) :=
  run_ask (asks_eligibleModules arch) he w

theorem askOf_isUnplugged (name : String) : askOf fs (isUnplugged name) = unplugged fs name := by
  simp only [isUnplugged, askOf_bind, askOf_ite, askOf_pure]
  simp only [askOf_pathExists, askOf_hotplugOptedIn, unplugged]
  cases fs.present (activationMarker name "post_fs_data") <;> rfl

theorem askOf_isFlagged (dir : FilePath) : askOf fs (isFlagged dir) = flagged fs dir := by
  simp only [isFlagged, askOf_bind, askOf_ite, askOf_pure]
  simp only [askOf_pathExists, flagged]
  cases fs.present (dir ++ ["disable"]) <;> rfl

theorem askOf_activeModule (name : String) :
    askOf fs (activeModule arch name) =
      if activeRecorded fs arch name then some (name, activeDir name, flagged fs (activeDir name))
      else none := by
  simp only [activeModule, askOf_bind, askOf_ite, askOf_pure]
  simp only [askOf_pathExists, askOf_isUnplugged, askOf_isFlagged]
  rw [activeRecorded, carries]
  cases fs.present (librarySo (activeDir name) arch) <;> cases unplugged fs name <;> rfl

theorem askOf_unplug (m : ModuleMap) :
    askOf fs (unplug m) = m.map fun e => (e.1, e.2.1, e.2.2 || unplugged fs e.1) := by
  rw [unplug, askOf_gather, ← List.filterMap_eq_map]
  congr 1
  funext e
  obtain ⟨name, dir, disabled⟩ := e
  simp only [askOf_bind, askOf_ite, askOf_pure, askOf_isUnplugged, Function.comp]
  cases disabled <;> rfl

theorem askOf_optedInStagedModules :
    askOf fs optedInStagedModules =
      if masterOn fs then
        ((askOf fs (readDir pathModulesUpdateDir)).getD []).filterMap fun name =>
          if stagedReady fs name && optedIn fs name then some (name, stagedDir name) else none
      else [] := by
  simp only [optedInStagedModules, askOf_bind, askOf_ite, askOf_gather, askOf_pure]
  simp only [askOf_hotplugMasterEnabled, askOf_stagedUpdateReady, askOf_hotplugOptedIn]
  congr 2
  funext name
  cases stagedReady fs name <;> simp

theorem isDir_active {name : String} (h : carries fs (activeDir name) arch = true) :
    fs.isDir pathModulesDir = true ∧ name ∈ fs.children pathModulesDir := by
  have hdir := FileTree.isDir_of_present_below (by simp) h
  have hpres := FileTree.present_of_isDir hdir
  exact ⟨FileTree.isDir_of_present_child hpres, FileTree.mem_children.2 hpres⟩

theorem isDir_staged {name : String} (h : stagedReady fs name = true) :
    fs.isDir pathModulesUpdateDir = true ∧ name ∈ fs.children pathModulesUpdateDir := by
  have hprop : fs.present (stagedDir name ++ ["module.prop"]) = true := by
    simp only [stagedReady, Bool.and_eq_true] at h
    exact h.1
  have hpres := FileTree.present_of_isDir (FileTree.isDir_of_present_child hprop)
  exact ⟨FileTree.isDir_of_present_child hpres, FileTree.mem_children.2 hpres⟩

/-- The map of the active directories, after both unplug checks. -/
def activeMap : ModuleMap :=
  askOf fs (do
    let dir ← readDir pathModulesDir
    let active ← gather (dir.getD []) (activeModule arch)
    unplug active)

theorem mem_activeMap {e : String × FilePath × Bool} :
    e ∈ activeMap fs arch ↔ activeRecorded fs arch e.1 = true ∧
      e.2 = (activeDir e.1, flagged fs (activeDir e.1)) := by
  have hmap : activeMap fs arch =
      ((((askOf fs (readDir pathModulesDir)).getD []).filterMap fun name =>
        if activeRecorded fs arch name then
          some (name, activeDir name, flagged fs (activeDir name)) else none).map fun e =>
        (e.1, e.2.1, e.2.2 || unplugged fs e.1)) := by
    simp only [activeMap, askOf_bind, askOf_unplug, askOf_gather, askOf_activeModule]
  rw [hmap, List.mem_map]
  constructor
  · rintro ⟨⟨n, d, b⟩, hmem, rfl⟩
    obtain ⟨name, -, hname⟩ := List.mem_filterMap.1 hmem
    split_ifs at hname with hrec
    obtain ⟨rfl, rfl, rfl⟩ : name = n ∧ activeDir name = d ∧ flagged fs (activeDir name) = b := by
      simpa using hname
    refine ⟨hrec, ?_⟩
    -- a recorded module is not unplugged, so the second check changes nothing
    have hnot : unplugged fs name = false := by
      simp only [activeRecorded, Bool.and_eq_true, Bool.not_eq_true'] at hrec
      exact hrec.2
    simp [hnot]
  · obtain ⟨n, d, b⟩ := e
    rintro ⟨hrec, he⟩
    simp only at hrec he
    obtain ⟨rfl, rfl⟩ := Prod.mk.inj he
    have hrec' := hrec
    simp only [activeRecorded, Bool.and_eq_true, Bool.not_eq_true'] at hrec'
    obtain ⟨hdir, hchild⟩ := isDir_active fs arch hrec'.1
    refine ⟨(n, activeDir n, flagged fs (activeDir n)), List.mem_filterMap.2 ⟨n, ?_, ?_⟩, ?_⟩
    · simpa [hdir] using hchild
    · rw [if_pos hrec]
    · simp [hrec'.2]

theorem nodup_filterMap_names {β : Type} {xs : List String} (h : xs.Nodup)
    (f : String → Option (String × β)) (hf : ∀ x e, f x = some e → e.1 = x) :
    ((xs.filterMap f).map Prod.fst).Nodup := by
  have hsub : List.Sublist ((xs.filterMap f).map Prod.fst) xs := by
    clear h
    induction xs with
    | nil => exact .slnil
    | cons x xs ih =>
      cases hx : f x with
      | none =>
        rw [List.filterMap_cons_none hx]
        exact ih.cons x
      | some e =>
        rw [List.filterMap_cons_some hx, List.map_cons, hf x e hx]
        exact ih.cons_cons x
  exact h.sublist hsub

theorem nodup_readDir (p : FilePath) : ((askOf fs (readDir p)).getD []).Nodup := by
  rw [askOf_readDir]
  split_ifs
  · exact FileTree.nodup_children fs p
  · exact List.nodup_nil

theorem nodup_activeMap : ((activeMap fs arch).map Prod.fst).Nodup := by
  simp only [activeMap, askOf_bind, askOf_unplug, askOf_gather, askOf_activeModule]
  rw [List.map_map]
  refine nodup_filterMap_names (nodup_readDir fs _) _ fun x e hx => ?_
  split_ifs at hx
  obtain rfl := Option.some.inj hx
  rfl

theorem lookup_activeMap (n : String) :
    (activeMap fs arch).lookup n =
      if activeRecorded fs arch n then some (activeDir n, flagged fs (activeDir n)) else none := by
  split_ifs with h
  · exact (mem_iff_lookup (nodup_activeMap fs arch)).1 ((mem_activeMap fs arch).2 ⟨h, rfl⟩)
  · rw [Option.eq_none_iff_forall_ne_some]
    intro v hv
    exact h ((mem_activeMap fs arch).1 ((mem_iff_lookup (nodup_activeMap fs arch)).2 hv)).1

theorem mem_stagedModules {e : String × FilePath} :
    e ∈ askOf fs (stagedModules arch) ↔
      stagedServed fs arch e.1 = true ∧ e.2 = stagedDir e.1 := by
  simp only [stagedModules, askOf_bind, askOf_gather, askOf_optedInStagedModules, askOf_ite,
    askOf_pure]
  simp only [askOf_pathExists, List.mem_filterMap, stagedServed, Bool.and_eq_true]
  constructor
  · rintro ⟨⟨n, d⟩, hmem, hn⟩
    split_ifs at hmem with hon
    · obtain ⟨name, -, hname⟩ := List.mem_filterMap.1 hmem
      split_ifs at hname with hready
      obtain ⟨rfl, rfl⟩ : name = n ∧ stagedDir name = d := by simpa using hname
      split_ifs at hn with hso
      obtain rfl := Option.some.inj hn
      exact ⟨⟨⟨⟨hon, hready.1⟩, hready.2⟩, hso⟩, rfl⟩
    · simp at hmem
  · obtain ⟨n, d⟩ := e
    rintro ⟨⟨⟨⟨hon, hready⟩, hopt⟩, hso⟩, hd⟩
    simp only at hon hready hopt hso hd
    subst hd
    obtain ⟨hdir, hchild⟩ := isDir_staged fs hready
    refine ⟨(n, stagedDir n), ?_, by simpa [carries] using hso⟩
    rw [if_pos hon]
    exact List.mem_filterMap.2 ⟨n, by simpa [hdir] using hchild, by simp [hready, hopt]⟩

theorem nodup_stagedModules : ((askOf fs (stagedModules arch)).map Prod.fst).Nodup := by
  simp only [stagedModules, askOf_bind, askOf_gather, askOf_optedInStagedModules]
  split_ifs
  · rw [List.filterMap_filterMap]
    refine nodup_filterMap_names (nodup_readDir fs _) _ fun x e hx => ?_
    obtain ⟨e', he', hx⟩ := Option.bind_eq_some_iff.1 hx
    split_ifs at he'
    obtain rfl := Option.some.inj he'
    simp only [askOf_ite, askOf_pure] at hx
    split_ifs at hx
    obtain rfl := Option.some.inj hx
    rfl
  · exact List.nodup_nil

theorem lookup_stagedModules (n : String) :
    (askOf fs (stagedModules arch)).lookup n =
      if stagedServed fs arch n then some (stagedDir n) else none := by
  split_ifs with h
  · exact (mem_iff_lookup (nodup_stagedModules fs arch)).1 ((mem_stagedModules fs arch).2 ⟨h, rfl⟩)
  · rw [Option.eq_none_iff_forall_ne_some]
    intro v hv
    exact h ((mem_stagedModules fs arch).1
      ((mem_iff_lookup (nodup_stagedModules fs arch)).2 hv)).1

theorem eligibleIn_eq :
    eligibleIn fs arch = (overlay (activeMap fs arch) (askOf fs (stagedModules arch))).found := by
  simp only [eligibleIn, eligibleModules, activeMap, askOf_bind, askOf_pure]

/-- Where a name in the scan's result comes from. A staged copy is left out only when the active
directory was recorded and is flagged. -/
theorem mem_eligibleIn {n : String} {d : FilePath} :
    (n, d) ∈ eligibleIn fs arch ↔
      (stagedServed fs arch n = true ∧ d = stagedDir n ∧
        ¬ (activeRecorded fs arch n = true ∧ flagged fs (activeDir n) = true)) ∨
      (stagedServed fs arch n = false ∧ d = activeDir n ∧
        activeRecorded fs arch n = true ∧ flagged fs (activeDir n) = false) := by
  rw [eligibleIn_eq, ModuleMap.mem_found
    (ModuleMap.nodup_overlay (nodup_activeMap fs arch) _),
    ModuleMap.lookup_overlay (nodup_stagedModules fs arch), lookup_stagedModules,
    ModuleMap.isDisabled, lookup_activeMap]
  cases stagedServed fs arch n <;> cases activeRecorded fs arch n <;> simp [@eq_comm _ d]

theorem nodup_eligibleIn : ((eligibleIn fs arch).map Prod.fst).Nodup := by
  rw [eligibleIn_eq]
  exact ModuleMap.nodup_found (ModuleMap.nodup_overlay (nodup_activeMap fs arch) _)

theorem sorted_eligibleIn : (eligibleIn fs arch).Pairwise fun a b => a.1 ≤ b.1 := by
  rw [eligibleIn_eq]
  exact ModuleMap.sorted_found _

/-- What the scan serves: a staged copy or a recorded active one, unless the recorded one is flagged. -/
def Served (name : String) : Prop :=
  (stagedServed fs arch name = true ∨ activeRecorded fs arch name = true) ∧
    ¬ (activeRecorded fs arch name = true ∧ flagged fs (activeDir name) = true)

theorem served_iff {name : String} : Served fs arch name ↔ name ∈ (eligibleIn fs arch).map Prod.fst := by
  have hmem : name ∈ (eligibleIn fs arch).map Prod.fst ↔ ∃ d, (name, d) ∈ eligibleIn fs arch := by simp
  rw [hmem, Served]
  simp only [mem_eligibleIn]
  cases stagedServed fs arch name <;> cases activeRecorded fs arch name <;>
    cases flagged fs (activeDir name) <;> simp

/-- The names of the scan, in their order and each once. -/
theorem names_eligibleIn : ((eligibleIn fs arch).map Prod.fst).Pairwise fun a b => a < b := by
  have hle : ((eligibleIn fs arch).map Prod.fst).Pairwise fun a b => a ≤ b :=
    List.pairwise_map.2 (sorted_eligibleIn fs arch)
  refine (hle.and (nodup_eligibleIn fs arch)).imp fun {a b} h => ?_
  by_contra hlt
  exact h.2 (String.le_antisymm h.1 (String.not_lt.1 hlt))

end Disk

/-! ### The scan of a disk that changes -/

/-- The directory an entry names: the module's active or its staged one. -/
def Placed (e : String × FilePath) : Prop := e.2 = activeDir e.1 ∨ e.2 = stagedDir e.1

theorem placed_overlay {m : ModuleMap} {staged : List (String × FilePath)}
    (hm : ∀ e ∈ m, Placed (e.1, e.2.1)) (hs : ∀ e ∈ staged, Placed e) :
    ∀ e ∈ overlay m staged, Placed (e.1, e.2.1) := by
  induction staged generalizing m with
  | nil => exact hm
  | cons s staged ih =>
    apply ih _ fun e he => hs e (List.mem_cons_of_mem s he)
    intro e he
    rcases List.mem_cons.1 he with rfl | he
    · exact hs s List.mem_cons_self
    · exact hm e (List.mem_filter.1 he).1

theorem placed_found {m : ModuleMap} (hm : ∀ e ∈ m, Placed (e.1, e.2.1)) :
    ∀ e ∈ m.found, Placed e := by
  intro e he
  rw [ModuleMap.found, List.mem_insertionSort] at he
  obtain ⟨e', he', rfl⟩ := List.mem_map.1 he
  exact hm e' (List.mem_filter.1 he').1

theorem gives_activeModule (arch name : String) :
    Prog.Gives (fun b => ∀ e, b = some e → Placed (e.1, e.2.1)) (activeModule arch name) := by
  apply Prog.gives_bind (Prog.gives_trivial _)
  intro so _
  cases so with
  | false => simp
  | true =>
    apply Prog.gives_bind (Prog.gives_trivial _)
    intro unplugged _
    cases unplugged with
    | true => simp
    | false =>
      apply Prog.gives_bind (Prog.gives_trivial _)
      intro disabled _ e he
      obtain rfl := Option.some.inj he
      exact .inl rfl

theorem gives_unplug {m : ModuleMap} (hm : ∀ e ∈ m, Placed (e.1, e.2.1)) :
    Prog.Gives (fun m' => ∀ e ∈ m', Placed (e.1, e.2.1)) (unplug m) := by
  apply Prog.gives_gather
  rintro ⟨name, dir, disabled⟩ hmem
  cases disabled with
  | true =>
    intro e he
    obtain rfl := Option.some.inj he
    exact hm _ hmem
  | false =>
    apply Prog.gives_bind (Prog.gives_trivial _)
    intro unplugged _ e he
    obtain rfl := Option.some.inj he
    show Placed (name, dir)
    exact hm (name, dir, false) hmem

theorem gives_stagedModules (arch : String) :
    Prog.Gives (fun es => ∀ e ∈ es, Placed e) (stagedModules arch) := by
  have hopted : Prog.Gives (fun es => ∀ e ∈ es, Placed e) optedInStagedModules := by
    apply Prog.gives_bind (Prog.gives_trivial _)
    intro on _
    cases on with
    | false => simp
    | true =>
      apply Prog.gives_bind (Prog.gives_trivial _)
      intro dir _
      apply Prog.gives_gather
      intro name _
      apply Prog.gives_bind (Prog.gives_trivial _)
      intro ready _
      cases ready with
      | false => simp
      | true =>
        apply Prog.gives_bind (Prog.gives_trivial _)
        intro optedIn _
        cases optedIn with
        | false => simp
        | true =>
          intro e he
          obtain rfl := Option.some.inj he
          exact .inr rfl
  apply Prog.gives_bind hopted
  intro staged hstaged
  apply Prog.gives_gather
  rintro ⟨name, dir⟩ hmem
  apply Prog.gives_bind (Prog.gives_trivial _)
  intro so _
  cases so with
  | false => simp
  | true =>
    intro e he
    obtain rfl := Option.some.inj he
    exact hstaged _ hmem

/-- Whatever changes on the disk meanwhile, an entry names its module's active or staged directory. -/
theorem gives_eligibleModules (arch : String) :
    Prog.Gives (fun es => ∀ e ∈ es, Placed e) (eligibleModules arch) := by
  apply Prog.gives_bind (Prog.gives_trivial _)
  intro dir _
  apply Prog.gives_bind (Prog.gives_gather fun name _ => gives_activeModule arch name)
  intro active hactive
  apply Prog.gives_bind (gives_unplug hactive)
  intro modules hmodules
  apply Prog.gives_bind (gives_stagedModules arch)
  intro staged hstaged
  exact placed_found (placed_overlay hmodules hstaged)

/-! ### Disabled modules -/

/-- Nothing is served whose active directory carries `disable` or `remove`. -/
def NoneFlaggedServed (fs : FileTree) (arch : String) : Prop :=
  ∀ n d, (n, d) ∈ eligibleIn fs arch → flagged fs (activeDir n) = false

/-- The flags of an active directory without this ABI's library are not inherited by the staged copy:
the scan never recorded that directory. -/
theorem noneFlaggedServed_iff (fs : FileTree) (arch : String) :
    NoneFlaggedServed fs arch ↔
      ∀ n, stagedServed fs arch n = true → flagged fs (activeDir n) = true →
        carries fs (activeDir n) arch = true := by
  constructor
  · intro h n hs hf
    by_contra hc
    have hmem : (n, stagedDir n) ∈ eligibleIn fs arch := by
      refine (mem_eligibleIn fs arch).2 (.inl ⟨hs, rfl, fun hrec => hc ?_⟩)
      simp only [activeRecorded, Bool.and_eq_true] at hrec
      exact hrec.1.1
    rw [h n _ hmem] at hf
    exact absurd hf (by simp)
  · intro h n d hmem
    rcases (mem_eligibleIn fs arch).1 hmem with ⟨hs, -, hnot⟩ | ⟨-, -, -, hf⟩
    · by_contra hf
      rw [Bool.not_eq_false] at hf
      -- a staged copy is served to a user who opted in, so the module is not unplugged
      have hopt : optedIn fs n = true := by
        simp only [stagedServed, Bool.and_eq_true] at hs
        exact hs.1.2
      exact hnot ⟨by simp [activeRecorded, h n hs hf, unplugged, hopt], hf⟩
    · exact hf

/-- A disabled metadata stub in the active directory, and its opted-in staged update. -/
def disabledStub : FileTree :=
  .ofFiles [(activeDir "m" ++ ["module.prop"], "id=m"), (activeDir "m" ++ ["disable"], ""),
    (stagedDir "m" ++ ["module.prop"], "id=m"), (librarySo (stagedDir "m") "arm64-v8a", "elf"),
    (hotplugOptIn "m", "")]

theorem disabledStub_served : ¬ NoneFlaggedServed disabledStub "arm64-v8a" := by
  intro h
  have hmem : ("m", stagedDir "m") ∈ eligibleIn disabledStub "arm64-v8a" :=
    (mem_eligibleIn _ _).2 (.inl ⟨by decide, rfl, by decide⟩)
  exact absurd (h _ _ hmem) (by decide)

end OnyxZygisk.Daemon

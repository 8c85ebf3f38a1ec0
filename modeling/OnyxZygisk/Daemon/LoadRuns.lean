import OnyxZygisk.Daemon.SwapRuns

/-!
# Runs of the module list

A module that `load_modules` streams was found by the scan, and its library was read in its turn of the
loop (`run_loadModules`). The turns before it concern other modules, so they leave its libraries alone
unless one of the two is called like the backup of the other (`beside`).
-/

namespace OnyxZygisk.Daemon

open Prog (Only gather)

variable {e : Env} {w w' : World} {fs : FileTree} {name arch : String} {dir : FilePath}

/-! ### The turn of a module -/

theorem sees_of_answers (he : e.Answers) (fs : FileTree) (p : FilePath) : sees e fs p = fs.present p := by
  rw [sees, he (.look p) trivial, Bool.true_and]

/-- The library `load_modules` reads for an entry of the scan. -/
def servedSo (fs : FileTree) (arch name : String) (dir : FilePath) : FilePath :=
  if carries fs (activeDir name) arch then librarySo (activeDir name) arch else librarySo dir arch

/-- The swap of an entry, if the loop comes to it, and nothing else. -/
theorem run_activateEntry {activate : Bool} {u : Unit}
    (hrun : Prog.run exec e (activateEntry activateStagedModule activate name dir) w = some (u, w')) :
    w'.fs = w.fs ∨ pathModulesUpdateDir <+: dir ∧
      ∃ r w₁, Prog.run exec e (swapStagedModule name dir) w = some (r, w₁) ∧ w'.fs = w₁.fs := by
  cases activate with
  | false =>
    obtain ⟨-, rfl⟩ := Prog.run_ret_some hrun
    exact .inl rfl
  | true =>
    obtain ⟨ready, w₁, hready, hrest⟩ := Prog.run_bind_some hrun
    obtain rfl := run_inert inert_systemServerReady hready
    by_cases hswap : (ready && decide (pathModulesUpdateDir <+: dir)) = true
    · rw [hswap] at hrest
      rw [Bool.and_eq_true, decide_eq_true_eq] at hswap
      refine .inr ⟨hswap.2, ?_⟩
      obtain ⟨r, w₂, hswapped, hspawned⟩ := Prog.run_bind_some hrest
      refine ⟨r, w₂, hswapped, ?_⟩
      cases r with
      | error msg =>
        obtain ⟨-, rfl⟩ := Prog.run_ret_some hspawned
        rfl
      | ok d =>
        obtain ⟨framework, w₃, hasks, hspawn⟩ := Prog.run_bind_some hspawned
        obtain rfl := run_asks (asks_isFrameworkModule d) hasks
        cases framework <;>
          · have hnote := Prog.run_perform_some hspawn
            simp only [exec, Option.some.injEq, Prod.mk.injEq] at hnote
            rw [← hnote.2]
            rfl
    · rw [Bool.not_eq_true] at hswap
      rw [hswap] at hrest
      obtain ⟨-, rfl⟩ := Prog.run_ret_some hrest
      exact .inl rfl

/-- The old copy is in place, in the backup or replaced. -/
theorem kept_activateEntry {activate : Bool} {u : Unit}
    (hrun : Prog.run exec e (activateEntry activateStagedModule activate name dir) w = some (u, w')) :
    Kept (copies name w.fs).active (copies name w.fs).staged (copies name w'.fs) := by
  rcases run_activateEntry hrun with hfs | ⟨-, r, w₁, hswap, hfs⟩
  · rw [hfs]
    exact .active (.inl rfl)
  · rw [hfs]
    exact run_swapStagedModule_kept hswap

/-- An entry of the active directory is not swapped. -/
theorem run_activateEntry_active {activate : Bool} {u : Unit} (hrun : Prog.run exec e
      (activateEntry activateStagedModule activate name (activeDir name)) w = some (u, w')) :
    w'.fs = w.fs := by
  rcases run_activateEntry hrun with hfs | ⟨hpre, -⟩
  · exact hfs
  · exact absurd hpre (by simp [activeDir])

/-- A turn of the loop: the swap, if it comes to it, and the library as it is then. -/
theorem run_loadModule_result {activate : Bool} {entry : String × FilePath} {b : Option Module}
    (he : e.Answers)
    (hrun : Prog.run exec e (loadModule activateStagedModule activate arch entry) w = some (b, w')) :
    Prog.run exec e (activateEntry activateStagedModule activate entry.1 entry.2) w = some ((), w') ∧
      b = if e.works (.libraryFd (servedSo w'.fs arch entry.1 entry.2)) &&
          w'.fs.isFile (servedSo w'.fs arch entry.1 entry.2) then
        some ⟨entry.1, servedSo w'.fs arch entry.1 entry.2, w'.fs⟩ else none := by
  obtain ⟨u, w₁, hactivate, hrest⟩ := Prog.run_bind_some hrun
  obtain ⟨soPath, w₂, hresolve, hopen⟩ := Prog.run_bind_some hrest
  obtain ⟨libFd, w₃, hlib, hret⟩ := Prog.run_bind_some hopen
  obtain ⟨carried, w₄, hlook, hso⟩ := Prog.run_bind_some hresolve
  obtain ⟨hcarried, rfl⟩ := run_pathExists hlook
  rw [sees_of_answers he] at hcarried
  obtain ⟨hpath, rfl⟩ : servedSo w₄.fs arch entry.1 entry.2 = soPath ∧ w₄ = w₂ := by
    rw [servedSo, carries, ← hcarried]
    cases carried <;> exact Prog.run_ret_some hso
  replace hlib := Prog.run_perform_some hlib
  simp only [exec, Option.some.injEq, Prod.mk.injEq] at hlib
  obtain ⟨hlib, rfl⟩ := hlib
  obtain ⟨hmodule, rfl⟩ := Prog.run_ret_some hret
  refine ⟨hactivate, ?_⟩
  rw [← hmodule, ← hlib, hpath]
  split_ifs <;> rfl

theorem run_loadModule {activate : Bool} {entry : String × FilePath} {module : Module} (he : e.Answers)
    (hrun : Prog.run exec e (loadModule activateStagedModule activate arch entry) w = some (some module, w')) :
    Prog.run exec e (activateEntry activateStagedModule activate entry.1 entry.2) w = some ((), w') ∧
      module = ⟨entry.1, servedSo w'.fs arch entry.1 entry.2, w'.fs⟩ ∧
      w'.fs.isFile module.libFd.source = true := by
  obtain ⟨hactivate, hmodule⟩ := run_loadModule_result he hrun
  split_ifs at hmodule with hopens
  rw [Option.some.inj hmodule]
  exact ⟨hactivate, rfl, (Bool.and_eq_true_iff.1 hopens).2⟩

/-! ### The run up to a module -/

/-- What `load_modules` does before it lists the modules. -/
def catchUp (activate : Bool) : Program Unit :=
  onlyIf activate (do runPendingStagedServices; runFrameworkActivations)

/-- How a run came to stream a module: the scan, the turns before the module's and its own. -/
structure Streamed (e : Env) (activate : Bool) (arch : String) (w w₁ w₂ w₃ : World)
    (before after : List (String × FilePath)) (dir : FilePath) (module : Module) : Prop where
  caughtUp : Prog.run exec e (catchUp activate) w = some ((), w₁)
  scan : eligibleIn w₁.fs arch = before ++ (module.name, dir) :: after
  turns : ∃ bs, Prog.run exec e (gather before (loadModule activateStagedModule activate arch)) w₁ =
    some (bs, w₂)
  turn : Prog.run exec e (activateEntry activateStagedModule activate module.name dir) w₂ = some ((), w₃)
  library : module.libFd = ⟨servedSo w₃.fs arch module.name dir, w₃.fs⟩
  isFile : w₃.fs.isFile module.libFd.source = true

/-- `get_arch` finds this ABI. -/
def Env.HasArch (e : Env) (arch : String) : Prop :=
  ∀ w, Prog.run exec e getArch w = some (.ok arch, w)

theorem hasArch_of_property (habi : e.property "ro.product.cpu.abi" = "arm64-v8a") (hlp : e.lp64 = true) :
    e.HasArch "arm64-v8a" := by
  intro w
  have harm : Text.contains "arm" "arm64-v8a" = true := by decide
  simp only [getArch, perform, Prog.perform_bind, Prog.run_call, exec, Option.bind_some, habi, harm, if_true]
  rw [hlp]
  rfl

theorem hasArch_fine : Env.fine.HasArch "arm64-v8a" := hasArch_of_property rfl rfl

theorem run_loadModules {activate : Bool} {ms : List Module} {module : Module} (he : e.Answers)
    (harch : e.HasArch arch) (hrun : Prog.run exec e (loadModules activate) w = some (.ok ms, w'))
    (hm : module ∈ ms) :
    ∃ w₁ w₂ w₃ before after dir, Streamed e activate arch w w₁ w₂ w₃ before after dir module := by
  obtain ⟨r, w₀, hget, hrun⟩ := Prog.run_bind_some hrun
  obtain ⟨rfl, rfl⟩ := Prog.run_unique (harch w) hget
  obtain ⟨u, w₁, hcatch, hrun⟩ := Prog.run_bind_some hrun
  obtain ⟨eligible, w₂, hscan, hrun⟩ := Prog.run_bind_some hrun
  obtain ⟨rfl, rfl⟩ := Prog.run_unique (run_eligibleModules _ he _) hscan
  obtain ⟨modules, w₃, hgather, hret⟩ := Prog.run_bind_some hrun
  obtain ⟨hms, rfl⟩ := Prog.run_ret_some hret
  rw [← Except.ok.inj hms] at hm
  obtain ⟨before, ⟨n, dir⟩, after, bs, s₁, s₂, hsplit, hbefore, hturn⟩ := Prog.run_gather hgather hm
  obtain ⟨hactivate, hmodule, hfile⟩ := run_loadModule he hturn
  refine ⟨w₁, s₁, s₂, before, after, dir, hcatch, ?_, ⟨bs, hbefore⟩, ?_, ?_, hfile⟩
  · rw [hsplit, hmodule]
  · rw [hmodule]
    exact hactivate
  · rw [hmodule]

/-! ### The turns of other modules -/

/-- What the daemon's threads name. -/
def daemonScope : Scope where
  writes p := p = hotplugLock ∨ p = hotplugRestartGuard ∨ (∃ n suffix, p = activationMarker n suffix) ∨
    ∃ n, p = stagedDir n ++ ["disable"]
  removes p := p = hotplugRestartGuard ∨ (∃ n suffix, p = activationMarker n suffix) ∨
    (∃ n, p = hotplugOptIn n) ∨ ∃ n, p = activeDir n ++ ["disable"] ∨ p = activeDir n ++ ["update"]
  clears p := ∃ n, p = backupDir n
  moves src dst := ∃ n, src = activeDir n ∧ dst = backupDir n ∨ src = stagedDir n ∧ dst = activeDir n ∨
    src = backupDir n ∧ dst = activeDir n

theorem daemonScope_full : daemonScope.Full where
  write := .inr (.inl rfl)
  remove := .inl rfl
  applies n := {
    lock := .inl rfl
    write := fun suffix _ => .inr (.inr (.inl ⟨n, suffix, rfl⟩))
    remove := fun suffix _ => .inr (.inl ⟨n, suffix, rfl⟩)
    inherit := .inr (.inr (.inr ⟨n, rfl⟩))
    backup := ⟨n, rfl⟩
    preserve := ⟨n, .inl ⟨rfl, rfl⟩⟩
    moveIn := ⟨n, .inr (.inl ⟨rfl, rfl⟩)⟩
    restore := ⟨n, .inr (.inr ⟨rfl, rfl⟩)⟩
    enable := .inr (.inr (.inr ⟨n, .inl rfl⟩))
    updated := .inr (.inr (.inr ⟨n, .inr rfl⟩)) }
  blocks n := {
    lock := .inl rfl
    write := fun suffix _ => .inr (.inr (.inl ⟨n, suffix, rfl⟩))
    remove := fun suffix _ => .inr (.inl ⟨n, suffix, rfl⟩)
    optOut := .inr (.inr (.inl ⟨n, rfl⟩)) }

/-- The same without moving or clearing one directory. -/
def Scope.avoiding (S : Scope) (d : FilePath) : Scope :=
  { S with
    clears := fun p => S.clears p ∧ p ≠ d
    moves := fun src dst => S.moves src dst ∧ src ≠ d ∧ dst ≠ d }

theorem eq_of_prefix_dir {p d q : FilePath} (hlen : p.length = d.length) (h : p <+: d ++ q) : p = d :=
  (List.prefix_of_prefix_length_le h (List.prefix_append d q) hlen.le).eq_of_length hlen

/-- Nobody else reaches what a directory holds, its flags apart. -/
theorem avoiding_spares {d q : FilePath} (hd : d = activeDir name ∨ d = stagedDir name)
    (hdisable : ¬ ["disable"] <+: q) (hupdate : ¬ ["update"] <+: q) :
    (daemonScope.avoiding d).Spares (d ++ q) where
  dirs := by
    rcases hd with rfl | rfl <;> simp [activeDir, stagedDir, activationMarkers]
  write := by
    have hne : q ≠ ["disable"] := fun h => hdisable (h ▸ List.prefix_refl q)
    rintro p (rfl | rfl | ⟨n, suffix, rfl⟩ | ⟨n, rfl⟩) <;> rcases hd with rfl | rfl <;>
      simp [activeDir, stagedDir, hotplugLock, hotplugRestartGuard, activationMarker, activationMarkers, hne]
  remove := by
    rintro p (rfl | ⟨n, suffix, rfl⟩ | ⟨n, rfl⟩ | ⟨n, rfl | rfl⟩) <;> rcases hd with rfl | rfl <;>
      simp [activeDir, stagedDir, hotplugRestartGuard, activationMarker, activationMarkers, hotplugOptIn,
        hotplugDir, hdisable, hupdate]
  clear := by
    rintro p ⟨⟨n, rfl⟩, hne⟩
    refine ⟨by simp [backupDir], fun h => hne (eq_of_prefix_dir ?_ h)⟩
    rcases hd with rfl | rfl <;> rfl
  move := by
    rintro src dst ⟨⟨n, hmoves⟩, hsrc, hdst⟩
    have hlen : src.length = d.length ∧ dst.length = d.length := by
      rcases hmoves with ⟨rfl, rfl⟩ | ⟨rfl, rfl⟩ | ⟨rfl, rfl⟩ <;> rcases hd with rfl | rfl <;>
        exact ⟨rfl, rfl⟩
    exact ⟨fun h => hsrc (eq_of_prefix_dir hlen.1 h), fun h => hdst (eq_of_prefix_dir hlen.2 h)⟩

theorem avoiding_spares_so {d : FilePath} (hd : d = activeDir name ∨ d = stagedDir name) (arch : String) :
    (daemonScope.avoiding d).Spares (librarySo d arch) :=
  avoiding_spares hd (by simp) (by simp)

theorem avoiding_spares_off (d : FilePath) : (daemonScope.avoiding d).Spares hotplugOff where
  dirs := by simp [hotplugOff, activationMarkers]
  write := by
    rintro p (rfl | rfl | ⟨n, suffix, rfl⟩ | ⟨n, rfl⟩) <;>
      simp [hotplugOff, stagedDir, hotplugLock, hotplugRestartGuard, activationMarker, activationMarkers]
  remove := by
    rintro p (rfl | ⟨n, suffix, rfl⟩ | ⟨n, rfl⟩ | ⟨n, rfl | rfl⟩) <;>
      simp [hotplugOff, activeDir, hotplugRestartGuard, activationMarker, activationMarkers, hotplugOptIn,
        hotplugDir]
  clear := by
    rintro p ⟨⟨n, rfl⟩, -⟩
    simp [hotplugOff, backupDir]
  move := by
    rintro src dst ⟨⟨n, ⟨rfl, rfl⟩ | ⟨rfl, rfl⟩ | ⟨rfl, rfl⟩⟩, -⟩ <;>
      simp [hotplugOff, backupDir, activeDir, stagedDir]

/-- An opt-in is only taken back. -/
theorem avoiding_keeps_optIn (d : FilePath) (name : String) :
    (daemonScope.avoiding d).keeping.Spares (hotplugOptIn name) where
  dirs := by simp [hotplugOptIn, hotplugDir, activationMarkers]
  write := by
    rintro p (rfl | rfl | ⟨n, suffix, rfl⟩ | ⟨n, rfl⟩) <;>
      simp [hotplugOptIn, hotplugDir, stagedDir, hotplugLock, hotplugRestartGuard, activationMarker,
        activationMarkers]
  remove _ hp := hp.elim
  clear := by
    rintro p ⟨⟨n, rfl⟩, -⟩
    simp [hotplugOptIn, hotplugDir, backupDir]
  move := by
    rintro src dst ⟨⟨n, ⟨rfl, rfl⟩ | ⟨rfl, rfl⟩ | ⟨rfl, rfl⟩⟩, -⟩ <;>
      simp [hotplugOptIn, hotplugDir, backupDir, activeDir, stagedDir]

theorem avoiding_blocks (d : FilePath) (n : String) : (daemonScope.avoiding d).Blocks n where
  lock := (daemonScope_full.blocks n).lock
  write := (daemonScope_full.blocks n).write
  remove := (daemonScope_full.blocks n).remove
  optOut := (daemonScope_full.blocks n).optOut

theorem avoiding_swaps {d : FilePath} {n : String} (hactive : activeDir n ≠ d) (hstaged : stagedDir n ≠ d)
    (hbackup : backupDir n ≠ d) : (daemonScope.avoiding d).Swaps n where
  toMarkers := (avoiding_blocks d n).toMarkers
  inherit := (daemonScope_full.applies n).inherit
  backup := ⟨⟨n, rfl⟩, hbackup⟩
  preserve := ⟨⟨n, .inl ⟨rfl, rfl⟩⟩, hactive, hbackup⟩
  moveIn := ⟨⟨n, .inr (.inl ⟨rfl, rfl⟩)⟩, hstaged, hactive⟩
  restore := ⟨⟨n, .inr (.inr ⟨rfl, rfl⟩)⟩, hbackup, hactive⟩

/-- What precedes the scan names no directory of a module. -/
theorem within_catchUp (d : FilePath) (activate : Bool) :
    Only (Op.within (daemonScope.avoiding d)) (catchUp activate) :=
  only_onlyIf (Prog.only_bind
    (within_runPendingStagedServices fun n => (avoiding_blocks d n).toMarkers) fun _ =>
      within_runFrameworkActivations (avoiding_blocks d))

/-- The turns of modules with other directories. -/
theorem within_turns {d : FilePath} {activate : Bool} {entries : List (String × FilePath)}
    (h : ∀ entry ∈ entries, (daemonScope.avoiding d).Swaps entry.1) :
    Only (Op.within (daemonScope.avoiding d))
      (gather entries (loadModule activateStagedModule activate arch)) := by
  refine Prog.only_gather fun entry hmem => ?_
  refine Prog.only_bind (Prog.only_ite ?_ trivial) fun _ => Prog.only_bind ?_ fun _ =>
    Prog.only_bind (only_perform trivial) fun _ => trivial
  · exact Prog.only_bind (within_inert inert_systemServerReady) fun _ =>
      only_onlyIf (within_activateStagedModule (h entry hmem) _)
  · exact Prog.only_bind (within_asks (asks_pathExists _)) fun _ => Prog.only_ite trivial trivial

/-! ### The library of a module -/

/-- The library a module is served from: the active copy's, if it has one, or else the staged one's. -/
def libraryOf (fs : FileTree) (arch name : String) : Option String :=
  fs.read (servedSo fs arch name (stagedDir name))

/-- A staged copy that would be served holds the library of the active one, if that has one, and no swap
of another module takes it for a backup. -/
def Settled (fs : FileTree) (arch name : String) : Prop :=
  stagedServed fs arch name = true →
    (carries fs (activeDir name) arch = true →
      fs.read (librarySo (activeDir name) arch) = fs.read (librarySo (stagedDir name) arch)) ∧
    ∀ n, backupDir n ≠ stagedDir name

theorem read_congr {fs fs' : FileTree} {p q : FilePath} (h : fs'.get p = fs.get q) : fs'.read p = fs.read q := by
  rw [FileTree.read, FileTree.read, h]

theorem IsNew.library {new t : Tree} (h : IsNew new t) (arch : String) :
    t ["zygisk", arch ++ ".so"] = new ["zygisk", arch ++ ".so"] := by
  rcases h with rfl | ⟨ino, rfl⟩
  · rfl
  · exact if_neg (by simp)

theorem libraryOf_congr {fs fs' : FileTree}
    (hactive : fs'.get (librarySo (activeDir name) arch) = fs.get (librarySo (activeDir name) arch))
    (hstaged : fs'.get (librarySo (stagedDir name) arch) = fs.get (librarySo (stagedDir name) arch)) :
    libraryOf fs' arch name = libraryOf fs arch name := by
  have hcarries : carries fs' (activeDir name) arch = carries fs (activeDir name) arch :=
    congrArg Option.isSome hactive
  rw [libraryOf, libraryOf, servedSo, servedSo, hcarries]
  split_ifs
  · exact read_congr hactive
  · exact read_congr hstaged

theorem libraryOf_active (h : carries fs (activeDir name) arch = true) :
    libraryOf fs arch name = fs.read (librarySo (activeDir name) arch) := by
  rw [libraryOf, servedSo, if_pos h]

theorem libraryOf_staged (h : carries fs (activeDir name) arch = false) :
    libraryOf fs arch name = fs.read (librarySo (stagedDir name) arch) := by
  rw [libraryOf, servedSo, h, if_neg Bool.false_ne_true]

/-- However a swap ends, it does not change the library a module is served from, if both copies hold the
same one. -/
theorem libraryOf_kept {fs fs' : FileTree}
    (hkept : Kept (copies name fs).active (copies name fs).staged (copies name fs'))
    (hcarries : carries fs (stagedDir name) arch = true)
    (hsame : carries fs (activeDir name) arch = true →
      fs.read (librarySo (activeDir name) arch) = fs.read (librarySo (stagedDir name) arch)) :
    libraryOf fs' arch name = libraryOf fs arch name := by
  have hone : libraryOf fs arch name = fs.read (librarySo (stagedDir name) arch) := by
    cases hactive : carries fs (activeDir name) arch with
    | true => rw [libraryOf_active hactive, hsame hactive]
    | false => exact libraryOf_staged hactive
  have hactive : fs'.get (librarySo (activeDir name) arch) =
      (copies name fs').active ["zygisk", arch ++ ".so"] := rfl
  have hstaged : fs'.get (librarySo (stagedDir name) arch) =
      (copies name fs').staged ["zygisk", arch ++ ".so"] := rfl
  generalize copies name fs' = c at hkept hactive hstaged
  cases hkept with
  | active hs => exact libraryOf_congr hactive (hstaged.trans (hs.library arch))
  | backup hs =>
    have hgone : carries fs' (activeDir name) arch = false := by
      rw [carries, FileTree.present, hactive]
      rfl
    rw [libraryOf_staged hgone, hone]
    exact read_congr (hstaged.trans (hs.library arch))
  | replaced hnew _ =>
    have hnow := hactive.trans (hnew.library arch)
    have hmoved : carries fs' (activeDir name) arch = true := by
      rw [carries, FileTree.present, hnow]
      exact hcarries
    rw [libraryOf_active hmoved, hone]
    exact read_congr hnow

/-- Where the scan of a later disk finds a staged copy, this one has it. -/
theorem stagedServed_of_catchUp {activate : Bool} {u : Unit}
    (hrun : Prog.run exec e (catchUp activate) w = some (u, w'))
    (h : stagedServed w'.fs arch name = true) : stagedServed w.fs arch name = true := by
  have hin := within_catchUp (stagedDir name) activate
  have hspares : ∀ {q}, ¬ ["disable"] <+: q → ¬ ["update"] <+: q →
      w'.fs.present (stagedDir name ++ q) = w.fs.present (stagedDir name ++ q) := fun hdisable hupdate =>
    congrArg Option.isSome (run_within (avoiding_spares (.inr rfl) hdisable hupdate) hin hrun)
  have hlib : ∀ abi, carries w'.fs (stagedDir name) abi = carries w.fs (stagedDir name) abi := fun abi =>
    hspares (by simp) (by simp)
  have hoff : masterOn w'.fs = masterOn w.fs :=
    congrArg (fun n => !Option.isSome n) (run_within (avoiding_spares_off _) hin hrun)
  have hready : stagedReady w'.fs name = stagedReady w.fs name := by
    simp only [stagedReady, hlib]
    rw [hspares (by simp) (by simp)]
  have hopt : optedIn w'.fs name = true → optedIn w.fs name = true := by
    intro hopt
    rcases run_keeping (avoiding_keeps_optIn _ name) hin hrun with hget | hget
    · rwa [optedIn, FileTree.present, hget] at hopt
    · rw [optedIn, FileTree.present, hget] at hopt
      exact absurd hopt (by simp)
  simp only [stagedServed, Bool.and_eq_true] at h ⊢
  rw [hoff, hready, hlib] at h
  exact ⟨⟨h.1.1, hopt h.1.2⟩, h.2⟩

section Library

variable {activate : Bool} {w₁ w₂ w₃ : World} {before after : List (String × FilePath)} {module : Module}

/-- The libraries a turn of the loop finds. -/
theorem Streamed.library_before (h : Streamed e activate arch w w₁ w₂ w₃ before after dir module)
    {d : FilePath} (hd : d = activeDir module.name ∨ d = stagedDir module.name)
    (hclash : ∀ n, backupDir n ≠ d) : w₂.fs.get (librarySo d arch) = w.fs.get (librarySo d arch) := by
  have hnames : ∀ entry ∈ before, entry.1 ≠ module.name := by
    have hnodup := nodup_eligibleIn w₁.fs arch
    rw [h.scan, List.map_append, List.nodup_append] at hnodup
    intro entry hmem heq
    exact hnodup.2.2 _ (List.mem_map.2 ⟨entry, hmem, rfl⟩) _ List.mem_cons_self heq
  obtain ⟨bs, hturns⟩ := h.turns
  have hbefore : Only (Op.within (daemonScope.avoiding d))
      (gather before (loadModule activateStagedModule activate arch)) := by
    apply within_turns
    intro entry hmem
    have hne := hnames entry hmem
    apply avoiding_swaps _ _ (hclash _) <;> rcases hd with rfl | rfl <;> simp [activeDir, stagedDir, hne]
  rw [run_within (avoiding_spares_so hd arch) hbefore hturns,
    run_within (avoiding_spares_so hd arch) (within_catchUp d activate) h.caughtUp]

/-- The library that is streamed for a module is the one it is served from. -/
theorem Streamed.library_eq (h : Streamed e activate arch w w₁ w₂ w₃ before after dir module)
    (hsettled : Settled w.fs arch module.name) :
    module.libFd.disk.read module.libFd.source = libraryOf w.fs arch module.name := by
  have hactive := h.library_before (.inl rfl) fun n => by simp [backupDir, activeDir]
  have hcarries : carries w₂.fs (activeDir module.name) arch = carries w.fs (activeDir module.name) arch :=
    congrArg Option.isSome hactive
  have hentry : (module.name, dir) ∈ eligibleIn w₁.fs arch := by
    rw [h.scan]
    exact List.mem_append_right _ List.mem_cons_self
  have hturn := h.turn
  rw [h.library]
  dsimp only
  rcases (mem_eligibleIn w₁.fs arch).1 hentry with ⟨hserved, rfl, -⟩ | ⟨-, rfl, hrec, -⟩
  · have hserved' := stagedServed_of_catchUp h.caughtUp hserved
    obtain ⟨hsame, hclash⟩ := hsettled hserved'
    have hstaged := h.library_before (.inr rfl) hclash
    have hso : carries w₂.fs (stagedDir module.name) arch = true := by
      rw [carries, FileTree.present, hstaged]
      exact (Bool.and_eq_true_iff.1 hserved').2
    rw [← libraryOf_congr hactive hstaged]
    apply libraryOf_kept (kept_activateEntry hturn) hso
    rw [hcarries, read_congr hactive, read_congr hstaged]
    exact hsame
  · have hso : carries w.fs (activeDir module.name) arch = true := by
      have hscan : carries w₁.fs (activeDir module.name) arch = carries w.fs (activeDir module.name) arch :=
        congrArg Option.isSome
          (run_within (avoiding_spares_so (.inl rfl) arch) (within_catchUp _ activate) h.caughtUp)
      rw [← hscan]
      exact (Bool.and_eq_true_iff.1 hrec).1
    rw [run_activateEntry_active hturn, servedSo, ite_self, read_congr hactive, libraryOf_active hso]

end Library

end OnyxZygisk.Daemon

import OnyxZygisk.Daemon.Jobs
import OnyxZygisk.Daemon.Steps

/-!
# What a program touches

A scope names the files a program may write, remove, clear and move. Each program of the daemon stays
within every scope that has the files it names (`within_body`), and whatever a scope does not have stays
as it is (`get_within`).
-/

namespace OnyxZygisk.Daemon

open Prog (Only)

structure Scope where
  writes : FilePath → Prop
  removes : FilePath → Prop
  clears : FilePath → Prop
  moves : FilePath → FilePath → Prop

/-- Of the directories, a thread creates the work directory and the one of the markers. -/
def Op.within (S : Scope) : Op → Prop
  | .createDirAll p => p = tmpPath ∨ p = activationMarkers
  | .createNew p | .openKeep p | .openTrunc p | .writeData p _ _ => S.writes p
  | .removeFile p => S.removes p
  | .removeDirAll p => S.clears p
  | .rename src dst => S.moves src dst
  | .onLoad _ _ => False
  | .spawn job => job.ofDaemon
  | _ => True

/-- The suffixes of the files among the markers. -/
def usedSuffixes : List String := markerSuffixes ++ ["crash_blocked", "daemon.log"]

/-- A marker of one module is none of another. -/
theorem activationMarker_used {m n s t : String} (hs : s ∈ usedSuffixes) (ht : '.' ∉ t.toList)
    (h : activationMarker m s = activationMarker n t) (hlog : t ≠ "log") : m = n ∧ s = t := by
  rcases List.mem_append.1 hs with hs | hs
  · exact (activationMarker_inj (markerSuffixes_dotless s hs) ht).1 h
  · rcases List.mem_cons.1 hs with rfl | hs
    · exact (activationMarker_inj (by decide) ht).1 h
    · obtain rfl := List.mem_singleton.1 hs
      have hsplit : activationMarker m "daemon.log" = activationMarker (m ++ ".daemon") "log" := by
        simp only [activationMarker, String.append_assoc]
        rfl
      rw [hsplit, activationMarker_inj (by decide) ht] at h
      exact absurd h.2.symm hlog

namespace Scope

/-- The lock and the markers of a module. -/
structure Markers (S : Scope) (name : String) : Prop where
  lock : S.writes hotplugLock
  write : ∀ suffix ∈ usedSuffixes, S.writes (activationMarker name suffix)
  remove : ∀ suffix ∈ usedSuffixes, S.removes (activationMarker name suffix)

/-- What the swap of a module names. -/
structure Swaps (S : Scope) (name : String) : Prop extends Markers S name where
  inherit : S.writes (stagedDir name ++ ["disable"])
  backup : S.clears (backupDir name)
  preserve : S.moves (activeDir name) (backupDir name)
  moveIn : S.moves (stagedDir name) (activeDir name)
  restore : S.moves (backupDir name) (activeDir name)

/-- What switching a module off names. -/
structure Blocks (S : Scope) (name : String) : Prop extends Markers S name where
  optOut : S.removes (hotplugOptIn name)

structure Guards (S : Scope) : Prop where
  write : S.writes hotplugRestartGuard
  remove : S.removes hotplugRestartGuard

end Scope

/-! ### Programs that change nothing -/

theorem inert_asks {α : Type} {p : Program α} (h : Asks p) : Only Op.inert p := by
  refine Prog.only_mono h ?_
  intro op hop
  cases op <;> first | exact hop.elim | trivial

theorem inert_systemServerReady : Only Op.inert systemServerReady := by
  refine Prog.only_bind (only_perform trivial) fun _ => Prog.only_ite trivial ?_
  refine Prog.only_bind (only_perform trivial) fun _ => Prog.only_ite ?_ trivial
  exact Prog.only_bind (only_perform trivial) fun _ => trivial

theorem inert_currentBootId : Only Op.inert currentBootId :=
  Prog.only_bind (only_perform trivial) fun _ => trivial

theorem inert_getArch : Only Op.inert getArch := by
  refine Prog.only_bind (only_perform trivial) fun _ =>
    Prog.only_bind (only_perform trivial) fun _ => ?_
  exact Prog.only_ite trivial (Prog.only_ite trivial (Prog.only_ite trivial trivial))

/-- Listing the modules changes nothing of its own. -/
theorem only_loadModulesWith {ops : Op → Prop} (hinert : ∀ op, op.inert → ops op)
    {catchUp : Program Unit} {activateStaged : String → FilePath → Program Unit} (activate : Bool)
    (hcatch : Only ops catchUp) (hact : ∀ name dir, Only ops (activateStaged name dir)) :
    Only ops (loadModulesWith catchUp activateStaged activate) := by
  have hasks : ∀ {α : Type} {p : Program α}, Asks p → Only ops p := fun h =>
    Prog.only_mono (inert_asks h) hinert
  refine Prog.only_bind (Prog.only_mono inert_getArch hinert) fun r => ?_
  cases r with
  | error msg => trivial
  | ok arch =>
    refine Prog.only_bind (only_onlyIf hcatch) fun _ =>
      Prog.only_bind (hasks (asks_eligibleModules arch)) fun eligible =>
        Prog.only_bind (Prog.only_gather fun entry _ => ?_) fun _ => trivial
    refine Prog.only_bind (Prog.only_ite ?_ trivial) fun _ => Prog.only_bind ?_ fun _ =>
      Prog.only_bind (only_perform (hinert _ trivial)) fun _ => trivial
    · exact Prog.only_bind (Prog.only_mono inert_systemServerReady hinert) fun _ =>
        only_onlyIf (hact _ _)
    · exact Prog.only_bind (hasks (asks_pathExists _)) fun _ => Prog.only_ite trivial trivial

theorem inert_refreshControllerInfo : Only Op.inert refreshControllerInfo := by
  refine Prog.only_bind (only_loadModulesWith (fun _ h => h) false trivial fun _ _ => trivial)
    fun r => ?_
  cases r with
  | error msg => trivial
  | ok modules => exact Prog.only_bind (only_perform trivial) fun _ => trivial

/-! ### What the programs issue -/

section Within

variable {S : Scope} {name : String} {dir : FilePath}

theorem Op.within_of_inert {op : Op} (hop : op.inert) : op.within S := by
  cases op <;> first | exact hop.elim | trivial

theorem within_inert {α : Type} {p : Program α} (h : Only Op.inert p) : Only (Op.within S) p :=
  Prog.only_mono h fun _ hop => Op.within_of_inert hop

theorem within_asks {α : Type} {p : Program α} (h : Asks p) : Only (Op.within S) p :=
  within_inert (inert_asks h)

/-- Remove a file and go on, whatever came of it. -/
theorem within_removeFile {p : FilePath} (h : S.removes p) :
    Only (Op.within S) (do let _ ← perform (.removeFile p)) :=
  Prog.only_bind (only_perform h) fun _ => trivial

theorem within_fsWrite {p : FilePath} (h : S.writes p) (data : String) :
    Only (Op.within S) (fsWrite p data) := by
  refine Prog.only_bind (only_perform h) fun r => ?_
  cases r with
  | none => trivial
  | some ino => exact Prog.only_ite trivial (only_perform h)

theorem within_withHotplugLock {α : Type} {use : LockUse} {onError : String → α} {body : Program α}
    (hlock : S.writes hotplugLock) (h : Only (Op.within S) body) :
    Only (Op.within S) (withHotplugLock use onError body) := by
  have hacquire : Only (Op.within S) (acquireHotplugLock use) := by
    refine Prog.only_bind (only_perform (.inl rfl)) fun _ => Prog.only_ite ?_ trivial
    refine Prog.only_bind (only_perform hlock) fun _ => Prog.only_ite ?_ trivial
    exact Prog.only_bind (only_perform trivial) fun _ => Prog.only_ite trivial trivial
  refine Prog.only_bind hacquire fun r => ?_
  cases r with
  | error msg => trivial
  | ok u => exact Prog.only_bind h fun _ => Prog.only_bind (only_perform trivial) fun _ => trivial

theorem within_writeActivationMarker (h : S.Markers name) {suffix : String} (hs : suffix ∈ usedSuffixes) :
    Only (Op.within S) (writeActivationMarker name suffix) :=
  Prog.only_bind (only_perform (.inr rfl)) fun _ =>
    Prog.only_bind (within_fsWrite (h.write suffix hs) _) fun _ => trivial

theorem within_clearActivationMarkers (h : S.Markers name) :
    Only (Op.within S) (clearActivationMarkers name) :=
  Prog.only_forEach fun suffix hs => within_removeFile (h.remove suffix (List.mem_append_left _ hs))

/-! #### Framework modules -/

theorem asks_frameworkDaemonName (dir : FilePath) : Asks (frameworkDaemonName dir) := by
  refine Prog.only_bind (asks_readDir _) fun _ => Prog.only_bind
    (Prog.only_firstSome fun _ _ => Prog.only_bind (asks_readToString _) fun _ => trivial) fun r => ?_
  cases r with
  | some name => trivial
  | none =>
    refine Prog.only_bind (asks_readToString _) fun text => ?_
    cases text with
    | none => trivial
    | some service => exact Prog.only_ite trivial trivial

theorem asks_isFrameworkModule (dir : FilePath) : Asks (isFrameworkModule dir) :=
  Prog.only_bind (asks_frameworkDaemonName dir) fun _ => trivial

theorem asks_frameworkState (name : String) : Asks (frameworkState name) :=
  Prog.only_bind (asks_readToString _) fun _ => trivial

theorem within_writeFrameworkState (h : S.Markers name) (state : FrameworkState) :
    Only (Op.within S) (writeFrameworkState name state) :=
  Prog.only_bind (within_fsWrite (h.write _ (by decide)) _) fun _ => trivial

theorem within_runIfFile (dir : FilePath) (script : String) : Only (Op.within S) (runIfFile dir script) := by
  refine Prog.only_bind (within_asks (asks_isFile _)) fun _ => Prog.only_ite ?_ trivial
  exact only_perform trivial

theorem within_ensureModuleDaemonStarted (h : S.Markers name) (dir : FilePath) :
    Only (Op.within S) (ensureModuleDaemonStarted name dir) := by
  refine Prog.only_bind (within_asks (asks_isFile _)) fun _ => Prog.only_ite ?_ trivial
  refine Prog.only_bind (within_asks (asks_readToString _)) fun _ => ?_
  refine Prog.only_bind (Prog.only_bind (only_perform trivial) fun _ => trivial) fun _ =>
    Prog.only_ite trivial ?_
  exact Prog.only_bind (only_perform (h.write _ (by decide))) fun _ =>
    Prog.only_bind (only_perform trivial) fun _ => trivial

theorem within_startFrameworkDaemon (h : S.Markers name) (dir : FilePath) (swapped : Bool) :
    Only (Op.within S) (startFrameworkDaemon name dir swapped) := by
  refine Prog.only_bind (within_asks (asks_frameworkDaemonName dir)) fun _ =>
    Prog.only_bind (only_perform trivial) fun _ => Prog.only_ite trivial ?_
  refine Prog.only_bind (only_onlyIf (only_perform trivial)) fun _ => ?_
  refine Prog.only_bind (within_runIfFile _ _) fun _ =>
    Prog.only_bind (only_perform trivial) fun _ => Prog.only_ite trivial ?_
  exact Prog.only_bind (within_ensureModuleDaemonStarted h _) fun _ =>
    Prog.only_bind (only_perform trivial) fun _ => trivial

theorem within_restartFrameworkOnce (h : S.Markers name) :
    Only (Op.within S) (restartFrameworkOnce name) := by
  refine within_withHotplugLock h.lock (Prog.only_bind (within_inert inert_currentBootId) fun boot => ?_)
  cases boot with
  | none => trivial
  | some bootId =>
    refine Prog.only_bind (Prog.only_bind (within_asks (asks_frameworkState name)) fun recorded => ?_)
      fun _ => Prog.only_ite trivial ?_
    · cases recorded.filter fun s => s.bootId = bootId with
      | none => trivial
      | some s => exact Prog.only_bind (only_perform trivial) fun _ => trivial
    · refine Prog.only_bind (only_perform trivial) fun pid => ?_
      cases pid with
      | none => trivial
      | some pid =>
        exact Prog.only_bind (within_asks (asks_frameworkState name)) fun _ =>
          Prog.only_bind (within_writeFrameworkState h _) fun _ =>
            Prog.only_bind (only_perform trivial) fun _ => trivial

theorem within_unplugUnstableFrameworkModule (h : S.Blocks name) :
    Only (Op.within S) (unplugUnstableFrameworkModule name) :=
  Prog.only_bind (only_perform h.optOut) fun _ =>
    Prog.only_bind (within_fsWrite (h.write _ (by decide)) _) fun _ =>
      Prog.only_bind (within_fsWrite (h.write _ (by decide)) _) fun _ =>
        Prog.only_bind (only_perform (h.remove _ (by decide))) fun _ =>
          Prog.only_bind (only_perform (h.remove _ (by decide))) fun _ => within_inert inert_refreshControllerInfo

theorem within_runFrameworkActivation (h : S.Blocks name) (bootId : Option String) (pid : Int32) :
    Only (Op.within S) (runFrameworkActivation bootId pid name) := by
  have hremove := within_removeFile (h.remove "framework" (by decide))
  refine Prog.only_bind (within_asks (asks_frameworkState name)) fun state => ?_
  cases state with
  | none => exact hremove
  | some s =>
    refine Prog.only_ite hremove (Prog.only_ite trivial ?_)
    refine Prog.only_bind (Prog.only_bind (only_perform trivial) fun _ => trivial) fun _ =>
      Prog.only_ite ?_ hremove
    refine Prog.only_bind (within_asks (asks_frameworkDaemonName _)) fun _ =>
      Prog.only_bind (Prog.only_ite trivial (Prog.only_bind (only_perform trivial) fun _ => trivial))
        fun _ => Prog.only_ite (within_writeFrameworkState h.toMarkers _) ?_
    refine Prog.only_ite (within_unplugUnstableFrameworkModule h) ?_
    refine Prog.only_bind (only_perform (h.write _ (by decide))) fun _ => Prog.only_ite ?_ trivial
    exact Prog.only_bind (within_writeFrameworkState h.toMarkers _) fun _ => only_perform trivial

theorem within_runFrameworkActivations (h : ∀ n, S.Blocks n) :
    Only (Op.within S) runFrameworkActivations := by
  refine Prog.only_bind (within_inert inert_systemServerReady) fun _ => Prog.only_ite ?_ trivial
  refine Prog.only_bind (within_asks (asks_readDir _)) fun entries => ?_
  cases entries with
  | none => trivial
  | some entries =>
    refine Prog.only_ite trivial (Prog.only_bind (only_perform trivial) fun pid => ?_)
    cases pid with
    | none => trivial
    | some pid =>
      exact Prog.only_bind (within_inert inert_currentBootId) fun boot =>
        Prog.only_forEach fun name _ => within_runFrameworkActivation (h name) boot pid

theorem within_sweepStaleFrameworkMarkers (h : ∀ n, S.Markers n) :
    Only (Op.within S) sweepStaleFrameworkMarkers := by
  refine Prog.only_bind (within_inert inert_currentBootId) fun boot => ?_
  cases boot with
  | none => trivial
  | some bootId =>
    refine Prog.only_bind (within_asks (asks_readDir _)) fun _ => Prog.only_forEach fun name _ => ?_
    refine Prog.only_bind (within_asks (asks_frameworkState name)) fun _ => Prog.only_ite trivial ?_
    exact Prog.only_bind (only_perform ((h name).remove _ (by decide))) fun _ =>
      within_removeFile ((h name).remove _ (by decide))

/-! #### Swaps and activations -/

theorem within_moveIn (h : S.Swaps name) (hadActive : Bool) :
    Only (Op.within S) (moveIn name hadActive) := by
  refine Prog.only_bind (only_perform h.moveIn) fun _ => Prog.only_ite ?_ ?_
  · exact Prog.only_bind (only_onlyIf (Prog.only_bind (only_perform h.backup) fun _ => trivial)) fun _ =>
      Prog.only_bind (within_clearActivationMarkers h.toMarkers) fun _ =>
        Prog.only_bind (within_writeActivationMarker h.toMarkers (by decide)) fun _ => trivial
  · exact Prog.only_bind (only_onlyIf (Prog.only_bind (only_perform h.restore) fun _ => trivial))
      fun _ => trivial

theorem within_preserveActive (h : S.Swaps name) : Only (Op.within S) (preserveActive name) := by
  have hinherit : Only (Op.within S) (inheritDisable name) := by
    refine Prog.only_bind (within_asks (asks_pathExists _)) fun _ => Prog.only_ite ?_ trivial
    exact Prog.only_bind (within_asks (asks_pathExists _)) fun _ =>
      Prog.only_ite trivial (within_fsWrite h.inherit _)
  refine Prog.only_bind (only_perform trivial) fun node => ?_
  rcases node with _ | ⟨_ | _ | _⟩
  · trivial
  · trivial
  · refine Prog.only_bind hinherit fun _ => Prog.only_ite ?_ trivial
    exact Prog.only_bind (only_perform h.preserve) fun _ => Prog.only_ite trivial trivial
  · trivial

theorem within_swapStagedModule (h : S.Swaps name) (dir : FilePath) :
    Only (Op.within S) (swapStagedModule name dir) := by
  have hready : Only (Op.within S) (stagedUpdateReady name) := within_asks (asks_stagedUpdateReady name)
  have hswap : Only (Op.within S) (swapDirs name) := by
    refine Prog.only_bind (Prog.only_bind (within_asks (asks_pathExists _)) fun _ =>
      Prog.only_ite (only_perform h.backup) trivial) fun _ => Prog.only_ite ?_ trivial
    refine Prog.only_bind (within_asks (asks_pathExists _)) fun _ =>
      Prog.only_ite ?_ (within_moveIn h false)
    refine Prog.only_bind (within_preserveActive h) fun r => ?_
    cases r with
    | error msg => trivial
    | ok u => exact within_moveIn h true
  refine Prog.only_ite trivial (Prog.only_ite trivial (Prog.only_bind hready fun _ =>
    Prog.only_ite (within_withHotplugLock h.lock ?_) trivial))
  refine Prog.only_bind hready fun _ => Prog.only_ite ?_ trivial
  refine Prog.only_bind (only_perform trivial) fun node => ?_
  rcases node with _ | ⟨_ | _ | _⟩
  · trivial
  · trivial
  · exact hswap
  · trivial

theorem within_signalSystemServerHotplug (h : S.Markers name) (force : Bool) :
    Only (Op.within S) (signalSystemServerHotplug name force) := by
  refine Prog.only_bind (within_inert inert_systemServerReady) fun _ => Prog.only_ite ?_ trivial
  refine within_withHotplugLock h.lock (Prog.only_bind (only_perform trivial) fun pid => ?_)
  cases pid with
  | none => trivial
  | some pid =>
    refine Prog.only_bind (Prog.only_ite trivial (Prog.only_bind (within_asks (asks_readToString _))
      fun _ => trivial)) fun _ => Prog.only_ite trivial ?_
    refine Prog.only_bind (only_perform trivial) fun _ => Prog.only_ite ?_ trivial
    refine Prog.only_bind (only_perform trivial) fun _ => Prog.only_ite ?_ trivial
    exact Prog.only_bind (within_fsWrite (h.write _ (by decide)) _) fun _ => trivial

theorem within_startService (h : S.Markers name) (dir : FilePath) :
    Only (Op.within S) (startService name dir) :=
  Prog.only_bind (within_runIfFile _ _) fun _ => within_ensureModuleDaemonStarted h dir

theorem within_finishActivation (h : S.Markers name) : Only (Op.within S) (finishActivation name) :=
  Prog.only_bind (within_fsWrite (h.write _ (by decide)) _) fun _ =>
    Prog.only_bind (only_perform (h.remove _ (by decide))) fun _ =>
      Prog.only_bind (within_inert inert_refreshControllerInfo) fun _ =>
        Prog.only_bind (within_signalSystemServerHotplug h false) fun _ => trivial

theorem within_activationThread (h : S.Markers name) (dir : FilePath) :
    Only (Op.within S) (activationThread name dir) := by
  refine Prog.only_bind (within_runIfFile _ _) fun _ =>
    Prog.only_bind (within_writeActivationMarker h (by decide)) fun _ =>
      Prog.only_bind (within_inert inert_systemServerReady) fun _ => Prog.only_ite ?_ ?_
  · exact Prog.only_bind (within_startService h dir) fun _ =>
      Prog.only_bind (within_writeActivationMarker h (by decide)) fun _ => within_finishActivation h
  · exact within_removeFile (h.remove _ (by decide))

theorem within_frameworkActivationThread (h : S.Markers name) (dir : FilePath) :
    Only (Op.within S) (frameworkActivationThread name dir) :=
  Prog.only_bind (within_runIfFile _ _) fun _ =>
    Prog.only_bind (within_writeActivationMarker h (by decide)) fun _ =>
      Prog.only_bind (within_fsWrite (h.write _ (by decide)) _) fun _ =>
        Prog.only_bind (only_perform (h.remove _ (by decide))) fun _ =>
          Prog.only_bind (within_inert inert_refreshControllerInfo) fun _ =>
            Prog.only_bind (within_restartFrameworkOnce h) fun _ => trivial

theorem within_activateStagedModule (h : S.Swaps name) (dir : FilePath) :
    Only (Op.within S) (activateStagedModule name dir) := by
  refine Prog.only_bind (within_swapStagedModule h dir) fun r => ?_
  cases r with
  | error msg => trivial
  | ok dir =>
    exact Prog.only_bind (within_asks (asks_isFrameworkModule dir)) fun _ =>
      Prog.only_ite (only_perform trivial) (only_perform trivial)

theorem asks_hasDeferredSo (dir : FilePath) : Asks (hasDeferredSo dir) :=
  Prog.only_bind (asks_pathExists _) fun _ => Prog.only_ite trivial (asks_pathExists _)

theorem within_runPendingStagedServices (h : ∀ n, S.Markers n) :
    Only (Op.within S) runPendingStagedServices := by
  refine Prog.only_bind (within_inert inert_systemServerReady) fun _ => Prog.only_ite ?_ trivial
  refine Prog.only_bind (within_asks (asks_readDir _)) fun entries => ?_
  cases entries with
  | none => trivial
  | some entries =>
    refine Prog.only_forEach fun name _ => ?_
    refine Prog.only_bind (within_asks (asks_pathExists _)) fun _ => Prog.only_ite trivial ?_
    refine Prog.only_bind (within_asks (asks_isFrameworkModule _)) fun _ => Prog.only_ite trivial ?_
    refine Prog.only_bind (within_asks (asks_hasDeferredSo _)) fun _ => Prog.only_ite ?_ trivial
    exact Prog.only_bind (only_perform ((h name).write _ (by decide))) fun _ =>
      Prog.only_ite (only_perform trivial) trivial

/-! #### The WebUI's request and the restart guard -/

/-- What the request to apply a module's switch names. -/
structure Scope.Applies (S : Scope) (name : String) : Prop extends Swaps S name where
  enable : S.removes (activeDir name ++ ["disable"])
  updated : S.removes (activeDir name ++ ["update"])

theorem within_clearPendingUpdateMarker (h : S.removes (activeDir name ++ ["update"])) :
    Only (Op.within S) (clearPendingUpdateMarker (activeDir name)) := by
  refine Prog.only_bind (within_asks (asks_pathExists _)) fun _ => Prog.only_ite ?_ trivial
  exact within_removeFile h

theorem within_applyPreference (h : S.Markers name) (hupdate : S.removes (activeDir name ++ ["update"]))
    (enabled swapped : Bool) : Only (Op.within S) (applyPreference name enabled swapped) := by
  refine Prog.only_bind (within_fsWrite (h.write _ (by decide)) _) fun _ => Prog.only_ite ?_ trivial
  refine Prog.only_bind (only_onlyIf (within_removeFile (h.remove _ (by decide)))) fun _ =>
    Prog.only_bind (within_inert inert_refreshControllerInfo) fun _ =>
      Prog.only_bind (Prog.only_ite (within_signalSystemServerHotplug h true) trivial) fun _ =>
        Prog.only_ite ?_ trivial
  exact Prog.only_bind (only_onlyIf (within_clearPendingUpdateMarker hupdate)) fun _ => trivial

theorem within_applyFramework (h : S.Markers name) (hupdate : S.removes (activeDir name ++ ["update"]))
    (swapped : Bool) : Only (Op.within S) (applyFramework name swapped) := by
  refine Prog.only_bind (within_runIfFile _ _) fun _ =>
    Prog.only_bind (within_writeActivationMarker h (by decide)) fun _ =>
      Prog.only_bind (only_perform (h.remove _ (by decide))) fun _ =>
        Prog.only_bind (within_fsWrite (h.write _ (by decide)) _) fun _ => Prog.only_ite ?_ trivial
  exact Prog.only_bind (within_startFrameworkDaemon h _ _) fun _ =>
    Prog.only_bind (within_writeActivationMarker h (by decide)) fun _ =>
      Prog.only_bind (within_inert inert_refreshControllerInfo) fun _ =>
        Prog.only_bind (within_restartFrameworkOnce h) fun _ =>
          Prog.only_bind (only_onlyIf (within_clearPendingUpdateMarker hupdate)) fun _ => trivial

theorem within_applySwapped (h : S.Markers name) : Only (Op.within S) (applySwapped name) := by
  refine Prog.only_bind (within_runIfFile _ _) fun _ =>
    Prog.only_bind (within_writeActivationMarker h (by decide)) fun _ =>
      Prog.only_bind (within_inert inert_systemServerReady) fun _ => Prog.only_ite ?_ ?_
  · exact Prog.only_bind (within_startService h _) fun _ =>
      Prog.only_bind (within_writeActivationMarker h (by decide)) fun _ =>
        Prog.only_bind (only_perform (h.remove _ (by decide))) fun _ => trivial
  · exact Prog.only_bind (only_perform (h.remove _ (by decide))) fun _ => trivial

theorem within_reenable (h : S.Applies name) : Only (Op.within S) (reenable name) := by
  refine Prog.only_bind (within_asks (asks_pathExists _)) fun _ => Prog.only_ite ?_ trivial
  refine Prog.only_bind (only_perform h.enable) fun _ => Prog.only_ite ?_ trivial
  exact Prog.only_bind (only_perform (h.remove _ (by decide))) fun _ => trivial

theorem within_swapIfReady (h : S.Swaps name) : Only (Op.within S) (swapIfReady name) := by
  refine Prog.only_bind (within_asks (asks_stagedUpdateReady name)) fun _ => Prog.only_ite ?_ trivial
  refine Prog.only_bind (within_swapStagedModule h _) fun r => ?_
  cases r <;> trivial

theorem within_applyEnabled (h : S.Applies name) : Only (Op.within S) (applyEnabled name) := by
  refine Prog.only_bind (within_asks asks_hotplugMasterEnabled) fun _ => Prog.only_ite ?_ trivial
  refine Prog.only_bind (within_asks (asks_pathExists _)) fun _ => Prog.only_ite trivial ?_
  refine Prog.only_bind (within_reenable h) fun _ => Prog.only_ite ?_ trivial
  refine Prog.only_bind (within_swapIfReady h.toSwaps) fun r => ?_
  cases r with
  | error msg => trivial
  | ok swapped =>
    refine Prog.only_bind (Prog.only_bind (only_perform trivial) fun _ => trivial) fun _ =>
      Prog.only_ite ?_ trivial
    refine Prog.only_bind (within_asks (asks_isFrameworkModule _)) fun _ =>
      Prog.only_ite (within_applyFramework h.toMarkers h.updated _) ?_
    refine Prog.only_bind (Prog.only_ite (within_applySwapped h.toMarkers) trivial) fun ran => ?_
    cases ran with
    | error msg => trivial
    | ok u => exact within_applyPreference h.toMarkers h.updated _ _

theorem within_applyHotplug (h : S.Applies name) : Only (Op.within S) (applyHotplug name) := by
  refine Prog.only_ite (Prog.only_bind (within_asks (asks_hotplugOptedIn name)) fun _ => ?_) trivial
  exact Prog.only_ite (within_applyEnabled h) (within_applyPreference h.toMarkers h.updated _ _)

theorem within_crashBlock (h : S.Blocks name) (hg : S.Guards) : Only (Op.within S) (crashBlock name) :=
  Prog.only_bind (only_perform h.optOut) fun _ =>
    Prog.only_bind (within_fsWrite (h.write _ (by decide)) _) fun _ =>
      Prog.only_bind (within_fsWrite (h.write _ (by decide)) _) fun _ => within_removeFile hg.remove

theorem within_resolveGuard (h : ∀ n, S.Blocks n) (hg : S.Guards) {content bootId : String}
    {p : Program Unit} (hp : p = resolveGuard content bootId) : Only (Op.within S) p := by
  rw [hp]
  unfold resolveGuard
  extract_lets parts stage name recordedBoot
  clear_value stage name recordedBoot
  refine Prog.only_ite (within_removeFile hg.remove) (Prog.only_ite ?_ ?_)
  · exact Prog.only_bind (only_perform hg.remove) fun _ => within_removeFile ((h name).remove _ (by decide))
  · refine Prog.only_ite (Prog.only_ite trivial ?_) (Prog.only_ite (Prog.only_ite trivial ?_) ?_)
    · exact Prog.only_bind (only_perform ((h name).remove _ (by decide))) fun _ =>
        Prog.only_bind (within_fsWrite hg.write _) fun _ => trivial
    · exact within_crashBlock (h name) hg
    · exact within_removeFile hg.remove

theorem within_resolveStaleRestartGuard (h : ∀ n, S.Blocks n) (hg : S.Guards) :
    Only (Op.within S) resolveStaleRestartGuard := by
  refine Prog.only_bind (within_asks (asks_readToString _)) fun content => ?_
  cases content with
  | none => trivial
  | some content =>
    refine Prog.only_bind (within_inert inert_currentBootId) fun boot => ?_
    cases boot with
    | none => trivial
    | some bootId =>
      dsimp only
      generalize hp : resolveGuard content bootId = p
      exact within_resolveGuard h hg hp.symm

theorem within_handleGuard (h : S.Blocks name) (hg : S.Guards) (stage recordedBoot : String)
    (recordedPid : Option Int32) (bootId : String) (pid : Int32) :
    Only (Op.within S) (handleGuard stage name recordedBoot recordedPid bootId pid) := by
  refine Prog.only_ite trivial (Prog.only_ite (Prog.only_ite trivial ?_) ?_)
  · exact Prog.only_bind (within_crashBlock h hg) fun _ => within_inert inert_refreshControllerInfo
  · exact Prog.only_bind (within_fsWrite hg.write _) fun _ =>
      Prog.only_ite (only_perform trivial) trivial

theorem within_handleHotplugRestartGuard (h : ∀ n, S.Blocks n) (hg : S.Guards) :
    Only (Op.within S) handleHotplugRestartGuard := by
  refine Prog.only_bind (within_asks (asks_readToString _)) fun contents => ?_
  cases contents with
  | none => trivial
  | some contents =>
    simp only
    split
    · refine Prog.only_bind (within_inert inert_currentBootId) fun boot => ?_
      cases boot with
      | none => trivial
      | some bootId =>
        refine Prog.only_ite (within_removeFile hg.remove) ?_
        refine Prog.only_bind (only_perform trivial) fun pid => ?_
        cases pid with
        | none => trivial
        | some pid => exact within_handleGuard (h _) hg _ _ _ _ _
    · trivial

/-- What the threads of the daemon name, for every module. -/
structure Scope.Full (S : Scope) : Prop extends Guards S where
  applies : ∀ n, S.Applies n
  blocks : ∀ n, S.Blocks n

theorem within_loadModules (h : S.Full) (activate : Bool) : Only (Op.within S) (loadModules activate) :=
  only_loadModulesWith (fun _ hop => Op.within_of_inert hop) activate
    (Prog.only_bind (within_runPendingStagedServices fun n => (h.blocks n).toMarkers) fun _ =>
      within_runFrameworkActivations h.blocks)
    fun name dir => within_activateStagedModule (h.applies name).toSwaps dir

/-- What any thread of the daemon issues. -/
theorem within_body (h : S.Full) {j : Job} (hj : j.ofDaemon) : Only (Op.within S) (body j) := by
  have hm : ∀ n, S.Markers n := fun n => (h.blocks n).toMarkers
  have hpending : Only (Op.within S) runPendingStagedServices := within_runPendingStagedServices hm
  have hactivations : Only (Op.within S) runFrameworkActivations := within_runFrameworkActivations h.blocks
  cases j with
  | hotplugWorker _ => exact hj.elim
  | readModules => exact Prog.only_bind (within_loadModules h true) fun _ => trivial
  | systemServerStarted =>
    exact Prog.only_bind (within_handleHotplugRestartGuard h.blocks h.toGuards) fun _ =>
      Prog.only_bind hpending fun _ => hactivations
  | applyHotplug name => exact Prog.only_bind (within_applyHotplug (h.applies name)) fun _ => trivial
  | startup =>
    exact Prog.only_bind (within_resolveStaleRestartGuard h.blocks h.toGuards) fun _ =>
      Prog.only_bind (within_sweepStaleFrameworkMarkers hm) fun _ =>
        within_inert inert_refreshControllerInfo
  | activateStagedModule name dir => exact within_activateStagedModule (h.applies name).toSwaps dir
  | runPendingStagedServices => exact hpending
  | restartFrameworkOnce name =>
    exact Prog.only_bind (within_restartFrameworkOnce (hm name)) fun _ => trivial
  | runFrameworkActivations => exact hactivations
  | activation name dir => exact within_activationThread (hm name) dir
  | frameworkActivation name dir => exact within_frameworkActivationThread (hm name) dir
  | pendingService name dir =>
    exact Prog.only_bind (within_startService (hm name) dir) fun _ =>
      Prog.only_bind (within_fsWrite ((hm name).write _ (by decide)) _) fun _ => within_finishActivation (hm name)
  | frameworkDaemon name dir =>
    exact Prog.only_bind (within_startFrameworkDaemon (hm name) _ _) fun _ =>
      Prog.only_bind (within_writeActivationMarker (hm name) (by decide)) fun _ =>
        Prog.only_bind (within_fsWrite ((hm name).write _ (by decide)) _) fun _ =>
          Prog.only_bind (only_perform ((hm name).remove _ (by decide))) fun _ =>
            Prog.only_bind (only_perform ((hm name).remove _ (by decide))) fun _ =>
              within_inert inert_refreshControllerInfo
  | confirmStability name bootId pid =>
    refine Prog.only_bind (within_asks (asks_readToString _)) fun _ => Prog.only_ite ?_ trivial
    refine Prog.only_bind (only_perform trivial) fun _ => only_onlyIf ?_
    exact Prog.only_bind (only_perform h.remove) fun _ => within_removeFile ((hm name).remove _ (by decide))

end Within

/-! ### What stays -/

/-- Nothing in the scope reaches the path, by its own name or by the name of a directory above it. -/
structure Scope.Spares (S : Scope) (q : FilePath) : Prop where
  dirs : ¬ q <+: activationMarkers
  write : ∀ p, S.writes p → q ≠ p
  remove : ∀ p, S.removes p → ¬ p <+: q
  clear : ∀ p, S.clears p → p ≠ [] ∧ ¬ p <+: q
  move : ∀ src dst, S.moves src dst → ¬ src <+: q ∧ ¬ dst <+: q

theorem get_within {S : Scope} {e : Env} {op : Op} {w w' : World} {r : Resp op} {q : FilePath}
    (hop : op.within S) (hx : exec e op w = some (r, w')) (hq : S.Spares q) :
    w'.fs.get q = w.fs.get q := by
  cases op with
  | createDirAll p =>
    rcases exec_createDirAll hx with ⟨rfl, -⟩ | ⟨rfl, -, -⟩
    · apply FileTree.get_mkdirAll
      intro hpre
      rcases hop with rfl | rfl
      · exact hq.dirs (hpre.trans (List.prefix_append _ _))
      · exact hq.dirs hpre
    · rfl
  | createNew p =>
    rcases exec_createNew hx with ⟨-, fs, hfs, rfl⟩ | ⟨-, rfl⟩
    · exact (FileTree.get_create hfs q).trans (if_neg (hq.write p hop))
    · rfl
  | openKeep p =>
    rcases exec_openKeep hx with ⟨-, fs, hfs, rfl⟩ | ⟨-, rfl, -⟩
    · exact FileTree.get_openKeep hfs (hq.write p hop)
    · rfl
  | openTrunc p =>
    rcases exec_openTrunc hx with ⟨ino, fs, -, hfs, rfl⟩ | ⟨-, rfl, -⟩
    · exact FileTree.get_openTrunc hfs (hq.write p hop)
    · rfl
  | writeData p ino data =>
    rcases exec_writeData hx with ⟨-, rfl⟩ | ⟨-, rfl, -⟩
    · exact FileTree.get_writeData _ (hq.write p hop) ino data
    · rfl
  | removeFile p =>
    rcases exec_removeFile hx with ⟨-, fs, hfs, rfl⟩ | ⟨-, rfl, -⟩
    · exact (FileTree.get_removeFile hfs q).trans (if_neg (hq.remove p hop))
    · rfl
  | removeDirAll p =>
    obtain ⟨hne, hnot⟩ := hq.clear p hop
    rcases exec_removeDirAll hx with ⟨-, fs, hfs, rfl⟩ | ⟨-, ⟨fs, rfl, hfs, -⟩, -⟩
    · exact (FileTree.get_removeDirAll hne hfs q).trans (if_neg hnot)
    · exact hfs q hnot
  | rename src dst =>
    obtain ⟨hsrc, hdst⟩ := hq.move src dst hop
    rcases exec_rename hx with ⟨-, fs, hfs, rfl⟩ | ⟨-, rfl, -⟩
    · exact FileTree.get_rename_apart hfs hsrc hdst
    · rfl
  | flock use =>
    rcases exec_flock hx with ⟨-, -, rfl⟩ | ⟨-, rfl, -⟩ <;> rfl
  | unlock => rw [exec_unlock hx]
  | onLoad _ _ => exact hop.elim
  | runModuleScript _ _ | startDaemon _ _ | kill _ _ _ | spawn _ =>
    simp only [exec, Option.some.injEq, Prod.mk.injEq] at hx
    rw [← hx.2]
    rfl
  | _ => rw [exec_inert (by trivial) hx]

/-- The scope without its removals of single files. -/
def Scope.keeping (S : Scope) : Scope := { S with removes := fun _ => False }

/-- What else a scope spares stays as it is or is removed. -/
theorem get_keeping {S : Scope} {e : Env} {op : Op} {w w' : World} {r : Resp op} {q : FilePath}
    (hop : op.within S) (hx : exec e op w = some (r, w')) (hq : S.keeping.Spares q) :
    w'.fs.get q = w.fs.get q ∨ w'.fs.get q = none := by
  by_cases hremove : ∃ p, op = .removeFile p
  · obtain ⟨p, rfl⟩ := hremove
    rcases exec_removeFile hx with ⟨-, fs, hfs, rfl⟩ | ⟨-, rfl, -⟩
    · dsimp only
      rw [FileTree.get_removeFile hfs]
      split_ifs
      · exact .inr rfl
      · exact .inl rfl
    · exact .inl rfl
  · have hkeep : op.within S.keeping := by
      cases op <;> first | exact hop | exact absurd ⟨_, rfl⟩ hremove
    exact .inl (get_within hkeep hx hq)

end OnyxZygisk.Daemon

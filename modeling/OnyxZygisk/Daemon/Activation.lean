import OnyxZygisk.Daemon.Framework
import OnyxZygisk.Daemon.Swap

/-!
# Activations

What follows a swap: the threads that run a module's scripts, the deferred services, the live-load
signal to system_server, the WebUI's `apply_hotplug`, and the restart guard.
-/

namespace OnyxZygisk.Daemon

open Prog (forEach)

/-! ### The live-load signal -/

def hotplugSignal : Nat := 40

/-- `live_signaled` names the system_server already. -/
def alreadySignaled (name : String) (force : Bool) (pid : Int32) : Program Bool := do
  if force then pure false
  else
    let recorded ← readToString (activationMarker name "live_signaled")
    pure (recorded = some (Text.printI32 pid))

def signalSystemServerHotplug (name : String) (force : Bool) : Program Bool := do
  if ← systemServerReady then
    withHotplugLock (.signal name) (fun _ => false) do
      match ← pidofSystemServer with
      | none => pure false
      | some pid =>
        if ← alreadySignaled name force pid then pure true
        else
          let caught ← perform (.caughtSignals pid)
          if caught.toNat.testBit (hotplugSignal - 1) then
            if ← perform (.kill pid hotplugSignal name) then
              let _ ← fsWrite (activationMarker name "live_signaled") (Text.printI32 pid)
              pure true
            else pure false
          else pure false
  else pure false

/-! ### The threads of an activation -/

/-- `service.sh` and the daemon, with the system server up. -/
def startService (name : String) (dir : FilePath) : Program Unit := do
  runIfFile dir "service.sh"
  ensureModuleDaemonStarted name dir

/-- The activation is complete: serve and signal the module. -/
def finishActivation (name : String) : Program Unit := do
  let _ ← fsWrite (activationMarker name "state") "1"
  let _ ← perform (.removeFile (activationMarker name "applying"))
  refreshControllerInfo
  let _ ← signalSystemServerHotplug name false

def activationThread (name : String) (dir : FilePath) : Program Unit := do
  runIfFile dir "post-fs-data.sh"
  writeActivationMarker name "post_fs_data"
  if ← systemServerReady then
    startService name dir
    writeActivationMarker name "service"
    finishActivation name
  else
    let _ ← perform (.removeFile (activationMarker name "applying"))

def frameworkActivationThread (name : String) (dir : FilePath) : Program Unit := do
  runIfFile dir "post-fs-data.sh"
  writeActivationMarker name "post_fs_data"
  let _ ← fsWrite (activationMarker name "state") "1"
  let _ ← perform (.removeFile (activationMarker name "applying"))
  refreshControllerInfo
  let _ ← restartFrameworkOnce name

def pendingServiceThread (name : String) (dir : FilePath) : Program Unit := do
  startService name dir
  let _ ← fsWrite (activationMarker name "service") "1"
  finishActivation name

def activateStagedModule (name : String) (moduleDir : FilePath) : Program Unit := do
  match ← swapStagedModule name moduleDir with
  | .error _ => pure ()
  | .ok dir =>
    if ← isFrameworkModule dir then perform (.spawn (.frameworkActivation name dir))
    else perform (.spawn (.activation name dir))

/-! ### Deferred services -/

def hasDeferredSo (dir : FilePath) : Program Bool := do
  if ← pathExists (librarySo dir "arm64-v8a") then pure true
  else pathExists (librarySo dir "armeabi-v7a")

/-- One turn of the loop in `run_pending_staged_services`. -/
def runPendingStagedService (name : String) : Program Unit := do
  if ← pathExists (activationMarker name "service") then pure ()
  else if ← isFrameworkModule (activeDir name) then pure ()
  else if ← hasDeferredSo (activeDir name) then
    if ← perform (.createNew (activationMarker name "applying")) then
      perform (.spawn (.pendingService name (activeDir name)))
    else pure ()
  else pure ()

def runPendingStagedServices : Program Unit := do
  if ← systemServerReady then
    match ← readDir activationMarkers with
    | none => pure ()
    | some entries =>
      forEach (entries.filterMap (Text.stripSuffix ".post_fs_data")) runPendingStagedService
  else pure ()

def loadModules (activate : Bool) : Program (Except String (List Module)) :=
  loadModulesWith (do runPendingStagedServices; runFrameworkActivations) activateStagedModule
    activate

/-! ### The WebUI's request -/

def clearPendingUpdateMarker (moduleDir : FilePath) : Program Unit := do
  if ← pathExists (moduleDir ++ ["update"]) then
    let _ ← perform (.removeFile (moduleDir ++ ["update"]))
  else pure ()

/-- A disabled module is enabled again by an explicit request; whether that worked. -/
def reenable (name : String) : Program Bool := do
  if ← pathExists (activeDir name ++ ["disable"]) then
    if ← perform (.removeFile (activeDir name ++ ["disable"])) then
      let _ ← perform (.removeFile (activationMarker name "crash_blocked"))
      pure true
    else pure false
  else pure true

/-- The swap, if the staged copy is complete; whether there was one. -/
def swapIfReady (name : String) : Program (Except String Bool) := do
  if ← stagedUpdateReady name then
    match ← swapStagedModule name (stagedDir name) with
    | .error e => pure (.error e)
    | .ok _ => pure (.ok true)
  else pure (.ok false)

def applyFramework (name : String) (swapped : Bool) : Program (Except String Unit) := do
  let dir := activeDir name
  runIfFile dir "post-fs-data.sh"
  writeActivationMarker name "post_fs_data"
  let _ ← perform (.removeFile (activationMarker name "applying"))
  if ← fsWrite (activationMarker name "state") "1" then
    startFrameworkDaemon name dir swapped
    writeActivationMarker name "service"
    refreshControllerInfo
    let restarted ← restartFrameworkOnce name
    onlyIf (swapped && restarted.isOk) (clearPendingUpdateMarker dir)
    pure restarted
  else pure (.error ("failed to write " ++ display (activationMarker name "state")))

/-- The scripts of a module that was swapped in by this request. -/
def applySwapped (name : String) : Program (Except String Unit) := do
  let dir := activeDir name
  runIfFile dir "post-fs-data.sh"
  writeActivationMarker name "post_fs_data"
  if ← systemServerReady then
    startService name dir
    writeActivationMarker name "service"
    let _ ← perform (.removeFile (activationMarker name "applying"))
    pure (.ok ())
  else
    let _ ← perform (.removeFile (activationMarker name "applying"))
    pure (.error "system_server is not ready; service activation was deferred")

/-- Record the preference and ask the live loader for the module. -/
def applyPreference (name : String) (enabled swapped : Bool) : Program (Except String Unit) := do
  if ← fsWrite (activationMarker name "state") (if enabled then "1" else "0") then
    onlyIf (!enabled) do
      let _ ← perform (.removeFile (activationMarker name "framework"))
    refreshControllerInfo
    let signaled ← (if enabled then signalSystemServerHotplug name true else pure true)
    if signaled then
      onlyIf swapped (clearPendingUpdateMarker (activeDir name))
      pure (.ok ())
    else
      pure (.error
        "module list updated for new apps; system_server live loading is unavailable")
  else pure (.error ("failed to write " ++ display (activationMarker name "state")))

def applyEnabled (name : String) : Program (Except String Unit) := do
  if ← hotplugMasterEnabled then
    if ← pathExists (activeDir name ++ ["remove"]) then
      pure (.error ("module " ++ name ++ " is pending removal"))
    else if ← reenable name then
      match ← swapIfReady name with
      | .error e => pure (.error e)
      | .ok swapped =>
        if ← isDir (activeDir name) then
          if ← isFrameworkModule (activeDir name) then applyFramework name swapped
          else
            let ran ← (if swapped then applySwapped name else pure (.ok ()))
            match ran with
            | .error e => pure (.error e)
            | .ok () => applyPreference name true swapped
        else pure (.error ("module " ++ name ++ " is not installed in the active directory"))
    else pure (.error ("failed to re-enable module " ++ name))
  else pure (.error "hot-plug master switch is disabled")

def applyHotplug (name : String) : Program (Except String Unit) := do
  if validModuleId name then
    if ← hotplugOptedIn name then applyEnabled name
    else applyPreference name false false
  else pure (.error ("invalid hot-plug module id: " ++ name))

/-! ### The restart guard -/

/-- What both breakers do to a module that broke the boot. -/
def crashBlock (name : String) : Program Unit := do
  let _ ← perform (.removeFile (hotplugOptIn name))
  let _ ← fsWrite (activationMarker name "state") "0"
  let _ ← fsWrite (activationMarker name "crash_blocked") "1"
  let _ ← perform (.removeFile hotplugRestartGuard)

def resolveGuard (content bootId : String) : Program Unit := do
  let parts := Text.split ':' (Text.trim content)
  let stage := parts.getD 0 ""
  let name := parts.getD 1 ""
  let recordedBoot := Text.trim (parts.getD 2 "")
  if !validModuleId name then
    let _ ← perform (.removeFile hotplugRestartGuard)
  else if (Text.parseI32 recordedBoot).isSome || recordedBoot = "" then
    let _ ← perform (.removeFile hotplugRestartGuard)
    let _ ← perform (.removeFile (activationMarker name "restarted"))
  else if stage = "rebooting" then
    if recordedBoot = bootId then pure ()
    else
      let _ ← perform (.removeFile (activationMarker name "restarted"))
      let _ ← fsWrite hotplugRestartGuard ("confirming:" ++ name ++ ":" ++ bootId)
  else if stage = "confirming" || stage = "observing" then
    if recordedBoot = bootId then pure () else crashBlock name
  else
    let _ ← perform (.removeFile hotplugRestartGuard)

def resolveStaleRestartGuard : Program Unit := do
  match ← readToString hotplugRestartGuard with
  | none => pure ()
  | some content =>
    match ← currentBootId with
    | none => pure ()
    | some bootId => resolveGuard content bootId

def observing (name bootId : String) (pid : Int32) : String :=
  "observing:" ++ name ++ ":" ++ bootId ++ ":" ++ Text.printI32 pid

def handleGuard (stage name recordedBoot : String) (recordedPid : Option Int32) (bootId : String)
    (currentPid : Int32) : Program Unit := do
  if stage = "rebooting" && recordedBoot = bootId then pure ()
  else if stage ≠ "rebooting" && (stage ≠ "confirming" || recordedBoot ≠ bootId) then
    if stage ≠ "observing" || recordedBoot ≠ bootId || recordedPid = some currentPid then pure ()
    else
      crashBlock name
      refreshControllerInfo
  else if ← fsWrite hotplugRestartGuard (observing name bootId currentPid) then
    perform (.spawn (.confirmStability name bootId currentPid))
  else pure ()

def handleHotplugRestartGuard : Program Unit := do
  match ← readToString hotplugRestartGuard with
  | none => pure ()
  | some contents =>
    match Text.split ':' (Text.trim contents) with
    | stage :: name :: recordedBoot :: rest =>
      match ← currentBootId with
      | none => pure ()
      | some bootId =>
        if !validModuleId name then
          let _ ← perform (.removeFile hotplugRestartGuard)
        else
          match ← pidofSystemServer with
          | none => pure ()
          | some currentPid =>
            handleGuard stage name recordedBoot (rest.head?.bind Text.parseI32) bootId currentPid
    | _ => pure ()

/-- The thread that clears the guard once system_server stayed up. -/
def confirmStability (name bootId : String) (pid : Int32) : Program Unit := do
  let value ← readToString hotplugRestartGuard
  if value.map Text.trim = some (observing name bootId pid) then
    let current ← pidofSystemServer
    onlyIf (current = some pid) do
      let _ ← perform (.removeFile hotplugRestartGuard)
      let _ ← perform (.removeFile (activationMarker name "restarted"))
  else pure ()

end OnyxZygisk.Daemon

import OnyxZygisk.Daemon.Load

/-!
# Framework modules

A module whose daemon owns a binder bridge inside system_server. Its activation restarts the framework,
and the marker `<name>.framework` counts the restarts and the daemon starts of the kernel boot it
names.
-/

namespace OnyxZygisk.Daemon

open Prog (forEach firstSome)

def frameworkDaemonNames : List String := ["vectord", "lspd"]

def maxFrameworkRestarts : UInt32 := 1

def maxFrameworkDaemonStarts : UInt32 := 2

/-! ### Recognising them -/

/-- The value of the first `--nice-name=` of a wrapper script. -/
def parseDaemonNiceName (script : String) : Option String :=
  match Text.after "--nice-name=".toList script.toList with
  | none => none
  | some rest =>
    let name := Text.trim (String.ofList (rest.takeWhile fun c =>
      !(Text.isWhitespace c || c == '"' || c == '\'' || c == '\\')))
    if name = "" then none else some name

def frameworkDaemonName (moduleDir : FilePath) : Program (Option String) := do
  let bin ← readDir (moduleDir ++ ["bin"])
  let wrappers := (moduleDir ++ ["daemon"]) ::
    (bin.getD []).map fun entry => moduleDir ++ ["bin", entry]
  let named ← firstSome wrappers fun wrapper => do
    let text ← readToString wrapper
    pure ((text.bind parseDaemonNiceName).filter (frameworkDaemonNames.contains ·))
  match named with
  | some name => pure (some name)
  | none =>
    match ← readToString (moduleDir ++ ["service.sh"]) with
    | none => pure none
    | some service =>
      if Text.contains "app_process" service then
        pure (frameworkDaemonNames.find? (Text.contains · service))
      else pure none

def isFrameworkModule (moduleDir : FilePath) : Program Bool := do
  let name ← frameworkDaemonName moduleDir
  pure name.isSome

/-! ### The transaction marker -/

structure FrameworkState where
  bootId : String
  pid : Int32
  restarts : UInt32
  heals : UInt32
  deriving DecidableEq, Repr

/-- `boot_id:pid:restarts:heals`; the counters default to 0. -/
def FrameworkState.parse (text : String) : Option FrameworkState :=
  match Text.split ':' (Text.trim text) with
  | bootId :: pid :: rest =>
    match Text.parseI32 pid with
    | none => none
    | some pid =>
      let restarts := (Text.parseU32 (rest.getD 0 "0")).getD 0
      let heals := (Text.parseU32 (rest.getD 1 "0")).getD 0
      if bootId = "" then none else some ⟨bootId, pid, restarts, heals⟩
  | _ => none

def FrameworkState.print (s : FrameworkState) : String :=
  s.bootId ++ ":" ++ Text.printI32 s.pid ++ ":" ++ Text.printU32 s.restarts ++ ":" ++
    Text.printU32 s.heals

/-- What stands in a marker for a boot id that the daemon read. -/
theorem bootIdOf_spec {raw : Option String} {b : String} (h : bootIdOf raw = some b) :
    b ≠ "" ∧ ':' ∉ b.toList ∧ ∀ c ∈ b.toList.head?, Text.isWhitespace c = false := by
  rw [bootIdOf, Option.filter_eq_some_iff] at h
  obtain ⟨hb, hvalid⟩ := h
  obtain ⟨v, -, rfl⟩ := Option.map_eq_some_iff.1 hb
  have hne : Text.trim v ≠ "" ∧ ':' ∉ (Text.trim v).toList := by simpa using hvalid
  exact ⟨hne.1, hne.2, Text.head_trim v⟩

theorem whitespace_of_digit {c : Char} (h : c.isDigit = true) : Text.isWhitespace c = false := by
  have hrange : 48 ≤ c.toNat ∧ c.toNat ≤ 57 := by
    simp only [Char.isDigit, Bool.and_eq_true, decide_eq_true_eq] at h
    exact ⟨UInt32.le_iff_toNat_le.1 h.1, UInt32.le_iff_toNat_le.1 h.2⟩
  rw [Bool.eq_false_iff]
  intro hspace
  simp only [Text.isWhitespace, Bool.or_eq_true, Bool.and_eq_true, decide_eq_true_eq,
    beq_iff_eq] at hspace
  omega

theorem colon_not_printU32 (n : UInt32) : ':' ∉ (Text.printU32 n).toList := by
  intro h
  exact absurd (Text.mem_printU32 h) (by decide)

theorem colon_not_printI32 (z : Int32) : ':' ∉ (Text.printI32 z).toList := by
  intro h
  rcases Text.mem_printI32 h with h | h
  · exact absurd h (by decide)
  · exact absurd h (by decide)

/-- A marker that is written is read back. -/
theorem FrameworkState.parse_print {s : FrameworkState} {raw : Option String}
    (h : bootIdOf raw = some s.bootId) : parse s.print = some s := by
  obtain ⟨hne, hcolon, hhead⟩ := bootIdOf_spec h
  have htrim : Text.trim s.print = s.print := by
    apply Text.trim_eq_self
    · intro c hc
      cases hb : s.bootId.toList with
      | nil => exact absurd (String.toList_injective (by simpa using hb)) hne
      | cons d ds =>
        have hd : s.print.toList.head? = some d := by
          simp [print, hb]
        rw [hd] at hc
        obtain rfl := Option.mem_some_iff.1 hc
        exact hhead d (by simp [hb])
    · intro c hc
      have hlast : s.print.toList.getLast? = (Text.printU32 s.heals).toList.getLast? := by
        rw [print, String.toList_append, List.getLast?_append]
        cases hl : (Text.printU32 s.heals).toList.getLast? with
        | none => exact absurd (List.getLast?_eq_none_iff.1 hl) (Text.printU32_ne_nil _)
        | some c => rfl
      rw [hlast] at hc
      exact whitespace_of_digit (Text.mem_printU32 (List.mem_of_getLast? hc))
  have hprint : s.print = s.bootId ++ String.singleton ':' ++ (Text.printI32 s.pid ++
      String.singleton ':' ++ (Text.printU32 s.restarts ++ String.singleton ':' ++
        Text.printU32 s.heals)) := by
    rw [print, show (":" : String) = String.singleton ':' from rfl]
    simp only [String.append_assoc]
  have hsplit : Text.split ':' s.print = [s.bootId, Text.printI32 s.pid, Text.printU32 s.restarts,
      Text.printU32 s.heals] := by
    rw [hprint, Text.split_cons _ hcolon, Text.split_cons _ (colon_not_printI32 _),
      Text.split_cons _ (colon_not_printU32 _), Text.split_single (colon_not_printU32 _)]
  simp only [parse, htrim, hsplit, Text.parseI32_printI32, List.getD_cons_zero, List.getD_cons_succ,
    Text.parseU32_printU32, Option.getD_some, if_neg hne]

def frameworkState (name : String) : Program (Option FrameworkState) := do
  let text ← readToString (activationMarker name "framework")
  pure (text.bind FrameworkState.parse)

def writeFrameworkState (name : String) (state : FrameworkState) : Program Unit := do
  let _ ← fsWrite (activationMarker name "framework") state.print

def unplugUnstableFrameworkModule (name : String) : Program Unit := do
  let _ ← perform (.removeFile (hotplugOptIn name))
  let _ ← fsWrite (activationMarker name "state") "0"
  let _ ← fsWrite (activationMarker name "crash_blocked") "1"
  let _ ← perform (.removeFile (activationMarker name "framework"))
  let _ ← perform (.removeFile (activationMarker name "restarted"))
  refreshControllerInfo

/-! ### Daemons -/

def moduleDaemonRunning (moduleDir : FilePath) (niceName : Option String) : Program Bool := do
  let pids ← perform (.moduleDaemonPids moduleDir niceName)
  pure !pids.isEmpty

/-- `run_module_script` where the script exists. -/
def runIfFile (moduleDir : FilePath) (script : String) : Program Unit := do
  if ← isFile (moduleDir ++ [script]) then
    perform (.runModuleScript moduleDir (moduleDir ++ [script]))

def ensureModuleDaemonStarted (name : String) (moduleDir : FilePath) : Program Unit := do
  let daemon := moduleDir ++ ["daemon"]
  if ← isFile daemon then
    let text ← readToString daemon
    let script := text.getD ""
    let niceName := parseDaemonNiceName script
    if ← moduleDaemonRunning moduleDir niceName then pure ()
    else
      let _ ← perform (.openKeep (activationMarker name "daemon.log"))
      -- the daemon's own restart budget is capped for framework modules
      let args := if Text.contains "system-server-max-retry" script ||
          niceName.any (frameworkDaemonNames.contains ·) then ["--system-server-max-retry=1"] else []
      let _ ← perform (.startDaemon moduleDir args)

/-- Start the daemon and wait for it; a second, direct attempt when it does not appear. -/
def startDaemonAndWait (name : String) (moduleDir : FilePath) (niceName : Option String) :
    Program Unit := do
  runIfFile moduleDir "service.sh"
  if ← perform (.waitForDaemon moduleDir niceName) then pure ()
  else
    ensureModuleDaemonStarted name moduleDir
    let _ ← perform (.waitForDaemon moduleDir niceName)

def startFrameworkDaemon (name : String) (moduleDir : FilePath) (swapped : Bool) : Program Unit := do
  let niceName ← frameworkDaemonName moduleDir
  let running ← perform (.moduleDaemonPids moduleDir niceName)
  if !running.isEmpty && !swapped then pure ()
  else
    onlyIf (!running.isEmpty) (perform (.stopModuleDaemon moduleDir niceName))
    startDaemonAndWait name moduleDir niceName

/-! ### Restarting the framework -/

def sigKill : Nat := 9

/-- Active on the framework that is up, or the one restart of this boot is requested already. -/
def restartDone (name bootId : String) : Program Bool := do
  let recorded ← frameworkState name
  match recorded.filter fun s => s.bootId = bootId with
  | none => pure false
  | some s =>
    let current ← pidofSystemServer
    pure (current = some s.pid || s.restarts ≥ maxFrameworkRestarts)

def restartFrameworkOnce (name : String) : Program (Except String Unit) :=
  withHotplugLock (.restart name) (fun _ => .error "failed to lock the framework restart") do
    match ← currentBootId with
    | none =>
      pure (.error "kernel boot id is unavailable; refusing an unguarded framework restart")
    | some bootId =>
      if ← restartDone name bootId then pure (.ok ())
      else
        match ← pidofSystemServer with
        | none => pure (.error "system_server pid not found; cannot restart the framework")
        | some pid =>
          let again ← frameworkState name
          let counted := again.filter fun s => s.bootId = bootId
          let restarts := (counted.map FrameworkState.restarts).getD 0 + 1
          writeFrameworkState name ⟨bootId, pid, restarts, 0⟩
          let _ ← perform (.kill pid sigKill name)
          pure (.ok ())

/-- One turn of the loop in `run_framework_activations`. -/
def runFrameworkActivation (bootId : Option String) (currentPid : Int32) (name : String) :
    Program Unit := do
  let marker := activationMarker name "framework"
  match ← frameworkState name with
  | none =>
    let _ ← perform (.removeFile marker)
  | some s =>
    if bootId ≠ some s.bootId then
      let _ ← perform (.removeFile marker)
    else if s.pid = currentPid then pure ()
    else
      let moduleDir := activeDir name
      if ← isDir moduleDir then
        let niceName ← frameworkDaemonName moduleDir
        let running ← (if s.pid = 0 then pure false else moduleDaemonRunning moduleDir niceName)
        if running then
          writeFrameworkState name { s with pid := currentPid }
        else
          let heals := s.heals + 1
          if heals > maxFrameworkDaemonStarts then unplugUnstableFrameworkModule name
          else if ← perform (.createNew (activationMarker name "applying")) then
            writeFrameworkState name { s with pid := currentPid, heals := heals }
            perform (.spawn (.frameworkDaemon name moduleDir))
          else pure ()
      else
        let _ ← perform (.removeFile marker)

def runFrameworkActivations : Program Unit := do
  if ← systemServerReady then
    match ← readDir activationMarkers with
    | none => pure ()
    | some entries =>
      let pending := entries.filterMap (Text.stripSuffix ".framework")
      if pending.isEmpty then pure ()
      else
        match ← pidofSystemServer with
        | none => pure ()
        | some currentPid =>
          let bootId ← currentBootId
          forEach pending (runFrameworkActivation bootId currentPid)

/-- The thread `run_framework_activations` starts a daemon in. -/
def frameworkDaemonThread (name : String) (dir : FilePath) : Program Unit := do
  startFrameworkDaemon name dir false
  writeActivationMarker name "service"
  let _ ← fsWrite (activationMarker name "state") "1"
  let _ ← perform (.removeFile (activationMarker name "applying"))
  let _ ← perform (.removeFile (activationMarker name "crash_blocked"))
  refreshControllerInfo

def sweepStaleFrameworkMarkers : Program Unit := do
  match ← currentBootId with
  | none => pure ()
  | some bootId =>
    let entries ← readDir activationMarkers
    forEach ((entries.getD []).filterMap (Text.stripSuffix ".framework")) fun name => do
      let recorded ← frameworkState name
      if recorded.map FrameworkState.bootId = some bootId then pure ()
      else
        let _ ← perform (.removeFile (activationMarker name "framework"))
        let _ ← perform (.removeFile (activationMarker name "restarted"))

end OnyxZygisk.Daemon

import OnyxZygisk.Daemon.Calls

/-!
# The flags and markers of the hot-plug switch

What the user and the root solution leave on disk (opt-ins, the master switch, staged copies), the
lock that serializes transactions across processes, and the activation markers
`WORKDIR/hotplug_activated/<name>.<suffix>` in which the daemon records how far an activation came.
-/

namespace OnyxZygisk.Daemon

open Prog (forEach)

def stagedUpdateReady (name : String) : Program Bool := do
  let dir := stagedDir name
  if ← pathExists (dir ++ ["module.prop"]) then
    if ← pathExists (librarySo dir "arm64-v8a") then pure true
    else if ← pathExists (librarySo dir "armeabi-v7a") then pure true
    else if ← pathExists (librarySo dir "x86_64") then pure true
    else pathExists (librarySo dir "x86")
  else pure false

def hotplugOptedIn (name : String) : Program Bool := pathExists (hotplugOptIn name)

def hotplugMasterEnabled : Program Bool := do
  let off ← pathExists hotplugOff
  pure !off

def validModuleId (name : String) : Bool :=
  name != "" && name != "." && name != ".." &&
    name.toList.all fun c => c.isAlphanum || c == '.' || c == '_' || c == '-'

/-! ### The lock -/

def acquireHotplugLock (use : LockUse) : Program (Except String Unit) := do
  if ← perform (.createDirAll tmpPath) then
    if ← perform (.openKeep hotplugLock) then
      if ← perform (.flock use) then pure (.ok ())
      else pure (.error "failed to lock hot-plug transaction")
    else pure (.error ("failed to open " ++ display hotplugLock))
  else pure (.error ("failed to create " ++ display tmpPath))

/-- `body` under `HotplugFileLock`, which every way out of it drops. -/
def withHotplugLock {α : Type} (use : LockUse) (onError : String → α) (body : Program α) :
    Program α := do
  match ← acquireHotplugLock use with
  | .error e => pure (onError e)
  | .ok () =>
    let a ← body
    perform .unlock
    pure a

/-! ### Activation markers -/

def writeActivationMarker (name suffix : String) : Program Unit := do
  let _ ← perform (.createDirAll activationMarkers)
  let _ ← fsWrite (activationMarker name suffix) "1"

/-- The suffixes in the order they are cleared. -/
def markerSuffixes : List String :=
  ["post_fs_data", "service", "restarted", "live_signaled", "applying", "state", "framework"]

def clearActivationMarkers (name : String) : Program Unit :=
  forEach markerSuffixes fun suffix => do
    let _ ← perform (.removeFile (activationMarker name suffix))

/-! ### Paths that differ -/

/-- The marker's file name determines the module and the suffix, which has no dot. -/
theorem activationMarker_inj {m n s t : String} (hs : '.' ∉ s.toList) (ht : '.' ∉ t.toList) :
    activationMarker m s = activationMarker n t ↔ m = n ∧ s = t := by
  constructor
  · intro h
    have hstr : m ++ "." ++ s = n ++ "." ++ t := by
      simpa [activationMarker] using h
    have hl : m.toList ++ '.' :: s.toList = n.toList ++ '.' :: t.toList := by
      simpa [String.toList_append] using congrArg String.toList hstr
    obtain ⟨h₁, h₂⟩ := Text.append_dot_inj hs ht hl
    exact ⟨String.toList_injective h₁, String.toList_injective h₂⟩
  · rintro ⟨rfl, rfl⟩
    rfl

theorem markerSuffixes_dotless : ∀ s ∈ markerSuffixes, '.' ∉ s.toList := by decide

/-! ### What the scans find on a disk -/

theorem asks_stagedUpdateReady (name : String) : Asks (stagedUpdateReady name) := by
  refine Prog.only_bind (asks_pathExists _) fun _ => Prog.only_ite ?_ trivial
  refine Prog.only_bind (asks_pathExists _) fun _ => Prog.only_ite trivial ?_
  refine Prog.only_bind (asks_pathExists _) fun _ => Prog.only_ite trivial ?_
  exact Prog.only_bind (asks_pathExists _) fun _ => Prog.only_ite trivial (asks_pathExists _)

theorem asks_hotplugOptedIn (name : String) : Asks (hotplugOptedIn name) := asks_pathExists _

theorem asks_hotplugMasterEnabled : Asks hotplugMasterEnabled :=
  Prog.only_bind (asks_pathExists _) fun _ => trivial

variable (fs : FileTree)

def masterOn : Bool := !fs.present hotplugOff

def optedIn (name : String) : Bool := fs.present (hotplugOptIn name)

/-- `zygisk/<arch>.so` exists. -/
def carries (dir : FilePath) (arch : String) : Bool := fs.present (librarySo dir arch)

/-- `disable` or `remove` exists. -/
def flagged (dir : FilePath) : Bool := fs.present (dir ++ ["disable"]) || fs.present (dir ++ ["remove"])

def stagedReady (name : String) : Bool :=
  fs.present (stagedDir name ++ ["module.prop"]) &&
    (carries fs (stagedDir name) "arm64-v8a" || carries fs (stagedDir name) "armeabi-v7a" ||
      carries fs (stagedDir name) "x86_64" || carries fs (stagedDir name) "x86")

/-- Hot-plugged, and the switch is off again. -/
def unplugged (name : String) : Bool :=
  fs.present (activationMarker name "post_fs_data") && !optedIn fs name

@[simp] theorem askOf_stagedUpdateReady (name : String) :
    askOf fs (stagedUpdateReady name) = stagedReady fs name := by
  simp only [stagedUpdateReady, askOf_bind, askOf_ite, askOf_pathExists, askOf_pure, stagedReady,
    carries]
  cases fs.present (stagedDir name ++ ["module.prop"]) <;>
    cases fs.present (librarySo (stagedDir name) "arm64-v8a") <;>
    cases fs.present (librarySo (stagedDir name) "armeabi-v7a") <;>
    cases fs.present (librarySo (stagedDir name) "x86_64") <;> rfl

@[simp] theorem askOf_hotplugOptedIn (name : String) :
    askOf fs (hotplugOptedIn name) = optedIn fs name := askOf_pathExists fs _

@[simp] theorem askOf_hotplugMasterEnabled : askOf fs hotplugMasterEnabled = masterOn fs := by
  simp only [hotplugMasterEnabled, askOf_bind, askOf_pathExists, askOf_pure, masterOn]

end OnyxZygisk.Daemon

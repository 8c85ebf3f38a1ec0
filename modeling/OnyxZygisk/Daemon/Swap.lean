import OnyxZygisk.Daemon.Markers

/-!
# The swap of a staged module

`swap_staged_module` moves `modules_update/<name>` to `modules/<name>`: the active copy goes to a backup
first, comes back when the second rename fails, and is removed when it does not.
-/

namespace OnyxZygisk.Daemon

def removeStaleBackup (name : String) : Program Bool := do
  if ← pathExists (backupDir name) then perform (.removeDirAll (backupDir name))
  else pure true

/-- The staged copy of a disabled module starts disabled. -/
def inheritDisable (name : String) : Program Bool := do
  if ← pathExists (activeDir name ++ ["disable"]) then
    if ← pathExists (stagedDir name ++ ["disable"]) then pure true
    else fsWrite (stagedDir name ++ ["disable"]) ""
  else pure true

def preserveActive (name : String) : Program (Except String Unit) := do
  match ← perform (.look (activeDir name)) with
  | none => pure (.error ("failed to read " ++ display (activeDir name)))
  | some .dir =>
    if ← inheritDisable name then
      if ← perform (.rename (activeDir name) (backupDir name)) then pure (.ok ())
      else pure (.error ("failed to preserve active module " ++ display (activeDir name)))
    else pure (.error ("failed to write " ++ display (stagedDir name ++ ["disable"])))
  | some _ =>
    pure (.error ("active module path is not a real directory: " ++ display (activeDir name)))

def moveIn (name : String) (hadActive : Bool) : Program (Except String FilePath) := do
  if ← perform (.rename (stagedDir name) (activeDir name)) then
    onlyIf hadActive do
      let _ ← perform (.removeDirAll (backupDir name))
    clearActivationMarkers name
    writeActivationMarker name "applying"
    pure (.ok (activeDir name))
  else
    onlyIf hadActive do
      let _ ← perform (.rename (backupDir name) (activeDir name))
    pure (.error ("failed to move staged module into " ++ display (activeDir name)))

def swapDirs (name : String) : Program (Except String FilePath) := do
  if ← removeStaleBackup name then
    if ← pathExists (activeDir name) then
      match ← preserveActive name with
      | .error e => pure (.error e)
      | .ok () => moveIn name true
    else moveIn name false
  else pure (.error ("failed to remove stale hot-plug backup " ++ display (backupDir name)))

/-- The part of the swap that holds the lock. -/
def swapLocked (name : String) : Program (Except String FilePath) := do
  if ← stagedUpdateReady name then
    match ← perform (.look (stagedDir name)) with
    | none => pure (.error ("failed to read " ++ display (stagedDir name)))
    | some .dir => swapDirs name
    | some _ =>
      pure (.error ("staged module path is not a real directory: " ++ display (stagedDir name)))
  else pure (.error ("staged module " ++ name ++ " was already activated"))

def swapStagedModule (name : String) (moduleDir : FilePath) : Program (Except String FilePath) := do
  if !validModuleId name then pure (.error ("invalid hot-plug module id: " ++ name))
  else if moduleDir ≠ stagedDir name then
    pure (.error ("staged module " ++ name ++ " is missing or incomplete"))
  else if ← stagedUpdateReady name then
    withHotplugLock (.swap name) .error (swapLocked name)
  else pure (.error ("staged module " ++ name ++ " is missing or incomplete"))

end OnyxZygisk.Daemon

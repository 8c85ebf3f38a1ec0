import OnyxZygisk.Daemon.Eligible

/-!
# Loading module libraries

`load_modules` with what it does before and during the scan as parameters: the activating form of it
starts pending services and swaps staged copies in, and those in turn list the modules again with the
passive form.
-/

namespace OnyxZygisk.Daemon

open Prog (gather)

structure Module where
  name : String
  libFd : Memfd
  deriving DecidableEq, Repr

/-- The library a module is loaded from: the active copy's when it has one. -/
def resolveSo (name : String) (moduleDir : FilePath) (arch : String) : Program FilePath := do
  if ← pathExists (librarySo (activeDir name) arch) then pure (librarySo (activeDir name) arch)
  else pure (librarySo moduleDir arch)

/-- The swap of a staged entry, once the system server is ready. -/
def activateEntry (activateStaged : String → FilePath → Program Unit) (activate : Bool) (name : String)
    (moduleDir : FilePath) : Program Unit := do
  if activate then
    let ready ← systemServerReady
    onlyIf (ready && decide (pathModulesUpdateDir <+: moduleDir)) (activateStaged name moduleDir)
  else pure ()

/-- One turn of the loop in `load_modules`. -/
def loadModule (activateStaged : String → FilePath → Program Unit) (activate : Bool) (arch : String)
    (entry : String × FilePath) : Program (Option Module) := do
  activateEntry activateStaged activate entry.1 entry.2
  let soPath ← resolveSo entry.1 entry.2 arch
  let libFd ← perform (.libraryFd soPath)
  pure (libFd.map fun fd => ⟨entry.1, fd⟩)

def loadModulesWith (catchUp : Program Unit) (activateStaged : String → FilePath → Program Unit)
    (activate : Bool) : Program (Except String (List Module)) := do
  match ← getArch with
  | .error e => pure (.error e)
  | .ok arch =>
    onlyIf activate catchUp
    let eligible ← eligibleModules arch
    let modules ← gather eligible (loadModule activateStaged activate arch)
    pure (.ok modules)

/-- `load_modules(false)` -/
def listModules : Program (Except String (List Module)) :=
  loadModulesWith (pure ()) (fun _ _ => pure ()) false

def refreshControllerInfo : Program Unit := do
  match ← listModules with
  | .ok modules =>
    let _ ← perform (.sendStartupInfo (modules.map Module.name))
  | .error _ => pure ()

end OnyxZygisk.Daemon

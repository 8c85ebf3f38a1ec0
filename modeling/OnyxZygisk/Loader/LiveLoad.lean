import OnyxZygisk.Daemon.Activation

/-!
# The live loader

`hotplug_worker` runs in system_server. Each wakeup makes it ask the daemon for the modules once more
and load those its process has not loaded yet.
-/

namespace OnyxZygisk.Loader

open Daemon

/-- The loop over the reply; the names in `hotplug_loaded` afterwards. -/
def liveLoad (hotplugLoaded : List String) : List Module → Program (List String)
  | [] => pure hotplugLoaded
  | m :: ms => do
    if hotplugLoaded.contains m.name then liveLoad hotplugLoaded ms
    else if ← perform (.loadModuleFromMemfd m.libFd) then
      perform (.onLoad m.name m.libFd)
      -- a resident library is never initialized twice
      liveLoad (hotplugLoaded ++ [m.name]) ms
    else liveLoad hotplugLoaded ms

/-- One turn of the worker; the next wakeup starts it again. A request that fails reads as no modules. -/
def hotplugWorker (hotplugLoaded : List String) : Program Unit := do
  let reply ← loadModules true
  let loaded ← liveLoad hotplugLoaded (reply.toOption.getD [])
  perform (.spawn (.hotplugWorker loaded))

end OnyxZygisk.Loader

import OnyxZygisk.Loader.LiveLoad

/-!
# The jobs

`body` is the program each thread of the daemon, and the live loader's, is started with.
-/

namespace OnyxZygisk.Daemon

/-- The daemon's start, up to the point where it serves requests. -/
def startup : Program Unit := do
  resolveStaleRestartGuard
  sweepStaleFrameworkMarkers
  refreshControllerInfo

/-- The daemon's part of the one-shot `SystemServerStarted` event. -/
def systemServerStarted : Program Unit := do
  handleHotplugRestartGuard
  runPendingStagedServices
  runFrameworkActivations

def body : Job → Program Unit
  | .readModules => do let _ ← loadModules true
  | .systemServerStarted => systemServerStarted
  | .applyHotplug name => do let _ ← applyHotplug name
  | .startup => startup
  | .activateStagedModule name moduleDir => activateStagedModule name moduleDir
  | .runPendingStagedServices => runPendingStagedServices
  | .restartFrameworkOnce name => do let _ ← restartFrameworkOnce name
  | .runFrameworkActivations => runFrameworkActivations
  | .activation name dir => activationThread name dir
  | .frameworkActivation name dir => frameworkActivationThread name dir
  | .pendingService name dir => pendingServiceThread name dir
  | .frameworkDaemon name dir => frameworkDaemonThread name dir
  | .confirmStability name bootId pid => confirmStability name bootId pid
  | .hotplugWorker hotplugLoaded => Loader.hotplugWorker hotplugLoaded

/-- A thread of the daemon, and not of system_server. -/
def Job.ofDaemon : Job → Prop
  | .hotplugWorker _ => False
  | _ => True

/-- The job an operation starts a thread for. -/
def forks : Op → Option Job
  | .spawn job => some job
  | _ => none

end OnyxZygisk.Daemon

import Mathlib.Algebra.GroupWithZero.Nat
import Mathlib.Tactic.Common

/-!
# The init monitor

`ZygoteAbiManager` keeps the status of one ABI's zygote and daemon and decides whether a zygote that was
just executed gets an injector; `AppMonitor` owns it together with the tracing state. One step of the
monitor handles one event: a message on its socket, or a change of a traced process.
-/

namespace OnyxZygisk.Monitor

inductive TracingState where
  | tracing
  | stopping
  | stopped
  | exiting
  deriving DecidableEq, Repr

structure Status where
  supported : Bool
  zygoteInjected : Bool
  daemonRunning : Bool
  daemonPid : Int
  daemonInfo : String
  daemonErrorInfo : String
  deriving DecidableEq, Repr

/-- `struct timespec` -/
structure Timespec where
  tvSec : Int
  tvNsec : Int
  deriving DecidableEq, Repr

structure StartCounter where
  lastStartTime : Timespec
  count : Int
  deriving DecidableEq, Repr

def crashLoopRetryCount : Int := 5

def crashLoopWindowSeconds : Int := 30

/-- The counter after one more start at `now`. -/
def StartCounter.restart (c : StartCounter) (now : Timespec) : StartCounter :=
  if now.tvSec - c.lastStartTime.tvSec < crashLoopWindowSeconds then ⟨now, c.count + 1⟩ else ⟨now, 1⟩

/-! ### One ABI -/

structure ZygoteAbiManager where
  status : Status
  counter : StartCounter
  tracerPath : String
  deriving DecidableEq, Repr

namespace ZygoteAbiManager

variable (z : ZygoteAbiManager)

def notifyInjected : ZygoteAbiManager :=
  { z with
    status := { z.status with zygoteInjected := true }
    counter := ⟨⟨0, 0⟩, 0⟩ }

def setDaemonInfo (info : String) : ZygoteAbiManager :=
  { z with status := { z.status with daemonInfo := info } }

def setDaemonCrashed (error : String) : ZygoteAbiManager :=
  { z with status := { z.status with daemonRunning := false, daemonErrorInfo := error } }

/-- A start counts only after a generation that had been injected. -/
def isInCrashLoop (now : Timespec) : Bool × ZygoteAbiManager :=
  let counter := if z.status.zygoteInjected then z.counter.restart now else z.counter
  (decide (counter.count ≥ crashLoopRetryCount), { z with counter := counter })

/-- `fork` is what the call of that name returns. -/
def ensureDaemonCreated (fork : Int) : Bool × ZygoteAbiManager :=
  if z.status.daemonPid = -1 then
    if fork < 0 then (false, { z with status := { z.status with zygoteInjected := false } })
    else (true, { z with status := { z.status with
      zygoteInjected := false, supported := true, daemonPid := fork, daemonRunning := true } })
  else (z.status.daemonRunning, z)

/-- The tracer to inject with, or the reason for which a stop is requested. -/
def checkAndPrepareInjection (now : Timespec) (fork : Int) :
    Except String String × ZygoteAbiManager :=
  let (crashLoop, z₁) := z.isInCrashLoop now
  if crashLoop then (.error "zygote crashed", z₁)
  else
    let (created, z₂) := z₁.ensureDaemonCreated fork
    if created then (.ok z₂.tracerPath, z₂) else (.error "daemon not running", z₂)

/-- `statusStr` is the exit status in words. -/
def handleDaemonExitIfMatch (pid : Int) (statusStr : String) : ZygoteAbiManager :=
  if z.status.supported && pid = z.status.daemonPid then
    { z with status := { z.status with
      daemonRunning := false
      daemonPid := -1
      daemonErrorInfo :=
        if z.status.daemonErrorInfo = "" then statusStr else z.status.daemonErrorInfo } }
  else z

end ZygoteAbiManager

/-! ### The monitor -/

structure AppMonitor where
  zygote : ZygoteAbiManager
  tracingState : TracingState
  monitorStopReason : String
  deriving DecidableEq, Repr

inductive Event where
  | start
  | stop
  | exit
  | zygoteInjected
  | daemonSetInfo (info : String)
  | daemonSetErrorInfo (error : String)
  | systemServerStarted
  /-- A traced process has executed the zygote program. -/
  | zygoteExec (now : Timespec) (fork : Int)
  /-- A child that is not a traced candidate has ended. -/
  | childExit (pid : Int) (statusStr : String)
  /-- init has paused for a requested stop and is detached. -/
  | initPaused
  deriving DecidableEq, Repr

namespace AppMonitor

def initial (tracerPath : String) : AppMonitor where
  zygote := ⟨⟨false, false, false, -1, "", ""⟩, ⟨⟨0, 0⟩, 0⟩, tracerPath⟩
  tracingState := .tracing
  monitorStopReason := ""

variable (m : AppMonitor)

def requestStart : AppMonitor :=
  if m.tracingState = .stopping || m.tracingState = .stopped then
    { m with tracingState := .tracing }
  else m

def requestStop (reason : String) : AppMonitor :=
  if m.tracingState = .tracing then
    { m with tracingState := .stopping, monitorStopReason := reason }
  else m

def requestExit : AppMonitor :=
  { m with tracingState := .exiting, monitorStopReason := "user requested" }

/-- The zygote branch of `handleExecEvent`: the tracer the process is handed to, if any. -/
def handleExecEvent (now : Timespec) (fork : Int) : Option String × AppMonitor :=
  if m.tracingState ≠ .tracing then (none, m)
  else
    match m.zygote.checkAndPrepareInjection now fork with
    | (.ok tracer, z) => (some tracer, { m with zygote := z })
    | (.error reason, z) => (none, { m with zygote := z }.requestStop reason)

def step : Event → AppMonitor
  | .start => m.requestStart
  | .stop => m.requestStop "user requested"
  | .exit => m.requestExit
  | .zygoteInjected => { m with zygote := m.zygote.notifyInjected }
  | .daemonSetInfo info => { m with zygote := m.zygote.setDaemonInfo info }
  | .daemonSetErrorInfo error => { m with zygote := m.zygote.setDaemonCrashed error }
  | .systemServerStarted => m
  | .zygoteExec now fork => (m.handleExecEvent now fork).2
  | .childExit pid statusStr =>
    { m with zygote := m.zygote.handleDaemonExitIfMatch pid statusStr }
  | .initPaused =>
    if m.tracingState = .stopping then { m with tracingState := .stopped } else m

def run (events : List Event) : AppMonitor := events.foldl step m

theorem run_append (es es' : List Event) : m.run (es ++ es') = (m.run es).run es' :=
  List.foldl_append

@[simp] theorem run_nil : m.run [] = m := rfl

@[simp] theorem run_cons (e : Event) (es : List Event) : m.run (e :: es) = (m.step e).run es := rfl

end AppMonitor

end OnyxZygisk.Monitor

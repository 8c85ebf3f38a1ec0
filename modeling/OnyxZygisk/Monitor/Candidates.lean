import Mathlib.Data.Finset.Basic
import OnyxZygisk.Lib.Folds
import OnyxZygisk.Lib.Text
import OnyxZygisk.Monitor.AppMonitor

/-!
# Candidates and stubs

`SigChldHandler` keeps two sets of processes: those that were forked and have not executed a program yet, and the
stub zygotes, which stay attached. Beside them stands what the kernel knows: which processes the monitor traces. The two
sets are disjoint in every run, and a candidate is a process that is still traced as long as no zygote is handed off
and no process ends that the monitor has not met (`bookkept_iff`): `handleExecEvent` replaces the status that its
caller looks at afterwards, so a zygote that was handed off is not erased.
-/

namespace OnyxZygisk.Monitor

/-! ### Statuses -/

/-- What `waitpid` reports of a process. -/
inductive WaitStatus where
  | exited (code : Nat)
  | signaled (sig : Nat)
  | stopped (sig event : Nat)
  deriving DecidableEq, Repr

def SIGKILL : Nat := 9
def SIGCHLD : Nat := 17
def SIGSTOP : Nat := 19
def SIGTSTP : Nat := 20
def SIGTTIN : Nat := 21
def SIGTTOU : Nat := 22
def SIGTRAP : Nat := 5

def PTRACE_EVENT_FORK : Nat := 1
def PTRACE_EVENT_EXEC : Nat := 4
def PTRACE_EVENT_STOP : Nat := 128

/-- `WIFSTOPPED` -/
def WaitStatus.isStopped : WaitStatus → Bool
  | .stopped _ _ => true
  | _ => false

def stoppedWith (status : WaitStatus) (sig event : Nat) : Bool := status = .stopped sig event

/-! ### The handler -/

inductive Options where
  | traceExec
  | traceForkExec
  deriving DecidableEq, Repr

/-- What the handler asks of the kernel. -/
inductive Request where
  | getEventMsg (pid : Int)
  | setOptions (pid : Int) (options : Options)
  | cont (pid : Int) (sig : Nat)
  | detach (pid : Int) (sig : Nat)
  | kill (pid : Int) (sig : Nat)
  /-- The injector is forked and executed for a process. -/
  | execInjector (tracer : String) (pid : Int)
  deriving DecidableEq, Repr

/-- An event for a process, with what the calls answer that are made while it is handled. -/
structure ChildEvent where
  pid : Int
  status : WaitStatus
  /-- `get_program` -/
  program : String
  now : Timespec
  daemonFork : Int
  /-- What the wait in the hand-over reports, if it does not fail. -/
  halted : Option WaitStatus
  injectorFork : Int
  /-- `parse_status` -/
  statusStr : String
  deriving DecidableEq, Repr

structure SigChldHandler where
  process : Finset Int
  stubProcesses : Finset Int
  monitor : AppMonitor
  requests : List Request
  /-- The kernel's side: the processes the monitor traces. -/
  attached : Finset Int
  deriving DecidableEq

namespace SigChldHandler

def initial (tracerPath : String) : SigChldHandler := ⟨∅, ∅, .initial tracerPath, [], ∅⟩

variable (s : SigChldHandler)

def request (r : Request) : SigChldHandler := { s with requests := s.requests ++ [r] }

/-- A stop is reported of a process that is traced, and one that has ended is not. -/
def reported (pid : Int) (status : WaitStatus) : SigChldHandler :=
  { s with attached := if status.isStopped then insert pid s.attached else s.attached.erase pid }

def detach (pid : Int) (sig : Nat) : SigChldHandler :=
  { s.request (.detach pid sig) with attached := s.attached.erase pid }

def eraseProcess (pid : Int) : SigChldHandler := { s with process := s.process.erase pid }

def handleParentEvent (pid : Int) (status : WaitStatus) : SigChldHandler :=
  if stoppedWith status SIGTRAP PTRACE_EVENT_FORK then (s.request (.getEventMsg pid)).request (.cont pid 0)
  else if pid = 1 ∧ stoppedWith status SIGTRAP PTRACE_EVENT_STOP ∧ s.monitor.tracingState = .stopping then
    { s.detach 1 0 with monitor := s.monitor.step .initPaused }
  else
    match status with
    | .stopped sig 0 =>
      if sig = SIGSTOP ∨ sig = SIGTSTP ∨ sig = SIGTTIN ∨ sig = SIGTTOU then s.request (.cont pid 0)
      else if pid ≠ 1 ∧ sig = SIGCHLD then s.request (.cont pid 0)
      else s.request (.cont pid sig)
    | .stopped _ _ => s.request (.cont pid 0)
    | _ => if pid ≠ 1 then { s with stubProcesses := s.stubProcesses.erase pid } else s

def handleNewProcess (pid : Int) : SigChldHandler :=
  ({ s with process := insert pid s.process }.request (.setOptions pid .traceExec)).request (.cont pid 0)

/-- `programPath` is the zygote's. The result, the status that is left for the caller, and the handler. -/
def handleExecEvent (programPath : String) (e : ChildEvent) (status : WaitStatus) :
    Bool × WaitStatus × SigChldHandler :=
  if Text.contains "stub_zygote" e.program then
    (true, status, ({ s with stubProcesses := insert e.pid s.stubProcesses }.request
      (.setOptions e.pid .traceForkExec)).request (.cont e.pid 0))
  else if s.monitor.tracingState ≠ .tracing then (false, status, s)
  else if e.program ≠ programPath then (false, status, s)
  else
    match s.monitor.handleExecEvent e.now e.daemonFork with
    | (none, m) => (false, status, { s with monitor := m })
    | (some tracer, m) =>
      -- the caller's status is overwritten
      let status := e.halted.getD status
      let s := (({ s with monitor := m }.request (.kill e.pid SIGSTOP)).request (.cont e.pid 0)).reported e.pid status
      if stoppedWith status SIGSTOP 0 then
        let s := s.detach e.pid SIGSTOP
        if e.injectorFork = -1 then (true, status, s.request (.kill e.pid SIGKILL))
        else (true, status, s.request (.execInjector tracer e.pid))
      else (false, status, s)

def handleTracedProcess (programPath : String) (e : ChildEvent) : SigChldHandler :=
  let (keepAttached, status, s) :=
    if stoppedWith e.status SIGTRAP PTRACE_EVENT_EXEC then s.handleExecEvent programPath e e.status
    else if stoppedWith e.status SIGTRAP PTRACE_EVENT_STOP then
      (true, e.status, (s.request (.setOptions e.pid .traceExec)).request (.cont e.pid 0))
    else (false, e.status, s)
  if keepAttached then
    if stoppedWith status SIGTRAP PTRACE_EVENT_EXEC then s.eraseProcess e.pid else s
  else if status.isStopped then (s.eraseProcess e.pid).detach e.pid 0
  else s.eraseProcess e.pid

/-- The process is the daemon. -/
def isDaemon (pid : Int) : Bool := s.monitor.zygote.status.supported && pid = s.monitor.zygote.status.daemonPid

def handleChildEvent (programPath : String) (e : ChildEvent) : SigChldHandler :=
  if e.pid = 1 ∨ e.pid ∈ s.stubProcesses then s.handleParentEvent e.pid e.status
  else if s.isDaemon e.pid then { s with monitor := s.monitor.step (.childExit e.pid e.statusStr) }
  else if e.pid ∈ s.process then s.handleTracedProcess programPath e
  else s.handleNewProcess e.pid

/-- What happens to the monitor: a process is reported to it, or a command arrives. -/
inductive Input where
  | child (e : ChildEvent)
  | command (e : Event)
  deriving DecidableEq, Repr

def step (programPath : String) (s : SigChldHandler) : Input → SigChldHandler
  | .child e => (s.reported e.pid e.status).handleChildEvent programPath e
  | .command e => { s with monitor := s.monitor.step e }

def run (programPath tracerPath : String) (inputs : List Input) : SigChldHandler :=
  inputs.foldl (step programPath) (initial tracerPath)

/-! ### What a step can do -/

variable {s s' s'' : SigChldHandler} {programPath : String} {e : ChildEvent} {pid q : Int} {status : WaitStatus}

/-- Two states agree on every process but one. -/
structure Beside (pid : Int) (s s' : SigChldHandler) : Prop where
  process : ∀ q, q ≠ pid → (q ∈ s'.process ↔ q ∈ s.process)
  stub : ∀ q, q ≠ pid → (q ∈ s'.stubProcesses ↔ q ∈ s.stubProcesses)
  attached : ∀ q, q ≠ pid → (q ∈ s'.attached ↔ q ∈ s.attached)

theorem Beside.of_eq (hprocess : s'.process = s.process) (hstub : s'.stubProcesses = s.stubProcesses)
    (hattached : s'.attached = s.attached) : Beside pid s s' :=
  ⟨fun _ _ => by rw [hprocess], fun _ _ => by rw [hstub], fun _ _ => by rw [hattached]⟩

theorem Beside.refl (pid : Int) (s : SigChldHandler) : Beside pid s s := .of_eq rfl rfl rfl

theorem Beside.trans (h : Beside pid s s') (h' : Beside pid s' s'') : Beside pid s s'' :=
  ⟨fun q hq => (h'.process q hq).trans (h.process q hq), fun q hq => (h'.stub q hq).trans (h.stub q hq),
    fun q hq => (h'.attached q hq).trans (h.attached q hq)⟩

theorem mem_insert_beside {xs : Finset Int} (hq : q ≠ pid) : q ∈ insert pid xs ↔ q ∈ xs := by
  rw [Finset.mem_insert]
  exact or_iff_right hq

theorem mem_erase_beside {xs : Finset Int} (hq : q ≠ pid) : q ∈ xs.erase pid ↔ q ∈ xs := by
  rw [Finset.mem_erase]
  exact and_iff_right hq

theorem beside_reported (s : SigChldHandler) (pid : Int) (status : WaitStatus) : Beside pid s (s.reported pid status) := by
  refine ⟨fun _ _ => Iff.rfl, fun _ _ => Iff.rfl, fun q hq => ?_⟩
  unfold reported
  dsimp only
  split_ifs
  · exact mem_insert_beside hq
  · exact mem_erase_beside hq

theorem beside_detach (s : SigChldHandler) (pid : Int) (sig : Nat) : Beside pid s (s.detach pid sig) :=
  ⟨fun _ _ => Iff.rfl, fun _ _ => Iff.rfl, fun _ hq => mem_erase_beside hq⟩

theorem beside_eraseProcess (s : SigChldHandler) (pid : Int) : Beside pid s (s.eraseProcess pid) :=
  ⟨fun _ hq => mem_erase_beside hq, fun _ _ => Iff.rfl, fun _ _ => Iff.rfl⟩

/-- The zygote is handed over to the injector: the program is its, an injector is prepared, and the process stops
with `SIGSTOP` as it was asked to. -/
def HandsOver (programPath : String) (s : SigChldHandler) (e : ChildEvent) : Prop :=
  Text.contains "stub_zygote" e.program = false ∧ s.monitor.tracingState = .tracing ∧ e.program = programPath ∧
    (s.monitor.handleExecEvent e.now e.daemonFork).1.isSome ∧ e.halted = some (.stopped SIGSTOP 0)

/-- What `handleExecEvent` comes to. -/
inductive Executed (programPath : String) (s : SigChldHandler) (e : ChildEvent) :
    Bool × WaitStatus × SigChldHandler → Prop where
  | promoted (s' : SigChldHandler) (hprocess : s'.process = s.process)
      (hstub : s'.stubProcesses = insert e.pid s.stubProcesses) (hattached : s'.attached = s.attached)
      (hprogram : Text.contains "stub_zygote" e.program = true) : Executed programPath s e (true, e.status, s')
  | handedOver (s' : SigChldHandler) (hover : HandsOver programPath s e) (hprocess : s'.process = s.process)
      (hstub : s'.stubProcesses = s.stubProcesses) (hbeside : Beside e.pid s s') (hattached : e.pid ∉ s'.attached) :
      Executed programPath s e (true, .stopped SIGSTOP 0, s')
  | refused (status : WaitStatus) (s' : SigChldHandler) (hover : ¬ HandsOver programPath s e)
      (hprocess : s'.process = s.process) (hstub : s'.stubProcesses = s.stubProcesses) (hbeside : Beside e.pid s s') :
      Executed programPath s e (false, status, s')

theorem stoppedWith_iff {status : WaitStatus} {sig event : Nat} :
    stoppedWith status sig event = true ↔ status = .stopped sig event := decide_eq_true_iff

/-- Without the stop it was asked for the event is still that of the `exec`. -/
theorem stoppedWith_halted (hexec : e.status = .stopped SIGTRAP PTRACE_EVENT_EXEC) :
    stoppedWith (e.halted.getD e.status) SIGSTOP 0 = true ↔ e.halted = some (.stopped SIGSTOP 0) := by
  rw [stoppedWith_iff]
  cases e.halted with
  | none =>
    rw [Option.getD_none, hexec]
    exact iff_of_false (by decide) nofun
  | some status => rw [Option.getD_some, Option.some_inj]

theorem handleExecEvent_executed (hexec : e.status = .stopped SIGTRAP PTRACE_EVENT_EXEC) :
    Executed programPath s e (s.handleExecEvent programPath e e.status) := by
  unfold handleExecEvent
  by_cases hstub : Text.contains "stub_zygote" e.program = true
  · rw [if_pos hstub]
    exact .promoted _ rfl rfl rfl hstub
  rw [if_neg hstub]
  by_cases htracing : s.monitor.tracingState = .tracing
  · rw [if_neg (not_not.2 htracing)]
    by_cases hprogram : e.program = programPath
    · rw [if_neg (not_not.2 hprogram)]
      cases hprepared : s.monitor.handleExecEvent e.now e.daemonFork with
      | mk tracer m =>
        cases tracer with
        | none =>
          refine .refused _ _ (fun hover => ?_) rfl rfl (.of_eq rfl rfl rfl)
          have hsome := hover.2.2.2.1
          rw [hprepared] at hsome
          exact absurd hsome Bool.false_ne_true
        | some tracer =>
          dsimp only
          have hreported := beside_reported (({ s with monitor := m }.request (.kill e.pid SIGSTOP)).request
            (.cont e.pid 0)) e.pid (e.halted.getD e.status)
          have hbase : Beside e.pid s (({ s with monitor := m }.request (.kill e.pid SIGSTOP)).request (.cont e.pid 0)) :=
            .of_eq rfl rfl rfl
          have hbeside := hbase.trans hreported
          by_cases hhalted : e.halted = some (.stopped SIGSTOP 0)
          · have hover : HandsOver programPath s e := by
              refine ⟨Bool.not_eq_true _ ▸ hstub, htracing, hprogram, ?_, hhalted⟩
              rw [hprepared]
              rfl
            rw [if_pos ((stoppedWith_halted hexec).2 hhalted)]
            rw [hhalted] at hbeside ⊢
            have hdetached := hbeside.trans (beside_detach _ e.pid SIGSTOP)
            by_cases hfork : e.injectorFork = -1
            · rw [if_pos hfork]
              exact .handedOver _ hover rfl rfl (hdetached.trans (.of_eq rfl rfl rfl)) (Finset.notMem_erase e.pid _)
            · rw [if_neg hfork]
              exact .handedOver _ hover rfl rfl (hdetached.trans (.of_eq rfl rfl rfl)) (Finset.notMem_erase e.pid _)
          · rw [if_neg (mt (stoppedWith_halted hexec).1 hhalted)]
            exact .refused _ _ (fun hover => hhalted hover.2.2.2.2) rfl rfl hbeside
    · rw [if_pos hprogram]
      exact .refused _ _ (fun hover => hprogram hover.2.2.1) rfl rfl (.refl e.pid s)
  · rw [if_pos htracing]
    exact .refused _ _ (fun hover => htracing hover.2.1) rfl rfl (.refl e.pid s)

/-- What `handleTracedProcess` comes to. -/
inductive Traced (programPath : String) (s : SigChldHandler) (e : ChildEvent) : SigChldHandler → Prop where
  | kept (s' : SigChldHandler) (hstop : e.status = .stopped SIGTRAP PTRACE_EVENT_STOP)
      (hprocess : s'.process = s.process) (hstub : s'.stubProcesses = s.stubProcesses)
      (hattached : s'.attached = s.attached) : Traced programPath s e s'
  | handedOver (s' : SigChldHandler) (hexec : e.status = .stopped SIGTRAP PTRACE_EVENT_EXEC)
      (hover : HandsOver programPath s e) (hprocess : s'.process = s.process)
      (hstub : s'.stubProcesses = s.stubProcesses) (hbeside : Beside e.pid s s') (hattached : e.pid ∉ s'.attached) :
      Traced programPath s e s'
  | dropped (s' : SigChldHandler) (hstop : e.status ≠ .stopped SIGTRAP PTRACE_EVENT_STOP)
      (hover : ¬ (e.status = .stopped SIGTRAP PTRACE_EVENT_EXEC ∧ HandsOver programPath s e))
      (hprocess : s'.process = s.process.erase e.pid) (hbeside : Beside e.pid s s') : Traced programPath s e s'

theorem beside_dropped (h : Beside e.pid s s') (hprocess : s'.process = s.process) (status : WaitStatus) :
    Beside e.pid s (if status.isStopped then (s'.eraseProcess e.pid).detach e.pid 0 else s'.eraseProcess e.pid) ∧
      (if status.isStopped then (s'.eraseProcess e.pid).detach e.pid 0 else s'.eraseProcess e.pid).process =
        s.process.erase e.pid := by
  have herase := h.trans (beside_eraseProcess s' e.pid)
  split_ifs
  · exact ⟨herase.trans (beside_detach _ e.pid 0), congrArg (·.erase e.pid) hprocess⟩
  · exact ⟨herase, congrArg (·.erase e.pid) hprocess⟩

theorem handleTracedProcess_traced : Traced programPath s e (s.handleTracedProcess programPath e) := by
  unfold handleTracedProcess
  by_cases hexec : e.status = .stopped SIGTRAP PTRACE_EVENT_EXEC
  · have hstop : e.status ≠ .stopped SIGTRAP PTRACE_EVENT_STOP := by
      rw [hexec]
      decide
    have hif : stoppedWith e.status SIGTRAP PTRACE_EVENT_EXEC = true := stoppedWith_iff.2 hexec
    rw [if_pos hif]
    have hexecuted : Executed programPath s e (s.handleExecEvent programPath e e.status) :=
      handleExecEvent_executed hexec
    generalize s.handleExecEvent programPath e e.status = r at hexecuted ⊢
    cases hexecuted with
    | promoted s' hprocess hstub hattached hprogram =>
      dsimp only
      rw [if_pos rfl, if_pos hif]
      refine .dropped _ hstop (fun h => ?_) (congrArg (·.erase e.pid) hprocess) ?_
      · rw [h.2.1] at hprogram
        exact absurd hprogram Bool.false_ne_true
      · have hbeside : Beside e.pid s s' := by
          refine ⟨fun _ _ => by rw [hprocess], fun q hq => ?_, fun _ _ => by rw [hattached]⟩
          rw [hstub]
          exact mem_insert_beside hq
        exact hbeside.trans (beside_eraseProcess s' e.pid)
    | handedOver s' hover hprocess hstub hbeside hattached =>
      dsimp only
      -- the status is that of the stop now
      rw [if_pos rfl, if_neg (by decide)]
      exact .handedOver s' hexec hover hprocess hstub hbeside hattached
    | refused status s' hover hprocess hstub hbeside =>
      dsimp only
      rw [if_neg Bool.false_ne_true]
      obtain ⟨hdropped, herased⟩ := beside_dropped hbeside hprocess status
      exact .dropped _ hstop (fun h => hover h.2) herased hdropped
  · have hif : ¬ stoppedWith e.status SIGTRAP PTRACE_EVENT_EXEC = true := mt stoppedWith_iff.1 hexec
    rw [if_neg hif]
    by_cases hstop : e.status = .stopped SIGTRAP PTRACE_EVENT_STOP
    · rw [if_pos (stoppedWith_iff.2 hstop)]
      dsimp only
      rw [if_pos rfl, if_neg hif]
      exact .kept _ hstop rfl rfl rfl
    · rw [if_neg (mt stoppedWith_iff.1 hstop)]
      dsimp only
      rw [if_neg Bool.false_ne_true]
      obtain ⟨hdropped, herased⟩ := beside_dropped (.refl e.pid s) rfl e.status
      exact .dropped _ hstop (fun h => hexec h.1) herased hdropped

/-! ### The invariant -/

/-- What is kept in every run. -/
structure Sorted (s : SigChldHandler) : Prop where
  disjoint : ∀ pid ∈ s.process, pid ∉ s.stubProcesses
  init : (1 : Int) ∉ s.process

/-- The two sets are disjoint, and the monitor is attached to every candidate. -/
structure Bookkept (s : SigChldHandler) : Prop where
  disjoint : Disjoint s.process s.stubProcesses
  candidates : ∀ pid ∈ s.process, pid ∈ s.attached

/-- The event is a candidate's and its zygote is handed over. -/
def HandsOff (programPath : String) (s : SigChldHandler) (e : ChildEvent) : Prop :=
  (e.pid ∈ s.process ∧ s.isDaemon e.pid = false) ∧ e.status = .stopped SIGTRAP PTRACE_EVENT_EXEC ∧
    HandsOver programPath s e

/-- The process has ended, and it is none that the handler knows: not init, a stub, a candidate or the daemon. (That
the daemon ends under the pid of a candidate is the second case; the kernel gives no pid to two processes.) -/
def EndsUnknown (s : SigChldHandler) (e : ChildEvent) : Prop :=
  e.status.isStopped = false ∧ e.pid ≠ 1 ∧ e.pid ∉ s.stubProcesses ∧ (s.isDaemon e.pid = true ↔ e.pid ∈ s.process)

theorem mem_attached_reported (s : SigChldHandler) (pid : Int) (status : WaitStatus) :
    pid ∈ (s.reported pid status).attached ↔ status.isStopped = true := by
  unfold reported
  dsimp only
  split_ifs with hstopped
  · exact iff_of_true (Finset.mem_insert_self pid _) hstopped
  · exact iff_of_false (Finset.notMem_erase pid _) hstopped

/-! ### One step -/

theorem handleParentEvent_process (s : SigChldHandler) (pid : Int) (status : WaitStatus) :
    (s.handleParentEvent pid status).process = s.process := by
  unfold handleParentEvent
  split_ifs
  · rfl
  · rfl
  · split
    · split_ifs <;> rfl
    · rfl
    · rfl
  · split
    · split_ifs <;> rfl
    · rfl
    · rfl

theorem beside_handleParentEvent (s : SigChldHandler) (pid : Int) (status : WaitStatus) :
    Beside pid s (s.handleParentEvent pid status) := by
  unfold handleParentEvent
  split_ifs with hfork hinit hpid
  · exact .of_eq rfl rfl rfl
  · -- init is let go
    obtain ⟨rfl, -⟩ := hinit
    exact (beside_detach s 1 0).trans (.of_eq rfl rfl rfl)
  · split
    · split_ifs <;> exact .of_eq rfl rfl rfl
    · exact .of_eq rfl rfl rfl
    · exact ⟨fun _ _ => Iff.rfl, fun _ hq => mem_erase_beside hq, fun _ _ => Iff.rfl⟩
  · split
    · split_ifs <;> exact .of_eq rfl rfl rfl
    · exact .of_eq rfl rfl rfl
    · exact .of_eq rfl rfl rfl

/-- What becomes of an event, by the role of its process. -/
inductive Handled (programPath : String) (s : SigChldHandler) (e : ChildEvent) : SigChldHandler → Prop where
  | parent (s' : SigChldHandler) (hrole : e.pid = 1 ∨ e.pid ∈ s.stubProcesses) (hprocess : s'.process = s.process)
      (hbeside : Beside e.pid s s') : Handled programPath s e s'
  | daemon (s' : SigChldHandler) (hrole : ¬ (e.pid = 1 ∨ e.pid ∈ s.stubProcesses)) (hdaemon : s.isDaemon e.pid = true)
      (hprocess : s'.process = s.process) (hstub : s'.stubProcesses = s.stubProcesses)
      (hattached : s'.attached = (s.reported e.pid e.status).attached) : Handled programPath s e s'
  | traced (s' : SigChldHandler) (hdaemon : s.isDaemon e.pid = false) (hin : e.pid ∈ s.process)
      (htraced : Traced programPath (s.reported e.pid e.status) e s') : Handled programPath s e s'
  | new (s' : SigChldHandler) (hrole : ¬ (e.pid = 1 ∨ e.pid ∈ s.stubProcesses)) (hdaemon : s.isDaemon e.pid = false)
      (hout : e.pid ∉ s.process) (hprocess : s'.process = insert e.pid s.process)
      (hstub : s'.stubProcesses = s.stubProcesses) (hattached : s'.attached = (s.reported e.pid e.status).attached) :
      Handled programPath s e s'

theorem step_handled (programPath : String) (s : SigChldHandler) (e : ChildEvent) :
    Handled programPath s e (step programPath s (.child e)) := by
  have hreported := beside_reported s e.pid e.status
  show Handled programPath s e ((s.reported e.pid e.status).handleChildEvent programPath e)
  unfold handleChildEvent
  by_cases hrole : e.pid = 1 ∨ e.pid ∈ (s.reported e.pid e.status).stubProcesses
  · rw [if_pos hrole]
    exact .parent _ hrole (handleParentEvent_process _ _ _) (hreported.trans (beside_handleParentEvent _ _ _))
  rw [if_neg hrole]
  by_cases hdaemon : (s.reported e.pid e.status).isDaemon e.pid = true
  · rw [if_pos hdaemon]
    exact .daemon _ hrole hdaemon rfl rfl rfl
  rw [if_neg hdaemon]
  by_cases hin : e.pid ∈ (s.reported e.pid e.status).process
  · rw [if_pos hin]
    exact .traced _ (Bool.not_eq_true _ ▸ hdaemon) hin handleTracedProcess_traced
  · rw [if_neg hin]
    exact .new _ hrole (Bool.not_eq_true _ ▸ hdaemon) hin rfl rfl rfl

/-- A step is about one process. -/
theorem Handled.beside (h : Handled programPath s e s') : Beside e.pid s s' := by
  have hreported := beside_reported s e.pid e.status
  cases h with
  | parent hrole hprocess hbeside => exact hbeside
  | daemon hrole hdaemon hprocess hstub hattached => exact hreported.trans (.of_eq hprocess hstub hattached)
  | traced hdaemon hin htraced =>
    apply hreported.trans
    cases htraced with
    | kept hstop hprocess hstub hattached => exact .of_eq hprocess hstub hattached
    | handedOver hexec hover hprocess hstub hbeside hattached => exact hbeside
    | dropped hstop hover hprocess hbeside => exact hbeside
  | new hrole hdaemon hout hprocess hstub hattached =>
    refine ⟨fun q hq => ?_, fun _ _ => by rw [hstub], fun q hq => ?_⟩
    · rw [hprocess]
      exact mem_insert_beside hq
    · rw [hattached]
      exact hreported.attached q hq

/-- A process that is a candidate afterwards is no stub, and not init. -/
theorem Handled.candidate (h : Handled programPath s e s') (hsorted : Sorted s) (hin : e.pid ∈ s'.process) :
    e.pid ≠ 1 ∧ e.pid ∉ s'.stubProcesses := by
  have hkept (hprocess : s'.process = s.process) : e.pid ≠ 1 ∧ e.pid ∉ s.stubProcesses := by
    rw [hprocess] at hin
    refine ⟨?_, hsorted.disjoint e.pid hin⟩
    intro hinit
    rw [hinit] at hin
    exact hsorted.init hin
  cases h with
  | parent hrole hprocess hbeside => exact absurd hrole (not_or.2 (hkept hprocess))
  | daemon hrole hdaemon hprocess hstub hattached =>
    rw [hstub]
    exact hkept hprocess
  | traced hdaemon hbefore htraced =>
    cases htraced with
    | kept hstop hprocess hstub hattached =>
      rw [hstub]
      exact hkept hprocess
    | handedOver hexec hover hprocess hstub hbeside hattached =>
      rw [hstub]
      exact hkept hprocess
    | dropped hstop hover hprocess hbeside =>
      rw [hprocess] at hin
      exact absurd hin (Finset.notMem_erase e.pid _)
  | new hrole hdaemon hout hprocess hstub hattached =>
    rw [hstub]
    exact not_or.1 hrole

theorem Handled.sorted (h : Handled programPath s e s') (hsorted : Sorted s) : Sorted s' := by
  constructor
  · intro q hq
    by_cases hpid : q = e.pid
    · rw [hpid] at hq ⊢
      exact (h.candidate hsorted hq).2
    · rw [h.beside.stub q hpid]
      exact hsorted.disjoint q ((h.beside.process q hpid).1 hq)
  · intro hone
    by_cases hpid : (1 : Int) = e.pid
    · rw [hpid] at hone
      exact (h.candidate hsorted hone).1 hpid.symm
    · exact hsorted.init ((h.beside.process 1 hpid).1 hone)

theorem endsUnknown_iff (hrole : ¬ (e.pid = 1 ∨ e.pid ∈ s.stubProcesses)) :
    EndsUnknown s e ↔ e.status.isStopped = false ∧ (s.isDaemon e.pid = true ↔ e.pid ∈ s.process) := by
  obtain ⟨hinit, hstub⟩ := not_or.1 hrole
  constructor
  · rintro ⟨hended, -, -, hunknown⟩
    exact ⟨hended, hunknown⟩
  · rintro ⟨hended, hunknown⟩
    exact ⟨hended, hinit, hstub, hunknown⟩

/-- The process of the event is attached if it is a candidate, unless it was handed off or has ended unknown. -/
theorem Handled.attached_iff (h : Handled programPath s e s') (hsorted : Sorted s) :
    (e.pid ∈ s'.process → e.pid ∈ s'.attached) ↔ ¬ HandsOff programPath s e ∧ ¬ EndsUnknown s e := by
  have hends := mem_attached_reported s e.pid e.status
  cases h with
  | parent hrole hprocess hbeside =>
    have hout : e.pid ∉ s.process := by
      intro hin
      rcases hrole with hinit | hstub
      · rw [hinit] at hin
        exact hsorted.init hin
      · exact hsorted.disjoint e.pid hin hstub
    rw [hprocess]
    refine iff_of_true (fun hin => absurd hin hout) ⟨fun hoff => hout hoff.1.1, fun hunknown => ?_⟩
    rcases hrole with hinit | hstub
    · exact hunknown.2.1 hinit
    · exact hunknown.2.2.1 hstub
  | daemon hrole hdaemon hprocess hstub hattached =>
    have hoff : ¬ HandsOff programPath s e := by
      intro hoff
      rw [hoff.1.2] at hdaemon
      exact Bool.false_ne_true hdaemon
    rw [hprocess, hattached, hends, and_iff_right hoff, endsUnknown_iff hrole, iff_true_left hdaemon, not_and',
      Bool.not_eq_false]
  | traced hdaemon hin htraced =>
    have hknown : ¬ EndsUnknown s e := by
      intro hunknown
      rw [hunknown.2.2.2.2 hin] at hdaemon
      exact Bool.false_ne_true hdaemon.symm
    cases htraced with
    | kept hstop hprocess hstub hattached =>
      rw [hattached, hends]
      have hoff : ¬ HandsOff programPath s e := by
        intro hoff
        have hexec := hoff.2.1
        rw [hstop] at hexec
        exact absurd hexec (by decide)
      refine iff_of_true (fun _ => ?_) ⟨hoff, hknown⟩
      rw [hstop]
      rfl
    | handedOver hexec hover hprocess hstub hbeside hattached =>
      refine iff_of_false (fun himp => ?_) (fun hfine => hfine.1 ⟨⟨hin, hdaemon⟩, hexec, hover⟩)
      apply hattached
      apply himp
      rw [hprocess]
      exact hin
    | dropped hstop hover hprocess hbeside =>
      rw [hprocess]
      exact iff_of_true (fun hmem => absurd hmem (Finset.notMem_erase e.pid _)) ⟨fun hoff => hover hoff.2, hknown⟩
  | new hrole hdaemon hout hprocess hstub hattached =>
    have hoff : ¬ HandsOff programPath s e := fun hoff => hout hoff.1.1
    have hunknown : s.isDaemon e.pid = true ↔ e.pid ∈ s.process := by
      rw [hdaemon]
      exact iff_of_false Bool.false_ne_true hout
    rw [hprocess, hattached, hends, and_iff_right hoff, endsUnknown_iff hrole, and_iff_left hunknown, Bool.not_eq_false]
    exact ⟨fun h => h (Finset.mem_insert_self e.pid _), fun hstopped _ => hstopped⟩

/-! ### Every run -/

/-- The step hands no zygote off, and the process has not ended unknown. -/
def Fine (programPath : String) (s : SigChldHandler) : Input → Prop
  | .child e => ¬ HandsOff programPath s e ∧ ¬ EndsUnknown s e
  | .command _ => True

theorem sorted_step (s : SigChldHandler) (i : Input) (h : Sorted s) : Sorted (step programPath s i) := by
  cases i with
  | child e => exact (step_handled programPath s e).sorted h
  | command e => exact ⟨h.disjoint, h.init⟩

theorem bookkept_step (s : SigChldHandler) (i : Input) (hsorted : Sorted s) (h : Bookkept s) :
    Bookkept (step programPath s i) ↔ Fine programPath s i := by
  cases i with
  | command e => exact iff_of_true ⟨h.disjoint, h.candidates⟩ trivial
  | child e =>
    have hhandled := step_handled programPath s e
    rw [Fine, ← hhandled.attached_iff hsorted]
    constructor
    · exact fun h' hin => h'.candidates e.pid hin
    · intro hpid
      refine ⟨Finset.disjoint_left.2 (hhandled.sorted hsorted).disjoint, fun q hq => ?_⟩
      by_cases hqpid : q = e.pid
      · rw [hqpid] at hq ⊢
        exact hpid hq
      · exact (hhandled.beside.attached q hqpid).2 (h.candidates q ((hhandled.beside.process q hqpid).1 hq))

/-- The two sets are disjoint and every candidate is attached, all along a run, exactly if no zygote is handed off in it
and no unknown process is reported to have ended. -/
theorem bookkept_iff (programPath tracerPath : String) (inputs : List Input) :
    (∀ pre, pre <+: inputs → Bookkept (run programPath tracerPath pre)) ↔
      ∀ pre i, pre ++ [i] <+: inputs → Fine programPath (run programPath tracerPath pre) i := by
  have hsorted : Sorted (initial tracerPath) :=
    ⟨fun pid hpid => absurd hpid (Finset.notMem_empty pid), Finset.notMem_empty 1⟩
  have hkept : Bookkept (initial tracerPath) :=
    ⟨Finset.disjoint_empty_left ∅, fun pid hpid => absurd hpid (Finset.notMem_empty pid)⟩
  exact @Folds.forall_prefix_iff _ _ _ Sorted Bookkept (Fine programPath) _ hsorted hkept sorted_step bookkept_step inputs

/-! ### A hand-off -/

/-- A child of init executes the zygote and is handed to the injector. -/
def handOff : List Input :=
  let event (status : WaitStatus) : Input := .child ⟨100, status, "/system/bin/app_process64", ⟨50, 0⟩, 60,
    some (.stopped SIGSTOP 0), 70, ""⟩
  [event (.stopped SIGTRAP PTRACE_EVENT_STOP), event (.stopped SIGTRAP PTRACE_EVENT_EXEC)]

/-- The zygote stays among the candidates. -/
theorem handOff_keeps_pid :
    ¬ ∀ pre, pre <+: handOff → Bookkept (run "/system/bin/app_process64" "./bin/zygisk-ptrace64" pre) := by
  intro h
  have hkept := h handOff (List.prefix_refl _)
  have hin : (100 : Int) ∈ (run "/system/bin/app_process64" "./bin/zygisk-ptrace64" handOff).process := by decide
  have hout : (100 : Int) ∉ (run "/system/bin/app_process64" "./bin/zygisk-ptrace64" handOff).attached := by decide
  exact hout (hkept.candidates 100 hin)

end SigChldHandler

end OnyxZygisk.Monitor

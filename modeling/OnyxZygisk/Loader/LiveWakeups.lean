import OnyxZygisk.Lib.Folds
import OnyxZygisk.Loader.LiveHistory

/-!
# The signal of the live loader

The daemon asks system_server to load a module by a signal; the handler puts a byte into a pipe that does not block,
and a worker that waits for the pipe asks the daemon for its modules. Several threads of the daemon may be at it,
signals may be joined, the pipe may be full, one read takes up to 64 bytes, and the list of the daemon may change at
any time. Still no signal is lost: once nothing is under way, the worker has asked after the last one, and has loaded
what the daemon has listed ever since (`signalled_loaded`). Between the calls of the daemon there is only so much to
do before that (`work_bounded`).
-/

namespace OnyxZygisk.Loader.LiveWakeups

open Daemon

/-! ### The two processes -/

/-- Who has signal 40 in system_server. -/
inductive Handler where
  | default | live | other
  deriving DecidableEq

/-- Where `hotplug_worker` is. A thread that has ended is not started again. -/
inductive Worker where
  | none | created | polling | awake | asking | gone
  deriving DecidableEq

structure System where
  /-- The calls of `signal_system_server_hotplug` that the daemon's threads are in. -/
  calls : List (Program Bool)
  /-- What the daemon would answer to `ReadModules`. -/
  modules : List Daemon.Module
  pid : Int32
  handler : Handler
  /-- `live_hotplug_ready` -/
  ready : Bool
  /-- Signals that have been sent and not handled. -/
  pending : Nat
  /-- Bytes in `hotplug_pipe`. -/
  pipe : Nat
  worker : Worker
  live : Live

/-- As `server_specialize_post` finds it. -/
def System.start (s : ServerStart) (modules : List Daemon.Module) (pid : Int32) (handler : Handler) : System where
  calls := []
  modules
  pid
  handler
  ready := false
  pending := 0
  pipe := 0
  worker := .none
  live := s.live

/-! #### The daemon -/

/-- `SigCgt` has signal 40 if the process handles it. -/
def truthful (s : System) : (op : Op) → Resp op → Bool
  | .caughtSignals pid, mask => pid ≠ s.pid || mask.toNat.testBit (hotplugSignal - 1) = (s.handler ≠ .default)
  | _, _ => true

/-- A signal may join one that is pending already. -/
def pendingAfter (s : System) (joins : Bool) : (op : Op) → Resp op → Nat
  | .kill pid signal _, sent =>
    if pid = s.pid ∧ signal = hotplugSignal ∧ sent = true then if joins then max s.pending 1 else s.pending + 1
    else s.pending
  | _, _ => s.pending

/-- The next operation of a call; all but the mask may be answered in any way. -/
def turn (i : Nat) (joins : Bool) (answer : (op : Op) → Resp op) (s : System) : Option System :=
  match s.calls[i]? with
  | some (.call op k) =>
    if truthful s op (answer op) then
      some { s with calls := s.calls.set i (k (answer op)), pending := pendingAfter s joins op (answer op) }
    else none
  | _ => none

/-- The next operation of the call sends the signal. -/
def Sends (s : System) (i : Nat) (answer : (op : Op) → Resp op) : Prop :=
  ∃ name k, s.calls[i]? = some (.call (.kill s.pid hotplugSignal name) k) ∧
    answer (.kill s.pid hotplugSignal name) = true

/-! #### system_server -/

/-- What `server_specialize_post` gets from the system. -/
structure Arming where
  javaVm : Bool
  pipe2 : Bool
  sigaction : Bool

/-- The end of `server_specialize_post`. -/
def serverSpecializePost (a : Arming) (s : System) : System :=
  if !a.javaVm then s
  else if s.handler ≠ .default then s
  else if !a.pipe2 || !a.sigaction then s
  else { s with handler := .live }

/-- The end of the context. -/
def contextEnd (s : System) : System := if s.handler = .live then { s with ready := true } else s

/-- A signal is delivered. The pipe takes a byte if there is room, as there is in an empty one. -/
def hotplugSignalHandler (room : Bool) (s : System) : Option System :=
  if s.pending = 0 then none
  else if s.handler = .live then
    some { s with pending := s.pending - 1, pipe := if room || s.pipe = 0 then s.pipe + 1 else s.pipe }
  else some { s with pending := s.pending - 1 }

inductive Poll where
  | ready | interrupted | failed
  deriving DecidableEq

inductive Event where
  | publish (modules : List Daemon.Module)
  | call (name : String) (force : Bool)
  | turn (i : Nat) (joins : Bool) (answer : (op : Op) → Resp op)
  | specialized (a : Arming)
  | contextEnd
  | deliver (room : Bool)
  /-- The hook of `pthread_attr_setstacksize` on the main thread. -/
  | hook (create : Bool)
  | attach (ok : Bool)
  | poll (p : Poll)
  | read
  /-- The daemon answers `ReadModules`, and the worker goes through the reply. -/
  | served (env : Env)
  | refused

/-- `start_live_hotplug_worker` -/
def startLiveHotplugWorker (create : Bool) (s : System) : System :=
  if s.worker = .none ∧ create then { s with worker := .created } else s

def step (s : System) : Event → Option System
  | .publish modules => some { s with modules }
  | .call name force => some { s with calls := s.calls ++ [signalSystemServerHotplug name force] }
  | .turn i joins answer => turn i joins answer s
  | .specialized a => some (serverSpecializePost a s)
  | .contextEnd => some (contextEnd s)
  | .deliver room => hotplugSignalHandler room s
  | .hook create => if s.ready then some (startLiveHotplugWorker create s) else none
  | .attach ok => if s.worker = .created then some { s with worker := if ok then .polling else .gone } else none
  | .poll .ready => if s.worker = .polling ∧ 0 < s.pipe then some { s with worker := .awake } else none
  | .poll .interrupted => if s.worker = .polling then some s else none
  | .poll .failed => if s.worker = .polling then some { s with worker := .gone } else none
  | .read =>
    if s.worker = .awake then
      if s.pipe = 0 then some { s with worker := .polling }
      else some { s with pipe := s.pipe - 64, worker := .asking }
    else none
  | .served env =>
    if s.worker = .asking then some { s with worker := .polling, live := s.live.wake ⟨env, s.modules⟩ } else none
  | .refused =>
    if s.worker = .asking then some { s with worker := .polling, live := s.live.wake ⟨Env.fine, []⟩ } else none

/-- Nothing is under way, and the worker waits. -/
structure AtRest (s : System) : Prop where
  worker : s.worker = .polling
  pending : s.pending = 0
  pipe : s.pipe = 0

/-- The worker asks, and comes back with an answer or without. -/
def Event.requests : Event → Bool
  | served _ | refused => true
  | _ => false

/-- Something comes off what has to be done. -/
def Event.works : Event → Bool
  | deliver _ | attach _ | read | served _ | refused => true
  | poll p => p ≠ .interrupted
  | _ => false

/-- The daemon goes on with a call. -/
def Event.calls : Event → Bool
  | turn .. => true
  | _ => false

/-- What a thread in this place has still to do before it waits or ends. -/
def Worker.weight : Worker → Nat
  | none => 4
  | created => 3
  | asking => 2
  | polling => 1
  | awake | gone => 0

/-! ### Steps -/

/-- All that an event can do. -/
inductive Turn : Event → System → System → Prop where
  | book {e : Event} {s : System} (ready : Bool) (h : e.works = false) : Turn e s { s with ready }
  | publish {s : System} (modules : List Daemon.Module) : Turn (.publish modules) s { s with modules }
  | call {s : System} (name : String) (force : Bool) :
    Turn (.call name force) s { s with calls := s.calls ++ [signalSystemServerHotplug name force] }
  | turn {s : System} {i : Nat} (joins : Bool) {answer : (op : Op) → Resp op} {op : Op} {k : Resp op → Program Bool}
    (hcall : s.calls[i]? = some (.call op k)) (htruth : truthful s op (answer op) = true) :
    Turn (.turn i joins answer) s
      { s with calls := s.calls.set i (k (answer op)), pending := pendingAfter s joins op (answer op) }
  | arm {s : System} (a : Arming) (h : s.handler = .default) : Turn (.specialized a) s { s with handler := .live }
  | deliver {s : System} {room : Bool} (pipe : Nat) (h : 0 < s.pending) (hlive : s.handler = .live → 0 < pipe)
    (hge : s.pipe ≤ pipe) (hle : pipe ≤ s.pipe + 1) :
    Turn (.deliver room) s { s with pending := s.pending - 1, pipe }
  | create {s : System} {c : Bool} (h : s.worker = .none) : Turn (.hook c) s { s with worker := .created }
  | move {e : Event} {s : System} (worker : Worker) (h : e.works = true) (hfrom : s.worker ≠ .asking)
    (hweight : worker.weight < s.worker.weight) (hawake : worker = .awake → 0 < s.pipe) :
    Turn e s { s with worker }
  | read {s : System} (h : 0 < s.pipe) (hworker : s.worker = .awake) :
    Turn .read s { s with pipe := s.pipe - 64, worker := .asking }
  | readNone {s : System} (h : s.pipe = 0) (hworker : s.worker = .awake) : Turn .read s { s with worker := .polling }
  | served {s : System} (env : Env) (hworker : s.worker = .asking) :
    Turn (.served env) s { s with worker := .polling, live := s.live.wake ⟨env, s.modules⟩ }
  | refused {s : System} (hworker : s.worker = .asking) :
    Turn .refused s { s with worker := .polling, live := s.live.wake ⟨Env.fine, []⟩ }

section Steps

variable {s s' : System} {e : Event}

theorem turn_deliver {room : Bool} (h : hotplugSignalHandler room s = some s') : Turn (.deliver room) s s' := by
  unfold hotplugSignalHandler at h
  split at h
  · cases h
  · rename_i hpending
    have hpos := Nat.pos_of_ne_zero hpending
    split at h
    · cases h
      by_cases hroom : (room || decide (s.pipe = 0)) = true
      · rw [if_pos hroom]
        exact .deliver _ hpos (fun _ => Nat.succ_pos _) (Nat.le_succ _) (Nat.le_refl _)
      · rw [if_neg hroom]
        rw [Bool.or_eq_true, decide_eq_true_eq, not_or] at hroom
        exact .deliver _ hpos (fun _ => Nat.pos_of_ne_zero hroom.2) (Nat.le_refl _) (Nat.le_succ _)
    · rename_i hlive
      cases h
      exact .deliver s.pipe hpos (fun heq => absurd heq hlive) (Nat.le_refl _) (Nat.le_succ _)

theorem turn_of_step (h : step s e = some s') : Turn e s s' := by
  cases e with
  | publish modules =>
    cases h
    exact .publish modules
  | call name force =>
    cases h
    exact .call name force
  | turn i joins answer =>
    rw [step, turn] at h
    split at h
    · rename_i op k hcall
      split_ifs at h with htruth
      cases h
      exact .turn joins hcall htruth
    · cases h
  | specialized a =>
    cases h
    unfold serverSpecializePost
    split_ifs with hvm hhandler hsystem
    · exact .book s.ready rfl
    · exact .book s.ready rfl
    · exact .book s.ready rfl
    · exact .arm a (not_not.1 hhandler)
  | contextEnd =>
    cases h
    unfold contextEnd
    split_ifs
    · exact .book true rfl
    · exact .book s.ready rfl
  | deliver room => exact turn_deliver h
  | hook create =>
    rw [step] at h
    split_ifs at h
    cases h
    unfold startLiveHotplugWorker
    split_ifs with hstart
    · exact .create hstart.1
    · exact .book s.ready rfl
  | attach ok =>
    rw [step] at h
    split_ifs at h with hworker hok
    · cases h
      exact .move .polling rfl (by rw [hworker]; decide) (by rw [hworker]; decide) Worker.noConfusion
    · cases h
      exact .move .gone rfl (by rw [hworker]; decide) (by rw [hworker]; decide) Worker.noConfusion
  | poll p =>
    cases p with
    | ready =>
      rw [step] at h
      split_ifs at h with hworker
      cases h
      exact .move .awake rfl (by rw [hworker.1]; decide) (by rw [hworker.1]; decide) fun _ => hworker.2
    | interrupted =>
      rw [step] at h
      split_ifs at h
      cases h
      exact .book s.ready rfl
    | failed =>
      rw [step] at h
      split_ifs at h with hworker
      cases h
      exact .move .gone rfl (by rw [hworker]; decide) (by rw [hworker]; decide) Worker.noConfusion
  | read =>
    rw [step] at h
    split_ifs at h with hworker hpipe
    · cases h
      exact .readNone hpipe hworker
    · cases h
      exact .read (Nat.pos_of_ne_zero hpipe) hworker
  | served env =>
    rw [step] at h
    split_ifs at h with hworker
    cases h
    exact .served env hworker
  | refused =>
    rw [step] at h
    split_ifs at h with hworker
    cases h
    exact .refused hworker

/-! ### Calls of the daemon -/

/-- What an answer says about a process: that it handles the signal. -/
def learns : (op : Op) → Resp op → Int32 → Prop
  | .caughtSignals pid, mask, pid' => pid' = pid ∧ mask.toNat.testBit (hotplugSignal - 1) = true
  | _, _, _ => False

/-- A process gets a signal only after it has been seen to handle it. -/
def catchRules : Prog.Rules Resp (Int32 → Prop) where
  allow caught op := ∀ pid signal name, op = .kill pid signal name → caught pid
  next caught op r caught' := caught' = fun pid => caught pid ∨ learns op r pid

/-- Operations that neither send a signal nor ask for the mask. -/
def Plain : Op → Prop
  | .kill .. | .caughtSignals _ => False
  | _ => True

theorem spec_plain {α : Type} {p : Program α} (h : Prog.Only Plain p) (caught : Int32 → Prop) :
    Prog.Spec catchRules p caught fun _ caught' => caught' = caught := by
  refine Prog.spec_only h fun op hop => ⟨?_, ?_⟩
  · rintro pid signal name rfl
    exact hop.elim
  · rintro r caught' rfl
    have hnothing (pid : Int32) : ¬learns op r pid := by
      cases op <;> first | exact hop.elim | exact id
    funext pid
    exact propext (or_iff_left (hnothing pid))

theorem plain_systemServerReady : Prog.Only Plain systemServerReady :=
  Prog.only_bind (only_perform trivial) fun _ => Prog.only_ite trivial
    (Prog.only_bind (only_perform trivial) fun _ => Prog.only_ite
      (Prog.only_bind (only_perform trivial) fun _ => trivial) trivial)

theorem plain_acquireHotplugLock (use : LockUse) : Prog.Only Plain (acquireHotplugLock use) :=
  Prog.only_bind (only_perform trivial) fun _ => Prog.only_ite (Prog.only_bind (only_perform trivial) fun _ =>
    Prog.only_ite (Prog.only_bind (only_perform trivial) fun _ => Prog.only_ite trivial trivial) trivial) trivial

theorem plain_alreadySignaled (name : String) (force : Bool) (pid : Int32) :
    Prog.Only Plain (alreadySignaled name force pid) :=
  Prog.only_ite trivial (Prog.only_bind (only_perform trivial) fun _ => trivial)

theorem plain_fsWrite (path : FilePath) (data : String) : Prog.Only Plain (fsWrite path data) := by
  refine Prog.only_bind (only_perform trivial) fun opened => ?_
  cases opened with
  | none => trivial
  | some ino => exact Prog.only_ite trivial (only_perform trivial)

/-- A call sends the signal to a process only that it has seen to handle it. -/
theorem spec_signalSystemServerHotplug (name : String) (force : Bool) :
    Prog.Spec catchRules (signalSystemServerHotplug name force) (fun _ => False) fun _ _ => True := by
  refine Prog.spec_seq (spec_plain plain_systemServerReady _) ?_
  rintro ready caught -
  cases ready with
  | false => trivial
  | true =>
    refine Prog.spec_seq (spec_plain (plain_acquireHotplugLock _) _) ?_
    rintro lock caught -
    cases lock with
    | error msg => trivial
    | ok u =>
      refine Prog.spec_seq ?_ fun _ _ (_ : True) => ⟨fun _ _ _ h => Op.noConfusion h, fun _ _ _ => trivial⟩
      have hpidof : Prog.Only Plain pidofSystemServer := only_perform trivial
      refine Prog.spec_seq (spec_plain hpidof _) ?_
      rintro found caught -
      cases found with
      | none => trivial
      | some pid =>
        refine Prog.spec_seq (spec_plain (plain_alreadySignaled name force pid) _) ?_
        rintro already caught -
        cases already with
        | true => trivial
        | false =>
          refine ⟨fun _ _ _ h => Op.noConfusion h, ?_⟩
          rintro (mask : UInt64) _ rfl
          show Prog.Spec catchRules (if mask.toNat.testBit (hotplugSignal - 1) = true then _ else _) _ _
          split_ifs with hbit
          · refine ⟨?_, ?_⟩
            · rintro pid' signal name' h
              cases h
              exact .inr ⟨rfl, hbit⟩
            · rintro (sent : Bool) caught -
              show Prog.Spec catchRules (if sent = true then fsWrite _ _ >>= fun _ => pure true else pure false) _ _
              split_ifs
              · exact Prog.spec_seq (spec_plain (plain_fsWrite _ _) _) fun _ _ _ => trivial
              · trivial
          · trivial

/-! ### Whole runs -/

/-- Signals come to the live handler only, and the worker is awake for something. -/
structure Alert (s : System) : Prop where
  handler : s.handler ≠ .other
  pending : s.handler = .default → s.pending = 0
  awake : s.worker = .awake → 0 < s.pipe
  calls : ∀ p ∈ s.calls, ∃ caught, Prog.Spec catchRules p caught (fun _ _ => True) ∧
    (caught s.pid → s.handler ≠ .default)

theorem alert_start (srv : ServerStart) (modules : List Daemon.Module) (pid : Int32) {handler : Handler}
    (h : handler ≠ .other) : Alert (.start srv modules pid handler) where
  handler := h
  pending _ := rfl
  awake := Worker.noConfusion
  calls _ hp := absurd hp List.not_mem_nil

theorem le_pendingAfter (s : System) (joins : Bool) (op : Op) (r : Resp op) :
    s.pending ≤ pendingAfter s joins op r := by
  unfold pendingAfter
  split
  · split_ifs <;> omega
  · exact Nat.le_refl _

/-- Only the operation that sends the signal adds to what is pending. -/
theorem pendingAfter_eq {joins : Bool} {op : Op} (r : Resp op) (h : ∀ name, op ≠ .kill s.pid hotplugSignal name) :
    pendingAfter s joins op r = s.pending := by
  unfold pendingAfter
  split
  · rename_i pid signal name sent
    refine if_neg fun hsent => h name ?_
    rw [hsent.1, hsent.2.1]
  · rfl

theorem Alert.turn (h : Alert s) (hturn : Turn e s s') : Alert s' := by
  cases hturn with
  | book | publish => exact ⟨h.handler, h.pending, h.awake, h.calls⟩
  | call name force =>
    refine ⟨h.handler, h.pending, h.awake, fun p hp => ?_⟩
    rcases List.mem_append.1 hp with hp | hp
    · exact h.calls p hp
    · rw [List.mem_singleton.1 hp]
      exact ⟨_, spec_signalSystemServerHotplug name force, False.elim⟩
  | @turn _ i joins answer op k hcall htruth =>
    obtain ⟨caught, ⟨hallow, hnext⟩, hcaught⟩ := h.calls _ (List.mem_of_getElem? hcall)
    refine ⟨h.handler, fun hdefault => ?_, h.awake, fun p hp => ?_⟩
    · refine (pendingAfter_eq _ fun name hop => ?_).trans (h.pending hdefault)
      exact hcaught (hallow _ _ _ hop) hdefault
    · rcases List.mem_or_eq_of_mem_set hp with hp | rfl
      · exact h.calls p hp
      · refine ⟨_, hnext _ _ rfl, ?_⟩
        rintro (hold | hlearns)
        · exact hcaught hold
        · cases op with
          | caughtSignals pid =>
            obtain ⟨hpid, hbit⟩ := hlearns
            have hmask : pid ≠ s.pid ∨ s.handler ≠ .default := by simpa [truthful, hbit] using htruth
            exact hmask.resolve_left (not_not.2 hpid.symm)
          | _ => exact hlearns.elim
  | arm =>
    refine ⟨Handler.noConfusion, Handler.noConfusion, h.awake, fun p hp => ?_⟩
    obtain ⟨caught, hspec, -⟩ := h.calls p hp
    exact ⟨caught, hspec, fun _ => Handler.noConfusion⟩
  | deliver pipe hpos _ hge =>
    refine ⟨h.handler, fun hdefault => ?_, fun hawake => Nat.lt_of_lt_of_le (h.awake hawake) hge, h.calls⟩
    exact absurd (h.pending hdefault) (Nat.ne_of_gt hpos)
  | create | read | readNone | served | refused => exact ⟨h.handler, h.pending, Worker.noConfusion, h.calls⟩
  | move _ _ _ _ hawake => exact ⟨h.handler, h.pending, hawake, h.calls⟩

/-- The worker is going to ask. -/
def Owed (s : System) : Prop := s.handler = .live ∧ (0 < s.pending ∨ 0 < s.pipe ∨ s.worker = .asking)

theorem Owed.turn (h : Owed s) (hturn : Turn e s s') : Owed s' ∨ e.requests = true := by
  obtain ⟨hlive, hdue⟩ := h
  cases hturn with
  | book | publish | call => exact .inl ⟨hlive, hdue⟩
  | arm => exact .inl ⟨rfl, hdue⟩
  | turn joins => exact .inl ⟨hlive, hdue.imp_left fun hpos => Nat.lt_of_lt_of_le hpos (le_pendingAfter _ _ _ _)⟩
  | deliver pipe _ hpipe => exact .inl ⟨hlive, .inr (.inl (hpipe hlive))⟩
  | create hnone =>
    refine .inl ⟨hlive, hdue.imp_right fun hdue => .inl (hdue.resolve_right ?_)⟩
    rw [hnone]
    exact Worker.noConfusion
  | move _ _ hfrom => exact .inl ⟨hlive, hdue.imp_right fun hdue => .inl (hdue.resolve_right hfrom)⟩
  | read => exact .inl ⟨hlive, .inr (.inr rfl)⟩
  | readNone hpipe hawake =>
    refine .inl ⟨hlive, .inl (hdue.resolve_right ?_)⟩
    rw [hpipe, hawake]
    rintro (hpos | hasking)
    · exact Nat.lt_irrefl 0 hpos
    · exact Worker.noConfusion hasking
  | served | refused => exact .inr rfl

/-- A module stays listed as long as each new list has it. -/
theorem listed_turn {m : Daemon.Module} (hkeeps : ∀ modules, e = .publish modules → m ∈ modules) (hm : m ∈ s.modules)
    (hturn : Turn e s s') : m ∈ s'.modules := by
  cases hturn with
  | publish modules => exact hkeeps modules rfl
  | book | call | turn | arm | deliver | create | move | read | readNone | served | refused => exact hm

theorem loaded_turn {name : String} (h : name ∈ s.live.hotplugLoaded) (hturn : Turn e s s') :
    name ∈ s'.live.hotplugLoaded := by
  cases hturn with
  | book | publish | call | turn | arm | deliver | create | move | read | readNone => exact h
  | served | refused =>
    rw [wake_eq]
    exact List.mem_append_left _ h

/-- Turns of the worker are wakeups of the live loader. -/
def Woken (srv : ServerStart) (s : System) : Prop := ∃ wakeups, s.live = srv.after wakeups

theorem Woken.turn {srv : ServerStart} (h : Woken srv s) (hturn : Turn e s s') : Woken srv s' := by
  obtain ⟨wakeups, hlive⟩ := h
  have hwake (wk : Wakeup) : ∃ wakeups, s.live.wake wk = srv.after wakeups := by
    refine ⟨wakeups ++ [wk], ?_⟩
    rw [ServerStart.after, List.foldl_concat, hlive]
    rfl
  cases hturn with
  | book | publish | call | turn | arm | deliver | create | move | read | readNone => exact ⟨wakeups, hlive⟩
  | served env => exact hwake ⟨env, s.modules⟩
  | refused => exact hwake ⟨Env.fine, []⟩

end Steps

section Runs

variable {srv : ServerStart} {s s' : System} {es : List Event}

theorem alert_run (hrun : es.foldlM step s = some s') (h : Alert s) : Alert s' :=
  Folds.foldlM_some_invariant (fun _ _ _ h hstep => h.turn (turn_of_step hstep)) h hrun

theorem woken_run (hrun : es.foldlM step s = some s') (h : Woken srv s) : Woken srv s' :=
  Folds.foldlM_some_invariant (fun _ _ _ h hstep => h.turn (turn_of_step hstep)) h hrun

/-- An answer brings what has been listed since a state, if it can be loaded. -/
theorem loaded_of_served {m : Daemon.Module} {env : Env} (hrun : es.foldlM step s = some s') (hm : m ∈ s.modules)
    (hkeeps : ∀ modules, Event.publish modules ∈ es → m ∈ modules) (hserved : Event.served env ∈ es)
    (hload : env.loads m.libFd = true) : m.name ∈ s'.live.hotplugLoaded := by
  obtain ⟨front, back, rfl⟩ := List.append_of_mem hserved
  obtain ⟨t, hfront, hrest⟩ := Folds.foldlM_append_iff.1 hrun
  obtain ⟨u, hstep, hback⟩ := Folds.foldlM_cons_iff.1 hrest
  have hkept : ∀ e ∈ front, ∀ modules, e = Event.publish modules → m ∈ modules := by
    rintro e he modules rfl
    exact hkeeps modules (List.mem_append_left _ he)
  have hlisted : m ∈ t.modules := by
    refine Folds.foldlM_some_invariant_of (fun s => m ∈ s.modules) hkept (fun s e s' hkeeps hm hstep => ?_) hm hfront
    exact listed_turn hkeeps hm (turn_of_step hstep)
  have hnow : m.name ∈ u.live.hotplugLoaded := by
    rw [step] at hstep
    split_ifs at hstep
    cases hstep
    rw [wake_eq]
    by_cases hold : m.name ∈ t.live.hotplugLoaded
    · exact List.mem_append_left _ hold
    · exact List.mem_append_right _ (mem_liveNews hlisted hload hold)
  exact Folds.foldlM_some_invariant (fun _ _ _ h hstep => loaded_turn h (turn_of_step hstep)) hnow hback

theorem owed_of_sends {i : Nat} {joins : Bool} {answer : (op : Op) → Resp op} (h : Alert s) (hsends : Sends s i answer)
    (hstep : step s (.turn i joins answer) = some s') : Owed s' := by
  obtain ⟨name, k, hcall, hsent⟩ := hsends
  obtain ⟨caught, hspec, hcaught⟩ := h.calls _ (List.mem_of_getElem? hcall)
  rw [step, LiveWakeups.turn, hcall] at hstep
  cases hstep
  refine ⟨?_, .inl ?_⟩
  · cases hcase : s.handler with
    | default => exact absurd hcase (hcaught (hspec.1 _ _ _ rfl))
    | live => rfl
    | other => exact absurd hcase h.handler
  · show 0 < pendingAfter s joins (.kill s.pid hotplugSignal name) (answer (.kill s.pid hotplugSignal name))
    rw [hsent, pendingAfter, if_pos ⟨rfl, rfl, rfl⟩]
    split_ifs <;> omega

/-- Whatever happens after a signal, once nothing is under way the worker has asked since. -/
theorem requested_at_rest (howed : Owed s) (hrun : es.foldlM step s = some s') (hrest : AtRest s') :
    (∃ env, Event.served env ∈ es) ∨ Event.refused ∈ es := by
  rcases Folds.foldlM_unless (fun _ _ _ h hstep => h.turn (turn_of_step hstep)) howed hrun with
    ⟨-, hdue⟩ | ⟨e, he, hrequest⟩
  · rw [hrest.pending, hrest.pipe, hrest.worker] at hdue
    rcases hdue with hpos | hpos | hasking
    · exact absurd hpos (Nat.lt_irrefl 0)
    · exact absurd hpos (Nat.lt_irrefl 0)
    · exact Worker.noConfusion hasking
  · cases e with
    | served env => exact .inl ⟨env, he⟩
    | refused => exact .inr he
    | _ => exact absurd hrequest Bool.false_ne_true

/-- Once nothing is under way after a signal, the entry of each module that has been listed ever since and can be loaded
has run, or a loaded node has its name; or no request of the worker has had an answer. No entry has run twice. -/
theorem signalled_loaded {modules : List Daemon.Module} {pid : Int32} {handler : Handler} {front back : List Event}
    {i : Nat} {joins : Bool} {answer : (op : Op) → Resp op} (hfree : handler ≠ .other)
    (hfront : front.foldlM step (.start srv modules pid handler) = some s) (hsends : Sends s i answer)
    (hback : (.turn i joins answer :: back : List Event).foldlM step s = some s') (hrest : AtRest s') :
    s'.live.entries.Nodup ∧
      (((∀ env, Event.served env ∉ back) ∧ Event.refused ∈ back) ∨
        ∀ m ∈ s.modules, (∀ modules, Event.publish modules ∈ back → m ∈ modules) →
          (∀ env, Event.served env ∈ back → env.loads m.libFd = true) →
          m.name ∈ s'.live.entries ∨ ∃ n, Origin.node n ∈ srv.loaded ∧ n.id = m.name) := by
  obtain ⟨wakeups, hlive⟩ := woken_run hback (woken_run hfront ⟨[], rfl⟩)
  obtain ⟨added, hadded⟩ := added_after srv wakeups
  rw [← hlive] at hadded
  obtain ⟨t, hsignal, hrun⟩ := Folds.foldlM_cons_iff.1 hback
  constructor
  · rw [hadded.entries, List.nodup_append]
    refine ⟨nodup_entries srv, hadded.nodup, fun a ha b hb hab => hadded.new b hb ?_⟩
    exact mem_hotplugLoaded.2 (.inl (hab ▸ ha))
  · by_cases hserved : ∃ env, Event.served env ∈ back
    · right
      obtain ⟨env', hserved⟩ := hserved
      intro m hm hkeeps hloads
      have hm' : m ∈ t.modules := listed_turn (fun _ h => Event.noConfusion h) hm (turn_of_step hsignal)
      have hloaded := loaded_of_served hrun hm' hkeeps hserved (hloads env' hserved)
      rw [hadded.loaded] at hloaded
      rw [hadded.entries]
      rcases List.mem_append.1 hloaded with hold | hnew
      · rcases mem_hotplugLoaded.1 hold with hentry | hnode
        · exact .inl (List.mem_append_left _ hentry)
        · exact .inr hnode
      · exact .inl (List.mem_append_right _ hnew)
    · left
      have howed := owed_of_sends (alert_run hfront (alert_start srv modules pid hfree)) hsends hsignal
      refine ⟨fun env' h => hserved ⟨env', h⟩, (requested_at_rest howed hrun hrest).resolve_left hserved⟩

/-! ### Coming to rest -/

/-- What there is to do before everything rests. -/
def work (s : System) : Nat := 5 * s.pending + 4 * s.pipe + s.worker.weight

theorem work_turn {e : Event} (h : Alert s) (hquiet : e.calls = false) (hturn : Turn e s s') :
    work s' + (if e.works then 1 else 0) ≤ work s := by
  unfold work
  cases hturn with
  | book _ hworks =>
    rw [hworks]
    exact Nat.le_refl _
  | publish | call | arm => exact Nat.le_refl _
  | turn => cases hquiet
  | deliver pipe hpos _ _ hle =>
    show 5 * (s.pending - 1) + 4 * pipe + s.worker.weight + 1 ≤ _
    omega
  | create hnone =>
    rw [hnone]
    show 5 * s.pending + 4 * s.pipe + 3 + 0 ≤ _ + 4
    omega
  | move worker hworks _ hweight =>
    rw [hworks]
    show 5 * s.pending + 4 * s.pipe + worker.weight + 1 ≤ _
    omega
  | read hpipe hawake =>
    rw [hawake]
    show 5 * s.pending + 4 * (s.pipe - 64) + 2 + 1 ≤ _ + 0
    omega
  | readNone hpipe hawake => exact absurd (h.awake hawake) (Nat.not_lt.2 (Nat.le_of_eq hpipe))
  | served | refused =>
    rename_i hasking
    rw [hasking]
    show 5 * s.pending + 4 * s.pipe + 1 + 1 ≤ _ + 2
    omega

/-- Nothing goes on of itself; that waiting fails does not count. -/
def Stuck (s : System) : Prop := ∀ e : Event, e.works = true → e ≠ .poll .failed → step s e = none

theorem stuck_cases (h : Stuck s) : AtRest s ∨ s.pending = 0 ∧ (s.worker = .none ∨ s.worker = .gone) := by
  have hpending : s.pending = 0 := by
    have hdeliver := h (.deliver true) rfl Event.noConfusion
    rw [step, hotplugSignalHandler] at hdeliver
    split_ifs at hdeliver
    assumption
  cases hworker : s.worker with
  | none => exact .inr ⟨hpending, .inl rfl⟩
  | gone => exact .inr ⟨hpending, .inr rfl⟩
  | created =>
    have hattach := h (.attach true) rfl Event.noConfusion
    rw [step, if_pos hworker] at hattach
    cases hattach
  | asking =>
    have hserved := h (.served Env.fine) rfl Event.noConfusion
    rw [step, if_pos hworker] at hserved
    cases hserved
  | awake =>
    have hread := h .read rfl Event.noConfusion
    rw [step, if_pos hworker] at hread
    split_ifs at hread
  | polling =>
    have hready := h (.poll .ready) rfl fun heq => Poll.noConfusion (Event.poll.inj heq)
    rw [step] at hready
    refine .inl ⟨hworker, hpending, ?_⟩
    by_contra hpipe
    rw [if_pos ⟨hworker, Nat.pos_of_ne_zero hpipe⟩] at hready
    cases hready

/-- While no call of the daemon goes on, only so much happens; and where nothing goes on, everything rests, or there is
no worker to wake. -/
theorem work_bounded {modules : List Daemon.Module} {pid : Int32} {handler : Handler} {front : List Event}
    (hfree : handler ≠ .other) (hfront : front.foldlM step (.start srv modules pid handler) = some s)
    (hquiet : ∀ e ∈ es, e.calls = false) (hrun : es.foldlM step s = some s') :
    es.countP Event.works ≤ work s ∧
      (Stuck s' → AtRest s' ∨ s'.pending = 0 ∧ (s'.worker = .none ∨ s'.worker = .gone)) := by
  have halert := alert_run hfront (alert_start srv modules pid hfree)
  have hcount := Folds.countP_le_of_foldlM hquiet (fun _ _ _ _ h hstep => Alert.turn h (turn_of_step hstep))
    (fun _ _ _ hquiet h hstep => work_turn h hquiet (turn_of_step hstep)) halert hrun
  exact ⟨Nat.le_trans (Nat.le_add_left _ _) hcount, stuck_cases⟩

end Runs

/-! ### One module, one signal -/

def lone : Daemon.Module := ⟨"a", ⟨librarySo (activeDir "a") "arm64-v8a", .empty⟩⟩

def bare : ServerStart := ⟨fun _ => true, [], [], List.nodup_nil⟩

/-- The process 1000 handles the signal, and the lock can be taken. -/
def obliging : (op : Op) → Resp op
  | .systemServerUp | .createDirAll _ | .openKeep _ | .flock _ | .kill _ _ _ => true
  | .pidofSystemServer => some 1000
  | .caughtSignals _ => 0x8000000000
  | op => answers .empty op

/-- The worker waits, and a call of the daemon is about to send the signal. -/
def begins : List Event :=
  [.specialized ⟨true, true, true⟩, .contextEnd, .hook true, .attach true, .call "a" true] ++
    List.replicate 6 (.turn 0 false obliging)

/-- What becomes of it. -/
def goesOn : List Event := [.deliver true, .poll .ready, .read, .served Env.fine]

def waiting : System := ((begins.foldlM step (.start bare [lone] 1000 .default)).getD
  (.start bare [lone] 1000 .default))

def served : System := ((.turn 0 false obliging :: goesOn : List Event).foldlM step waiting).getD waiting

theorem run_begins : begins.foldlM step (.start bare [lone] 1000 .default) = some waiting := rfl

theorem run_goesOn : (.turn 0 false obliging :: goesOn : List Event).foldlM step waiting = some served := rfl

theorem sends_waiting : Sends waiting 0 obliging := ⟨"a", _, rfl, rfl⟩

def signalled : System := (step waiting (.turn 0 false obliging)).getD waiting

theorem run_signalled : (begins ++ [Event.turn 0 false obliging]).foldlM step (.start bare [lone] 1000 .default) =
    some signalled := rfl

theorem signalled_loaded_lone : served.live.entries.Nodup :=
  (signalled_loaded Handler.noConfusion run_begins sends_waiting run_goesOn ⟨rfl, rfl, rfl⟩).1

theorem work_bounded_lone : goesOn.countP Event.works ≤ 6 := by
  have hquiet : ∀ e ∈ goesOn, e.calls = false := by simp [goesOn, Event.calls]
  have hrun : goesOn.foldlM step signalled = some served := rfl
  exact (work_bounded Handler.noConfusion run_signalled hquiet hrun).1

end OnyxZygisk.Loader.LiveWakeups

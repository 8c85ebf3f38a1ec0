import OnyxZygisk.Monitor.CrashLoop

/-!
# The two crash-loop counters

`Monitor` of zigcore counts the starts of the zygote like `ZygoteAbiManager`, but it keeps no time between
an injection and the first start after it, and it reports a loop only on a start it counts. Driven by the
same events the two always answer the same (`crashLoop_agree`): the flag of the manager is never down while
its count is past the limit.
-/

namespace OnyxZygisk.Monitor

/-! ### The Zig monitor -/

structure CrashPolicy where
  windowSeconds : Int
  retryCount : Nat
  deriving DecidableEq, Repr

/-- The crash-loop part of zigcore's `Monitor`; the count is a `u32`, the time an `i64`. -/
structure ZigMonitor where
  crashCount : Nat
  lastRestartSeconds : Option Int
  policy : CrashPolicy
  deriving DecidableEq, Repr

namespace ZigMonitor

def initial : ZigMonitor := ⟨0, none, ⟨30, 5⟩⟩

/-- `+|` -/
def saturatingSucc (n : Nat) : Nat := min (n + 1) (2 ^ 32 - 1)

def recordZygoteRestart (m : ZigMonitor) (nowSeconds : Int) (wasRunning : Bool) : Bool × ZigMonitor :=
  if !wasRunning then (false, m)
  else
    let crashCount :=
      match m.lastRestartSeconds with
      | some last =>
        if nowSeconds < last || nowSeconds - last ≥ m.policy.windowSeconds then 1
        else saturatingSucc m.crashCount
      | none => 1
    (decide (crashCount ≥ m.policy.retryCount),
      { m with crashCount := crashCount, lastRestartSeconds := some nowSeconds })

def notifyInjected (m : ZigMonitor) : ZigMonitor := { m with crashCount := 0, lastRestartSeconds := none }

end ZigMonitor

/-! ### Both on the same events -/

/-- The calls of a `ZygoteAbiManager`. -/
inductive AbiEvent where
  | zygoteExec (now : Timespec) (fork : Int)
  | injected
  | daemonExit (pid : Int) (statusStr : String)
  | daemonCrashed (error : String)
  | daemonInfo (info : String)

def AbiEvent.time : AbiEvent → Option Timespec
  | zygoteExec now _ => some now
  | _ => none

/-- What the two answer to a start, and the two afterwards. -/
def lockstep (z : ZygoteAbiManager) (m : ZigMonitor) :
    AbiEvent → Option (Bool × Bool) × ZygoteAbiManager × ZigMonitor
  | .zygoteExec now fork =>
    let (zig, m') := m.recordZygoteRestart now.tvSec z.status.zygoteInjected
    (some ((z.isInCrashLoop now).1, zig), (z.checkAndPrepareInjection now fork).2, m')
  | .injected => (none, z.notifyInjected, m.notifyInjected)
  | .daemonExit pid statusStr => (none, z.handleDaemonExitIfMatch pid statusStr, m)
  | .daemonCrashed error => (none, z.setDaemonCrashed error, m)
  | .daemonInfo info => (none, z.setDaemonInfo info, m)

/-- The answers of a run. -/
def answers (z : ZygoteAbiManager) (m : ZigMonitor) : List AbiEvent → List (Bool × Bool)
  | [] => []
  | e :: es =>
    let (answer, z', m') := lockstep z m e
    answer.toList ++ answers z' m' es

/-- The clock does not go back. -/
def Monotonic (es : List AbiEvent) : Prop := (es.filterMap AbiEvent.time).Pairwise Timespec.le

/-! ### The invariant -/

/-- The counts agree up to saturation, the times where there is a count, and a flag that is down stands
with a count below the limit. -/
structure Agree (z : ZygoteAbiManager) (m : ZigMonitor) : Prop where
  policy : m.policy = ⟨30, 5⟩
  nonneg : 0 ≤ z.counter.count
  count : m.crashCount = min z.counter.count.toNat (2 ^ 32 - 1)
  last : m.lastRestartSeconds = if z.counter.count = 0 then none else some z.counter.lastStartTime.tvSec
  flag : z.status.zygoteInjected = false → z.counter.count < crashLoopRetryCount

/-- The last counted start is not after the time. -/
def NotAfter (z : ZygoteAbiManager) (now : Timespec) : Prop :=
  z.counter.count ≠ 0 → z.counter.lastStartTime.tvSec ≤ now.tvSec

variable {z z' : ZygoteAbiManager} {m : ZigMonitor} {now t : Timespec} {fork : Int}

theorem Timespec.le.tvSec (h : t.le now) : t.tvSec ≤ now.tvSec := by
  rcases h with h | ⟨h, -⟩ <;> omega

/-- What keeps the counter and never takes the flag down keeps the agreement. -/
theorem Agree.frame (h : Agree z m) (hcounter : z'.counter = z.counter)
    (hflag : z'.status.zygoteInjected = z.status.zygoteInjected) : Agree z' m where
  policy := h.policy
  nonneg := by rw [hcounter]; exact h.nonneg
  count := by rw [hcounter]; exact h.count
  last := by rw [hcounter]; exact h.last
  flag := by rw [hcounter, hflag]; exact h.flag

theorem Agree.injected (h : Agree z m) : Agree z.notifyInjected m.notifyInjected where
  policy := h.policy
  nonneg := Int.le_refl 0
  count := rfl
  last := rfl
  flag hflag := absurd hflag (by simp [ZygoteAbiManager.notifyInjected])

/-- The count after a start, where the clock has not gone back. -/
theorem count_restart (hnow : NotAfter z now) : (z.counter.restart now).count =
    if z.counter.count ≠ 0 ∧ now.tvSec - z.counter.lastStartTime.tvSec < 30 then z.counter.count + 1
    else 1 := by
  unfold StartCounter.restart crashLoopWindowSeconds
  split_ifs <;> simp only <;> omega

theorem time_restart (c : StartCounter) (now : Timespec) : (c.restart now).lastStartTime = now := by
  unfold StartCounter.restart
  split_ifs <;> rfl

/-- The Zig count after a start that counts. -/
theorem Agree.count_record (h : Agree z m) (hnow : NotAfter z now) :
    (m.recordZygoteRestart now.tvSec true).2.crashCount =
      min (z.counter.restart now).count.toNat (2 ^ 32 - 1) := by
  have hnonneg := h.nonneg
  rw [count_restart hnow]
  by_cases hzero : z.counter.count = 0
  · have hlast : m.lastRestartSeconds = none := by rw [h.last, if_pos hzero]
    simp [ZigMonitor.recordZygoteRestart, hlast, hzero]
  · have hlast : m.lastRestartSeconds = some z.counter.lastStartTime.tvSec := by rw [h.last, if_neg hzero]
    have hle := hnow hzero
    simp only [ZigMonitor.recordZygoteRestart, Bool.not_true, Bool.false_eq_true, if_false, hlast, h.policy,
      h.count, ZigMonitor.saturatingSucc, Bool.or_eq_true, decide_eq_true_eq]
    split_ifs <;> omega

/-- A start after an injected generation: both count it and answer the same. -/
theorem Agree.record (h : Agree z m) (hnow : NotAfter z now) (hflag : z.status.zygoteInjected = true) :
    (z.isInCrashLoop now).1 = (m.recordZygoteRestart now.tvSec true).1 := by
  have hcount := h.count_record hnow
  have hanswer : (m.recordZygoteRestart now.tvSec true).1 =
      decide ((m.recordZygoteRestart now.tvSec true).2.crashCount ≥ 5) := by
    simp only [ZigMonitor.recordZygoteRestart, h.policy, Bool.not_true, Bool.false_eq_true, if_false]
  rw [hanswer, hcount]
  simp only [ZygoteAbiManager.isInCrashLoop, hflag, if_true, crashLoopRetryCount, decide_eq_decide]
  omega

/-- A start that does not count: the manager's count is below the limit. -/
theorem Agree.unrecorded (h : Agree z m) (hflag : z.status.zygoteInjected = false) :
    (z.isInCrashLoop now).1 = false := by
  have hlimit := h.flag hflag
  simp only [ZygoteAbiManager.isInCrashLoop, hflag, Bool.false_eq_true, if_false, decide_eq_false_iff_not]
  omega

/-- The flag goes down with a count below the limit only. -/
theorem flag_check (hflag : (z.checkAndPrepareInjection now fork).2.status.zygoteInjected = false) :
    z.status.zygoteInjected = false ∨
      (z.checkAndPrepareInjection now fork).2.counter.count < crashLoopRetryCount := by
  rw [check_counter]
  unfold ZygoteAbiManager.checkAndPrepareInjection at hflag
  cases hcheck : z.isInCrashLoop now with
  | mk crashLoop z₁ =>
    simp only [hcheck] at hflag
    obtain ⟨hloop, rfl⟩ := Prod.mk.inj hcheck
    cases crashLoop with
    | true =>
      left
      simpa using hflag
    | false =>
      right
      have hlimit := of_decide_eq_false hloop
      omega

theorem Agree.exec (h : Agree z m) (hnow : NotAfter z now) :
    (z.isInCrashLoop now).1 = (m.recordZygoteRestart now.tvSec z.status.zygoteInjected).1 ∧
      Agree (z.checkAndPrepareInjection now fork).2
        (m.recordZygoteRestart now.tvSec z.status.zygoteInjected).2 := by
  have hcounter := check_counter z now fork
  cases hflag : z.status.zygoteInjected with
  | false =>
    rw [hflag, if_neg Bool.false_ne_true] at hcounter
    refine ⟨h.unrecorded hflag, ⟨h.policy, ?_, ?_, ?_, fun _ => ?_⟩⟩ <;> rw [hcounter]
    · exact h.nonneg
    · exact h.count
    · exact h.last
    · exact h.flag hflag
  | true =>
    rw [hflag, if_pos rfl] at hcounter
    have hpos : 0 < (z.counter.restart now).count := by
      have hnonneg := h.nonneg
      rw [count_restart hnow]
      split_ifs <;> omega
    refine ⟨h.record hnow hflag, ⟨?_, ?_, ?_, ?_, fun hdown => ?_⟩⟩
    · simp only [ZigMonitor.recordZygoteRestart, Bool.not_true, Bool.false_eq_true, if_false, h.policy]
    · rw [hcounter]
      omega
    · rw [hcounter]
      exact h.count_record hnow
    · rw [hcounter, if_neg (by omega), time_restart]
      simp only [ZigMonitor.recordZygoteRestart, Bool.not_true, Bool.false_eq_true, if_false]
    · rcases flag_check hdown with hwas | hlimit
      · rw [hflag] at hwas
        exact absurd hwas (by simp)
      · exact hlimit

/-! ### Runs -/

/-- One event keeps the agreement. -/
theorem Agree.step (h : Agree z m) {e : AbiEvent} (hnow : ∀ t ∈ e.time, NotAfter z t) :
    (∀ a ∈ (lockstep z m e).1, a.1 = a.2) ∧ Agree (lockstep z m e).2.1 (lockstep z m e).2.2 := by
  cases e with
  | zygoteExec now fork =>
    obtain ⟨hanswer, hagree⟩ : _ ∧ Agree (z.checkAndPrepareInjection now fork).2 _ := h.exec (hnow now rfl)
    refine ⟨?_, hagree⟩
    intro a ha
    obtain rfl := Option.some.inj ha
    exact hanswer
  | injected => exact ⟨by simp [lockstep], h.injected⟩
  | daemonExit pid statusStr =>
    refine ⟨by simp [lockstep], h.frame (handleDaemonExit_counter z pid statusStr) ?_⟩
    show (z.handleDaemonExitIfMatch pid statusStr).status.zygoteInjected = _
    unfold ZygoteAbiManager.handleDaemonExitIfMatch
    split_ifs <;> rfl
  | daemonCrashed error => exact ⟨by simp [lockstep], h.frame rfl rfl⟩
  | daemonInfo info => exact ⟨by simp [lockstep], h.frame rfl rfl⟩

/-- The last counted start is not after what follows. -/
theorem notAfter_step {e : AbiEvent} (hnow : ∀ t ∈ e.time, t.tvSec ≤ now.tvSec) (h : NotAfter z now) :
    NotAfter (lockstep z m e).2.1 now := by
  cases e with
  | zygoteExec t fork =>
    show NotAfter (z.checkAndPrepareInjection t fork).2 now
    unfold NotAfter
    rw [check_counter]
    split_ifs
    · rw [time_restart]
      exact fun _ => hnow t rfl
    · exact h
  | injected => exact fun hzero => absurd rfl hzero
  | daemonExit pid statusStr =>
    show NotAfter (z.handleDaemonExitIfMatch pid statusStr) now
    unfold NotAfter
    rw [handleDaemonExit_counter]
    exact h
  | daemonCrashed error => exact h
  | daemonInfo info => exact h

theorem Agree.run {es : List AbiEvent} (h : Agree z m) (hes : Monotonic es)
    (hnow : ∀ t ∈ es.filterMap AbiEvent.time, NotAfter z t) : ∀ a ∈ answers z m es, a.1 = a.2 := by
  induction es generalizing z m with
  | nil => exact fun a ha => absurd ha List.not_mem_nil
  | cons e es ih =>
    have htail : Monotonic es := hes.sublist ((List.sublist_cons_self e es).filterMap _)
    have hfirst : ∀ t ∈ e.time, NotAfter z t ∧ ∀ now ∈ es.filterMap AbiEvent.time, t.le now := by
      intro t ht
      have hcons : (e :: es).filterMap AbiEvent.time = t :: es.filterMap AbiEvent.time :=
        List.filterMap_cons_some ht
      rw [Monotonic, hcons] at hes
      refine ⟨hnow t ?_, (List.pairwise_cons.1 hes).1⟩
      rw [hcons]
      exact List.mem_cons_self
    obtain ⟨hanswer, hagree⟩ := h.step fun t ht => (hfirst t ht).1
    intro a ha
    rcases List.mem_append.1 ha with ha | ha
    · exact hanswer a (Option.mem_toList.1 ha)
    · refine ih hagree htail ?_ a ha
      intro now hlater
      refine notAfter_step (fun t ht => ((hfirst t ht).2 now hlater).tvSec) (hnow now ?_)
      exact ((List.sublist_cons_self e es).filterMap _).subset hlater

/-- The manager reports a crash loop exactly when zigcore's monitor does. -/
theorem crashLoop_agree (tracerPath : String) {es : List AbiEvent} (hes : Monotonic es) :
    ∀ a ∈ answers (AppMonitor.initial tracerPath).zygote .initial es, a.1 = a.2 := by
  have hstart : Agree (AppMonitor.initial tracerPath).zygote .initial := by
    refine ⟨rfl, Int.le_refl 0, rfl, rfl, fun _ => ?_⟩
    show (0 : Int) < 5
    decide
  exact hstart.run hes fun t _ hzero => absurd rfl hzero

/-- An injection, a start that counts, four more, and one that finds no daemon. -/
def startsInARow : List AbiEvent :=
  .zygoteExec ⟨100, 0⟩ 7 :: .injected ::
    [101, 102, 103, 104, 105].map fun second => .zygoteExec ⟨second, 0⟩ 7

theorem crashLoop_agree_inARow :
    answers (AppMonitor.initial "tracer").zygote .initial startsInARow =
        [(false, false), (false, false), (false, false), (false, false), (false, false), (true, true)] ∧
      ∀ a ∈ answers (AppMonitor.initial "tracer").zygote .initial startsInARow, a.1 = a.2 := by
  refine ⟨by decide, crashLoop_agree "tracer" ?_⟩
  show [_, _, _, _, _, _].Pairwise Timespec.le
  simp [Timespec.le]

end OnyxZygisk.Monitor

import OnyxZygisk.Monitor.AppMonitor

/-!
# The crash-loop breaker

A start of the zygote is counted when the generation before it had been injected, and every injection
takes the count back to zero. So a zygote that is injected and dies again and again is never counted past
one (`injectedLoop_injects_again`); what the breaker stops is a zygote that, after an injected generation,
starts five times without getting that far again (`staleLoop_stops`).
-/

namespace OnyxZygisk.Monitor

variable {tracer : String}

def Event.isExec : Event → Bool
  | .zygoteExec _ _ => true
  | _ => false

/-- Less than the window later. -/
def Timespec.within (t now : Timespec) : Prop :=
  now.tvSec < t.tvSec + crashLoopWindowSeconds ∨
    now.tvSec = t.tvSec + crashLoopWindowSeconds ∧ now.tvNsec < t.tvNsec

def Timespec.le (t now : Timespec) : Prop :=
  t.tvSec < now.tvSec ∨ t.tvSec = now.tvSec ∧ t.tvNsec ≤ now.tvNsec

/-- The run ends with the `k`-th zygote start in a row that replaces an injected generation less than the
window after the start of that generation; it happens at `now`. -/
inductive InjectedLoop (tracer : String) : Nat → Timespec → List Event → Prop where
  | first {es : List Event} {now : Timespec} {fork : Int}
      (hseen : ((AppMonitor.initial tracer).run es).tracingState = .tracing) :
      InjectedLoop tracer 0 now (es ++ [.zygoteExec now fork])
  | next {k : Nat} {t now : Timespec} {es gap : List Event} {fork : Int}
      (h : InjectedLoop tracer k t es) (hgap : ∀ e ∈ gap, e.isExec = false)
      (hinjected : .zygoteInjected ∈ gap) (hle : t.le now) (hwithin : t.within now)
      (hseen : ((AppMonitor.initial tracer).run (es ++ gap)).tracingState = .tracing) :
      InjectedLoop tracer (k + 1) now (es ++ gap ++ [.zygoteExec now fork])

/-- The run ends with the `k`-th zygote start in a row that finds the injected flag set, with no further
injection since the first of them, each less than the window after the one before by the seconds of the
clock. -/
inductive StaleLoop (tracer : String) : Nat → Timespec → List Event → Prop where
  | first {es : List Event} {now : Timespec} {fork : Int}
      (hseen : ((AppMonitor.initial tracer).run es).tracingState = .tracing)
      (hflag : ((AppMonitor.initial tracer).run es).zygote.status.zygoteInjected = true) :
      StaleLoop tracer 1 now (es ++ [.zygoteExec now fork])
  | next {k : Nat} {t now : Timespec} {es gap : List Event} {fork : Int}
      (h : StaleLoop tracer k t es) (hgap : ∀ e ∈ gap, e.isExec = false)
      (hinjected : .zygoteInjected ∉ gap) (hwithin : now.tvSec - t.tvSec < crashLoopWindowSeconds)
      (hseen : ((AppMonitor.initial tracer).run (es ++ gap)).tracingState = .tracing)
      (hflag : ((AppMonitor.initial tracer).run (es ++ gap)).zygote.status.zygoteInjected = true) :
      StaleLoop tracer (k + 1) now (es ++ gap ++ [.zygoteExec now fork])

/-- After the run `es`, a start at `now` gets no injector and a stop is requested. -/
def Stops (tracer : String) (es : List Event) (now : Timespec) (fork : Int) : Prop :=
  (((AppMonitor.initial tracer).run es).handleExecEvent now fork).1 = none ∧
    ((AppMonitor.initial tracer).run (es ++ [.zygoteExec now fork])).tracingState = .stopping

/-! ### The counter -/

theorem requestStop_zygote (m : AppMonitor) (reason : String) :
    (m.requestStop reason).zygote = m.zygote := by
  unfold AppMonitor.requestStop
  split_ifs <;> rfl

theorem requestStart_zygote (m : AppMonitor) : m.requestStart.zygote = m.zygote := by
  unfold AppMonitor.requestStart
  split_ifs <;> rfl

theorem handleDaemonExit_counter (z : ZygoteAbiManager) (pid : Int) (statusStr : String) :
    (z.handleDaemonExitIfMatch pid statusStr).counter = z.counter := by
  unfold ZygoteAbiManager.handleDaemonExitIfMatch
  split_ifs <;> rfl

theorem ensureDaemonCreated_counter (z : ZygoteAbiManager) (fork : Int) :
    (z.ensureDaemonCreated fork).2.counter = z.counter := by
  unfold ZygoteAbiManager.ensureDaemonCreated
  split_ifs <;> rfl

/-- Only starts and injections change the counter. -/
theorem step_counter {m : AppMonitor} {e : Event} (hexec : e.isExec = false)
    (hinj : e ≠ .zygoteInjected) : (m.step e).zygote.counter = m.zygote.counter := by
  cases e with
  | start => exact congrArg _ (requestStart_zygote m)
  | stop => exact congrArg _ (requestStop_zygote m _)
  | exit => rfl
  | zygoteInjected => exact absurd rfl hinj
  | daemonSetInfo info => rfl
  | daemonSetErrorInfo error => rfl
  | systemServerStarted => rfl
  | zygoteExec now fork => exact absurd hexec (by simp [Event.isExec])
  | childExit pid statusStr => exact handleDaemonExit_counter _ _ _
  | initPaused =>
    simp only [AppMonitor.step]
    split_ifs <;> rfl

theorem run_counter {m : AppMonitor} {gap : List Event} (hgap : ∀ e ∈ gap, e.isExec = false)
    (hinj : .zygoteInjected ∉ gap) : (m.run gap).zygote.counter = m.zygote.counter := by
  induction gap generalizing m with
  | nil => rfl
  | cons e gap ih =>
    rw [AppMonitor.run_cons, ih (fun e' he' => hgap e' (List.mem_cons_of_mem e he')) fun h =>
      hinj (List.mem_cons_of_mem e h)]
    refine step_counter (hgap e List.mem_cons_self) ?_
    rintro rfl
    exact hinj List.mem_cons_self

/-- What one start does to the counter. -/
theorem check_counter (z : ZygoteAbiManager) (now : Timespec) (fork : Int) :
    (z.checkAndPrepareInjection now fork).2.counter =
      if z.status.zygoteInjected then z.counter.restart now else z.counter := by
  unfold ZygoteAbiManager.checkAndPrepareInjection
  simp only [ZygoteAbiManager.isInCrashLoop]
  split_ifs <;> simp [ensureDaemonCreated_counter]

/-- A start the monitor sees while it is tracing. -/
theorem exec_seen {m : AppMonitor} (hseen : m.tracingState = .tracing) (now : Timespec)
    (fork : Int) : m.handleExecEvent now fork =
      match m.zygote.checkAndPrepareInjection now fork with
      | (.ok path, z) => (some path, { m with zygote := z })
      | (.error reason, z) => (none, { m with zygote := z }.requestStop reason) := by
  unfold AppMonitor.handleExecEvent
  exact if_neg (not_not.2 hseen)

theorem exec_counter {m : AppMonitor} (hseen : m.tracingState = .tracing) (now : Timespec)
    (fork : Int) : (m.step (.zygoteExec now fork)).zygote.counter =
      if m.zygote.status.zygoteInjected then m.zygote.counter.restart now else m.zygote.counter := by
  show (m.handleExecEvent now fork).2.zygote.counter = _
  rw [← check_counter m.zygote now fork, exec_seen hseen]
  rcases m.zygote.checkAndPrepareInjection now fork with ⟨reason | path, z⟩
  · exact congrArg _ (requestStop_zygote _ _)
  · rfl

theorem exec_unseen {m : AppMonitor} (hseen : m.tracingState ≠ .tracing) (now : Timespec)
    (fork : Int) : m.step (.zygoteExec now fork) = m := by
  show (m.handleExecEvent now fork).2 = m
  unfold AppMonitor.handleExecEvent
  rw [if_pos hseen]

theorem restart_count (c : StartCounter) (now : Timespec) :
    (c.restart now).lastStartTime = now ∧
      ((c.restart now).count = c.count + 1 ∨ (c.restart now).count = 1) := by
  unfold StartCounter.restart
  split_ifs
  · exact ⟨rfl, .inl rfl⟩
  · exact ⟨rfl, .inr rfl⟩

theorem restart_within {c : StartCounter} {now : Timespec}
    (h : now.tvSec - c.lastStartTime.tvSec < crashLoopWindowSeconds) :
    (c.restart now).count = c.count + 1 := by
  unfold StartCounter.restart
  rw [if_pos h]

theorem step_count_nonneg {m : AppMonitor} (h : 0 ≤ m.zygote.counter.count) (e : Event) :
    0 ≤ (m.step e).zygote.counter.count := by
  by_cases hexec : e.isExec = true
  · cases e with
    | zygoteExec now fork =>
      by_cases hseen : m.tracingState = .tracing
      · rw [exec_counter hseen]
        split_ifs
        · rcases (restart_count m.zygote.counter now).2 with hc | hc <;> omega
        · exact h
      · rw [exec_unseen hseen]
        exact h
    | _ => exact absurd hexec (by simp [Event.isExec])
  · by_cases hinj : e = .zygoteInjected
    · subst hinj
      exact Int.le_refl 0
    · rw [step_counter (by simpa using hexec) hinj]
      exact h

theorem run_count_nonneg (tracer : String) (es : List Event) :
    0 ≤ ((AppMonitor.initial tracer).run es).zygote.counter.count := by
  have hrun : ∀ m : AppMonitor, 0 ≤ m.zygote.counter.count →
      0 ≤ (m.run es).zygote.counter.count := by
    induction es with
    | nil => exact fun _ h => h
    | cons e es ih => exact fun m h => ih _ (step_count_nonneg h e)
  exact hrun _ (Int.le_refl 0)

/-! ### A start is refused when the counter is full -/

theorem check_crashed {z : ZygoteAbiManager} {now : Timespec} {fork : Int}
    (hcount : crashLoopRetryCount ≤ (z.checkAndPrepareInjection now fork).2.counter.count) :
    (z.checkAndPrepareInjection now fork).1 = .error "zygote crashed" := by
  rw [check_counter] at hcount
  have hloop : (z.isInCrashLoop now).1 = true := decide_eq_true hcount
  unfold ZygoteAbiManager.checkAndPrepareInjection
  generalize z.isInCrashLoop now = c at hloop
  obtain ⟨crashLoop, z₁⟩ := c
  obtain rfl : crashLoop = true := hloop
  rfl

theorem exec_stops {m : AppMonitor} (hseen : m.tracingState = .tracing) {now : Timespec} {fork : Int}
    (hcount : crashLoopRetryCount ≤ (m.step (.zygoteExec now fork)).zygote.counter.count) :
    (m.handleExecEvent now fork).1 = none ∧
      (m.step (.zygoteExec now fork)).tracingState = .stopping ∧
      (m.step (.zygoteExec now fork)).monitorStopReason = "zygote crashed" := by
  rw [exec_counter hseen, ← check_counter m.zygote now fork] at hcount
  have hcrashed := check_crashed hcount
  show _ ∧ (m.handleExecEvent now fork).2.tracingState = _ ∧
    (m.handleExecEvent now fork).2.monitorStopReason = _
  rw [exec_seen hseen]
  generalize m.zygote.checkAndPrepareInjection now fork = c at hcrashed
  obtain ⟨r, z⟩ := c
  obtain rfl : r = .error "zygote crashed" := hcrashed
  simp [AppMonitor.requestStop, hseen]

/-! ### Starts without an injection in between -/

/-- The counter keeps up with the starts. -/
theorem StaleLoop.counter {k : Nat} {t : Timespec} {es : List Event} (h : StaleLoop tracer k t es) :
    (k : Int) ≤ ((AppMonitor.initial tracer).run es).zygote.counter.count ∧
      ((AppMonitor.initial tracer).run es).zygote.counter.lastStartTime = t := by
  induction h with
  | @first es now fork hseen hflag =>
    have hnonneg := run_count_nonneg tracer es
    rw [AppMonitor.run_append, AppMonitor.run_cons, AppMonitor.run_nil, exec_counter hseen,
      if_pos hflag]
    obtain ⟨hlast, hc | hc⟩ := restart_count ((AppMonitor.initial tracer).run es).zygote.counter now
    · refine ⟨?_, hlast⟩
      rw [hc]
      push_cast
      omega
    · refine ⟨?_, hlast⟩
      rw [hc]
      exact Int.le_refl 1
  | @next k t now es gap fork _ hgap hinj hwithin hseen hflag ih =>
    obtain ⟨hcount, hlast⟩ := ih
    have hsame : ((AppMonitor.initial tracer).run (es ++ gap)).zygote.counter =
        ((AppMonitor.initial tracer).run es).zygote.counter := by
      rw [AppMonitor.run_append]
      exact run_counter hgap hinj
    rw [AppMonitor.run_append _ (es ++ gap), AppMonitor.run_cons, AppMonitor.run_nil,
      exec_counter hseen, if_pos hflag, hsame]
    refine ⟨?_, (restart_count _ now).1⟩
    rw [restart_within (by rw [hlast]; exact hwithin)]
    push_cast
    omega

theorem StaleLoop.seen {k : Nat} {t : Timespec} {es : List Event} {now : Timespec} {fork : Int}
    (h : StaleLoop tracer k t (es ++ [.zygoteExec now fork])) :
    ((AppMonitor.initial tracer).run es).tracingState = .tracing := by
  generalize hes : es ++ [.zygoteExec now fork] = es' at h
  cases h with
  | first hseen _ => exact (List.append_inj' hes rfl).1 ▸ hseen
  | next _ _ _ _ hseen _ => exact (List.append_inj' hes rfl).1 ▸ hseen

/-- The fifth start that finds the flag of an injected generation, with no injection since the first of
them, is refused. -/
theorem staleLoop_stops {now : Timespec} {es : List Event} {fork : Int}
    (h : StaleLoop tracer 5 now (es ++ [.zygoteExec now fork])) : Stops tracer es now fork := by
  have hcount := h.counter.1
  rw [AppMonitor.run_append, AppMonitor.run_cons, AppMonitor.run_nil] at hcount
  obtain ⟨hnone, hstopping, -⟩ := exec_stops h.seen hcount
  refine ⟨hnone, ?_⟩
  rw [AppMonitor.run_append, AppMonitor.run_cons, AppMonitor.run_nil]
  exact hstopping

/-- The daemon is created at the first start and the zygote injected; then it starts every second. -/
def staleRun : Nat → List Event
  | 0 => [.zygoteExec ⟨1, 0⟩ 100, .zygoteInjected] ++ [.zygoteExec ⟨2, 0⟩ 101]
  | k + 1 => staleRun k ++ [.daemonSetInfo ""] ++ [.zygoteExec ⟨k + 3, 0⟩ 101]

theorem staleLoop_stops_fifth : Stops "trace" (staleRun 3 ++ [.daemonSetInfo ""]) ⟨6, 0⟩ 101 := by
  have h₁ : StaleLoop "trace" 1 ⟨2, 0⟩ (staleRun 0) := .first (by decide) (by decide)
  have h₂ : StaleLoop "trace" 2 ⟨3, 0⟩ (staleRun 1) :=
    h₁.next (by decide) (by decide) (by decide) (by decide) (by decide)
  have h₃ : StaleLoop "trace" 3 ⟨4, 0⟩ (staleRun 2) :=
    h₂.next (by decide) (by decide) (by decide) (by decide) (by decide)
  have h₄ : StaleLoop "trace" 4 ⟨5, 0⟩ (staleRun 3) :=
    h₃.next (by decide) (by decide) (by decide) (by decide) (by decide)
  exact staleLoop_stops (h₄.next (by decide) (by decide) (by decide) (by decide) (by decide))

/-! ### Starts with an injection in between -/

/-- The counter after an injection and what follows it until the next start. -/
theorem run_injected_count {m : AppMonitor} {gap : List Event} (hgap : ∀ e ∈ gap, e.isExec = false)
    (hinj : .zygoteInjected ∈ gap) : (m.run gap).zygote.counter = ⟨⟨0, 0⟩, 0⟩ := by
  induction gap generalizing m with
  | nil => exact absurd hinj (by simp)
  | cons e gap ih =>
    have hgap' : ∀ e' ∈ gap, e'.isExec = false := fun e' he' => hgap e' (List.mem_cons_of_mem e he')
    rw [AppMonitor.run_cons]
    by_cases hmem : .zygoteInjected ∈ gap
    · exact ih hgap' hmem
    · obtain rfl : .zygoteInjected = e := (List.mem_cons.1 hinj).resolve_right hmem
      rw [run_counter hgap' hmem]
      rfl

/-- A loop in which every generation is injected is never counted past one. -/
theorem InjectedLoop.count_le_one {k : Nat} {t : Timespec} {es : List Event}
    (h : InjectedLoop tracer (k + 1) t es) :
    ((AppMonitor.initial tracer).run es).zygote.counter.count ≤ 1 := by
  cases h with
  | next _ hgap hinj _ _ hseen =>
    rw [AppMonitor.run_append, AppMonitor.run_cons, AppMonitor.run_nil, exec_counter hseen,
      AppMonitor.run_append, run_injected_count hgap hinj]
    split_ifs
    · rcases (restart_count ⟨⟨0, 0⟩, 0⟩ t).2 with hc | hc <;> rw [hc] <;> decide
    · decide

/-- A zygote that is injected and dies once a second. -/
def dyingRun : Nat → List Event
  | 0 => [] ++ [.zygoteExec ⟨1, 0⟩ 100]
  | k + 1 => dyingRun k ++ [.zygoteInjected] ++ [.zygoteExec ⟨k + 2, 0⟩ 101]

/-- The fifth start in a row that replaces an injected generation is handed to the injector again. -/
theorem injectedLoop_injects_again : ¬ ∀ (tracer : String) (es : List Event) (now : Timespec)
    (fork : Int), InjectedLoop tracer 5 now (es ++ [.zygoteExec now fork]) →
      Stops tracer es now fork := by
  intro hall
  have h₀ : InjectedLoop "trace" 0 ⟨1, 0⟩ (dyingRun 0) := .first (by decide)
  have h₁ : InjectedLoop "trace" 1 ⟨2, 0⟩ (dyingRun 1) :=
    h₀.next (by decide) (by decide) (.inl (by decide)) (.inl (by decide)) (by decide)
  have h₂ : InjectedLoop "trace" 2 ⟨3, 0⟩ (dyingRun 2) :=
    h₁.next (by decide) (by decide) (.inl (by decide)) (.inl (by decide)) (by decide)
  have h₃ : InjectedLoop "trace" 3 ⟨4, 0⟩ (dyingRun 3) :=
    h₂.next (by decide) (by decide) (.inl (by decide)) (.inl (by decide)) (by decide)
  have h₄ : InjectedLoop "trace" 4 ⟨5, 0⟩ (dyingRun 4) :=
    h₃.next (by decide) (by decide) (.inl (by decide)) (.inl (by decide)) (by decide)
  have hstop := hall "trace" (dyingRun 4 ++ [.zygoteInjected]) ⟨6, 0⟩ 101
    (h₄.next (by decide) (by decide) (.inl (by decide)) (.inl (by decide)) (by decide))
  exact absurd hstop.2 (by decide)

end OnyxZygisk.Monitor

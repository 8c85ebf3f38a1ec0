import OnyxZygisk.Lib.Bpf
import OnyxZygisk.Lib.Istream
import OnyxZygisk.Loader.ReadHook
import Mathlib.Data.Fintype.Basic
import Mathlib.Tactic.FinCases

/-!
# Clearing the tracer with a filter

When it is injected, the loader makes the kernel forget the tracer's message by a call of `exit_group` that a filter
of its own stops. The filter stays in the process and in all that it forks, so it must not be noticed there: every
other call gets the answer it would have got, and no process lives on or ends because of it (`clearTracer_transparent`).
Where the kernel prints the number of filters, none is added (`clearTracer_filters_iff`).
-/

namespace OnyxZygisk.Loader.Seccomp

open Bpf (Filter)

def SECCOMP_RET_KILL_PROCESS : BitVec 32 := 0x80000000
def SECCOMP_RET_KILL_THREAD : BitVec 32 := 0x00000000
def SECCOMP_RET_TRACE : BitVec 32 := 0x7ff00000
def SECCOMP_RET_LOG : BitVec 32 := 0x7ffc0000
def SECCOMP_RET_ALLOW : BitVec 32 := 0x7fff0000

/-- `struct seccomp_data` -/
structure Data where
  nr : BitVec 32
  arch : BitVec 32
  instructionPointer : BitVec 64
  args : Fin 6 → BitVec 64

def low (x : BitVec 64) : BitVec 32 := x.setWidth 32

def high (x : BitVec 64) : BitVec 32 := x.extractLsb' 32 32

/-- The word at an offset, where words are little-endian. -/
def Data.word (d : Data) (offset : Nat) : BitVec 32 :=
  let wide := [d.instructionPointer, d.args 0, d.args 1, d.args 2, d.args 3, d.args 4, d.args 5]
  (d.nr :: d.arch :: wide.flatMap fun x => [low x, high x]).getD (offset / 4) 0

def offsetNr : Nat := 0

def offsetArgs (i : Nat) : Nat := 16 + 8 * i

theorem word_offsetNr (d : Data) : d.word offsetNr = d.nr := rfl

theorem word_offsetArgs (d : Data) (i : Fin 6) : d.word (offsetArgs i) = low (d.args i) := by
  fin_cases i <;> rfl

/-- A process as its filters see it, the newest first. -/
structure Task where
  filters : List (Filter 64)
  alive : Bool

namespace Task

variable (t : Task) (d : Data)

def verdict : BitVec 32 := Bpf.verdict d.word SECCOMP_RET_ALLOW t.filters

/-- The call is made. `SECCOMP_RET_TRACE` never comes to this: without a tracer the call fails, and the tracer that
waits in `wait_for_trace` puts another number in its place. -/
def executes : Bool :=
  Bpf.action (t.verdict d) = Bpf.action SECCOMP_RET_ALLOW || Bpf.action (t.verdict d) = Bpf.action SECCOMP_RET_LOG

def kills : Bool :=
  Bpf.action (t.verdict d) = Bpf.action SECCOMP_RET_KILL_PROCESS ||
    Bpf.action (t.verdict d) = Bpf.action SECCOMP_RET_KILL_THREAD

def install (f : Filter 64) : Task := { t with filters := f :: t.filters }

/-- A call of `exit_group`. -/
def exitGroup : Task := { t with alive := t.alive && !(t.executes d || t.kills d) }

end Task

variable (NR_exit_group : BitVec 32)

/-- The filter of both functions. -/
def filter (args : Fin 4 → BitVec 32) : Filter 64 where
  insns := [
    .ld offsetNr,
    .jeq NR_exit_group 0 9,
    .ld (offsetArgs 0),
    .jeq (args 0) 0 7,
    .ld (offsetArgs 1),
    .jeq (args 1) 0 5,
    .ld (offsetArgs 2),
    .jeq (args 2) 0 3,
    .ld (offsetArgs 3),
    .jeq (args 3) 0 1,
    .ret SECCOMP_RET_TRACE,
    .ret SECCOMP_RET_ALLOW]
  checked := rfl

/-- What the kernel says to one of the functions. -/
structure Answers where
  /-- The text of `/proc/self/status`, if it opens. -/
  status : Option (List UInt8)
  /-- Sixteen bytes of `/dev/urandom`, if it opens and has them. -/
  random : Option (Fin 4 → BitVec 32)
  /-- `PR_SET_SECCOMP` -/
  prctl : Bool
  /-- What the code leaves open in its `exit_group`: the upper halves of the registers, and the rest. -/
  call : Data

def seccompFilters : List UInt8 := ascii "Seccomp_filters:"

def seccomp_filters_visible : Option (List UInt8) → Bool
  | none => true
  | some text => (Istream.fgetsAll 255 255 text).any seccompFilters.isPrefixOf

def should_skip_seccomp_injection : Option (List UInt8) → Bool
  | none => true
  | some text => (Istream.getlines text).any seccompFilters.isPrefixOf

/-- `args[0] |= 0x10000` -/
def signature (random : Fin 4 → BitVec 32) : Fin 4 → BitVec 32 :=
  fun i => if i = 0 then random 0 ||| 0x10000 else random i

/-- `syscall(__NR_exit_group, args[0], args[1], args[2], args[3])` -/
def exitCall (args : Fin 4 → BitVec 32) (call : Data) : Data :=
  { call with
    nr := NR_exit_group
    args := fun i => if h : i.val < 4 then high (call.args i) ++ args ⟨i.val, h⟩ else call.args i }

/-- The body that both functions share; they differ in how they read the status. -/
def sendEvent (visible : Option (List UInt8) → Bool) (k : Answers) (t : Task) : Task :=
  if visible k.status then t
  else match k.random with
    | none => t
    | some random =>
      if k.prctl then
        (t.install (filter NR_exit_group (signature random))).exitGroup
          (exitCall NR_exit_group (signature random) k.call)
      else t

def perform_ptrace_message_clear : Answers → Task → Task := sendEvent NR_exit_group seccomp_filters_visible

def send_seccomp_event_if_needed : Answers → Task → Task := sendEvent NR_exit_group should_skip_seccomp_injection

/-- The end of `entry`. -/
def clearTracer (first second : Answers) (t : Task) : Task :=
  send_seccomp_event_if_needed NR_exit_group second (perform_ptrace_message_clear NR_exit_group first t)

/-! ### One filter -/

variable {NR_exit_group} {args : Fin 4 → BitVec 32} {d : Data} {t : Task}

/-- A call that the filter stops. -/
def Matches (NR_exit_group : BitVec 32) (args : Fin 4 → BitVec 32) (d : Data) : Prop :=
  d.nr = NR_exit_group ∧ ∀ i : Fin 4, low (d.args ⟨i.val, by omega⟩) = args i

instance : Decidable (Matches NR_exit_group args d) := inferInstanceAs (Decidable (_ ∧ _))

def words (NR_exit_group : BitVec 32) (args : Fin 4 → BitVec 32) : List (Nat × BitVec 32) :=
  [(offsetNr, NR_exit_group), (offsetArgs 0, args 0), (offsetArgs 1, args 1), (offsetArgs 2, args 2),
    (offsetArgs 3, args 3)]

theorem filter_eq_ladder :
    (filter NR_exit_group args).insns =
      Bpf.ladder SECCOMP_RET_TRACE SECCOMP_RET_ALLOW (words NR_exit_group args) := rfl

theorem forall_words_iff : (∀ key ∈ words NR_exit_group args, d.word key.1 = key.2) ↔ Matches NR_exit_group args d := by
  constructor
  · intro h
    refine ⟨(word_offsetNr d).symm.trans (h _ (.head _)), fun i => ?_⟩
    rw [← word_offsetArgs]
    fin_cases i
    · exact h _ (.tail _ (.head _))
    · exact h _ (.tail _ (.tail _ (.head _)))
    · exact h _ (.tail _ (.tail _ (.tail _ (.head _))))
    · exact h _ (.tail _ (.tail _ (.tail _ (.tail _ (.head _)))))
  · rintro ⟨hnr, hargs⟩
    simp only [words, List.forall_mem_cons, List.not_mem_nil, false_implies, implies_true, and_true]
    exact ⟨hnr, hargs 0, hargs 1, hargs 2, hargs 3⟩

theorem ret_filter : (filter NR_exit_group args).ret d.word =
    if Matches NR_exit_group args d then SECCOMP_RET_TRACE else SECCOMP_RET_ALLOW := by
  have hrun : Bpf.run d.word (filter NR_exit_group args).insns 0 0 = _ :=
    (congrArg (Bpf.run d.word · 0 0) filter_eq_ladder).trans (Bpf.run_ladder 0)
  simp only [forall_words_iff] at hrun
  exact Option.get_of_eq_some _ hrun

/-- The bit that is set in every signature. -/
theorem Matches.getLsbD_eq_true {random : Fin 4 → BitVec 32} (h : Matches NR_exit_group (signature random) d) :
    (d.args 0).getLsbD 16 = true := by
  have hlow : low (d.args 0) = random 0 ||| 0x10000 := h.2 0
  have hbit : (low (d.args 0)).getLsbD 16 = true := by rw [hlow, BitVec.getLsbD_or]; simp
  simpa [low] using hbit

/-- The loader's own call is one. -/
theorem matches_exitCall (call : Data) : Matches NR_exit_group args (exitCall NR_exit_group args call) := by
  refine ⟨rfl, fun i => ?_⟩
  show low (if h : i.val < 4 then high (call.args ⟨i.val, _⟩) ++ args ⟨i.val, h⟩ else call.args ⟨i.val, _⟩) = args i
  rw [dif_pos i.isLt]
  exact BitVec.setWidth_append_eq_right

/-! ### Stacks with the filter -/

theorem not_executes_of_le (h : Bpf.action (t.verdict d) ≤ Bpf.action SECCOMP_RET_TRACE) : t.executes d = false := by
  have hlog : Bpf.action SECCOMP_RET_TRACE < Bpf.action SECCOMP_RET_LOG := by decide
  have hallow : Bpf.action SECCOMP_RET_TRACE < Bpf.action SECCOMP_RET_ALLOW := by decide
  simp only [Task.executes, Bool.or_eq_false_iff, decide_eq_false_iff_not]
  omega

/-- A matching call is not made, whatever the other filters say. -/
theorem not_executes_of_matches (hf : filter NR_exit_group args ∈ t.filters) (h : Matches NR_exit_group args d) :
    t.executes d = false := by
  have hle : Bpf.action (t.verdict d) ≤ Bpf.action ((filter NR_exit_group args).ret d.word) :=
    Bpf.action_verdict_le hf
  rw [ret_filter, if_pos h] at hle
  exact not_executes_of_le hle

/-- Another call gets the answer of the other filters, wherever the filter stands. -/
theorem verdict_of_not_matches (newer older : List (Filter 64)) (h : ¬Matches NR_exit_group args d) :
    (Task.mk (newer ++ filter NR_exit_group args :: older) t.alive).verdict d =
      (Task.mk (newer ++ older) t.alive).verdict d := by
  refine Bpf.verdict_insert ?_
  rw [ret_filter, if_neg h]

/-- Over other filters it does not end a process that they let live. -/
theorem not_kills_install (h : t.kills d = false) : (t.install (filter NR_exit_group args)).kills d = false := by
  by_cases hmatch : Matches NR_exit_group args d
  · have htrace : Bpf.action SECCOMP_RET_TRACE < Bpf.action SECCOMP_RET_ALLOW := by decide
    have hverdict : (t.install (filter NR_exit_group args)).verdict d =
        Bpf.verdict d.word SECCOMP_RET_TRACE t.filters := by
      rw [Task.verdict, Task.install, Bpf.verdict_cons, ret_filter, if_pos hmatch, if_pos htrace]
    have hmin : Bpf.action (Bpf.verdict d.word SECCOMP_RET_TRACE t.filters) =
        min (Bpf.action SECCOMP_RET_TRACE) (Bpf.action (t.verdict d)) :=
      Bpf.action_verdict_of_le (Int.le_of_lt htrace)
    have hprocess : Bpf.action SECCOMP_RET_KILL_PROCESS < Bpf.action SECCOMP_RET_TRACE := by decide
    have hthread : Bpf.action SECCOMP_RET_KILL_THREAD < Bpf.action SECCOMP_RET_TRACE := by decide
    simp only [Task.kills, Bool.or_eq_false_iff, decide_eq_false_iff_not] at h ⊢
    rw [hverdict, hmin]
    omega
  · have hverdict : (t.install (filter NR_exit_group args)).verdict d = t.verdict d :=
      verdict_of_not_matches (t := t) [] t.filters hmatch
    rwa [Task.kills, hverdict]

/-- What happens later in the process or in one that it forked: calls, and filters that are put above. -/
inductive Event where
  | call (d : Data)
  | install (f : Filter 64)

/-- The answers to the calls. -/
def Task.trace (t : Task) : List Event → List (BitVec 32)
  | [] => []
  | .call d :: es => t.verdict d :: t.trace es
  | .install f :: es => (t.install f).trace es

theorem trace_insert {es : List Event} (h : ∀ d, .call d ∈ es → ¬Matches NR_exit_group args d)
    (newer older : List (Filter 64)) :
    (Task.mk (newer ++ filter NR_exit_group args :: older) t.alive).trace es =
      (Task.mk (newer ++ older) t.alive).trace es := by
  induction es generalizing newer with
  | nil => rfl
  | cons e es ih =>
    have hrest := ih fun d hd => h d (.tail _ hd)
    cases e with
    | call d => exact congrArg₂ List.cons (verdict_of_not_matches newer older (h d (.head _))) (hrest newer)
    | install f => exact hrest (f :: newer)

/-! ### The end of `entry` -/

/-- The signature for which a function comes to install its filter. -/
def installed (visible : Option (List UInt8) → Bool) (k : Answers) : Option (Fin 4 → BitVec 32) :=
  if visible k.status then none else if k.prctl then k.random.map signature else none

variable {visible : Option (List UInt8) → Bool} {k : Answers}

theorem sendEvent_eq : sendEvent NR_exit_group visible k t =
    match installed visible k with
    | none => t
    | some args => (t.install (filter NR_exit_group args)).exitGroup (exitCall NR_exit_group args k.call) := by
  unfold sendEvent installed
  split
  · rfl
  · cases k.random with
    | none => cases k.prctl <;> rfl
    | some random => cases k.prctl <;> rfl

/-- The filters that one of the functions puts above the others. -/
def added (NR_exit_group : BitVec 32) (visible : Option (List UInt8) → Bool) (k : Answers) : List (Filter 64) :=
  ((installed visible k).map (filter NR_exit_group)).toList

theorem filters_sendEvent :
    (sendEvent NR_exit_group visible k t).filters = added NR_exit_group visible k ++ t.filters := by
  rw [sendEvent_eq, added]
  cases installed visible k <;> rfl

theorem kills_sendEvent (h : t.kills d = false) : (sendEvent NR_exit_group visible k t).kills d = false := by
  rw [sendEvent_eq]
  cases installed visible k with
  | none => exact h
  | some args => exact not_kills_install h

/-- No process ends because of the call that its own filter stops, unless the others end it for `exit_group`. -/
theorem alive_sendEvent (hkill : ∀ d : Data, d.nr = NR_exit_group → t.kills d = false) :
    (sendEvent NR_exit_group visible k t).alive = t.alive := by
  rw [sendEvent_eq]
  cases installed visible k with
  | none => rfl
  | some args =>
    have hmatch : Matches NR_exit_group args (exitCall NR_exit_group args k.call) := matches_exitCall k.call
    have hexec : (t.install (filter NR_exit_group args)).executes (exitCall NR_exit_group args k.call) = false :=
      not_executes_of_matches (.head _) hmatch
    have hlive : (t.install (filter NR_exit_group args)).kills (exitCall NR_exit_group args k.call) = false :=
      not_kills_install (hkill _ hmatch.1)
    show (t.alive && !(Task.executes _ _ || Task.kills _ _)) = t.alive
    rw [hexec, hlive, Bool.or_false, Bool.not_false, Bool.and_true]

theorem trace_added {es : List Event}
    (h : ∀ d, .call d ∈ es → ∀ args ∈ installed visible k, ¬Matches NR_exit_group args d)
    (older : List (Filter 64)) :
    (Task.mk (added NR_exit_group visible k ++ older) t.alive).trace es = (Task.mk older t.alive).trace es := by
  unfold added
  cases hargs : installed visible k with
  | none => rfl
  | some args => exact trace_insert (fun d hd => h d hd args hargs) [] older

/-- The signatures that are in force behind `entry`. -/
def InForce (first second : Answers) (args : Fin 4 → BitVec 32) : Prop :=
  args ∈ installed seccomp_filters_visible first ∨ args ∈ installed should_skip_seccomp_injection second

theorem filters_clearTracer (first second : Answers) :
    (clearTracer NR_exit_group first second t).filters =
      added NR_exit_group should_skip_seccomp_injection second ++
        (added NR_exit_group seccomp_filters_visible first ++ t.filters) := by
  rw [clearTracer, send_seccomp_event_if_needed, perform_ptrace_message_clear, filters_sendEvent, filters_sendEvent]

theorem mem_filters_of_inForce {first second : Answers} (h : InForce first second args) :
    filter NR_exit_group args ∈ (clearTracer NR_exit_group first second t).filters := by
  rw [filters_clearTracer, List.mem_append, List.mem_append, added, added]
  rcases h with h | h
  · rw [Option.mem_def] at h
    exact .inr (.inl (by rw [h]; exact .head _))
  · rw [Option.mem_def] at h
    exact .inl (by rw [h]; exact .head _)

theorem exists_signature {first second : Answers} (h : InForce first second args) :
    ∃ random, args = signature random := by
  have hinstalled : ∀ {visible : Option (List UInt8) → Bool} {k : Answers}, args ∈ installed visible k →
      ∃ random, args = signature random := by
    intro visible k hmem
    rw [Option.mem_def, installed] at hmem
    split at hmem
    · cases hmem
    · split at hmem
      · obtain ⟨random, -, hr⟩ := Option.map_eq_some_iff.1 hmem
        exact ⟨random, hr.symm⟩
      · cases hmem
  rcases h with h | h
  · exact hinstalled h
  · exact hinstalled h

/-- Whatever the kernel says, the process lives on, and all calls of it and of what it forks get the answers that they
would have got, but for an `exit_group` with a signature; there bit 16 of the exit code is set, and it is not
made. -/
theorem clearTracer_transparent (first second : Answers) (t : Task)
    (hkill : ∀ d : Data, d.nr = NR_exit_group → t.kills d = false) :
    (clearTracer NR_exit_group first second t).alive = t.alive ∧
      (∀ es : List Event, (∀ d, .call d ∈ es → ∀ args, InForce first second args → ¬Matches NR_exit_group args d) →
        (clearTracer NR_exit_group first second t).trace es = t.trace es) ∧
      ∀ args, InForce first second args → ∀ d, Matches NR_exit_group args d →
        (clearTracer NR_exit_group first second t).executes d = false ∧ d.nr = NR_exit_group ∧
          (d.args 0).getLsbD 16 = true := by
  have halive : (clearTracer NR_exit_group first second t).alive = t.alive :=
    (alive_sendEvent fun d hd => kills_sendEvent (hkill d hd)).trans (alive_sendEvent hkill)
  refine ⟨halive, ?_, ?_⟩
  · intro es hes
    have heq : clearTracer NR_exit_group first second t =
        ⟨added NR_exit_group should_skip_seccomp_injection second ++
          (added NR_exit_group seccomp_filters_visible first ++ t.filters), t.alive⟩ := by
      rw [← filters_clearTracer, ← halive]
    rw [heq, trace_added fun d hd args hargs => hes d hd args (.inr hargs)]
    exact trace_added (fun d hd args hargs => hes d hd args (.inl hargs)) t.filters
  · intro args hargs d hmatch
    obtain ⟨random, rfl⟩ := exists_signature hargs
    exact ⟨not_executes_of_matches (mem_filters_of_inForce hargs) hmatch, hmatch.1, hmatch.getLsbD_eq_true⟩

/-- A kernel without the field, which gives zeros as random words and takes the filters. -/
def oldKernel : Answers where
  status := some (ascii "Name:\tzygote\n")
  random := some fun _ => 0
  prctl := true
  call := ⟨0, 0, 0, fun _ => 0⟩

theorem not_kills_nil (d : Data) : (Task.mk [] true).kills d = false := by
  rw [Task.kills, show (Task.mk [] true).verdict d = SECCOMP_RET_ALLOW from rfl]
  decide

theorem clearTracer_transparent_oldKernel :
    (clearTracer 94 oldKernel oldKernel ⟨[], true⟩).alive = true ∧
      (clearTracer 94 oldKernel oldKernel ⟨[], true⟩).trace [.call ⟨94, 0, 0, fun _ => 1⟩] = [SECCOMP_RET_ALLOW] := by
  obtain ⟨halive, htrace, hstopped⟩ :=
    @clearTracer_transparent 94 oldKernel oldKernel ⟨[], true⟩ fun d _ => not_kills_nil d
  refine ⟨halive, htrace _ ?_⟩
  intro d hd args hargs hmatch
  have hbit := (hstopped args hargs d hmatch).2.2
  rw [show d = ⟨94, 0, 0, fun _ => 1⟩ by simpa using hd] at hbit
  exact absurd hbit (by decide)

/-! ### The line of the status -/

/-- The status tells of the filters: a line of it begins with the field. -/
def Tells (text : List UInt8) : Prop := ∃ line ∈ Istream.getlines text, seccompFilters <+: line

theorem should_skip_iff (text : List UInt8) : should_skip_seccomp_injection (some text) = true ↔ Tells text := by
  simp only [should_skip_seccomp_injection, List.any_eq_true, List.isPrefixOf_iff_prefix]
  rfl

/-- A buffer of 256 bytes cuts a long line, and the field is also found behind a cut. -/
theorem seccomp_filters_visible_iff (text : List UInt8) : seccomp_filters_visible (some text) = true ↔
    ∃ line ∈ Istream.getlines text, ∃ k, seccompFilters <+: line.drop (255 * k) := by
  simp only [seccomp_filters_visible, List.any_eq_true, List.isPrefixOf_iff_prefix]
  exact Istream.exists_prefix_fgetsAll (by decide) (by decide) (by decide)

theorem added_eq_nil_iff : added NR_exit_group visible k = [] ↔
    visible k.status = true ∨ k.prctl = false ∨ k.random = none := by
  unfold added installed
  cases visible k.status <;> cases k.prctl <;> cases k.random <;> simp

/-- No filter is added if and only if both functions see the field, in their ways, or cannot go on. -/
theorem clearTracer_filters_iff (first second : Answers) (t : Task) :
    (clearTracer NR_exit_group first second t).filters = t.filters ↔
      (((∀ text ∈ first.status, ∃ line ∈ Istream.getlines text, ∃ k, seccompFilters <+: line.drop (255 * k)) ∨
          first.prctl = false ∨ first.random = none) ∧
        ((∀ text ∈ second.status, Tells text) ∨ second.prctl = false ∨ second.random = none)) := by
  have hfirst : seccomp_filters_visible first.status = true ↔
      ∀ text ∈ first.status, ∃ line ∈ Istream.getlines text, ∃ k, seccompFilters <+: line.drop (255 * k) := by
    cases first.status with
    | none => simp [seccomp_filters_visible]
    | some text => simp only [seccomp_filters_visible_iff, Option.mem_some_iff, forall_eq']
  have hsecond : should_skip_seccomp_injection second.status = true ↔ ∀ text ∈ second.status, Tells text := by
    cases second.status with
    | none => simp [should_skip_seccomp_injection]
    | some text => simp only [should_skip_iff, Option.mem_some_iff, forall_eq']
  rw [filters_clearTracer, ← hfirst, ← hsecond, ← List.append_assoc, List.append_left_eq_self,
    List.append_eq_nil_iff, added_eq_nil_iff, added_eq_nil_iff, and_comm]

end OnyxZygisk.Loader.Seccomp

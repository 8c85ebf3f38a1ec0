import OnyxZygisk.Lib.Pool
import OnyxZygisk.Lib.Text

/-!
# Scans of the processes

The daemon finds `system_server` and the daemons of its modules in `/proc`. A process chooses its own name, which
stands in the middle of the line of its `stat` and cannot be taken for anything else there (`procStat_statLine`).
Reading a command line can block for good; it is left to a thread of its own, and the process is remembered by its
pid and start time. However the scans interleave, and whatever processes come and go, those of `k` threads leave no
more than `2 * k` such threads behind on a process (`blocked_le`), and none once it is remembered and the scans of that
time are over (`blocked_antitone`).
-/

namespace OnyxZygisk.Daemon.Processes

/-! ### `/proc/<pid>/stat` -/

/-- An integer as the kernel prints it. -/
def decimal (z : Int) : List Char := if z < 0 then '-' :: Nat.toDigits 10 z.natAbs else Nat.toDigits 10 z.natAbs

structure Process where
  comm : String
  state : Char
  letter : state.isAlpha
  /-- From `ppid` on. -/
  middle : List Int
  eighteen : middle.length = 18
  starttime : UInt64
  /-- From `vsize` on. -/
  others : List Int

namespace Process

variable (p : Process)

/-- What follows the name. -/
def fields : List (List Char) :=
  [p.state] :: (p.middle.map decimal ++ (Text.printU64 p.starttime).toList :: p.others.map decimal)

def statLine (pid : Int32) : String :=
  String.ofList ((Text.printI32 pid).toList ++ ' ' :: '(' :: (p.comm.toList ++ ')' :: Text.fieldLine p.fields))

end Process

/-- `(comm, state, starttime)` of a line. The kernel writes no `)` before the first `(` alone. -/
def procStat (stat : String) : Option (String × UInt8 × UInt64) := do
  let body ← Text.after ['('] stat.toList
  let (comm, rest) ← Text.rsplitOnce ')' body
  let fields := Text.splitAsciiWhitespace rest
  let state ← fields.head?
  let state ← (state.flatMap String.utf8EncodeChar).head?
  let starttime ← fields.tail[18]?
  let starttime ← Text.parseU64 (String.ofList starttime)
  return (String.ofList comm, state, starttime)

/-! ### Scans -/

/-- What becomes of the thread that reads a command line. -/
inductive CmdlineRead where
  | spawnFails
  /-- In time; nothing when the read failed. -/
  | sends (data : Option (List UInt8))
  | timesOut

inductive Op where
  /-- The names in `/proc`. -/
  | readDir
  | readStat (pid : Int32)
  | isUnreadable (pid : Int32) (starttime : UInt64)
  | readCmdline (pid : Int32)
  | setUnreadable (pid : Int32) (starttime : UInt64)

def Op.Resp : Op → Type
  | readDir => Option (List String)
  | readStat _ => Option String
  | isUnreadable _ _ => Bool
  | readCmdline _ => CmdlineRead
  | setUnreadable _ _ => Unit

abbrev Program (α : Type) : Type := Prog Op.Resp α

def perform (op : Op) : Program op.Resp := Prog.perform op

def readDir : Program (Option (List String)) := perform .readDir

def readStat (pid : Int32) : Program (Option String) := perform (.readStat pid)

def isUnreadable (pid : Int32) (starttime : UInt64) : Program Bool := perform (.isUnreadable pid starttime)

def readCmdline (pid : Int32) : Program CmdlineRead := perform (.readCmdline pid)

def setUnreadable (pid : Int32) (starttime : UInt64) : Program Unit := perform (.setUnreadable pid starttime)

/-- The states skipped: `D`, `Z`, `X`, `x`, `T`, `t`, `I`, `W`. -/
def skippedStates : List UInt8 := [0x44, 0x5a, 0x58, 0x78, 0x54, 0x74, 0x49, 0x57]

def safeCmdline (pid : Int32) : Program (Option (List UInt8)) := do
  match (← readStat pid).bind procStat with
  | none => return none
  | some (_, state, starttime) =>
    if state ∈ skippedStates then return none
    else
      if ← isUnreadable pid starttime then return none
      else
        match ← readCmdline pid with
        | .spawnFails => return none
        | .sends data => return data.filter (· ≠ [])
        | .timesOut =>
          setUnreadable pid starttime
          return none

/-- The arguments in a command line. What decides on them decodes them too. -/
def arguments (cmdline : List UInt8) : List (List UInt8) := (cmdline.splitOn 0).filter (· ≠ [])

def pidsIn (names : List String) : List Int32 := names.filterMap Text.parseI32

def matchingCmdlinePids (pred : List (List UInt8) → Bool) : Program (List Int32) := do
  match ← readDir with
  | none => return []
  | some names =>
    Prog.gather (pidsIn names) fun pid => do
      match ← safeCmdline pid with
      | none => return none
      | some cmdline => return if pred (arguments cmdline) then some pid else none

/-- `Z` -/
def zombie : UInt8 := 0x5a

def pidofSystemServer : Program (Option Int32) := do
  match ← readDir with
  | none => return none
  | some names =>
    Prog.firstSome (pidsIn names) fun pid => do
      match (← readStat pid).bind procStat with
      | none => return none
      | some (comm, state, _) => return if comm = "system_server" ∧ state ≠ zombie then some pid else none

/-! ### Names do not matter -/

theorem decimal_spec (z : Int) : decimal z ≠ [] ∧ ∀ c ∈ decimal z, c = '-' ∨ c.isDigit := by
  have hdigit : ∀ n : Nat, ∀ c ∈ Nat.toDigits 10 n, c.isDigit := fun n c hc =>
    Nat.isDigit_of_mem_toDigits (by decide) (by decide) hc
  rw [decimal]
  split
  · refine ⟨List.cons_ne_nil _ _, fun c hc => ?_⟩
    rcases List.mem_cons.1 hc with hminus | hc
    · exact .inl hminus
    · exact .inr (hdigit _ c hc)
  · exact ⟨Nat.toDigits_ne_nil, fun c hc => .inr (hdigit _ c hc)⟩

/-- What the fields of a line consist of. -/
theorem mem_fields {p : Process} {field : List Char} (h : field ∈ p.fields) :
    field ≠ [] ∧ ∀ c ∈ field, c = '-' ∨ c.isDigit ∨ c.isAlpha := by
  have hdecimal : ∀ zs : List Int, field ∈ zs.map decimal →
      field ≠ [] ∧ ∀ c ∈ field, c = '-' ∨ c.isDigit ∨ c.isAlpha := by
    intro zs hmem
    obtain ⟨z, -, rfl⟩ := List.mem_map.1 hmem
    exact ⟨(decimal_spec z).1, fun c hc => ((decimal_spec z).2 c hc).imp_right .inl⟩
  rcases List.mem_cons.1 h with rfl | h
  · refine ⟨List.cons_ne_nil _ _, fun c hc => .inr (.inr ?_)⟩
    rw [List.mem_singleton.1 hc]
    exact p.letter
  rcases List.mem_append.1 h with h | h
  · exact hdecimal p.middle h
  rcases List.mem_cons.1 h with rfl | h
  · rw [Text.printU64, Nat.toList_repr]
    refine ⟨Nat.toDigits_ne_nil, fun c hc => .inr (.inl ?_)⟩
    exact Nat.isDigit_of_mem_toDigits (by decide) (by decide) hc
  · exact hdecimal p.others h

theorem alpha_iff {c : Char} : c.isAlpha ↔ 65 ≤ c.toNat ∧ c.toNat ≤ 90 ∨ 97 ≤ c.toNat ∧ c.toNat ≤ 122 := by
  have h : c.isAlpha = (c.isUpper || c.isLower) := rfl
  rw [h, Bool.or_eq_true, Text.isUpper_iff, Text.isLower_iff]

theorem not_whitespace {c : Char} (h : c = '-' ∨ c.isDigit ∨ c.isAlpha) :
    Text.isAsciiWhitespace c = false ∧ c ≠ ')' := by
  constructor
  · rw [Bool.eq_false_iff]
    intro hblank
    simp only [Text.isAsciiWhitespace, Bool.or_eq_true, decide_eq_true_iff] at hblank
    rcases hblank with (((rfl | rfl) | rfl) | rfl) | rfl <;> exact absurd h (by decide)
  · rintro rfl
    exact absurd h (by decide)

theorem utf8EncodeChar_alpha {c : Char} (h : c.isAlpha) : String.utf8EncodeChar c = [c.toUInt8] := by
  rw [alpha_iff] at h
  have hascii : c.val ≤ 127 := UInt32.le_iff_toNat_le.2 (show c.toNat ≤ 127 by omega)
  exact String.utf8EncodeChar_eq_singleton (Char.utf8Size_eq_one_iff.2 hascii)

/-- Whatever name the process has, its line is read as it was written. -/
theorem procStat_statLine (p : Process) (pid : Int32) :
    procStat (p.statLine pid) = some (p.comm, p.state.toUInt8, p.starttime) := by
  have hclose : ')' ∉ Text.fieldLine p.fields := by
    intro hmem
    rcases Text.mem_fieldLine hmem with hblank | ⟨field, hfield, hc⟩
    · exact absurd hblank (by decide)
    · exact (not_whitespace ((mem_fields hfield).2 _ hc)).2 rfl
  have hopen : '(' ∉ (Text.printI32 pid).toList ++ [' '] := by
    intro hmem
    rcases List.mem_append.1 hmem with hmem | hmem
    · rcases Text.mem_printI32 hmem with hminus | hdigit
      · exact absurd hminus (by decide)
      · exact absurd hdigit (by decide)
    · exact absurd (List.mem_singleton.1 hmem) (by decide)
  have hfields : Text.splitAsciiWhitespace (Text.fieldLine p.fields) = p.fields :=
    Text.splitAsciiWhitespace_fieldLine fun field hfield =>
      ⟨(mem_fields hfield).1, fun c hc => (not_whitespace ((mem_fields hfield).2 c hc)).1⟩
  have hbody : Text.after ['('] (p.statLine pid).toList =
      some (p.comm.toList ++ ')' :: Text.fieldLine p.fields) := by
    rw [Process.statLine, String.toList_ofList, List.append_cons, Text.after_char hopen]
  have hstart : p.fields.tail[18]? = some (Text.printU64 p.starttime).toList := by
    rw [Process.fields, List.tail_cons, List.getElem?_append_right] <;>
      rw [List.length_map, p.eighteen]
    rfl
  rw [procStat, hbody, Option.bind_eq_bind, Option.bind_some, Text.rsplitOnce_append hclose]
  simp only [Option.bind_eq_bind, Option.bind_some, hfields, hstart, String.ofList_toList, Text.parseU64_printU64]
  simp [Process.fields, utf8EncodeChar_alpha p.letter]

/-! ### The system -/

/-- A process by its pid and its start time, which no other process ever has. -/
abbrev Identity : Type := Int32 × UInt64

structure World where
  processes : Int32 → Option Process
  /-- All processes that there have been. -/
  started : Identity → Prop
  /-- The memo of the processes that do not answer. -/
  unreadable : List Identity
  /-- The processes that threads are blocked on. -/
  blocked : List Identity

namespace World

variable (w : World)

/-- The daemon starts. -/
def start (processes : Int32 → Option Process) : World :=
  ⟨processes, fun q => ∃ p, processes q.1 = some p ∧ p.starttime = q.2, [], []⟩

def Alive (q : Identity) : Prop := ∃ p, w.processes q.1 = some p ∧ p.starttime = q.2

/-- A thread that reads a command line does not come back. -/
def block (pid : Int32) : World :=
  match w.processes pid with
  | none => w
  | some p => { w with blocked := (pid, p.starttime) :: w.blocked }

/-- Processes start, change and end; a thread comes back after all. -/
inductive Drift : World → Prop where
  | starts (pid : Int32) (p : Process) (hnew : ¬w.started (pid, p.starttime)) : Drift
      { w with
        processes := Function.update w.processes pid (some p)
        started := fun q => q = (pid, p.starttime) ∨ w.started q }
  | changes {pid : Int32} {p p' : Process} (h : w.processes pid = some p) (hsame : p'.starttime = p.starttime) :
      Drift { w with processes := Function.update w.processes pid (some p') }
  | ends (pid : Int32) : Drift { w with processes := Function.update w.processes pid none }
  | returns (q : Identity) : Drift { w with blocked := w.blocked.erase q }

end World

/-- What the operating system answers. -/
structure Env where
  names : Option (List String)
  statFails : Bool
  read : CmdlineRead

def exec : Prog.Exec Op.Resp Env World := fun e op w =>
  match op with
  | .readDir => some (e.names, w)
  | .readStat pid => some (if e.statFails then none else (w.processes pid).map fun p => p.statLine pid, w)
  | .isUnreadable pid starttime => some (decide ((pid, starttime) ∈ w.unreadable), w)
  | .readCmdline pid =>
    some (e.read,
      match e.read with
      | .timesOut => w.block pid
      | _ => w)
  | .setUnreadable pid starttime => some ((), { w with unreadable := (pid, starttime) :: w.unreadable })

inductive Job where
  | daemons (pred : List (List UInt8) → Bool)
  | systemServer

def Job.reads : Job → Bool
  | daemons _ => true
  | systemServer => false

def body : Job → Program Unit
  | .daemons pred => matchingCmdlinePids pred >>= fun _ => return ()
  | .systemServer => pidofSystemServer >>= fun _ => return ()

/-- Any number of scans, each on a thread that is not killed. -/
def scans : Pool.System Op.Resp Job World where
  body := body
  called _ := True
  step := Prog.StepBy exec fun _ _ _ => True
  forks _ := none
  drift w w' := w.Drift w'
  kill _ _ := False

def unfinished (t : Pool.Thread Op.Resp Job) : Bool :=
  match t.rest with
  | .ret _ => false
  | .call _ _ => true

/-- Whenever a scan does something, no more than `k` of them go on. -/
def atMost (k : Nat) : Pool.Guard Op.Resp Job World := fun _ others _ _ _ _ => others.countP unfinished < k

/-! ### Where a scan is -/

inductive Phase where
  | idle
  /-- The process has this start time. -/
  | seen (pid : Int32) (starttime : UInt64)
  /-- It is not in the memo. -/
  | checked (pid : Int32) (starttime : UInt64)
  | timedOut (pid : Int32) (starttime : UInt64)
  deriving DecidableEq

namespace Phase

def busy (o : Phase) : Bool := o ≠ .idle

def isChecked (q : Identity) (o : Phase) : Bool := o = .checked q.1 q.2

def isTimedOut (q : Identity) (o : Phase) : Bool := o = .timedOut q.1 q.2

/-- The scan takes the process for one that had its pid. -/
def isStale (q : Identity) : Phase → Bool
  | seen pid starttime | checked pid starttime => pid = q.1 && starttime ≠ q.2
  | idle | timedOut _ _ => false

def isAbout (q : Identity) : Phase → Bool
  | seen pid starttime | checked pid starttime | timedOut pid starttime => (pid, starttime) = q
  | idle => false

/-- Behind the reading of a line. -/
def ofStat (reads : Bool) (pid : Int32) (stat : Option String) : Phase :=
  match stat.bind procStat with
  | none => idle
  | some (_, state, starttime) => if reads ∧ state ∉ skippedStates then seen pid starttime else idle

def ofMemo (pid : Int32) (starttime : UInt64) (unreadable : Bool) : Phase :=
  if unreadable then idle else checked pid starttime

def ofRead (pid : Int32) (starttime : UInt64) : CmdlineRead → Phase
  | .timesOut => timedOut pid starttime
  | .spawnFails | .sends _ => idle

end Phase

def rules (j : Job) : Prog.Rules Op.Resp Phase where
  allow o op :=
    match op with
    | .readDir | .readStat _ => o = .idle
    | .isUnreadable pid starttime => o = .seen pid starttime
    | .readCmdline pid => ∃ starttime, o = .checked pid starttime
    | .setUnreadable pid starttime => o = .timedOut pid starttime
  next o op r o' :=
    match op with
    | .readDir | .setUnreadable _ _ => o' = .idle
    | .readStat pid => o' = .ofStat j.reads pid r
    | .isUnreadable pid starttime => o' = .ofMemo pid starttime r
    | .readCmdline pid => ∀ starttime, o = .checked pid starttime → o' = .ofRead pid starttime r

/-! ### The scans keep to the rules -/

theorem ofStat_none {reads : Bool} {pid : Int32} {stat : Option String} (h : stat.bind procStat = none) :
    Phase.ofStat reads pid stat = .idle := by
  simp only [Phase.ofStat, h]

theorem ofStat_some {reads : Bool} {pid : Int32} {stat : Option String} {comm : String} {state : UInt8}
    {starttime : UInt64} (h : stat.bind procStat = some (comm, state, starttime)) :
    Phase.ofStat reads pid stat = if reads ∧ state ∉ skippedStates then .seen pid starttime else .idle := by
  simp only [Phase.ofStat, h]

section Spec

variable {α : Type} {j : Job} {Q : α → Phase → Prop} {pid : Int32} {starttime : UInt64}

theorem spec_readDir {f : Option (List String) → Program α} (h : ∀ names, Prog.Spec (rules j) (f names) .idle Q) :
    Prog.Spec (rules j) (readDir >>= f) .idle Q :=
  (Prog.spec_bind _ _ _ _).2 ⟨rfl, fun names _ ho => ho ▸ h names⟩

theorem spec_readStat {f : Option String → Program α}
    (h : ∀ stat, Prog.Spec (rules j) (f stat) (.ofStat j.reads pid stat) Q) :
    Prog.Spec (rules j) (readStat pid >>= f) .idle Q :=
  (Prog.spec_bind _ _ _ _).2 ⟨rfl, fun stat _ ho => ho ▸ h stat⟩

theorem spec_isUnreadable {f : Bool → Program α}
    (h : ∀ unreadable, Prog.Spec (rules j) (f unreadable) (.ofMemo pid starttime unreadable) Q) :
    Prog.Spec (rules j) (isUnreadable pid starttime >>= f) (.seen pid starttime) Q :=
  (Prog.spec_bind _ _ _ _).2 ⟨rfl, fun unreadable _ ho => ho ▸ h unreadable⟩

theorem spec_readCmdline {f : CmdlineRead → Program α}
    (h : ∀ read, Prog.Spec (rules j) (f read) (.ofRead pid starttime read) Q) :
    Prog.Spec (rules j) (readCmdline pid >>= f) (.checked pid starttime) Q :=
  (Prog.spec_bind _ _ _ _).2 ⟨⟨starttime, rfl⟩, fun read _ ho => ho starttime rfl ▸ h read⟩

theorem spec_setUnreadable {f : Unit → Program α} (h : Prog.Spec (rules j) (f ()) .idle Q) :
    Prog.Spec (rules j) (setUnreadable pid starttime >>= f) (.timedOut pid starttime) Q :=
  (Prog.spec_bind _ _ _ _).2 ⟨rfl, fun _ _ ho => ho ▸ h⟩

end Spec

theorem spec_safeCmdline (pred : List (List UInt8) → Bool) (pid : Int32) :
    Prog.Spec (rules (.daemons pred)) (safeCmdline pid) .idle fun _ o => o = .idle := by
  refine spec_readStat fun stat => ?_
  cases hstat : stat.bind procStat with
  | none =>
    rw [ofStat_none hstat]
    rfl
  | some found =>
    obtain ⟨comm, state, starttime⟩ := found
    rw [ofStat_some hstat]
    by_cases hskip : state ∈ skippedStates
    · simp only [if_pos hskip]
      rw [if_neg (by simp [hskip])]
      rfl
    · simp only [if_neg hskip]
      rw [if_pos ⟨rfl, hskip⟩]
      refine spec_isUnreadable fun unreadable => ?_
      cases unreadable with
      | true => rfl
      | false =>
        refine spec_readCmdline fun read => ?_
        cases read with
        | spawnFails => rfl
        | sends data => rfl
        | timesOut => exact spec_setUnreadable rfl

theorem ofStat_systemServer (pid : Int32) (stat : Option String) : Phase.ofStat false pid stat = .idle := by
  cases hstat : stat.bind procStat with
  | none => exact ofStat_none hstat
  | some found => exact ofStat_some hstat

theorem only_readStat (pids : List Int32) :
    Prog.Only (fun op => ∃ pid, op = .readStat pid) (Prog.firstSome pids fun pid => do
      match (← readStat pid).bind procStat with
      | none => return none
      | some (comm, state, _) => return if comm = "system_server" ∧ state ≠ zombie then some pid else none) := by
  refine Prog.only_firstSome fun pid _ => Prog.only_bind (Prog.only_perform ⟨pid, rfl⟩) fun stat => ?_
  split <;> trivial

theorem spec_body (j : Job) : Prog.Spec (rules j) (body j) .idle fun _ o => o = .idle := by
  cases j with
  | daemons pred =>
    refine Prog.spec_seq (M := fun _ o => o = Phase.idle) (spec_readDir fun names => ?_) fun _ o ho => ho
    cases names with
    | none => rfl
    | some names =>
      refine Prog.spec_mono (Prog.spec_gather_all (P := fun _ => True) fun pid _ => ?_) fun _ _ ho => ho.2
      refine Prog.spec_seq (spec_safeCmdline pred pid) fun cmdline o ho => ?_
      cases cmdline with
      | none => exact ⟨fun _ _ => trivial, ho⟩
      | some cmdline => exact ⟨fun _ _ => trivial, ho⟩
  | systemServer =>
    refine Prog.spec_seq (M := fun _ o => o = Phase.idle) (spec_readDir fun names => ?_) fun _ o ho => ho
    cases names with
    | none => rfl
    | some names =>
      refine Prog.spec_only (only_readStat (pidsIn names)) ?_
      rintro _ ⟨pid, rfl⟩
      exact ⟨rfl, fun stat _ ho => ho.trans (ofStat_systemServer pid stat)⟩

/-! ### What a step does -/

/-- How many scans are in one of these phases. -/
def tally (p : Phase → Bool) (M : Multiset Phase) : Nat := M.countP fun o => p o = true

theorem tally_cons (p : Phase → Bool) (o : Phase) (M : Multiset Phase) :
    tally p (o ::ₘ M) = tally p M + (p o).toNat := by
  rw [tally, Multiset.countP_cons]
  cases p o <;> rfl

/-- A scan that has come to its end is in no phase. -/
theorem typed_busy {others : List (Pool.Thread Op.Resp Job)} {os : List Phase}
    (h : Pool.Typed rules (· = .idle) others os) : tally Phase.busy os ≤ others.countP unfinished := by
  induction h with
  | nil => exact Nat.le_refl 0
  | @cons t o others os ht _ ih =>
    rw [← Multiset.cons_coe, tally_cons, List.countP_cons]
    obtain ⟨j, rest⟩ := t
    cases rest with
    | ret a =>
      obtain rfl : o = .idle := ht
      exact ih
    | call op next =>
      have hone := Bool.toNat_le o.busy
      have hcall : unfinished ⟨j, .call op next⟩ = true := rfl
      rw [if_pos hcall]
      omega

variable {k n : Nat} {M : Multiset Phase} {w w' : World} {q : Identity} {o o' : Phase}

/-- What one operation does to its scan and to the world. -/
inductive Moves (w : World) : Phase → Phase → World → Prop where
  | finds : Moves w .idle .idle w
  | sees {pid : Int32} {starttime : UInt64} (hlive : w.Alive (pid, starttime)) : Moves w .idle (.seen pid starttime) w
  | skips {pid : Int32} {starttime : UInt64} : Moves w (.seen pid starttime) .idle w
  | checks {pid : Int32} {starttime : UInt64} (hnew : (pid, starttime) ∉ w.unreadable) :
      Moves w (.seen pid starttime) (.checked pid starttime) w
  | answered {pid : Int32} {starttime : UInt64} : Moves w (.checked pid starttime) .idle w
  | timesOut {pid : Int32} {starttime : UInt64} :
      Moves w (.checked pid starttime) (.timedOut pid starttime) (w.block pid)
  | memoizes {pid : Int32} {starttime : UInt64} :
      Moves w (.timedOut pid starttime) .idle { w with unreadable := (pid, starttime) :: w.unreadable }

variable {pid : Int32} {starttime : UInt64}

theorem moves_readStat (pid : Int32) (reads fails : Bool) :
    Moves w .idle (.ofStat reads pid (if fails then none else (w.processes pid).map fun p => p.statLine pid)) w := by
  cases fails with
  | true => exact .finds
  | false =>
    cases hp : w.processes pid with
    | none => exact .finds
    | some p =>
      have hline : (some (p.statLine pid)).bind procStat = some (p.comm, p.state.toUInt8, p.starttime) := by
        rw [Option.bind_some, procStat_statLine]
      rw [if_neg Bool.false_ne_true, Option.map_some, ofStat_some hline]
      split
      · exact .sees ⟨p, hp, rfl⟩
      · exact .finds

theorem moves_isUnreadable (pid : Int32) (starttime : UInt64) :
    Moves w (.seen pid starttime) (.ofMemo pid starttime (decide ((pid, starttime) ∈ w.unreadable))) w := by
  by_cases hmemo : (pid, starttime) ∈ w.unreadable
  · rw [decide_eq_true hmemo]
    exact .skips
  · rw [decide_eq_false hmemo]
    exact .checks hmemo

/-- An operation moves its scan on, as the rules say. -/
theorem moves_of_exec {j : Job} {e : Env} {op : Op} {r : op.Resp} (hallow : (rules j).allow o op)
    (he : exec e op w = some (r, w')) : ∃ o', (rules j).next o op r o' ∧ Moves w o o' w' := by
  cases op with
  | readDir =>
    obtain rfl : o = .idle := hallow
    obtain ⟨rfl, rfl⟩ := Prod.mk.inj (Option.some.inj he)
    exact ⟨.idle, rfl, .finds⟩
  | readStat pid =>
    obtain rfl : o = .idle := hallow
    obtain ⟨rfl, rfl⟩ := Prod.mk.inj (Option.some.inj he)
    exact ⟨_, rfl, moves_readStat pid j.reads e.statFails⟩
  | isUnreadable pid starttime =>
    obtain rfl : o = .seen pid starttime := hallow
    obtain ⟨rfl, rfl⟩ := Prod.mk.inj (Option.some.inj he)
    exact ⟨_, rfl, moves_isUnreadable pid starttime⟩
  | readCmdline pid =>
    obtain ⟨starttime, rfl⟩ := hallow
    obtain ⟨rfl, rfl⟩ := Prod.mk.inj (Option.some.inj he)
    refine ⟨.ofRead pid starttime e.read, fun starttime' heq => ?_, ?_⟩
    · cases heq
      rfl
    · cases e.read with
      | spawnFails => exact .answered
      | sends data => exact .answered
      | timesOut => exact .timesOut
  | setUnreadable pid starttime =>
    obtain rfl : o = .timedOut pid starttime := hallow
    obtain ⟨rfl, rfl⟩ := Prod.mk.inj (Option.some.inj he)
    exact ⟨.idle, rfl, .memoizes⟩

/-- What keeps an account of the scans, with at most `k` of them at a time. -/
theorem keeps_of_moves {own : Multiset Phase → World → Prop} (hstart : ∀ M w, own M w → own (.idle ::ₘ M) w)
    (hmoves : ∀ M o o' w w', tally Phase.busy M < k → own (o ::ₘ M) w → Moves w o o' w' → own (o' ::ₘ M) w')
    (hdrift : ∀ M w w', own M w → w.Drift w' → own M w') :
    Pool.Keeps scans (atMost k) rules (· = .idle) own where
  starts j _ := ⟨.idle, spec_body j, hstart⟩
  ops j others os o w op r w' htyped hown hallow hstep hok := by
    obtain ⟨e, -, he⟩ := hstep
    obtain ⟨o', hnext, hmove⟩ := moves_of_exec hallow he
    refine ⟨o', os, [], hnext, htyped, .nil, ?_⟩
    rw [List.append_nil]
    exact hmoves os o o' w w' ((typed_busy htyped).trans_lt hok) hown hmove
  drifts := hdrift
  kills _ _ _ _ _ h := h.elim

/-- The surroundings touch neither the memo nor the past. -/
structure World.Ages (w w' : World) (q : Identity) : Prop where
  started : w.started q → w'.started q
  alive : w'.Alive q → w.Alive q ∨ ¬w.started q ∧ w'.started q
  memo : w'.unreadable = w.unreadable
  blocked : w'.blocked.count q ≤ w.blocked.count q

/-- Who is alive once a pid has changed hands. -/
theorem alive_update {occupant : Option Process}
    (h : ∃ p, Function.update w.processes pid occupant q.1 = some p ∧ p.starttime = q.2) :
    (∃ p, occupant = some p ∧ q = (pid, p.starttime)) ∨ w.Alive q := by
  obtain ⟨p, hp, hstart⟩ := h
  by_cases hpid : q.1 = pid
  · rw [hpid, Function.update_self] at hp
    exact .inl ⟨p, hp, Prod.ext hpid hstart.symm⟩
  · rw [Function.update_of_ne hpid] at hp
    exact .inr ⟨p, hp, hstart⟩

theorem World.Drift.ages (h : w.Drift w') (q : Identity) : w.Ages w' q := by
  cases h with
  | starts pid p hnew =>
    refine ⟨.inr, fun hlive => ?_, rfl, Nat.le_refl _⟩
    rcases alive_update hlive with ⟨p', hp', rfl⟩ | hold
    · cases hp'
      exact .inr ⟨hnew, .inl rfl⟩
    · exact .inl hold
  | @changes pid p p' hp hsame =>
    refine ⟨id, fun hlive => .inl ?_, rfl, Nat.le_refl _⟩
    rcases alive_update hlive with ⟨p'', hp'', rfl⟩ | hold
    · cases hp''
      exact ⟨p, hp, hsame.symm⟩
    · exact hold
  | ends pid =>
    refine ⟨id, fun hlive => .inl ?_, rfl, Nat.le_refl _⟩
    rcases alive_update hlive with ⟨p, hp, -⟩ | hold
    · cases hp
    · exact hold
  | returns q' => exact ⟨id, .inl, rfl, List.erase_sublist.count_le q⟩

/-- A pid is that of one process. -/
theorem alive_unique (h : w.Alive (pid, starttime)) (hq : w.Alive q) (hpid : pid = q.1) : starttime = q.2 := by
  obtain ⟨p, hp, rfl⟩ := h
  obtain ⟨p', hp', hstart⟩ := hq
  subst hpid
  cases hp.symm.trans hp'
  exact hstart

/-- A scan of a process that is alive is not stale. -/
theorem isStale_eq_false (h : w.Alive (pid, starttime)) (hq : w.Alive q) :
    (Phase.seen pid starttime).isStale q = false := by
  rw [Phase.isStale, Bool.and_eq_false_iff, decide_eq_false_iff_not, decide_eq_false_iff_not, not_not]
  by_cases hpid : pid = q.1
  · exact .inr (alive_unique h hq hpid)
  · exact .inl hpid

/-- No scan that is past the memo takes the process for one in it. -/
theorem isChecked_eq_false (hnew : (pid, starttime) ∉ w.unreadable) (hmemo : q ∈ w.unreadable) :
    (Phase.checked pid starttime).isChecked q = false := by
  refine decide_eq_false fun heq => hnew ?_
  cases heq
  exact hmemo

/-- What a scan is about to read, it took for that process or for another. -/
theorem checked_or_stale (pid : Int32) (starttime starttime' : UInt64) :
    ((Phase.checked pid starttime).isChecked (pid, starttime') = true ∧
      (Phase.timedOut pid starttime).isTimedOut (pid, starttime') = true) ∨
      (Phase.checked pid starttime).isStale (pid, starttime') = true := by
  by_cases hstart : starttime = starttime'
  · subst hstart
    exact .inl ⟨decide_eq_true rfl, decide_eq_true rfl⟩
  · exact .inr (by simp [Phase.isStale, hstart])

/-- A thread is left behind on a process that is alive, if on any. -/
theorem block_cases (w : World) (pid : Int32) :
    w.block pid = w ∨ ∃ starttime', w.Alive (pid, starttime') ∧
      w.block pid = { w with blocked := (pid, starttime') :: w.blocked } := by
  rw [World.block]
  cases hp : w.processes pid with
  | none => exact .inl rfl
  | some p => exact .inr ⟨p.starttime, ⟨p, hp, rfl⟩, rfl⟩

/-! ### A process that does not answer -/

/-- Its command line cannot be read. -/
def wedged : Process := ⟨"cat ) Z", 'S', rfl, .replicate 18 0, List.length_replicate, 500, [-1]⟩

def oneWedged : World := .start fun pid => if pid = 7 then some wedged else none

/-- A scan of so many operations. -/
def scanMoves (i n : Nat) : List (Pool.Move Job World Env) :=
  .start (.daemons fun _ => true) :: .replicate n (.op i ⟨some ["self", "7"], false, .timesOut⟩)

def checkAtMost (k : Nat) : Pool.Check Op.Resp Job World :=
  fun _ others _ _ _ _ => decide (others.countP unfinished < k)

theorem reach_scanMoves {i n : Nat} {s s' : Pool.State Op.Resp Job World}
    (h : Pool.play scans exec (checkAtMost k) (scanMoves i n) s = some s') : Pool.Reach scans (atMost k) s s' := by
  have hlegal : ∀ m ∈ scanMoves i n, Pool.Legal scans (fun _ => True) m := by
    intro m hm
    rcases List.mem_cons.1 hm with rfl | hm
    · trivial
    · exact Pool.legal_replicate trivial i n m hm
  have hstep : ∀ e op w r w', True → exec e op w = some (r, w') → scans.step w op r w' :=
    fun e _ _ _ _ _ h => ⟨e, trivial, h⟩
  refine Pool.reach_mono (fun _ others _ _ _ _ hcheck => ?_) (Pool.play_sound hstep hlegal h)
  change others.countP unfinished < k
  exact of_decide_eq_true hcheck

/-! ### The threads left behind -/

/-- A scan is in one phase, and takes the process for one. -/
theorem phases_le (q : Identity) (M : Multiset Phase) :
    tally (Phase.isTimedOut q) M + tally (Phase.isChecked q) M + tally (Phase.isStale q) M ≤ tally Phase.busy M := by
  induction M using Multiset.induction with
  | empty => exact Nat.le_refl 0
  | cons o M ih =>
    have hone : (o.isTimedOut q).toNat + (o.isChecked q).toNat + (o.isStale q).toNat ≤ o.busy.toNat := by
      obtain ⟨pid, starttime⟩ := q
      cases o with
      | idle => exact Nat.le_refl 0
      | seen _ _ => simpa [Phase.isTimedOut, Phase.isChecked, Phase.busy] using Bool.toNat_le _
      | checked pid' starttime' =>
        by_cases hpid : pid' = pid <;> by_cases hstart : starttime' = starttime <;>
          simp [Phase.isTimedOut, Phase.isChecked, Phase.isStale, Phase.busy, hpid, hstart]
      | timedOut _ _ => simpa [Phase.isChecked, Phase.isStale, Phase.busy] using Bool.toNat_le _
    simp only [tally_cons]
    omega

/-- While a process is alive, the threads blocked on it belong to scans that are about to put it into the memo, or
took it for one before it; once it is in the memo, no scan starts to read it. -/
structure Account (k : Nat) (M : Multiset Phase) (w : World) (q : Identity) : Prop where
  unborn : ¬w.started q → w.blocked.count q = 0 ∧ q ∉ w.unreadable ∧ tally (Phase.isAbout q) M = 0
  reading : w.Alive q → q ∉ w.unreadable →
    w.blocked.count q + tally (Phase.isStale q) M ≤ tally (Phase.isTimedOut q) M + k
  memoized : w.Alive q → q ∈ w.unreadable →
    w.blocked.count q + tally (Phase.isChecked q) M + tally (Phase.isStale q) M ≤ 2 * k
  bound : w.blocked.count q ≤ 2 * k

structure Accounted (k : Nat) (M : Multiset Phase) (w : World) : Prop where
  busy : tally Phase.busy M ≤ k
  alive : ∀ q, w.Alive q → w.started q
  each : ∀ q, Account k M w q

theorem Account.world (h : Account k M w q) (hstarted : w.started q → w'.started q)
    (halive : w'.Alive q → w.Alive q) (hmemo : w'.unreadable = w.unreadable)
    (hblocked : w'.blocked.count q ≤ w.blocked.count q) : Account k M w' q where
  unborn hnew := by
    obtain ⟨hcount, hmem, habout⟩ := h.unborn fun hold => hnew (hstarted hold)
    exact ⟨by omega, hmemo ▸ hmem, habout⟩
  reading hlive hmem := (Nat.add_le_add_right hblocked _).trans (h.reading (halive hlive) (hmemo ▸ hmem))
  memoized hlive hmem := by
    have hle := h.memoized (halive hlive) (hmemo ▸ hmem)
    omega
  bound := hblocked.trans h.bound

/-- A scan goes on; `n` threads are left behind on the process. -/
theorem Account.step (h : Account k (o ::ₘ M) w q) (hbusy : tally Phase.busy M < k)
    (hstarted : w.Alive q → w.started q) (habout : o'.isAbout q → w.started q) {blocked : List Identity}
    (hblocked : blocked.count q = w.blocked.count q + n) (hn : n = 0 ∨ w.Alive q)
    (hreading : w.Alive q → q ∉ w.unreadable →
      n + (o'.isStale q).toNat + (o.isTimedOut q).toNat ≤ (o'.isTimedOut q).toNat + (o.isStale q).toNat)
    (hmemoized : w.Alive q → q ∈ w.unreadable →
      n + (o'.isChecked q).toNat + (o'.isStale q).toNat ≤ (o.isChecked q).toNat + (o.isStale q).toNat) :
    Account k (o' ::ₘ M) { w with blocked } q := by
  have hphases := phases_le q (o' ::ₘ M)
  have hone := Bool.toNat_le o'.busy
  have hr := h.reading
  have hm := h.memoized
  simp only [tally_cons] at hphases hr hm
  have hreading' : w.Alive q → q ∉ w.unreadable → blocked.count q + (tally (Phase.isStale q) M + (o'.isStale q).toNat) ≤
      tally (Phase.isTimedOut q) M + (o'.isTimedOut q).toNat + k := by
    intro hlive hmem
    have h₁ := hr hlive hmem
    have h₂ := hreading hlive hmem
    omega
  have hmemoized' : w.Alive q → q ∈ w.unreadable → blocked.count q +
      (tally (Phase.isChecked q) M + (o'.isChecked q).toNat) + (tally (Phase.isStale q) M + (o'.isStale q).toNat) ≤
        2 * k := by
    intro hlive hmem
    have h₁ := hm hlive hmem
    have h₂ := hmemoized hlive hmem
    omega
  refine ⟨fun hnew => ?_, ?_, ?_, ?_⟩
  · obtain ⟨hcount, hmem, hnone⟩ := h.unborn hnew
    rw [tally_cons] at hnone ⊢
    have hzero : n = 0 := hn.resolve_right fun hlive => hnew (hstarted hlive)
    have hother : o'.isAbout q = false := by
      by_contra habout'
      exact hnew (habout (by simpa using habout'))
    change blocked.count q = 0 ∧ q ∉ w.unreadable ∧ _
    refine ⟨by omega, hmem, ?_⟩
    rw [hother, Bool.toNat_false]
    omega
  · simp only [tally_cons]
    exact hreading'
  · simp only [tally_cons]
    exact hmemoized'
  · change blocked.count q ≤ 2 * k
    rcases hn with hzero | hlive
    · have hbound := h.bound
      omega
    · by_cases hmem : q ∈ w.unreadable
      · have hle := hmemoized' hlive hmem
        omega
      · have hle := hreading' hlive hmem
        omega

/-- No scan has read anything of a process that has not started. -/
theorem Accounted.about (h : Accounted k (o ::ₘ M) w) (habout : o.isAbout q) : w.started q := by
  by_contra hnew
  have hnone := ((h.each q).unborn hnew).2.2
  rw [tally_cons, habout, Bool.toNat_true] at hnone
  omega

theorem Accounted.phase (h : Accounted k (o ::ₘ M) w) (hbusy : tally Phase.busy M < k)
    (habout : ∀ q, o'.isAbout q → w.started q)
    (hreading : ∀ q, w.Alive q → q ∉ w.unreadable →
      (o'.isStale q).toNat + (o.isTimedOut q).toNat ≤ (o'.isTimedOut q).toNat + (o.isStale q).toNat)
    (hmemoized : ∀ q, w.Alive q → q ∈ w.unreadable →
      (o'.isChecked q).toNat + (o'.isStale q).toNat ≤ (o.isChecked q).toNat + (o.isStale q).toNat) :
    Accounted k (o' ::ₘ M) w where
  busy := by
    have hone := Bool.toNat_le o'.busy
    rw [tally_cons]
    omega
  alive := h.alive
  each q := (h.each q).step (n := 0) hbusy (h.alive q) (habout q) rfl (.inl rfl)
    (fun hlive hmem => by simpa using hreading q hlive hmem) (fun hlive hmem => by simpa using hmemoized q hlive hmem)

theorem Accounted.drift (h : Accounted k M w) (hw : w.Drift w') : Accounted k M w' := by
  refine ⟨h.busy, fun q hlive => ?_, fun q => ?_⟩
  · rcases (hw.ages q).alive hlive with hold | ⟨-, hnow⟩
    · exact (hw.ages q).started (h.alive q hold)
    · exact hnow
  obtain ⟨hstarted, halive, hmemo, hblocked⟩ := hw.ages q
  by_cases hknown : w.started q
  · exact (h.each q).world hstarted (fun hlive => (halive hlive).resolve_right fun hnew => hnew.1 hknown) hmemo hblocked
  · -- there is no trace of the process yet
    obtain ⟨hcount, hmem, habout⟩ := (h.each q).unborn hknown
    rw [← hmemo] at hmem
    have hphases := phases_le q M
    have hbusy := h.busy
    exact ⟨fun _ => ⟨by omega, hmem, habout⟩, fun _ _ => by omega, fun _ hmem' => absurd hmem' hmem, by omega⟩

/-- Whose command line it is may not be known to the scan. -/
theorem Accounted.timesOut (h : Accounted k (.checked pid starttime ::ₘ M) w) (hbusy : tally Phase.busy M < k) :
    Accounted k (.timedOut pid starttime ::ₘ M) (w.block pid) := by
  rcases block_cases w pid with heq | ⟨starttime', hlive, heq⟩ <;> rw [heq]
  · exact h.phase hbusy (fun _ habout => h.about habout) (fun _ _ _ => Nat.zero_le _) fun _ _ _ => Nat.zero_le _
  refine ⟨?_, h.alive, fun q => ?_⟩
  · have hone := Bool.toNat_le (Phase.timedOut pid starttime).busy
    rw [tally_cons]
    omega
  have habout : (Phase.timedOut pid starttime).isAbout q → w.started q := fun habout => h.about habout
  by_cases hq : q = (pid, starttime')
  · subst hq
    have hcount : ((pid, starttime') :: w.blocked).count (pid, starttime') = w.blocked.count (pid, starttime') + 1 :=
      List.count_cons_self
    refine (h.each _).step hbusy (h.alive _) habout hcount (.inr hlive) ?_ ?_
    · intro _ _
      rcases checked_or_stale pid starttime starttime' with ⟨-, htimed⟩ | hstale
      · rw [htimed]
        exact Nat.le_add_right 1 _
      · rw [hstale]
        exact Nat.le_add_left 1 _
    · intro _ _
      rcases checked_or_stale pid starttime starttime' with ⟨hchecked, -⟩ | hstale
      · rw [hchecked]
        exact Nat.le_add_right 1 _
      · rw [hstale]
        exact Nat.le_add_left 1 _
  · have hcount : ((pid, starttime') :: w.blocked).count q = w.blocked.count q + 0 :=
      List.count_cons_of_ne fun heq => hq heq.symm
    exact (h.each q).step hbusy (h.alive q) habout hcount (.inl rfl) (fun _ _ => Nat.zero_le _)
      fun _ _ => Nat.zero_le _

theorem Accounted.setUnreadable (h : Accounted k (.timedOut pid starttime ::ₘ M) w) (hbusy : tally Phase.busy M < k) :
    Accounted k (.idle ::ₘ M) { w with unreadable := (pid, starttime) :: w.unreadable } := by
  refine ⟨?_, h.alive, fun q => ?_⟩
  · rw [tally_cons]
    exact hbusy.le
  by_cases hq : q = (pid, starttime)
  · subst hq
    have hold := h.each (pid, starttime)
    have hphases := phases_le (pid, starttime) M
    refine ⟨fun hnew => absurd (h.about (decide_eq_true rfl)) hnew, fun _ hmem => absurd List.mem_cons_self hmem, ?_,
      hold.bound⟩
    intro hlive _
    change w.blocked.count _ + _ + _ ≤ _
    have hone := Bool.toNat_le ((Phase.timedOut pid starttime).isTimedOut (pid, starttime))
    by_cases hmem : (pid, starttime) ∈ w.unreadable
    · have hle := hold.memoized hlive hmem
      simp only [tally_cons] at hle ⊢
      exact hle
    · have hle := hold.reading hlive hmem
      simp only [tally_cons] at hle ⊢
      simp only [Phase.isStale, Phase.isChecked, reduceCtorEq, decide_false, Bool.toNat_false] at hle ⊢
      omega
  · have hmemo : q ∈ (pid, starttime) :: w.unreadable ↔ q ∈ w.unreadable := by
      rw [List.mem_cons, or_iff_right hq]
    have hother : (Phase.timedOut pid starttime).isTimedOut q = false := by
      refine decide_eq_false fun heq => hq ?_
      cases heq
      rfl
    have habout : Phase.idle.isAbout q → w.started q := fun habout => absurd habout Bool.false_ne_true
    have hidle : Account k (.idle ::ₘ M) w q := by
      refine (h.each q).step hbusy (h.alive q) habout (Nat.add_zero _).symm (.inl rfl) (fun _ _ => ?_)
        fun _ _ => Nat.zero_le _
      rw [hother]
      exact Nat.zero_le _
    refine ⟨fun hnew => ?_, fun hlive hmem => ?_, fun hlive hmem => hidle.memoized hlive (hmemo.1 hmem), hidle.bound⟩
    · obtain ⟨hcount, hmem, hnone⟩ := hidle.unborn hnew
      exact ⟨hcount, fun hmem' => hmem (hmemo.1 hmem'), hnone⟩
    · exact hidle.reading hlive fun hmem' => hmem (hmemo.2 hmem')

theorem Accounted.start (h : Accounted k M w) : Accounted k (.idle ::ₘ M) w := by
  refine ⟨?_, h.alive, fun q => ?_⟩
  · rw [tally_cons]
    exact h.busy
  obtain ⟨hunborn, hreading, hmemoized, hbound⟩ := h.each q
  refine ⟨?_, ?_, ?_, hbound⟩ <;> simp only [tally_cons]
  · exact hunborn
  · exact hreading
  · exact hmemoized

theorem Accounted.moves (h : Accounted k (o ::ₘ M) w) (hbusy : tally Phase.busy M < k) (hm : Moves w o o' w') :
    Accounted k (o' ::ₘ M) w' := by
  cases hm with
  | finds => exact h
  | sees hlive =>
    refine h.phase hbusy (fun q habout => ?_) (fun q hlive' _ => ?_) fun q hlive' _ => ?_
    · obtain rfl : _ = q := by simpa [Phase.isAbout] using habout
      exact h.alive _ hlive
    · rw [isStale_eq_false hlive hlive']
      exact Nat.zero_le _
    · rw [isStale_eq_false hlive hlive']
      exact Nat.zero_le _
  | skips =>
    exact h.phase hbusy (fun _ habout => absurd habout Bool.false_ne_true) (fun _ _ _ => Nat.zero_le _)
      fun _ _ _ => Nat.zero_le _
  | checks hnew =>
    refine h.phase hbusy (fun _ habout => h.about habout) (fun _ _ _ => Nat.le_of_eq (Nat.add_comm _ _)) ?_
    intro q _ hmem
    rw [isChecked_eq_false hnew hmem]
    exact Nat.le_refl _
  | answered =>
    exact h.phase hbusy (fun _ habout => absurd habout Bool.false_ne_true) (fun _ _ _ => Nat.zero_le _)
      fun _ _ _ => Nat.zero_le _
  | timesOut => exact h.timesOut hbusy
  | memoizes => exact h.setUnreadable hbusy

theorem keeps_accounted (k : Nat) : Pool.Keeps scans (atMost k) rules (· = .idle) (Accounted k) :=
  keeps_of_moves (fun _ _ h => h.start) (fun _ _ _ _ _ hbusy h hm => h.moves hbusy hm) fun _ _ _ h hw => h.drift hw

theorem accounted_start (k : Nat) (processes : Int32 → Option Process) : Accounted k 0 (.start processes) where
  busy := Nat.zero_le k
  alive _ hlive := hlive
  each _ := ⟨fun _ => ⟨rfl, List.not_mem_nil, rfl⟩, fun _ _ => Nat.zero_le _, fun _ _ => Nat.zero_le _, Nat.zero_le _⟩

/-- In every run in which no more than `k` scans go on at a time, no more than `2 * k` threads are ever left behind
on one process. -/
theorem blocked_le {k : Nat} {processes : Int32 → Option Process} {s : Pool.State Op.Resp Job World}
    (hs : Pool.Reach scans (atMost k) ⟨[], .start processes⟩ s) (q : Identity) : s.world.blocked.count q ≤ 2 * k := by
  obtain ⟨os, -, hown⟩ := (keeps_accounted k).run hs (Pool.inv_nil (accounted_start k processes))
  exact (hown.each q).bound

/-- Of two scans, one behind the other, the second one finds the process in the memo. -/
theorem blocked_le_twoScans : ∃ s, Pool.Reach scans (atMost 1) ⟨[], oneWedged⟩ s ∧
    s.threads.countP unfinished = 0 ∧ s.world.blocked = [(7, 500)] ∧ s.world.blocked.count (7, 500) ≤ 2 * 1 := by
  have hplay : ((Pool.play scans exec (checkAtMost 1) (scanMoves 0 5) ⟨[], oneWedged⟩).bind
      (Pool.play scans exec (checkAtMost 1) (scanMoves 1 3))).any (fun s =>
        s.threads.countP unfinished == 0 && s.world.blocked == [(7, 500)]) = true := by
    decide +kernel
  obtain ⟨s, hs, hend⟩ := (Option.any_eq_true _ _).1 hplay
  obtain ⟨s₁, hfirst, hsecond⟩ := Option.bind_eq_some_iff.1 hs
  rw [Bool.and_eq_true, beq_iff_eq, beq_iff_eq] at hend
  have hreach := (reach_scanMoves hfirst).trans (reach_scanMoves hsecond)
  exact ⟨s, hreach, hend.1, hend.2, blocked_le hreach (7, 500)⟩

/-! ### Behind the memo -/

/-- The process is in the memo and, while it is alive, no scan is going to read it. -/
structure Settled (c : Nat) (q : Identity) (M : Multiset Phase) (w : World) : Prop where
  started : w.started q
  memo : q ∈ w.unreadable
  quiet : w.Alive q → tally (Phase.isChecked q) M + tally (Phase.isStale q) M = 0
  count : w.blocked.count q ≤ c

variable {c : Nat}

theorem Settled.drift (h : Settled c q M w) (hw : w.Drift w') : Settled c q M w' := by
  obtain ⟨hstarted, halive, hmemo, hblocked⟩ := hw.ages q
  refine ⟨hstarted h.started, hmemo ▸ h.memo, fun hlive => h.quiet ?_, hblocked.trans h.count⟩
  exact (halive hlive).resolve_right fun hnew => hnew.1 h.started

theorem Settled.phase (h : Settled c q (o ::ₘ M) w) (hphase : w.Alive q →
    (o'.isChecked q).toNat + (o'.isStale q).toNat ≤ (o.isChecked q).toNat + (o.isStale q).toNat) :
    Settled c q (o' ::ₘ M) w := by
  refine ⟨h.started, h.memo, fun hlive => ?_, h.count⟩
  have hquiet := h.quiet hlive
  have hle := hphase hlive
  simp only [tally_cons] at hquiet ⊢
  omega

theorem Settled.moves (h : Settled c q (o ::ₘ M) w) (hm : Moves w o o' w') : Settled c q (o' ::ₘ M) w' := by
  cases hm with
  | finds => exact h
  | sees hlive =>
    refine h.phase fun hlive' => ?_
    rw [isStale_eq_false hlive hlive']
    exact Nat.zero_le _
  | skips => exact h.phase fun _ => Nat.zero_le _
  | checks hnew =>
    refine h.phase fun _ => ?_
    rw [isChecked_eq_false hnew h.memo]
    exact Nat.le_refl _
  | answered => exact h.phase fun _ => Nat.zero_le _
  | @timesOut pid starttime =>
    have hrest : Settled c q (.timedOut pid starttime ::ₘ M) w := h.phase fun _ => Nat.zero_le _
    rcases block_cases w pid with heq | ⟨starttime', hlive, heq⟩ <;> rw [heq]
    · exact hrest
    refine ⟨h.started, h.memo, hrest.quiet, ?_⟩
    by_cases hq : q = (pid, starttime')
    · -- the scan would have taken it for a process that it is going to read
      subst hq
      have hquiet := h.quiet hlive
      simp only [tally_cons] at hquiet
      rcases checked_or_stale pid starttime starttime' with ⟨hchecked, -⟩ | hstale
      · rw [hchecked, Bool.toNat_true] at hquiet
        omega
      · rw [hstale, Bool.toNat_true] at hquiet
        omega
    · change ((pid, starttime') :: w.blocked).count q ≤ c
      rw [List.count_cons_of_ne fun heq => hq heq.symm]
      exact h.count
  | memoizes =>
    have hrest : Settled c q (.idle ::ₘ M) w := h.phase fun _ => Nat.zero_le _
    exact ⟨hrest.started, List.mem_cons_of_mem _ hrest.memo, hrest.quiet, hrest.count⟩

theorem keeps_settled (k c : Nat) (q : Identity) :
    Pool.Keeps scans (atMost k) rules (· = .idle) (Settled c q) :=
  keeps_of_moves (fun _ _ h => ⟨h.started, h.memo, fun hlive => by
    rw [tally_cons, tally_cons]
    exact h.quiet hlive, h.count⟩) (fun _ _ _ _ _ _ h hm => h.moves hm) fun _ _ _ h hw => h.drift hw

/-- Once a process is in the memo and the scans have come to their ends, no scan ever leaves a further thread behind
on it. -/
theorem blocked_antitone {k : Nat} {processes : Int32 → Option Process} {s s' : Pool.State Op.Resp Job World}
    (hs : Pool.Reach scans (atMost k) ⟨[], .start processes⟩ s) (hdone : s.threads.countP unfinished = 0)
    {q : Identity} (hmemo : q ∈ s.world.unreadable) (hs' : Pool.Reach scans (atMost k) s s') :
    s'.world.blocked.count q ≤ s.world.blocked.count q := by
  obtain ⟨os, htyped, hown⟩ := (keeps_accounted k).run hs (Pool.inv_nil (accounted_start k processes))
  have hstarted : s.world.started q := by
    by_contra hnew
    exact ((hown.each q).unborn hnew).2.1 hmemo
  have hbusy := typed_busy htyped
  have hphases := phases_le q os
  have hsettled : Settled (s.world.blocked.count q) q os s.world :=
    ⟨hstarted, hmemo, fun _ => by omega, Nat.le_refl _⟩
  obtain ⟨os', -, hown'⟩ := (keeps_settled k _ q).run hs' ⟨os, htyped, hsettled⟩
  exact hown'.count

/-- The second scan leaves no further thread behind. -/
theorem blocked_antitone_twoScans : ∃ s s', Pool.Reach scans (atMost 1) ⟨[], oneWedged⟩ s ∧
    Pool.Reach scans (atMost 1) s s' ∧ s.threads.countP unfinished = 0 ∧ (7, 500) ∈ s.world.unreadable ∧
    s'.world.blocked.count (7, 500) ≤ s.world.blocked.count (7, 500) := by
  have hplay : (Pool.play scans exec (checkAtMost 1) (scanMoves 0 5) ⟨[], oneWedged⟩).any (fun s =>
      (s.threads.countP unfinished == 0 && s.world.unreadable.contains (7, 500)) &&
        (Pool.play scans exec (checkAtMost 1) (scanMoves 1 3) s).isSome) = true := by
    decide +kernel
  obtain ⟨s, hs, hend⟩ := (Option.any_eq_true _ _).1 hplay
  rw [Bool.and_eq_true, Bool.and_eq_true, beq_iff_eq, List.contains_iff_mem] at hend
  obtain ⟨⟨hdone, hmemo⟩, hagain⟩ := hend
  obtain ⟨s', hs'⟩ := Option.isSome_iff_exists.1 hagain
  have hreach := reach_scanMoves hs
  have hreach' := reach_scanMoves hs'
  exact ⟨s, s', hreach, hreach', hdone, hmemo, blocked_antitone hreach hdone hmemo hreach'⟩

end OnyxZygisk.Daemon.Processes

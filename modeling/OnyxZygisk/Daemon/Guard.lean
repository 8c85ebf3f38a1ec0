import OnyxZygisk.Daemon.SwapRuns

/-!
# The restart guard

The guard of a module that waits for its reboot goes through `rebooting`, `confirming` and `observing`, and
a daemon that starts, a system server that starts and the stability timer move it. `Breaker` is what they do
to it, without the files, and the daemon's functions follow it (`Holds.happen`).
-/

namespace OnyxZygisk.Daemon

open Prog (Only)

variable {e : Env} {w w' : World} {name : String} {p q : FilePath} {fs fs' : FileTree}

/-! ### The texts of the guard -/

/-- The form of a kernel boot id. -/
def isUuid (s : String) : Bool :=
  (Text.split '-' s).map String.length = [8, 4, 4, 4, 12] &&
    s.toList.all fun c => c.isDigit || (decide ('a' ≤ c) && decide (c ≤ 'f')) || c = '-'

/-- A boot id as the kernel gives it. -/
structure Uuid where
  text : String
  form : isUuid text = true
deriving DecidableEq

/-- Where a guard stands. -/
inductive GuardState
  | gone
  | rebooting (boot : Uuid)
  | confirming (boot : Uuid)
  | observing (boot : Uuid) (pid : Int32)
deriving DecidableEq

def GuardState.fields (name : String) : GuardState → List String
  | .gone => []
  | .rebooting boot => ["rebooting", name, boot.text]
  | .confirming boot => ["confirming", name, boot.text]
  | .observing boot pid => ["observing", name, boot.text, Text.printI32 pid]

/-- What the guard file holds. -/
def GuardState.text (name : String) : GuardState → Option String
  | .gone => none
  | .rebooting boot => some ("rebooting:" ++ name ++ ":" ++ boot.text)
  | .confirming boot => some ("confirming:" ++ name ++ ":" ++ boot.text)
  | .observing boot pid => some (Daemon.observing name boot.text pid)

/-- What a field of the guard is made of. -/
def isToken (c : Char) : Bool := c.isAlphanum || c == '.' || c == '_' || c == '-'

theorem isToken_dense {c : Char} (h : isToken c = true) : c ≠ ':' ∧ Text.isWhitespace c = false := by
  have hrange : 45 ≤ c.toNat ∧ c.toNat ≤ 122 ∧ c.toNat ≠ 58 := by
    simp only [isToken, Bool.or_eq_true, beq_iff_eq, Text.isAlphanum_iff, Text.isUpper_iff, Text.isLower_iff,
      Text.isDigit_iff] at h
    rcases h with ((((⟨h₁, h₂⟩ | ⟨h₁, h₂⟩) | ⟨h₁, h₂⟩) | rfl) | rfl) | rfl
    · omega
    · omega
    · omega
    all_goals decide
  refine ⟨fun hc => hrange.2.2 (by rw [hc]; rfl), ?_⟩
  simp only [Text.isWhitespace, Bool.or_eq_false_iff, Bool.and_eq_false_iff, decide_eq_false_iff_not,
    beq_eq_false_iff_ne]
  omega

theorem Uuid.isToken (boot : Uuid) {c : Char} (hc : c ∈ boot.text.toList) : isToken c = true := by
  have hall := List.all_eq_true.1 (Bool.and_eq_true_iff.1 boot.form).2 c hc
  simp only [Bool.or_eq_true, Bool.and_eq_true, decide_eq_true_eq] at hall
  simp only [Daemon.isToken, Bool.or_eq_true, beq_iff_eq, Text.isAlphanum_iff]
  rcases hall with (hdigit | ⟨ha, hf⟩) | rfl
  · exact .inl (.inl (.inl (.inr hdigit)))
  · refine .inl (.inl (.inl (.inl (.inr ?_))))
    exact Text.isLower_iff.2 ⟨ha, UInt32.le_trans hf (by decide : 'f'.val ≤ 'z'.val)⟩
  · exact .inr rfl

/-- A boot id is not an integer: it has a dash inside. -/
theorem Uuid.parseI32 (boot : Uuid) : Text.parseI32 boot.text = none := by
  obtain ⟨hform, hall⟩ := Bool.and_eq_true_iff.1 boot.form
  replace hform := of_decide_eq_true hform
  have hdash : '-' ∈ boot.text.toList := by
    by_contra hno
    rw [Text.split_single hno] at hform
    simp at hform
  have hdigits : Text.digits boot.text.toList = none := by
    refine if_neg fun hdigits => ?_
    exact absurd (List.all_eq_true.1 hdigits.2 '-' hdash) (by decide)
  unfold Text.parseI32
  split
  · rename_i cs hs
    have hs : boot.text = "" ++ String.singleton '-' ++ String.ofList cs := by
      apply String.toList_injective
      simp [hs]
    rw [hs, Text.split_cons _ (by simp)] at hform
    simp at hform
  · rename_i cs hs
    exact absurd (List.all_eq_true.1 hall '+' (by simp [hs])) (by decide)
  · rw [hdigits]
    rfl

theorem Uuid.text_ne_empty (boot : Uuid) : boot.text ≠ "" := by
  intro hnil
  have hform := (Bool.and_eq_true_iff.1 boot.form).1
  rw [hnil] at hform
  exact absurd hform (by decide)

theorem Uuid.trim (boot : Uuid) : Text.trim boot.text = boot.text :=
  Text.trim_of_dense fun _ hc => (isToken_dense (boot.isToken hc)).2

/-- The daemon reads the boot id the kernel gives, without its newline. -/
theorem Uuid.bootIdOf (boot : Uuid) : bootIdOf (some (boot.text ++ "\n")) = some boot.text := by
  have hcolon : ':' ∉ boot.text.toList := fun hc => (isToken_dense (boot.isToken hc)).1 rfl
  rw [Daemon.bootIdOf, Option.map_some,
    Text.trim_line boot.text_ne_empty fun _ hc => (isToken_dense (boot.isToken hc)).2, Option.filter_some,
    if_pos]
  simp [boot.text_ne_empty, hcolon]

theorem isToken_validModuleId (hname : validModuleId name = true) {c : Char} (hc : c ∈ name.toList) :
    isToken c = true :=
  List.all_eq_true.1 (Bool.and_eq_true_iff.1 hname).2 c hc

theorem isToken_printI32 {z : Int32} {c : Char} (hc : c ∈ (Text.printI32 z).toList) : isToken c = true := by
  rcases Text.mem_printI32 hc with rfl | hdigit
  · decide
  · simp [isToken, Text.isAlphanum_iff.2 (.inr hdigit)]

theorem GuardState.isToken_fields (hname : validModuleId name = true) (g : GuardState) :
    ∀ p ∈ g.fields name, ∀ c ∈ p.toList, isToken c = true := by
  intro p hp c hc
  have hstage : ∀ s ∈ ["rebooting", "confirming", "observing"], ∀ c ∈ s.toList, isToken c = true := by
    simp [isToken]
  cases g with
  | gone => nomatch hp
  | rebooting boot =>
    simp only [fields, List.mem_cons, List.not_mem_nil, or_false] at hp
    rcases hp with rfl | rfl | rfl
    · exact hstage _ (by simp) c hc
    · exact isToken_validModuleId hname hc
    · exact boot.isToken hc
  | confirming boot =>
    simp only [fields, List.mem_cons, List.not_mem_nil, or_false] at hp
    rcases hp with rfl | rfl | rfl
    · exact hstage _ (by simp) c hc
    · exact isToken_validModuleId hname hc
    · exact boot.isToken hc
  | observing boot pid =>
    simp only [fields, List.mem_cons, List.not_mem_nil, or_false] at hp
    rcases hp with rfl | rfl | rfl | rfl
    · exact hstage _ (by simp) c hc
    · exact isToken_validModuleId hname hc
    · exact boot.isToken hc
    · exact isToken_printI32 hc

theorem GuardState.text_eq {g : GuardState} {content : String} (h : g.text name = some content) :
    content = (String.singleton ':').intercalate (g.fields name) ∧ g.fields name ≠ [] := by
  cases g with
  | gone => nomatch h
  | rebooting boot =>
    obtain rfl := Option.some.inj h
    refine ⟨?_, nofun⟩
    apply String.toList_injective
    simp [fields]
  | confirming boot =>
    obtain rfl := Option.some.inj h
    refine ⟨?_, nofun⟩
    apply String.toList_injective
    simp [fields]
  | observing boot pid =>
    obtain rfl := Option.some.inj h
    refine ⟨?_, nofun⟩
    apply String.toList_injective
    simp [fields, Daemon.observing]

/-- The daemon reads back the fields of a guard. -/
theorem GuardState.split_text (hname : validModuleId name = true) {g : GuardState} {content : String}
    (h : g.text name = some content) :
    Text.trim content = content ∧ Text.split ':' content = g.fields name := by
  obtain ⟨rfl, hne⟩ := text_eq h
  have htoken := isToken_fields hname g
  constructor
  · refine Text.trim_of_dense fun c hc => ?_
    rcases Text.mem_intercalate hc with rfl | ⟨p, hp, hc⟩
    · decide
    · exact (isToken_dense (htoken p hp c hc)).2
  · exact Text.split_intercalate hne fun p hp hc => (isToken_dense (htoken p hp _ hc)).1 rfl

/-- The file tells where the guard stands. -/
theorem GuardState.text_inj (hname : validModuleId name = true) {g g' : GuardState}
    (h : g.text name = g'.text name) : g = g' := by
  have hfields : g.fields name = g'.fields name := by
    cases hg : g.text name with
    | none =>
      have hnone : ∀ g : GuardState, g.text name = none → g = .gone := fun g hg => by
        cases g <;> first | rfl | nomatch hg
      rw [hnone g hg, hnone g' (h ▸ hg)]
    | some content =>
      rw [← (split_text hname hg).2, ← (split_text hname (h ▸ hg)).2]
  have hboot : ∀ {b b' : Uuid}, b.text = b'.text → b = b' := fun {b b'} hb => by
    cases b
    cases b'
    cases hb
    rfl
  have hpid : ∀ {z z' : Int32}, Text.printI32 z = Text.printI32 z' → z = z' := fun {z z'} hz => by
    have hparse := congrArg Text.parseI32 hz
    rw [Text.parseI32_printI32, Text.parseI32_printI32] at hparse
    exact Option.some.inj hparse
  cases g <;> cases g' <;> simp only [fields, List.cons.injEq, reduceCtorEq, and_true, true_and,
    and_false] at hfields
  · rfl
  · rw [hboot hfields]
  · exact absurd hfields.1 (by decide)
  · exact absurd hfields.1 (by decide)
  · rw [hboot hfields]
  · rw [hboot hfields.1, hpid hfields.2]

/-! ### What the functions do to the guard -/

/-- The guard, and whether the module was unplugged. -/
structure Breaker where
  guard : GuardState
  unplugged : Bool
deriving DecidableEq

/-- A daemon starts, a system server starts, the timer of a guard for `pid` expires. -/
inductive Kind
  | startup
  | serverStarted
  | expiry (pid : Int32)
deriving DecidableEq

/-- What happens in the boot `boot` while the system server is `server`. -/
def Breaker.step (boot : Uuid) (server : Option Int32) (s : Breaker) : Kind → Breaker
  | .startup =>
    match s.guard with
    | .gone => s
    | .rebooting b => if b = boot then s else { s with guard := .confirming boot }
    | .confirming b => if b = boot then s else ⟨.gone, true⟩
    | .observing b _ => if b = boot then s else ⟨.gone, true⟩
  | .serverStarted =>
    match server, s.guard with
    | none, _ => s
    | some _, .gone => s
    | some pid, .rebooting b => if b = boot then s else { s with guard := .observing boot pid }
    | some pid, .confirming b => if b = boot then { s with guard := .observing boot pid } else s
    | some pid, .observing b old => if b = boot ∧ old ≠ pid then ⟨.gone, true⟩ else s
  | .expiry pid =>
    if s.guard = .observing boot pid ∧ server = some pid then { s with guard := .gone } else s

/-- The event unplugs the module. -/
def Breaker.fires (boot : Uuid) (server : Option Int32) (s : Breaker) : Kind → Prop
  | .startup => (∃ b, b ≠ boot ∧ s.guard = .confirming b) ∨ ∃ b pid, b ≠ boot ∧ s.guard = .observing b pid
  | .serverStarted => ∃ old pid, s.guard = .observing boot old ∧ server = some pid ∧ old ≠ pid
  | .expiry _ => False

theorem Breaker.step_unplugged {boot : Uuid} {server : Option Int32} {s : Breaker} {k : Kind} :
    (s.step boot server k).unplugged = true ↔ s.unplugged = true ∨ s.fires boot server k := by
  obtain ⟨g, u⟩ := s
  cases k with
  | startup =>
    cases g with
    | gone => simp [step, fires]
    | rebooting b =>
      by_cases hb : b = boot <;> simp [step, fires, hb]
    | confirming b =>
      by_cases hb : b = boot <;> simp [step, fires, hb]
    | observing b pid =>
      by_cases hb : b = boot <;> simp [step, fires, hb]
  | serverStarted =>
    cases server with
    | none => simp [step, fires]
    | some pid =>
      cases g with
      | gone => simp [step, fires]
      | rebooting b =>
        by_cases hb : b = boot <;> simp [step, fires, hb]
      | confirming b =>
        by_cases hb : b = boot <;> simp [step, fires, hb]
      | observing b old =>
        by_cases hb : b = boot <;> by_cases hold : old = pid <;> simp [step, fires, hb, hold]
  | expiry pid =>
    by_cases hg : g = .observing boot pid ∧ server = some pid <;> simp [step, fires, hg]

/-- Where a guard can stand after a startup in the boot. -/
def GuardState.settled (boot : Uuid) : GuardState → Prop
  | .gone => True
  | .rebooting b | .confirming b | .observing b _ => b = boot

theorem Breaker.step_settled {boot : Uuid} {s : Breaker} (server : Option Int32) (h : s.guard.settled boot) :
    s.step boot server .startup = s := by
  obtain ⟨g, u⟩ := s
  cases g with
  | gone => rfl
  | rebooting b => exact if_pos h
  | confirming b => exact if_pos h
  | observing b pid => exact if_pos h

theorem Breaker.settled_startup (boot : Uuid) (server : Option Int32) (s : Breaker) :
    (s.step boot server .startup).guard.settled boot := by
  obtain ⟨g, u⟩ := s
  cases g with
  | gone => exact trivial
  | rebooting b =>
    by_cases hb : b = boot <;> simp [step, GuardState.settled, hb]
  | confirming b =>
    by_cases hb : b = boot <;> simp [step, GuardState.settled, hb]
  | observing b pid =>
    by_cases hb : b = boot <;> simp [step, GuardState.settled, hb]

theorem Breaker.settled_step {boot : Uuid} {server : Option Int32} {s : Breaker} (h : s.guard.settled boot)
    (k : Kind) : (s.step boot server k).guard.settled boot := by
  cases k with
  | startup => exact s.settled_startup boot server
  | serverStarted =>
    obtain ⟨g, u⟩ := s
    cases server with
    | none => exact h
    | some pid =>
      cases g with
      | gone => exact trivial
      | rebooting b => simp [step, GuardState.settled, show b = boot from h]
      | confirming b => simp [step, GuardState.settled, show b = boot from h]
      | observing b old =>
        by_cases hold : old = pid <;> simp [step, GuardState.settled, show b = boot from h, hold]
  | expiry pid =>
    by_cases hg : s.guard = .observing boot pid ∧ server = some pid
    · simp [step, GuardState.settled, hg]
    · rw [step, if_neg hg]
      exact h

/-! ### Files that are written and removed -/

/-- The operations on files. -/
def Op.onFile : Op → Prop
  | .read _ | .openTrunc _ | .writeData _ _ _ | .removeFile _ => True
  | _ => False

/-- They work. -/
def Env.Completes (e : Env) : Prop := ∀ op : Op, op.onFile → e.works op = true

/-- A file, or nothing. -/
def Plain (fs : FileTree) (p : FilePath) : Prop := ∀ n, fs.get p = some n → n.isFile = true

theorem run_readToString (he : e.Completes) {r : Option String}
    (h : Prog.run exec e (readToString p) w = some (r, w')) : r = w.fs.read p ∧ w' = w := by
  have hx := Prog.run_perform_some h
  simp only [exec, he (.read p) trivial, if_true, Option.some.injEq, Prod.mk.injEq] at hx
  exact ⟨hx.1.symm, hx.2.symm⟩

theorem run_currentBootId {r : Option String} (h : Prog.run exec e currentBootId w = some (r, w')) :
    r = bootIdOf e.bootId ∧ w' = w := by
  obtain ⟨value, w₁, hvalue, hret⟩ := Prog.run_bind_some h
  obtain ⟨rfl, rfl⟩ := Prog.run_ret_some hret
  obtain ⟨rfl, rfl⟩ := Prod.mk.inj (Option.some.inj (Prog.run_perform_some hvalue))
  exact ⟨rfl, rfl⟩

theorem run_pidofSystemServer {r : Option Int32} (h : Prog.run exec e pidofSystemServer w = some (r, w')) :
    r = e.systemServer ∧ w' = w := by
  obtain ⟨rfl, rfl⟩ := Prod.mk.inj (Option.some.inj (Prog.run_perform_some h))
  exact ⟨rfl, rfl⟩

/-- A removal leaves what does not lie below. -/
theorem run_removeFile_spares {r : Bool} (h : Prog.run exec e (perform (.removeFile p)) w = some (r, w'))
    (hq : ¬ p <+: q) : w'.fs.get q = w.fs.get q := by
  rcases exec_removeFile (Prog.run_perform_some h) with ⟨-, fs, hfs, rfl⟩ | ⟨-, rfl, -⟩
  · rw [FileTree.get_removeFile hfs, if_neg hq]
  · rfl

theorem run_removeFile_self (he : e.Completes) (hp : Plain w.fs p) {r : Bool}
    (h : Prog.run exec e (perform (.removeFile p)) w = some (r, w')) : w'.fs.get p = none := by
  rcases exec_removeFile (Prog.run_perform_some h) with ⟨-, fs, hfs, rfl⟩ | ⟨-, rfl, hfail | hnone⟩
  · rw [FileTree.get_removeFile hfs, if_pos (List.prefix_refl p)]
  · rw [he (.removeFile p) trivial] at hfail
    simp at hfail
  · cases hget : w'.fs.get p with
    | none => rfl
    | some n =>
      have hfile := hp n hget
      cases n with
      | file ino data => simp [FileTree.removeFile, hget] at hnone
      | dir => cases hfile
      | link => cases hfile

/-- A write fills the file and leaves the rest. -/
theorem run_fsWrite (he : e.Completes) (hp : Plain w.fs p) (hparent : w.fs.isDir p.dropLast = true)
    {data : String} (hdata : data ≠ "") {r : Bool} (h : Prog.run exec e (fsWrite p data) w = some (r, w')) :
    r = true ∧ w'.fs.read p = some data ∧ ∀ q, q ≠ p → w'.fs.get q = w.fs.get q := by
  obtain ⟨ino, w₁, hopen, h⟩ := Prog.run_bind_some h
  rcases exec_openTrunc (Prog.run_perform_some hopen) with ⟨ino, fs, rfl, hfs, rfl⟩ | ⟨-, -, hfail | hnone⟩
  · have hself := FileTree.get_openTrunc_self hfs
    dsimp only at h
    rw [if_neg hdata] at h
    rcases exec_writeData (Prog.run_perform_some h) with ⟨rfl, rfl⟩ | ⟨-, -, hfail⟩
    · refine ⟨rfl, ?_, fun q hq => ?_⟩
      · rw [FileTree.read, FileTree.get_writeData_self hself, FileTree.overwrite_empty]
      · rw [FileTree.get_writeData _ hq, FileTree.get_openTrunc hfs hq]
    · rw [he (.writeData p ino data) trivial] at hfail
      simp at hfail
  · rw [he (.openTrunc p) trivial] at hfail
    simp at hfail
  · have hdir : w.fs.isDir p = false := by
      rw [FileTree.isDir]
      cases hget : w.fs.get p with
      | none => rfl
      | some n =>
        have hfile := hp n hget
        cases n with
        | file ino old => rfl
        | dir => cases hfile
        | link => cases hfile
    obtain ⟨ino, fs, hopens⟩ := FileTree.exists_openTrunc hdir hparent
    rw [hopens] at hnone
    cases hnone

/-! ### The files follow the breaker -/

/-- The module is switched off for good: no opt-in, and it is marked as blocked after a crash. -/
structure Unplugged (name : String) (fs : FileTree) : Prop where
  optIn : fs.get (hotplugOptIn name) = none
  state : fs.read (activationMarker name "state") = some "0"
  blocked : fs.read (activationMarker name "crash_blocked") = some "1"

/-- The paths the breaker reads and writes beside the guard, the directories first. -/
def watched (name : String) : List FilePath :=
  [tmpPath, activationMarkers, hotplugOptIn name, activationMarker name "state",
    activationMarker name "crash_blocked"]

/-- What holds beside the guard: the module is plugged in or unplugged, and its files can be written. -/
structure Ground (name : String) (fs : FileTree) (unplugged : Bool) : Prop where
  work : fs.isDir tmpPath = true
  markers : fs.isDir activationMarkers = true
  plain : ∀ q ∈ [hotplugOptIn name, activationMarker name "state", activationMarker name "crash_blocked"],
    Plain fs q
  plugged : unplugged = false → fs.present (hotplugOptIn name) = true
  unplugged : unplugged = true → Unplugged name fs

theorem Ground.congr {u : Bool} (h : Ground name fs u) (heq : ∀ q ∈ watched name, fs'.get q = fs.get q) :
    Ground name fs' u := by
  have hplain : ∀ q ∈ (watched name).drop 2, Plain fs' q := fun q hq n hn =>
    h.plain q hq n (heq q (List.mem_of_mem_drop hq) ▸ hn)
  simp only [watched, List.forall_mem_cons] at heq
  obtain ⟨hwork, hmarkers, hoptIn, hstate, hblocked, -⟩ := heq
  refine ⟨?_, ?_, ?_, fun hu => ?_, fun hu => ?_⟩
  · rw [FileTree.isDir, hwork]
    exact h.work
  · rw [FileTree.isDir, hmarkers]
    exact h.markers
  · exact hplain
  · rw [FileTree.present, hoptIn]
    exact h.plugged hu
  · obtain ⟨hgone, hzero, hone⟩ := h.unplugged hu
    refine ⟨hoptIn.trans hgone, ?_, ?_⟩
    · rw [FileTree.read, hstate]
      exact hzero
    · rw [FileTree.read, hblocked]
      exact hone

structure Holds (name : String) (fs : FileTree) (s : Breaker) : Prop where
  ground : Ground name fs s.unplugged
  guard : fs.read hotplugRestartGuard = s.guard.text name
  plain : Plain fs hotplugRestartGuard

theorem guard_not_watched : hotplugRestartGuard ∉ watched name ∧
    ∀ q ∈ watched name, ¬ hotplugRestartGuard <+: q := by
  simp [watched, hotplugRestartGuard, hotplugOptIn, hotplugDir, activationMarker, activationMarkers, tmpPath]

theorem restarted_spares : ¬ activationMarker name "restarted" <+: hotplugRestartGuard ∧
    ∀ q ∈ watched name, ¬ activationMarker name "restarted" <+: q := by
  have hmarker : ∀ suffix, suffix = "state" ∨ suffix = "crash_blocked" →
      ¬ activationMarker name "restarted" <+: activationMarker name suffix := by
    intro suffix hsuffix hprefix
    have heq := hprefix.eq_of_length (by simp [activationMarker])
    rcases hsuffix with rfl | rfl
    · exact absurd ((activationMarker_inj (by decide) (by decide)).1 heq).2 (by decide)
    · exact absurd ((activationMarker_inj (by decide) (by decide)).1 heq).2 (by decide)
  have hstate := hmarker "state" (.inl rfl)
  have hblocked := hmarker "crash_blocked" (.inr rfl)
  refine ⟨by simp [hotplugRestartGuard, activationMarker, activationMarkers, tmpPath], ?_⟩
  simp only [watched, List.forall_mem_cons]
  refine ⟨?_, ?_, ?_, hstate, hblocked, fun _ hq => absurd hq List.not_mem_nil⟩ <;>
    simp [hotplugOptIn, hotplugDir, activationMarker, activationMarkers, tmpPath]

/-- The guard of a plugged in or unplugged module is written. -/
theorem Ground.write {u : Bool} (he : e.Completes) (h : Ground name w.fs u) (hp : Plain w.fs hotplugRestartGuard)
    {g : GuardState} {content : String} (hg : g.text name = some content) (hne : content ≠ "") {r : Bool}
    (hrun : Prog.run exec e (fsWrite hotplugRestartGuard content) w = some (r, w')) :
    r = true ∧ Holds name w'.fs ⟨g, u⟩ := by
  have hparent : w.fs.isDir hotplugRestartGuard.dropLast = true := h.work
  obtain ⟨rfl, hread, hrest⟩ := run_fsWrite he hp hparent hne hrun
  refine ⟨rfl, h.congr fun q hq => hrest q ?_, hread.trans hg.symm, fun n hn => ?_⟩
  · rintro rfl
    exact guard_not_watched.1 hq
  · unfold FileTree.read at hread
    rw [hn] at hread
    cases n with
    | file ino data => rfl
    | dir => nomatch hread
    | link => nomatch hread

/-- The guard is removed. -/
theorem Ground.remove {u : Bool} (he : e.Completes) (h : Ground name w.fs u) (hp : Plain w.fs hotplugRestartGuard)
    {r : Bool} (hrun : Prog.run exec e (perform (.removeFile hotplugRestartGuard)) w = some (r, w')) :
    Holds name w'.fs ⟨.gone, u⟩ := by
  have hnone := run_removeFile_self he hp hrun
  refine ⟨h.congr fun q hq => run_removeFile_spares hrun (guard_not_watched.2 q hq), ?_, ?_⟩
  · rw [FileTree.read, hnone]
    rfl
  · intro n hn
    rw [hnone] at hn
    simp at hn

/-- Clearing the marker of the restart touches nothing else. -/
theorem Holds.restarted {s : Breaker} (h : Holds name w.fs s) {r : Bool}
    (hrun : Prog.run exec e (perform (.removeFile (activationMarker name "restarted"))) w = some (r, w')) :
    Holds name w'.fs s := by
  have hguard := run_removeFile_spares hrun restarted_spares.1
  refine ⟨h.ground.congr fun q hq => run_removeFile_spares hrun (restarted_spares.2 q hq), ?_, ?_⟩
  · rw [FileTree.read, hguard]
    exact h.guard
  · intro n hn
    exact h.plain n (hguard ▸ hn)

theorem state_ne_blocked : activationMarker name "state" ≠ activationMarker name "crash_blocked" := fun h =>
  absurd ((activationMarker_inj (by decide) (by decide)).1 h).2 (by decide)

/-- A marker and the opt-in lie apart. -/
theorem optIn_spares (suffix : String) : ¬ hotplugOptIn name <+: activationMarker name suffix ∧
    ∀ q ∈ [tmpPath, activationMarkers, hotplugRestartGuard], ¬ hotplugOptIn name <+: q ∧
      q ≠ activationMarker name suffix := by
  simp [hotplugOptIn, hotplugDir, activationMarker, activationMarkers, hotplugRestartGuard, tmpPath]

/-- The opt-in goes and both markers are written. -/
theorem Ground.block {u b₁ b₂ b₃ : Bool} {w₁ w₂ : World} (he : e.Completes) (h : Ground name w.fs u)
    (hoptIn : Prog.run exec e (perform (.removeFile (hotplugOptIn name))) w = some (b₁, w₁))
    (hstate : Prog.run exec e (fsWrite (activationMarker name "state") "0") w₁ = some (b₂, w₂))
    (hblocked : Prog.run exec e (fsWrite (activationMarker name "crash_blocked") "1") w₂ = some (b₃, w')) :
    Ground name w'.fs true ∧ w'.fs.get hotplugRestartGuard = w.fs.get hotplugRestartGuard := by
  have hplain := h.plain
  simp only [List.forall_mem_cons] at hplain
  obtain ⟨hoptInPlain, hstatePlain, hblockedPlain, -⟩ := hplain
  have hnone := run_removeFile_self he hoptInPlain hoptIn
  have hspare : ∀ q, ¬ hotplugOptIn name <+: q → w₁.fs.get q = w.fs.get q := fun q hq =>
    run_removeFile_spares hoptIn hq
  have hparent : ∀ suffix, (activationMarker name suffix).dropLast = activationMarkers := fun suffix => by
    simp [activationMarker]
  have hmarkers₁ : w₁.fs.isDir activationMarkers = true := by
    rw [FileTree.isDir, hspare _ ((optIn_spares "state").2 _ (by simp)).1]
    exact h.markers
  obtain ⟨-, hzero, hrest₂⟩ := run_fsWrite he
    (fun n hn => hstatePlain n (hspare _ (optIn_spares "state").1 ▸ hn)) (hparent _ ▸ hmarkers₁) (by decide) hstate
  have hmarkers₂ : w₂.fs.isDir activationMarkers = true := by
    rw [FileTree.isDir, hrest₂ _ ((optIn_spares "state").2 _ (by simp)).2]
    exact hmarkers₁
  have hblockedPlain₂ : Plain w₂.fs (activationMarker name "crash_blocked") := by
    intro n hn
    rw [hrest₂ _ state_ne_blocked.symm, hspare _ (optIn_spares "crash_blocked").1] at hn
    exact hblockedPlain n hn
  obtain ⟨-, hone, hrest₃⟩ := run_fsWrite he hblockedPlain₂ (hparent _ ▸ hmarkers₂) (by decide) hblocked
  have hrest : ∀ q ∈ [tmpPath, activationMarkers, hotplugRestartGuard], w'.fs.get q = w.fs.get q := by
    intro q hq
    rw [hrest₃ q ((optIn_spares _).2 q hq).2, hrest₂ q ((optIn_spares _).2 q hq).2,
      hspare q ((optIn_spares "state").2 q hq).1]
  have hgone : w'.fs.get (hotplugOptIn name) = none := by
    have hne : ∀ suffix, hotplugOptIn name ≠ activationMarker name suffix := fun suffix heq =>
      (@optIn_spares name suffix).1 (heq ▸ List.prefix_refl _)
    rw [hrest₃ _ (hne _), hrest₂ _ (hne _)]
    exact hnone
  have hstateRead : w'.fs.read (activationMarker name "state") = some "0" := by
    rw [FileTree.read, hrest₃ _ state_ne_blocked]
    exact hzero
  have hfile : ∀ {q : FilePath} {data : String}, w'.fs.read q = some data → Plain w'.fs q := by
    intro q data hread n hn
    rw [FileTree.read, hn] at hread
    cases n with
    | file ino old => rfl
    | dir => simp at hread
    | link => simp at hread
  refine ⟨⟨?_, ?_, ?_, by simp, fun _ => ⟨hgone, hstateRead, hone⟩⟩, hrest _ (by simp)⟩
  · rw [FileTree.isDir, hrest _ (by simp)]
    exact h.work
  · rw [FileTree.isDir, hrest _ (by simp)]
    exact h.markers
  · simp only [List.forall_mem_cons]
    refine ⟨fun n hn => ?_, hfile hstateRead, hfile hone, fun _ hq => absurd hq List.not_mem_nil⟩
    rw [hgone] at hn
    simp at hn

/-- What both breakers do leaves the module unplugged and no guard. -/
theorem Holds.crashBlock {s : Breaker} (he : e.Completes) (h : Holds name w.fs s) {u : Unit}
    (hrun : Prog.run exec e (crashBlock name) w = some (u, w')) : Holds name w'.fs ⟨.gone, true⟩ := by
  obtain ⟨b₁, w₁, hoptIn, hrun⟩ := Prog.run_bind_some hrun
  obtain ⟨b₂, w₂, hstate, hrun⟩ := Prog.run_bind_some hrun
  obtain ⟨b₃, w₃, hblocked, hrun⟩ := Prog.run_bind_some hrun
  obtain ⟨b₄, w₄, hguard, hrun⟩ := Prog.run_bind_some hrun
  obtain ⟨-, rfl⟩ := Prog.run_ret_some hrun
  obtain ⟨hground, hsame⟩ := h.ground.block he hoptIn hstate hblocked
  exact hground.remove he (fun n hn => h.plain n (hsame ▸ hn)) hguard

/-! ### The functions -/

/-- `resolve_stale_restart_guard` on a guard that stands. -/
def GuardState.resolve (name : String) (boot : Uuid) : GuardState → Program Unit
  | .gone => pure ()
  | .rebooting b =>
    if b = boot then pure ()
    else do
      let _ ← perform (.removeFile (activationMarker name "restarted"))
      let _ ← fsWrite hotplugRestartGuard ("confirming:" ++ name ++ ":" ++ boot.text)
  | .confirming b | .observing b _ => if b = boot then pure () else crashBlock name

/-- `handle_hotplug_restart_guard` on a guard that stands. -/
def GuardState.handle (name : String) (boot : Uuid) (pid : Int32) : GuardState → Program Unit
  | .gone => pure ()
  | .rebooting b => if b = boot then pure () else observe name boot pid
  | .confirming b => if b = boot then observe name boot pid else pure ()
  | .observing b old =>
    if b = boot ∧ old ≠ pid then do
      crashBlock name
      refreshControllerInfo
    else pure ()
where
  observe (name : String) (boot : Uuid) (pid : Int32) : Program Unit := do
    if ← fsWrite hotplugRestartGuard (Daemon.observing name boot.text pid) then
      perform (.spawn (.confirmStability name boot.text pid))
    else pure ()

theorem Uuid.text_inj {a b : Uuid} : a.text = b.text ↔ a = b := by
  refine ⟨fun h => ?_, fun h => by rw [h]⟩
  cases a
  cases b
  cases h
  rfl

theorem resolveGuard_text (hname : validModuleId name = true) (boot : Uuid) {g : GuardState} {content : String}
    (hg : g.text name = some content) : resolveGuard content boot.text = g.resolve name boot := by
  obtain ⟨htrim, hsplit⟩ := GuardState.split_text hname hg
  unfold resolveGuard
  rw [htrim, hsplit]
  cases g with
  | gone => nomatch hg
  | rebooting b =>
    simp only [GuardState.fields, List.getD_cons_zero, List.getD_cons_succ]
    obtain rfl | hb := eq_or_ne b boot
    · simp [GuardState.resolve, hname, b.trim, b.parseI32, b.text_ne_empty]
    · simp [GuardState.resolve, hname, b.trim, b.parseI32, b.text_ne_empty, Uuid.text_inj, hb]
      rfl
  | confirming b =>
    simp only [GuardState.fields, List.getD_cons_zero, List.getD_cons_succ]
    simp [GuardState.resolve, hname, b.trim, b.parseI32, b.text_ne_empty, Uuid.text_inj]
  | observing b pid =>
    simp only [GuardState.fields, List.getD_cons_zero, List.getD_cons_succ]
    simp [GuardState.resolve, hname, b.trim, b.parseI32, b.text_ne_empty, Uuid.text_inj]

theorem handleGuard_observing (name : String) (boot b : Uuid) (old pid : Int32) :
    handleGuard "observing" name b.text (some old) boot.text pid =
      (GuardState.observing b old).handle name boot pid := by
  unfold handleGuard GuardState.handle
  by_cases hb : b = boot <;> by_cases hold : old = pid <;> simp [Uuid.text_inj, hb, hold]

theorem handleGuard_confirming (name : String) (boot b : Uuid) (recordedPid : Option Int32) (pid : Int32) :
    handleGuard "confirming" name b.text recordedPid boot.text pid =
      (GuardState.confirming b).handle name boot pid := by
  unfold handleGuard GuardState.handle GuardState.handle.observe
  by_cases hb : b = boot <;> simp [Uuid.text_inj, hb]

theorem handleGuard_rebooting (name : String) (boot b : Uuid) (recordedPid : Option Int32) (pid : Int32) :
    handleGuard "rebooting" name b.text recordedPid boot.text pid =
      (GuardState.rebooting b).handle name boot pid := by
  unfold handleGuard GuardState.handle GuardState.handle.observe
  by_cases hb : b = boot <;> simp [Uuid.text_inj, hb]

/-- One event in the boot `boot`. -/
def Kind.program (name : String) (boot : Uuid) : Kind → Program Unit
  | .startup => resolveStaleRestartGuard
  | .serverStarted => handleHotplugRestartGuard
  | .expiry pid => confirmStability name boot.text pid

section Step

variable {s : Breaker} {boot : Uuid}

theorem GuardState.resolve_settled {g : GuardState} (h : g.settled boot) : g.resolve name boot = pure () := by
  cases g with
  | gone => rfl
  | rebooting b => exact if_pos h
  | confirming b => exact if_pos h
  | observing b pid => exact if_pos h

theorem Holds.resolve (he : e.Completes) (h : Holds name w.fs s) {u : Unit}
    (hrun : Prog.run exec e (s.guard.resolve name boot) w = some (u, w')) :
    Holds name w'.fs (s.step boot e.systemServer .startup) := by
  by_cases hsettled : s.guard.settled boot
  · rw [GuardState.resolve_settled hsettled] at hrun
    obtain ⟨-, rfl⟩ := Prog.run_ret_some hrun
    rw [Breaker.step_settled _ hsettled]
    exact h
  obtain ⟨g, unplugged⟩ := s
  cases g with
  | gone => exact absurd trivial hsettled
  | rebooting b =>
    have hb : b ≠ boot := hsettled
    simp only [GuardState.resolve, if_neg hb] at hrun
    obtain ⟨b₁, w₁, hclear, hrun⟩ := Prog.run_bind_some hrun
    obtain ⟨b₂, w₂, hwrite, hrun⟩ := Prog.run_bind_some hrun
    obtain ⟨-, rfl⟩ := Prog.run_ret_some hrun
    have h₁ := h.restarted hclear
    have hne : "confirming:" ++ name ++ ":" ++ boot.text ≠ "" := by simp
    simpa [Breaker.step, hb] using
      (h₁.ground.write he h₁.plain (g := .confirming boot) rfl hne hwrite).2
  | confirming b =>
    have hb : b ≠ boot := hsettled
    simp only [GuardState.resolve, if_neg hb] at hrun
    simpa [Breaker.step, hb] using h.crashBlock he hrun
  | observing b pid =>
    have hb : b ≠ boot := hsettled
    simp only [GuardState.resolve, if_neg hb] at hrun
    simpa [Breaker.step, hb] using h.crashBlock he hrun

theorem Holds.observe (he : e.Completes) (h : Holds name w.fs s) {pid : Int32} {u : Unit}
    (hrun : Prog.run exec e (GuardState.handle.observe name boot pid) w = some (u, w')) :
    Holds name w'.fs { s with guard := .observing boot pid } := by
  obtain ⟨b₁, w₁, hwrite, hrun⟩ := Prog.run_bind_some hrun
  have hne : observing name boot.text pid ≠ "" := by simp [observing]
  obtain ⟨rfl, h₁⟩ := h.ground.write he h.plain (g := .observing boot pid) rfl hne hwrite
  have hspawn := Prod.mk.inj (Option.some.inj (Prog.run_perform_some hrun))
  rw [← hspawn.2]
  exact h₁

theorem Holds.handle (he : e.Completes) (h : Holds name w.fs s) {pid : Int32} {u : Unit}
    (hrun : Prog.run exec e (s.guard.handle name boot pid) w = some (u, w')) :
    Holds name w'.fs (s.step boot (some pid) .serverStarted) := by
  obtain ⟨g, unplugged⟩ := s
  cases g with
  | gone =>
    obtain ⟨-, rfl⟩ := Prog.run_ret_some hrun
    exact h
  | rebooting b =>
    by_cases hb : b = boot
    · simp only [GuardState.handle, if_pos hb] at hrun
      obtain ⟨-, rfl⟩ := Prog.run_ret_some hrun
      simpa [Breaker.step, hb] using h
    · simp only [GuardState.handle, if_neg hb] at hrun
      simpa [Breaker.step, hb] using h.observe he hrun
  | confirming b =>
    by_cases hb : b = boot
    · simp only [GuardState.handle, if_pos hb] at hrun
      simpa [Breaker.step, hb] using h.observe he hrun
    · simp only [GuardState.handle, if_neg hb] at hrun
      obtain ⟨-, rfl⟩ := Prog.run_ret_some hrun
      simpa [Breaker.step, hb] using h
  | observing b old =>
    by_cases hold : b = boot ∧ old ≠ pid
    · simp only [GuardState.handle, if_pos hold] at hrun
      obtain ⟨u₁, w₁, hblock, hrun⟩ := Prog.run_bind_some hrun
      rw [run_inert inert_refreshControllerInfo hrun]
      simpa [Breaker.step, hold] using h.crashBlock he hblock
    · simp only [GuardState.handle, if_neg hold] at hrun
      obtain ⟨-, rfl⟩ := Prog.run_ret_some hrun
      simpa only [Breaker.step, if_neg hold] using h

/-- `handle_hotplug_restart_guard`, by the fields of the guard. -/
theorem Holds.handle_fields (hname : validModuleId name = true) (he : e.Completes)
    (hboot : e.bootId = some (boot.text ++ "\n")) (h : Holds name w.fs s) {content stage recordedBoot : String}
    {rest : List String} (hread : w.fs.read hotplugRestartGuard = some content)
    (hsplit : Text.split ':' (Text.trim content) = stage :: name :: recordedBoot :: rest)
    (hguard : ∀ pid, handleGuard stage name recordedBoot (rest.head?.bind Text.parseI32) boot.text pid =
      s.guard.handle name boot pid)
    {u : Unit} (hrun : Prog.run exec e handleHotplugRestartGuard w = some (u, w')) :
    Holds name w'.fs (s.step boot e.systemServer .serverStarted) := by
  obtain ⟨value, w₁, hvalue, hrun₁⟩ := Prog.run_bind_some hrun
  obtain ⟨rfl, rfl⟩ := run_readToString he hvalue
  rw [hread] at hrun₁
  dsimp only at hrun₁
  rw [hsplit] at hrun₁
  obtain ⟨bootId, w₂, hid, hrun₂⟩ := Prog.run_bind_some hrun₁
  obtain ⟨rfl, rfl⟩ := run_currentBootId hid
  rw [hboot, boot.bootIdOf] at hrun₂
  dsimp only at hrun₂
  rw [if_neg (by simp [hname])] at hrun₂
  obtain ⟨pid, w₃, hpid, hrun₃⟩ := Prog.run_bind_some hrun₂
  obtain ⟨rfl, rfl⟩ := run_pidofSystemServer hpid
  cases hserver : e.systemServer with
  | none =>
    rw [hserver] at hrun₃
    obtain ⟨-, rfl⟩ := Prog.run_ret_some hrun₃
    exact h
  | some pid =>
    rw [hserver] at hrun₃
    dsimp only at hrun₃
    rw [hguard] at hrun₃
    exact h.handle he hrun₃

/-- A startup goes on with the guard that stands. -/
theorem Holds.run_startup (hname : validModuleId name = true) (he : e.Completes)
    (hboot : e.bootId = some (boot.text ++ "\n")) (h : Holds name w.fs s) {u : Unit}
    (hrun : Prog.run exec e (Kind.startup.program name boot) w = some (u, w')) :
    Prog.run exec e (s.guard.resolve name boot) w = some (u, w') := by
  obtain ⟨value, w₁, hread, hbody⟩ := Prog.run_bind_some hrun
  obtain ⟨hvalue, rfl⟩ := run_readToString he hread
  rw [h.guard] at hvalue
  cases value with
  | none =>
    have hgone : s.guard = .gone := GuardState.text_inj hname hvalue.symm
    rw [hgone]
    exact hbody
  | some content =>
    obtain ⟨bootId, w₂, hid, hresolve⟩ := Prog.run_bind_some hbody
    obtain ⟨rfl, rfl⟩ := run_currentBootId hid
    rw [hboot, boot.bootIdOf] at hresolve
    dsimp only at hresolve
    rw [resolveGuard_text hname boot hvalue.symm] at hresolve
    exact hresolve

/-- The functions follow the breaker. -/
theorem Holds.happen (hname : validModuleId name = true) (he : e.Completes)
    (hboot : e.bootId = some (boot.text ++ "\n")) (h : Holds name w.fs s) {k : Kind} {u : Unit}
    (hrun : Prog.run exec e (k.program name boot) w = some (u, w')) :
    Holds name w'.fs (s.step boot e.systemServer k) := by
  cases k with
  | startup => exact h.resolve he (h.run_startup hname he hboot hrun)
  | serverStarted =>
    cases hg : s.guard with
    | gone =>
      obtain ⟨value, w₁, hread, hbody⟩ := Prog.run_bind_some hrun
      obtain ⟨rfl, rfl⟩ := run_readToString he hread
      rw [h.guard, hg] at hbody
      obtain ⟨-, rfl⟩ := Prog.run_ret_some hbody
      cases hserver : e.systemServer <;> simpa [Breaker.step, hg] using h
    | rebooting b =>
      have hread := h.guard.trans (congrArg (GuardState.text name) hg)
      obtain ⟨htrim, hsplit⟩ := GuardState.split_text (g := .rebooting b) hname rfl
      exact h.handle_fields hname he hboot hread (htrim.symm ▸ hsplit)
        (fun pid => hg ▸ handleGuard_rebooting name boot b none pid) hrun
    | confirming b =>
      have hread := h.guard.trans (congrArg (GuardState.text name) hg)
      obtain ⟨htrim, hsplit⟩ := GuardState.split_text (g := .confirming b) hname rfl
      exact h.handle_fields hname he hboot hread (htrim.symm ▸ hsplit)
        (fun pid => hg ▸ handleGuard_confirming name boot b none pid) hrun
    | observing b old =>
      have hread := h.guard.trans (congrArg (GuardState.text name) hg)
      obtain ⟨htrim, hsplit⟩ := GuardState.split_text (g := .observing b old) hname rfl
      have hparse : ([Text.printI32 old].head?.bind Text.parseI32) = some old := Text.parseI32_printI32 old
      exact h.handle_fields hname he hboot hread (htrim.symm ▸ hsplit)
        (fun pid => by rw [hparse, hg]; exact handleGuard_observing name boot b old pid) hrun
  | expiry pid =>
    obtain ⟨value, w₁, hread, hbody⟩ := Prog.run_bind_some hrun
    obtain ⟨rfl, rfl⟩ := run_readToString he hread
    have hobserving : (w₁.fs.read hotplugRestartGuard).map Text.trim = some (observing name boot.text pid) ↔
        s.guard = .observing boot pid := by
      rw [h.guard]
      refine ⟨fun hmap => ?_, fun hg => ?_⟩
      · obtain ⟨content, hcontent, htrim⟩ := Option.map_eq_some_iff.1 hmap
        rw [(GuardState.split_text hname hcontent).1] at htrim
        exact GuardState.text_inj hname (hcontent.trans (congrArg some htrim))
      · rw [hg]
        exact congrArg some (GuardState.split_text (g := .observing boot pid) hname rfl).1
    by_cases hg : s.guard = .observing boot pid
    · rw [if_pos (hobserving.2 hg)] at hbody
      obtain ⟨current, w₂, hpid, hcurrent⟩ := Prog.run_bind_some hbody
      obtain ⟨rfl, rfl⟩ := run_pidofSystemServer hpid
      by_cases hpid : e.systemServer = some pid
      · rw [onlyIf, if_pos (decide_eq_true hpid)] at hcurrent
        obtain ⟨b₁, w₃, hguard, hcleared⟩ := Prog.run_bind_some hcurrent
        obtain ⟨b₂, w₄, hclear, hend⟩ := Prog.run_bind_some hcleared
        obtain ⟨-, rfl⟩ := Prog.run_ret_some hend
        rw [Breaker.step, if_pos ⟨hg, hpid⟩]
        exact (h.ground.remove he h.plain hguard).restarted hclear
      · rw [onlyIf, if_neg (by simpa using hpid)] at hcurrent
        obtain ⟨-, rfl⟩ := Prog.run_ret_some hcurrent
        rw [Breaker.step, if_neg fun hboth => hpid hboth.2]
        exact h
    · rw [if_neg fun heq => hg (hobserving.1 heq)] at hbody
      obtain ⟨-, rfl⟩ := Prog.run_ret_some hbody
      rw [Breaker.step, if_neg fun hboth => hg hboth.1]
      exact h

/-- A startup in a boot that had one changes nothing. -/
theorem Holds.startup_settled (hname : validModuleId name = true) (he : e.Completes)
    (hboot : e.bootId = some (boot.text ++ "\n")) (h : Holds name w.fs s) (hsettled : s.guard.settled boot) {u : Unit}
    (hrun : Prog.run exec e (Kind.startup.program name boot) w = some (u, w')) : w' = w := by
  have hresolve := h.run_startup hname he hboot hrun
  rw [GuardState.resolve_settled hsettled] at hresolve
  exact (Prog.run_ret_some hresolve).2.symm

end Step

end OnyxZygisk.Daemon

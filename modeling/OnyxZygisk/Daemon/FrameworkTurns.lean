import OnyxZygisk.Daemon.Threads

/-!
# The turns of a framework transaction

`restart_framework_once` and `run_framework_activations` read the marker `<name>.framework`, decide, and
write or remove it; the restart does so under the lock, the activations do not. `turnRules` follows one
thread through such a turn: what it has read, whether it has truncated the file, and what it owes after
writing (the kill it has counted, the daemon start it has counted). Both programs follow these rules.
-/

namespace OnyxZygisk.Daemon

open Prog (Only Spec)

def frameworkMarker (n : String) : FilePath := activationMarker n "framework"

/-- What a thread knows of the marker. -/
inductive View where
  | out
  /-- It has read this, and will write or remove the file because of it, or nothing. -/
  | seen (recorded : Option FrameworkState)
  /-- It has read this and truncated the file. -/
  | torn (recorded : Option FrameworkState) (ino : Nat)

/-- What a thread holds the lock for. -/
inductive Grip where
  | free
  | busy
  /-- The restart of the module. -/
  | mine
  /-- The same, and the module has no transaction in this boot. -/
  | checked
  deriving DecidableEq

/-- What a thread has counted in the marker and not done yet. -/
inductive Debt where
  | nothing
  | restart
  | start
  deriving DecidableEq

structure Turn where
  grip : Grip
  view : View
  debt : Debt

namespace Turn

def torn (t : Turn) : Bool :=
  match t.view with
  | .torn _ _ => true
  | _ => false

def sees (t : Turn) : Bool :=
  match t.view with
  | .seen _ => true
  | _ => false

def holds (t : Turn) : Bool := t.grip ≠ .free

/-- Holds the lock for a restart of the module. -/
def restarts (t : Turn) : Bool := t.grip = .mine || t.grip = .checked

/-- Without what it has read. -/
def forget (t : Turn) : Turn :=
  match t.view with
  | .seen _ => { t with view := .out }
  | _ => t

/-- Outside a transaction of the module. -/
def At (g : Grip) (t : Turn) : Prop := t.grip = g ∧ t.torn = false ∧ t.debt = .nothing

end Turn

/-- What was recorded, if it is of this boot. -/
def ofBoot (boot : String) (recorded : Option FrameworkState) : Option FrameworkState :=
  recorded.filter fun s => s.bootId = boot

/-- What is owed once `new` stands in place of what was recorded; `none` if it may not. -/
def owes (boot : String) (recorded : Option FrameworkState) (grip : Grip) (new : FrameworkState) :
    Option Debt :=
  if new.bootId ≠ boot then none
  else
    match ofBoot boot recorded with
    | none =>
      if grip = .checked ∧ new.restarts = maxFrameworkRestarts ∧ new.heals = 0 then some .restart
      else none
    | some s =>
      if new.restarts ≠ s.restarts then none
      else if new.heals = s.heals then some .nothing
      else if new.heals = s.heals + 1 ∧ new.heals ≤ maxFrameworkDaemonStarts then some .start
      else none

/-- A daemon start of the module. -/
def Job.startsFor (n : String) : Job → Bool
  | .frameworkDaemon name _ => name = n
  | _ => false

/-- What a thread that has not truncated the file may do. -/
def Turn.permits (n boot : String) (t : Turn) : Op → Prop
  | .flock _ => t.grip = .free
  | .unlock => t.grip ≠ .free
  | .openTrunc p => p = frameworkMarker n → ∃ recorded, t.view = .seen recorded ∧
      (ofBoot boot recorded = none → t.grip = .checked)
  | .removeFile p => p = frameworkMarker n → ∃ recorded, t.view = .seen recorded ∧
      ofBoot boot recorded = none
  | .createNew p | .openKeep p | .writeData p _ _ => p ≠ frameworkMarker n
  | .kill _ signal name => name = n → signal = sigKill → t.debt = .restart
  | .spawn job => ∃ m dir, job = .frameworkDaemon m dir ∧ (m = n → t.debt = .start)
  | _ => True

/-- A thread that has truncated the file writes next. -/
def Turn.allows (n boot : String) (t : Turn) (op : Op) : Prop :=
  match t.view with
  | .torn recorded ino => ∃ new debt, op = .writeData (frameworkMarker n) ino new.print ∧
      owes boot recorded t.grip new = some debt
  | _ => t.permits n boot op

/-- What a read finds: a transaction of this boot is within its budget, and there is none while a
restart that found none holds the lock. -/
def Found (boot : String) (grip : Grip) (recorded : Option FrameworkState) : Prop :=
  (∀ s, ofBoot boot recorded = some s →
    s.restarts = maxFrameworkRestarts ∧ s.heals ≤ maxFrameworkDaemonStarts) ∧
  (grip = .checked → ofBoot boot recorded = none)

/-- Where an operation leads. The operations on the marker are taken to work, the boot id to be
readable, the module's directory to be one, and its opt-in to stay. -/
def Turn.moves (n boot : String) (t : Turn) : (op : Op) → Resp op → Turn → Prop
  | .flock use, r, t' =>
    t' = if r = true then { t with grip := if use = .restart n then .mine else .busy } else t
  | .unlock, _, t' => t' = { t with grip := .free }
  | .read p, r, t' =>
    if p = frameworkMarker n then
      Found boot t.grip (r.bind FrameworkState.parse) ∧
        t' = { t with
          view := .seen (r.bind FrameworkState.parse)
          grip := if t.grip = .mine ∧ ofBoot boot (r.bind FrameworkState.parse) = none then .checked
            else t.grip }
    else t' = t
  | .openTrunc p, r, t' =>
    if p = frameworkMarker n then
      ∃ recorded ino, t.view = .seen recorded ∧ r = some ino ∧
        t' = { t with view := .torn recorded ino }
    else t' = t
  | .writeData p _ data, r, t' =>
    if p = frameworkMarker n then
      ∃ recorded ino new debt, t.view = .torn recorded ino ∧ data = new.print ∧
        owes boot recorded t.grip new = some debt ∧ r = true ∧
        t' = ⟨if t.grip = .checked then .mine else t.grip, .out, debt⟩
    else t' = t
  | .removeFile p, _, t' => p ≠ hotplugOptIn n ∧
      t' = if p = frameworkMarker n then { t with view := .out } else t
  | .kill _ signal name, _, t' =>
    t' = if name = n ∧ signal = sigKill then { t with debt := .nothing } else t
  | .spawn job, _, t' =>
    t' = if job.startsFor n then { t with debt := .nothing } else t
  | .bootId, r, t' => bootIdOf r = some boot ∧ t' = t
  | .look p, r, t' => (p = activeDir n → r.any Node.isDir = true) ∧ t' = t
  | _, _, t' => t' = t

def turnRules (n boot : String) : Prog.Rules Resp Turn where
  allow := Turn.allows n boot
  next t op r t' := t.moves n boot op r t'

variable {n m boot : String} {t : Turn}

theorem allows_of_not_torn (ht : t.torn = false) (op : Op) :
    t.allows n boot op = t.permits n boot op := by
  obtain ⟨grip, view, debt⟩ := t
  cases view with
  | torn recorded ino => exact absurd ht (by simp [Turn.torn])
  | _ => rfl

section Moves

variable {p : FilePath} {t' : Turn}

theorem moves_read_of_ne (hp : p ≠ frameworkMarker n) {r : Resp (.read p)} :
    t.moves n boot (.read p) r t' ↔ t' = t := iff_of_eq (if_neg hp)

theorem moves_openTrunc_of_ne (hp : p ≠ frameworkMarker n) {r : Resp (.openTrunc p)} :
    t.moves n boot (.openTrunc p) r t' ↔ t' = t := iff_of_eq (if_neg hp)

theorem moves_writeData_of_ne (hp : p ≠ frameworkMarker n) {ino : Nat} {data : String}
    {r : Resp (.writeData p ino data)} : t.moves n boot (.writeData p ino data) r t' ↔ t' = t :=
  iff_of_eq (if_neg hp)

end Moves

/-! ### Operations that do not concern the marker -/

/-- An operation that changes nothing about a turn. -/
def Op.still (n boot : String) (op : Op) : Prop :=
  ∀ t : Turn, t.torn = false → t.allows n boot op ∧ ∀ r t', t.moves n boot op r t' → t' = t

/-- An operation that leaves a thread outside a transaction. -/
def Op.calm (n boot : String) (op : Op) : Prop :=
  ∀ (g : Grip) (t : Turn), g = .free ∨ g = .busy → t.At g →
    t.allows n boot op ∧ ∀ r t', t.moves n boot op r t' → t'.At g

theorem calm_of_still {op : Op} (h : op.still n boot) : op.calm n boot := by
  intro g t _ ht
  obtain ⟨hallow, hmoves⟩ := h t ht.2.1
  refine ⟨hallow, fun r t' hm => ?_⟩
  rw [hmoves r t' hm]
  exact ht

theorem still_inert {op : Op} (hop : op.inert) (hread : op ≠ .read (frameworkMarker n)) :
    op.still n boot := by
  intro t ht
  rw [allows_of_not_torn ht]
  cases op with
  | read p =>
    have hp : p ≠ frameworkMarker n := fun h => hread (h ▸ rfl)
    exact ⟨trivial, fun r t' hm => (moves_read_of_ne hp).1 hm⟩
  | look p => exact ⟨trivial, fun r t' hm => hm.2⟩
  | bootId => exact ⟨trivial, fun r t' hm => hm.2⟩
  | _ => first | exact hop.elim | exact ⟨trivial, fun _ _ hm => hm⟩

/-- A stray read of the marker is no transaction. -/
theorem calm_inert {op : Op} (hop : op.inert) : op.calm n boot := by
  by_cases hread : op = .read (frameworkMarker n)
  · subst hread
    intro g t hg ht
    refine ⟨?_, fun r t' hm => ?_⟩
    · rw [allows_of_not_torn ht.2.1]
      trivial
    · simp only [Turn.moves, if_true] at hm
      obtain ⟨-, rfl⟩ := hm
      have hmine : t.grip ≠ .mine := by
        rw [ht.1]
        rcases hg with rfl | rfl <;> simp
      refine ⟨?_, rfl, ht.2.2⟩
      show (if _ then _ else _) = g
      rw [if_neg fun h => hmine h.1]
      exact ht.1
  · exact calm_of_still (still_inert hop hread)

theorem still_createDirAll (p : FilePath) : (Op.createDirAll p).still n boot := by
  intro t ht
  rw [allows_of_not_torn ht]
  exact ⟨trivial, fun _ _ hm => hm⟩

theorem still_startDaemon (dir : FilePath) (args : List String) :
    (Op.startDaemon dir args).still n boot := by
  intro t ht
  rw [allows_of_not_torn ht]
  exact ⟨trivial, fun _ _ hm => hm⟩

theorem still_runModuleScript (dir script : FilePath) :
    (Op.runModuleScript dir script).still n boot := by
  intro t ht
  rw [allows_of_not_torn ht]
  exact ⟨trivial, fun _ _ hm => hm⟩

theorem still_createNew {p : FilePath} (hp : p ≠ frameworkMarker n) : (Op.createNew p).still n boot := by
  intro t ht
  rw [allows_of_not_torn ht]
  exact ⟨hp, fun _ _ hm => hm⟩

theorem still_openKeep {p : FilePath} (hp : p ≠ frameworkMarker n) : (Op.openKeep p).still n boot := by
  intro t ht
  rw [allows_of_not_torn ht]
  exact ⟨hp, fun _ _ hm => hm⟩

theorem still_openTrunc {p : FilePath} (hp : p ≠ frameworkMarker n) :
    (Op.openTrunc p).still n boot := by
  intro t ht
  rw [allows_of_not_torn ht]
  exact ⟨fun h => absurd h hp, fun _ _ hm => (moves_openTrunc_of_ne hp).1 hm⟩

theorem still_writeData {p : FilePath} (hp : p ≠ frameworkMarker n) (ino : Nat) (data : String) :
    (Op.writeData p ino data).still n boot := by
  intro t ht
  rw [allows_of_not_torn ht]
  exact ⟨hp, fun _ _ hm => (moves_writeData_of_ne hp).1 hm⟩

theorem still_removeFile {p : FilePath} (hp : p ≠ frameworkMarker n) :
    (Op.removeFile p).still n boot := by
  intro t ht
  rw [allows_of_not_torn ht]
  exact ⟨fun h => absurd h hp, fun _ _ hm => by simpa [hp] using hm.2⟩

theorem still_kill {pid : Int32} {signal : Nat} {name : String} (h : name ≠ n) :
    (Op.kill pid signal name).still n boot := by
  intro t ht
  rw [allows_of_not_torn ht]
  refine ⟨fun hn => absurd hn h, fun r t' hm => ?_⟩
  have hother : ¬ (name = n ∧ signal = sigKill) := fun hboth => h hboth.1
  exact Eq.trans hm (if_neg hother)

theorem still_spawn {dir : FilePath} (h : m ≠ n) :
    (Op.spawn (.frameworkDaemon m dir)).still n boot := by
  intro t ht
  rw [allows_of_not_torn ht]
  refine ⟨⟨m, dir, rfl, fun hn => absurd hn h⟩, fun r t' hm => ?_⟩
  have hother : ¬ (Job.frameworkDaemon m dir).startsFor n = true := by simpa [Job.startsFor] using h
  exact Eq.trans hm (if_neg hother)

theorem spec_still {α : Type} {p : Program α} (h : Only (Op.still n boot) p) (ht : t.torn = false) :
    Spec (turnRules n boot) p t fun _ t' => t' = t :=
  Prog.spec_only h fun _ hop => hop t ht

theorem spec_calm {α : Type} {p : Program α} (h : Only (Op.calm n boot) p) {g : Grip}
    (hg : g = .free ∨ g = .busy) (ht : t.At g) :
    Spec (turnRules n boot) p t fun _ t' => t'.At g :=
  Prog.spec_keep (I := fun t' : Turn => t'.At g) h (fun _ hop t ht => hop g t hg ht) ht

/-! ### Programs that do not concern the marker -/

theorem calm_of_inert {α : Type} {p : Program α} (h : Only Op.inert p) :
    Only (Op.calm n boot) p :=
  Prog.only_mono h fun _ hop => calm_inert hop

theorem calm_fsWrite {p : FilePath} (hp : p ≠ frameworkMarker n) (data : String) :
    Only (Op.calm n boot) (fsWrite p data) := by
  refine Prog.only_bind (only_perform (calm_of_still (still_openTrunc hp))) fun r => ?_
  cases r with
  | none => trivial
  | some ino =>
    exact Prog.only_ite trivial (only_perform (calm_of_still (still_writeData hp ino data)))

theorem other_framework {s : String} (hs : '.' ∉ s.toList) (h : m ≠ n ∨ s ≠ "framework") :
    activationMarker m s ≠ frameworkMarker n := by
  intro heq
  obtain ⟨hm, hst⟩ := (activationMarker_inj hs (by decide)).1 heq
  rcases h with h | h
  · exact h hm
  · exact h hst

theorem calm_writeActivationMarker {s : String} (hs : '.' ∉ s.toList) (h : m ≠ n ∨ s ≠ "framework") :
    Only (Op.calm n boot) (writeActivationMarker m s) :=
  Prog.only_bind (only_perform (calm_of_still (still_createDirAll _))) fun _ =>
    Prog.only_bind (calm_fsWrite (other_framework hs h) "1") fun _ => trivial

theorem calm_removeMarker {s : String} (hs : '.' ∉ s.toList) (h : m ≠ n ∨ s ≠ "framework") :
    Only (Op.calm n boot) (perform (.removeFile (activationMarker m s))) :=
  only_perform (calm_of_still (still_removeFile (other_framework hs h)))

theorem calm_runIfFile (dir : FilePath) (script : String) :
    Only (Op.calm n boot) (runIfFile dir script) := by
  refine Prog.only_bind (calm_of_inert (inert_asks (asks_isFile _))) fun _ => Prog.only_ite ?_ trivial
  exact only_perform (calm_of_still (still_runModuleScript _ _))

theorem calm_ensureModuleDaemonStarted (name : String) (dir : FilePath) :
    Only (Op.calm n boot) (ensureModuleDaemonStarted name dir) := by
  have hlog : activationMarker name "daemon.log" ≠ frameworkMarker n := by
    intro heq
    have hstr : name ++ "." ++ "daemon.log" = n ++ "." ++ "framework" := by
      simpa [activationMarker, frameworkMarker] using heq
    have hlast := congrArg (fun s : String => s.toList.getLast?) hstr
    simp [String.toList_append, List.getLast?_append] at hlast
  refine Prog.only_bind (calm_of_inert (inert_asks (asks_isFile _))) fun _ => Prog.only_ite ?_ trivial
  refine Prog.only_bind (calm_of_inert (inert_asks (asks_readToString _))) fun _ => ?_
  refine Prog.only_bind (calm_of_inert (Prog.only_bind (only_perform trivial) fun _ => trivial))
    fun _ => Prog.only_ite trivial ?_
  refine Prog.only_bind (only_perform (calm_of_still (still_openKeep hlog))) fun _ => ?_
  exact Prog.only_bind (only_perform (calm_of_still (still_startDaemon _ _))) fun _ => trivial

theorem calm_startFrameworkDaemon (name : String) (dir : FilePath) (swapped : Bool) :
    Only (Op.calm n boot) (startFrameworkDaemon name dir swapped) := by
  have hinert : ∀ {op : Op}, op.inert → Only (Op.calm n boot) (perform op) := fun hop =>
    only_perform (calm_inert hop)
  refine Prog.only_bind (calm_of_inert (inert_asks (asks_frameworkDaemonName dir))) fun _ =>
    Prog.only_bind (hinert trivial) fun _ => Prog.only_ite trivial ?_
  refine Prog.only_bind (only_onlyIf (hinert trivial)) fun _ => ?_
  refine Prog.only_bind (calm_runIfFile _ _) fun _ =>
    Prog.only_bind (hinert trivial) fun _ => Prog.only_ite trivial ?_
  exact Prog.only_bind (calm_ensureModuleDaemonStarted _ _) fun _ =>
    Prog.only_bind (hinert trivial) fun _ => trivial

theorem calm_frameworkDaemonThread (name : String) (dir : FilePath) :
    Only (Op.calm n boot) (frameworkDaemonThread name dir) :=
  Prog.only_bind (calm_startFrameworkDaemon _ _ _) fun _ =>
    Prog.only_bind (calm_writeActivationMarker (by decide) (.inr (by decide))) fun _ =>
      Prog.only_bind (calm_fsWrite (other_framework (by decide) (.inr (by decide))) _) fun _ =>
        Prog.only_bind (calm_removeMarker (by decide) (.inr (by decide))) fun _ =>
          Prog.only_bind (calm_removeMarker (by decide) (.inr (by decide))) fun _ =>
            calm_of_inert inert_refreshControllerInfo

/-! ### Reading and writing the marker -/

theorem spec_frameworkState (ht : t.torn = false) :
    Spec (turnRules n boot) (frameworkState n) t fun recorded t' =>
      Found boot t.grip recorded ∧ t' = { t with
        view := .seen recorded
        grip := if t.grip = .mine ∧ ofBoot boot recorded = none then .checked else t.grip } := by
  refine ⟨?_, fun text t' hm => ?_⟩
  · show t.allows n boot _
    rw [allows_of_not_torn ht]
    trivial
  · simp only [turnRules, Turn.moves, frameworkMarker, if_true] at hm
    exact hm

theorem print_ne_empty (s : FrameworkState) : s.print ≠ "" := by
  intro h
  have hnil := congrArg String.toList h
  simp [FrameworkState.print] at hnil

/-- The first write of a transaction counts the restart. -/
theorem owes_first {recorded : Option FrameworkState} {g : Grip} {new : FrameworkState}
    {debt : Debt} (h : owes boot recorded g new = some debt) (hnone : ofBoot boot recorded = none) :
    g = .checked ∧ new.restarts = maxFrameworkRestarts ∧ new.heals = 0 ∧ debt = .restart := by
  unfold owes at h
  rw [hnone] at h
  split_ifs at h with hboot hnew
  exact ⟨hnew.1, hnew.2.1, hnew.2.2, (Option.some.inj h).symm⟩

/-- A later one keeps the restarts, and counts at most one daemon start. -/
theorem owes_later {recorded : Option FrameworkState} {g : Grip} {new s : FrameworkState}
    {debt : Debt} (h : owes boot recorded g new = some debt) (hs : ofBoot boot recorded = some s) :
    new.restarts = s.restarts ∧ (new.heals = s.heals ∧ debt = .nothing ∨
      new.heals = s.heals + 1 ∧ new.heals ≤ maxFrameworkDaemonStarts ∧ debt = .start) := by
  unfold owes at h
  rw [hs] at h
  simp only at h
  split_ifs at h with hboot hrestarts hsame hnew
  · exact ⟨not_not.1 hrestarts, .inl ⟨hsame, (Option.some.inj h).symm⟩⟩
  · exact ⟨not_not.1 hrestarts, .inr ⟨hnew.1, hnew.2, (Option.some.inj h).symm⟩⟩

theorem bootId_of_owes {recorded : Option FrameworkState} {g : Grip} {new : FrameworkState}
    {debt : Debt} (h : owes boot recorded g new = some debt) : new.bootId = boot := by
  by_contra hboot
  rw [owes, if_pos hboot] at h
  exact absurd h (by simp)

section Boot

variable {raw : Option String}

/-- What is owed can be told from the text that was written. -/
theorem owes_unique (hboot : bootIdOf raw = some boot) {recorded : Option FrameworkState} {g : Grip} {new new' : FrameworkState}
    {debt debt' : Debt} (h : owes boot recorded g new = some debt)
    (h' : owes boot recorded g new' = some debt') (hprint : new.print = new'.print) :
    debt = debt' := by
  have hnew : FrameworkState.parse new.print = some new :=
    FrameworkState.parse_print (hboot.trans (congrArg some (bootId_of_owes h).symm))
  have hnew' : FrameworkState.parse new'.print = some new' :=
    FrameworkState.parse_print (hboot.trans (congrArg some (bootId_of_owes h').symm))
  rw [hprint, hnew'] at hnew
  obtain rfl := Option.some.inj hnew
  exact Option.some.inj (h.symm.trans h')

theorem spec_writeFrameworkState (debt : Debt) (hboot : bootIdOf raw = some boot)
    {recorded : Option FrameworkState} {new : FrameworkState} (hview : t.view = .seen recorded)
    (howes : owes boot recorded t.grip new = some debt) :
    Spec (turnRules n boot) (writeFrameworkState n new) t fun _ t' =>
      t' = ⟨if t.grip = .checked then .mine else t.grip, .out, debt⟩ := by
  have ht : t.torn = false := by rw [Turn.torn, hview]
  refine ⟨?_, fun ino t₁ hm => ?_⟩
  · show t.allows n boot _
    rw [allows_of_not_torn ht]
    exact fun _ => ⟨recorded, hview, fun hnone => (owes_first howes hnone).1⟩
  · simp only [turnRules, Turn.moves, frameworkMarker, if_true] at hm
    obtain ⟨recorded', ino, hview', rfl, rfl⟩ := hm
    obtain rfl : recorded = recorded' := by simpa [hview] using hview'
    simp only [print_ne_empty, if_false]
    refine ⟨⟨new, debt, rfl, howes⟩, fun written t₂ hm => ?_⟩
    simp only [turnRules, Turn.moves, frameworkMarker, if_true] at hm
    obtain ⟨recorded', ino', new', debt', hview', hnew, howes', -, rfl⟩ := hm
    obtain ⟨rfl, rfl⟩ : recorded = recorded' ∧ ino = ino' := by simpa using hview'
    obtain rfl := owes_unique hboot howes howes' hnew
    rfl

end Boot

/-! ### The lock -/

/-- What the lock is held for. -/
def lockGrip (n : String) (use : LockUse) : Grip := if use = .restart n then .mine else .busy

theorem hotplugLock_ne : hotplugLock ≠ frameworkMarker n := by
  intro h
  have hlength := congrArg List.length h
  simp [hotplugLock, tmpPath, frameworkMarker, activationMarker, activationMarkers] at hlength

theorem spec_acquireTurn (use : LockUse) (ht : t.At .free) :
    Spec (turnRules n boot) (acquireHotplugLock use) t fun r t' =>
      r = .ok () ∧ t'.At (lockGrip n use) ∨ r ≠ .ok () ∧ t'.At .free := by
  refine Prog.spec_seq (spec_still (only_perform (still_createDirAll _)) ht.2.1) ?_
  rintro created _ rfl
  cases created with
  | false => exact .inr ⟨by simp, ht⟩
  | true =>
    refine Prog.spec_seq (spec_still (only_perform (still_openKeep hotplugLock_ne)) ht.2.1) ?_
    rintro opened _ rfl
    cases opened with
    | false => exact .inr ⟨by simp, ht⟩
    | true =>
      refine ⟨?_, fun taken t' hm => ?_⟩
      · show Turn.allows n boot _ _
        rw [allows_of_not_torn ht.2.1]
        exact ht.1
      · obtain rfl : t' = _ := hm
        cases taken with
        | false => exact .inr ⟨by simp, ht⟩
        | true => exact .inl ⟨rfl, rfl, ht.2.1, ht.2.2⟩

/-- A body under the lock ends with the file written and nothing owed. -/
theorem spec_lockedTurn {α : Type} {use : LockUse} {onError : String → α} {body : Program α}
    (ht : t.At .free)
    (hbody : ∀ t : Turn, t.At (lockGrip n use) → Spec (turnRules n boot) body t fun _ t' =>
      t'.grip ≠ .free ∧ t'.torn = false ∧ t'.debt = .nothing) :
    Spec (turnRules n boot) (withHotplugLock use onError body) t fun _ t' => t'.At .free := by
  refine Prog.spec_seq (spec_acquireTurn use ht) ?_
  rintro r t' (⟨rfl, ht'⟩ | ⟨hr, ht'⟩)
  · refine Prog.spec_seq (hbody t' ht') ?_
    intro a t₁ ⟨hgrip, htorn, hdebt⟩
    refine ⟨?_, fun u t₂ hm => ?_⟩
    · show t₁.allows n boot _
      rw [allows_of_not_torn htorn]
      exact hgrip
    · obtain rfl : t₂ = _ := hm
      exact ⟨rfl, htorn, hdebt⟩
  · cases r with
    | error msg => exact ht'
    | ok u => exact absurd rfl hr

/-! ### The restart -/

theorem spec_currentBootId (ht : t.torn = false) :
    Spec (turnRules n boot) currentBootId t fun r t' => r = some boot ∧ t' = t := by
  refine ⟨?_, fun raw t' hm => hm⟩
  show t.allows n boot _
  rw [allows_of_not_torn ht]
  trivial

/-- Restarting another module's framework. -/
theorem spec_restartOther (h : m ≠ n) (ht : t.At .free) :
    Spec (turnRules n boot) (restartFrameworkOnce m) t fun _ t' => t'.At .free := by
  have hstate : Only (Op.calm n boot) (frameworkState m) :=
    calm_of_inert (inert_asks (Prog.only_bind (asks_readToString _) fun _ => trivial))
  have hgrip : lockGrip n (.restart m) = .busy := if_neg (by simpa using h)
  refine spec_lockedTurn ht fun t ht => ?_
  rw [hgrip] at ht
  refine Prog.spec_mono (spec_calm ?_ (.inr rfl) ht) ?_
  · refine Prog.only_bind (calm_of_inert inert_currentBootId) fun bootId => ?_
    cases bootId with
    | none => trivial
    | some bootId =>
      refine Prog.only_bind (Prog.only_bind hstate fun recorded => ?_) fun _ =>
        Prog.only_ite trivial ?_
      · cases recorded.filter fun s => s.bootId = bootId with
        | none => trivial
        | some s => exact Prog.only_bind (only_perform (calm_inert trivial)) fun _ => trivial
      · refine Prog.only_bind (only_perform (calm_inert trivial)) fun pid => ?_
        cases pid with
        | none => trivial
        | some pid =>
          refine Prog.only_bind hstate fun _ => Prog.only_bind (Prog.only_bind
            (calm_fsWrite (other_framework (by decide) (.inl h)) _) fun _ => trivial) fun _ => ?_
          exact Prog.only_bind (only_perform (calm_of_still (still_kill h))) fun _ => trivial
  · intro _ t' ht'
    exact ⟨by rw [ht'.1]; simp, ht'.2⟩

/-- A transaction of this boot that is found has used up its restart. -/
theorem spec_restartDone (ht : t.At .mine) :
    Spec (turnRules n boot) (restartDone n boot) t fun done t' =>
      t'.torn = false ∧ t'.debt = .nothing ∧
        (done = true ∧ t'.grip ≠ .free ∨ done = false ∧ t'.grip = .checked) := by
  refine Prog.spec_seq (spec_frameworkState ht.2.1) ?_
  rintro recorded _ ⟨hfound, rfl⟩
  have hfilter : (recorded.filter fun s => s.bootId = boot) = ofBoot boot recorded := rfl
  simp only [hfilter, ht.1]
  cases hboot : ofBoot boot recorded with
  | none => exact ⟨rfl, ht.2.2, .inr ⟨rfl, by simp⟩⟩
  | some s =>
    refine Prog.spec_seq (spec_still (only_perform (still_inert trivial (by simp))) rfl) ?_
    rintro current _ rfl
    refine ⟨rfl, ht.2.2, .inl ⟨?_, by simp⟩⟩
    have hrestarts := (hfound.1 s hboot).1
    simp [hrestarts]

theorem spec_restartTurn {raw : Option String} (hboot : bootIdOf raw = some boot)
    (ht : t.At .free) :
    Spec (turnRules n boot) (restartFrameworkOnce n) t fun _ t' => t'.At .free := by
  have hgrip : lockGrip n (.restart n) = .mine := if_pos rfl
  refine spec_lockedTurn ht fun t ht => ?_
  rw [hgrip] at ht
  refine Prog.spec_seq (spec_currentBootId ht.2.1) ?_
  rintro _ _ ⟨rfl, rfl⟩
  refine Prog.spec_seq (spec_restartDone ht) ?_
  rintro done t₁ ⟨htorn, hdebt, ⟨rfl, hfree⟩ | ⟨rfl, hchecked⟩⟩
  · exact ⟨hfree, htorn, hdebt⟩
  · refine Prog.spec_seq (spec_still (only_perform (still_inert trivial (by simp))) htorn) ?_
    rintro pid _ rfl
    cases pid with
    | none => exact ⟨by rw [hchecked]; simp, htorn, hdebt⟩
    | some pid =>
      refine Prog.spec_seq (spec_frameworkState htorn) ?_
      rintro again _ ⟨hfound, rfl⟩
      have hnone : ofBoot boot again = none := hfound.2 hchecked
      have hcounted : (again.filter fun s => s.bootId = boot) = none := hnone
      simp only [hcounted, hchecked]
      refine Prog.spec_seq (spec_writeFrameworkState .restart hboot rfl ?_) ?_
      · simp [owes, hnone, maxFrameworkRestarts]
      · rintro _ _ rfl
        refine ⟨fun _ _ => rfl, fun killed t' hk => ?_⟩
        obtain rfl : t' = _ := hk
        show _ ∧ _ ∧ _
        simp [Turn.torn]

/-! ### The activations -/

theorem frameworkMarker_ne_active (p : FilePath) : activeDir m ++ p ≠ frameworkMarker n := by
  simp [activeDir, frameworkMarker, activationMarker, activationMarkers]

theorem still_read {p : FilePath} (hp : p ≠ frameworkMarker n) : (Op.read p).still n boot :=
  still_inert trivial (by simpa using hp)

theorem still_frameworkDaemonName (m : String) :
    Only (Op.still n boot) (frameworkDaemonName (activeDir m)) := by
  have hread : ∀ {p : FilePath}, p ≠ frameworkMarker n → Only (Op.still n boot) (readToString p) :=
    fun hp => only_perform (still_read hp)
  refine Prog.only_bind (only_perform (still_inert trivial (by simp))) fun bin =>
    Prog.only_bind (Prog.only_firstSome fun wrapper hw => ?_) fun named => ?_
  · refine Prog.only_bind (hread ?_) fun _ => trivial
    rcases List.mem_cons.1 hw with rfl | hw
    · exact frameworkMarker_ne_active _
    · obtain ⟨entry, -, rfl⟩ := List.mem_map.1 hw
      exact frameworkMarker_ne_active _
  · cases named with
    | some name => trivial
    | none =>
      refine Prog.only_bind (hread (frameworkMarker_ne_active _)) fun service => ?_
      cases service with
      | none => trivial
      | some service => exact Prog.only_ite trivial trivial

/-- Removing the marker of a transaction that is not of this boot. -/
theorem spec_removeStale {recorded : Option FrameworkState} (hview : t.view = .seen recorded)
    (hnone : ofBoot boot recorded = none) (ht : t.At .free) :
    Spec (turnRules n boot) (do let _ ← perform (.removeFile (frameworkMarker n)) : Program Unit) t
      fun _ t' => t'.At .free := by
  refine ⟨?_, fun removed t' hm => ?_⟩
  · show t.allows n boot _
    rw [allows_of_not_torn ht.2.1]
    exact fun _ => ⟨recorded, hview, hnone⟩
  · obtain ⟨-, rfl⟩ : _ ∧ t' = _ := hm
    rw [if_pos rfl]
    exact ⟨ht.1, rfl, ht.2.2⟩

/-- The module's opt-in stays. -/
theorem spec_unplugUnstable (ht : t.torn = false) {Q : Unit → Turn → Prop} :
    Spec (turnRules n boot) (unplugUnstableFrameworkModule n) t Q := by
  have hne : hotplugOptIn n ≠ frameworkMarker n := by
    simp [hotplugOptIn, hotplugDir, frameworkMarker, activationMarker, activationMarkers]
  refine ⟨?_, fun removed t' hm => absurd rfl hm.1⟩
  show t.allows n boot _
  rw [allows_of_not_torn ht]
  exact fun h => absurd h hne

/-- The start of the daemon, counted and carried out. -/
theorem spec_startCounted {raw : Option String} (hboot : bootIdOf raw = some boot)
    {recorded : Option FrameworkState} {s : FrameworkState} {pid : Int32} {dir : FilePath}
    (hview : t.view = .seen recorded) (hs : ofBoot boot recorded = some s)
    (hheals : s.heals + 1 ≤ maxFrameworkDaemonStarts) (ht : t.At .free) :
    Spec (turnRules n boot) (do
      writeFrameworkState n { s with pid := pid, heals := s.heals + 1 }
      perform (.spawn (.frameworkDaemon n dir))) t fun _ t' => t'.At .free := by
  have hid : s.bootId = boot := by
    obtain ⟨-, hid⟩ := Option.filter_eq_some_iff.1 hs
    simpa using hid
  refine Prog.spec_seq (spec_writeFrameworkState .start hboot hview ?_) ?_
  · simp [owes, hid, hs, hheals]
  · rintro _ _ rfl
    refine ⟨⟨n, dir, rfl, fun _ => rfl⟩, fun u t' hm => ?_⟩
    obtain rfl : t' = _ := hm
    simp [Job.startsFor, ht.1, Turn.At, Turn.torn]

theorem spec_activationTurn {raw : Option String} (hboot : bootIdOf raw = some boot) (pid : Int32)
    (ht : t.At .free) :
    Spec (turnRules n boot) (runFrameworkActivation (some boot) pid n) t fun _ t' => t'.At .free := by
  refine Prog.spec_seq (spec_frameworkState ht.2.1) ?_
  rintro recorded _ ⟨hfound, rfl⟩
  have hgrip : ¬ (t.grip = .mine ∧ ofBoot boot recorded = none) := by
    rw [ht.1]
    simp
  rw [if_neg hgrip]
  have ht' : Turn.At .free { t with view := .seen recorded } := ⟨ht.1, rfl, ht.2.2⟩
  cases recorded with
  | none => exact spec_removeStale rfl rfl ht'
  | some s =>
    by_cases hid : s.bootId = boot
    · subst hid
      have hs : ofBoot s.bootId (some s) = some s := by simp [ofBoot]
      simp only [ne_eq, not_true_eq_false, if_false]
      by_cases hpid : s.pid = pid
      · rw [if_pos hpid]
        exact ht'
      rw [if_neg hpid]
      refine Prog.spec_seq (M := fun isDir t₁ => isDir = true ∧
        t₁ = { t with view := .seen (some s) }) ⟨trivial, fun node t₁ hm => ⟨hm.1 rfl, hm.2⟩⟩ ?_
      rintro _ _ ⟨rfl, rfl⟩
      rw [if_pos rfl]
      refine Prog.spec_seq (spec_still (still_frameworkDaemonName n) rfl) ?_
      rintro niceName _ rfl
      refine Prog.spec_seq (spec_still (Prog.only_ite trivial (Prog.only_bind
        (only_perform (still_inert trivial (by simp))) fun _ => trivial)) rfl) ?_
      rintro running _ rfl
      cases running with
      | true =>
        refine Prog.spec_mono (spec_writeFrameworkState .nothing hboot rfl ?_) ?_
        · simp [owes, hs]
        · rintro _ _ rfl
          simp [Turn.At, Turn.torn, ht.1]
      | false =>
        simp only [Bool.false_eq_true, if_false]
        by_cases hheals : s.heals + 1 > maxFrameworkDaemonStarts
        · rw [if_pos hheals]
          exact spec_unplugUnstable rfl
        · rw [if_neg hheals]
          have hne : activationMarker n "applying" ≠ frameworkMarker n :=
            other_framework (by decide) (.inr (by decide))
          refine Prog.spec_seq (spec_still (only_perform (still_createNew hne)) rfl) ?_
          rintro created _ rfl
          cases created with
          | false => exact ht'
          | true => exact spec_startCounted hboot rfl hs (UInt32.not_lt.1 hheals) ht'
    · have hnone : ofBoot boot (some s) = none := by simp [ofBoot, hid]
      have hother : (some boot : Option String) ≠ some s.bootId := by
        intro h
        exact hid (Option.some.inj h).symm
      simp only [ne_eq, hother, not_false_eq_true, if_true]
      exact spec_removeStale rfl hnone ht'

theorem calm_runFrameworkActivation (h : m ≠ n) (bootId : Option String) (pid : Int32) :
    Only (Op.calm n boot) (runFrameworkActivation bootId pid m) := by
  have hstill : ∀ {op : Op}, op.still n boot → Only (Op.calm n boot) (perform op) := fun hop =>
    only_perform (calm_of_still hop)
  have hmarker : frameworkMarker m ≠ frameworkMarker n := other_framework (by decide) (.inl h)
  have hwrite : ∀ s, Only (Op.calm n boot) (writeFrameworkState m s) := fun s =>
    Prog.only_bind (calm_fsWrite hmarker _) fun _ => trivial
  have hremove : Only (Op.calm n boot) (do
      let _ ← perform (.removeFile (frameworkMarker m)) : Program Unit) :=
    Prog.only_bind (hstill (still_removeFile hmarker)) fun _ => trivial
  refine Prog.only_bind (calm_of_inert (inert_asks (Prog.only_bind (asks_readToString _) fun _ =>
    trivial))) fun recorded => ?_
  cases recorded with
  | none => exact hremove
  | some s =>
    refine Prog.only_ite hremove (Prog.only_ite trivial ?_)
    refine Prog.only_bind (calm_of_inert (Prog.only_bind (only_perform trivial) fun _ => trivial))
      fun _ => Prog.only_ite ?_ hremove
    refine Prog.only_bind (calm_of_inert (inert_asks (asks_frameworkDaemonName _))) fun _ =>
      Prog.only_bind (calm_of_inert (Prog.only_ite trivial (Prog.only_bind (only_perform trivial)
        fun _ => trivial))) fun _ => Prog.only_ite (hwrite _) (Prog.only_ite ?_ ?_)
    · exact Prog.only_bind (hstill (still_removeFile (by simp [hotplugOptIn, hotplugDir,
        frameworkMarker, activationMarker, activationMarkers]))) fun _ =>
          Prog.only_bind (calm_fsWrite (other_framework (by decide) (.inl h)) _) fun _ =>
            Prog.only_bind (calm_fsWrite (other_framework (by decide) (.inl h)) _) fun _ =>
              Prog.only_bind (calm_removeMarker (by decide) (.inl h)) fun _ =>
                Prog.only_bind (calm_removeMarker (by decide) (.inl h)) fun _ =>
                  calm_of_inert inert_refreshControllerInfo
    · refine Prog.only_bind (hstill (still_createNew (other_framework (by decide) (.inl h))))
        fun _ => Prog.only_ite ?_ trivial
      exact Prog.only_bind (hwrite _) fun _ => hstill (still_spawn h)

theorem spec_runFrameworkActivations {raw : Option String} (hboot : bootIdOf raw = some boot)
    (ht : t.At .free) :
    Spec (turnRules n boot) runFrameworkActivations t fun _ t' => t'.At .free := by
  refine Prog.spec_seq (spec_calm (calm_of_inert inert_systemServerReady) (.inl rfl) ht) ?_
  intro ready t ht
  cases ready with
  | false => exact ht
  | true =>
    refine Prog.spec_seq (spec_calm (calm_of_inert (inert_asks (asks_readDir _))) (.inl rfl) ht) ?_
    intro entries t ht
    cases entries with
    | none => exact ht
    | some entries =>
      by_cases hpending : (entries.filterMap (Text.stripSuffix ".framework")).isEmpty = true
      · simp only [if_pos hpending]
        exact ht
      · simp only [if_neg hpending]
        have hpid : Op.inert .pidofSystemServer := trivial
        refine Prog.spec_seq (spec_calm (only_perform (calm_inert hpid)) (.inl rfl) ht) ?_
        intro pid t ht
        cases pid with
        | none => exact ht
        | some pid =>
          refine Prog.spec_seq (spec_currentBootId ht.2.1) ?_
          rintro _ _ ⟨rfl, rfl⟩
          refine Prog.spec_forEach (I := fun t : Turn => t.At .free) ht fun m _ t ht => ?_
          by_cases hm : m = n
          · subst hm
            exact spec_activationTurn hboot pid ht
          · exact spec_calm (calm_runFrameworkActivation hm _ _) (.inl rfl) ht

end OnyxZygisk.Daemon

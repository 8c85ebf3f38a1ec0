import OnyxZygisk.Daemon.Threads

/-!
# The stages of a deferred service

For one module, a thread that swaps it or runs its `service.sh` goes through stages: it holds the lock,
has moved the staged copy in, has claimed the module by its `applying` marker, has started the script,
has written the `service` marker. `stageRules` says which operations a stage permits and where they
lead; the programs that swap modules and run their services follow these rules.
-/

namespace OnyxZygisk.Daemon

open Prog (Only Spec)

inductive Stage where
  | idle
  /-- Holds the lock for something else. -/
  | busy
  /-- Holds the lock for a swap of the module. -/
  | locked
  /-- The staged copy is moved in, the markers are not reset yet. -/
  | swapping
  /-- The module is claimed, the lock still held. -/
  | armed
  /-- The module is claimed. -/
  | owed
  /-- `service.sh` is started. -/
  | started
  /-- The `service` marker is written. -/
  | served
  deriving DecidableEq

namespace Stage

/-- The thread has claimed the module. -/
def claims : Stage → Bool
  | armed | owed | started | served => true
  | _ => false

def holds : Stage → Bool
  | busy | locked | swapping | armed => true
  | _ => false

/-- The thread holds the lock for a swap of the module. -/
def swaps : Stage → Bool
  | locked | swapping | armed => true
  | _ => false

/-- Nobody has started `service.sh` since the last swap. -/
def unstarted : Stage → Bool
  | swapping | armed | owed => true
  | _ => false

end Stage

def applyingMarker (n : String) : FilePath := activationMarker n "applying"

def serviceMarker (n : String) : FilePath := activationMarker n "service"

def serviceScript (n : String) : FilePath := activeDir n ++ ["service.sh"]

/-- The module a worker thread is for, and its directory. -/
def Job.worker : Job → Option (String × FilePath)
  | .activation name dir | .frameworkActivation name dir | .pendingService name dir =>
    some (name, dir)
  | _ => none

/-- What a stage permits. -/
def Stage.allows (n : String) (o : Stage) : Op → Prop
  | .flock _ => o = .idle
  | .unlock => o = .busy ∨ o = .locked ∨ o = .armed
  | .rename src dst => src = stagedDir n → dst = activeDir n → o = .locked
  | .removeFile p => (p = serviceMarker n → o = .swapping) ∧
      (p = applyingMarker n → o = .swapping ∨ o = .owed ∨ o = .served)
  | .openTrunc p => (p = applyingMarker n → o = .swapping) ∧
      (p = serviceMarker n → o = .owed ∨ o = .started)
  | .createNew p => p = applyingMarker n → o = .idle
  | .runModuleScript _ script => script = serviceScript n → o = .owed
  | .spawn job => ∃ m, job.worker = some (m, activeDir m) ∧ if m = n then o = .owed else o = .idle
  | _ => True

/-- Where an operation leads. Opening the two markers for writing is taken to work. -/
def Stage.moves (n : String) (o : Stage) : (op : Op) → Resp op → Stage → Prop
  | .flock use, r, o' =>
    o' = if r = true then (if use = .swap n then .locked else .busy) else o
  | .unlock, _, o' => o' = if o = .armed then .owed else .idle
  | .rename src dst, r, o' =>
    o' = if src = stagedDir n ∧ dst = activeDir n ∧ r = true then .swapping else o
  | .removeFile p, _, o' => o' = if p = applyingMarker n ∧ o ≠ .swapping then .idle else o
  | .openTrunc p, r, o' =>
    if p = applyingMarker n then r.isSome = true ∧ o' = .armed
    else if p = serviceMarker n then r.isSome = true ∧ o' = .served
    else o' = o
  | .createNew p, r, o' => o' = if p = applyingMarker n ∧ r = true then .owed else o
  | .runModuleScript _ script, _, o' => o' = if script = serviceScript n then .started else o
  | .spawn _, _, o' => o' = .idle
  | _, _, o' => o' = o

def stageRules (n : String) : Prog.Rules Resp Stage where
  allow := Stage.allows n
  next o op r o' := o.moves n op r o'

/-- An operation any stage permits and none notices. -/
def Op.neutral (n : String) (op : Op) : Prop :=
  ∀ o : Stage, o.allows n op ∧ ∀ r o', o.moves n op r o' → o' = o

variable {n m : String}

/-! ### Neutral operations -/

theorem neutral_inert {op : Op} (hop : op.inert) : op.neutral n := by
  intro o
  cases op <;> first | exact hop.elim | exact ⟨trivial, fun _ _ h => h⟩

theorem neutral_removeFile {p : FilePath} (hs : p ≠ serviceMarker n) (ha : p ≠ applyingMarker n) :
    (Op.removeFile p).neutral n := by
  intro o
  refine ⟨⟨fun h => absurd h hs, fun h => absurd h ha⟩, ?_⟩
  rintro r o' rfl
  simp [ha]

theorem neutral_openTrunc {p : FilePath} (hs : p ≠ serviceMarker n) (ha : p ≠ applyingMarker n) :
    (Op.openTrunc p).neutral n := by
  intro o
  refine ⟨⟨fun h => absurd h ha, fun h => absurd h hs⟩, ?_⟩
  intro r o' h
  simpa [Stage.moves, hs, ha] using h

theorem neutral_createNew {p : FilePath} (ha : p ≠ applyingMarker n) : (Op.createNew p).neutral n := by
  intro o
  refine ⟨fun h => absurd h ha, ?_⟩
  rintro r o' rfl
  simp [ha]

theorem neutral_rename {src dst : FilePath} (h : src ≠ stagedDir n ∨ dst ≠ activeDir n) :
    (Op.rename src dst).neutral n := by
  intro o
  refine ⟨fun hsrc hdst => absurd h (by simp [hsrc, hdst]), ?_⟩
  rintro r o' rfl
  rw [if_neg]
  rintro ⟨hsrc, hdst, -⟩
  exact absurd h (by simp [hsrc, hdst])

theorem neutral_runModuleScript {dir script : FilePath} (h : script ≠ serviceScript n) :
    (Op.runModuleScript dir script).neutral n := by
  intro o
  refine ⟨fun hs => absurd hs h, ?_⟩
  rintro r o' rfl
  simp [h]

/-- A program of neutral operations does not change the stage. -/
theorem spec_neutral {α : Type} {p : Program α} (h : Only (Op.neutral n) p) (o : Stage) :
    Spec (stageRules n) p o fun _ o' => o' = o :=
  Prog.spec_only h fun _ hop => hop o

/-! ### Neutral programs -/

theorem neutral_of_inert {α : Type} {p : Program α} (h : Only Op.inert p) :
    Only (Op.neutral n) p :=
  Prog.only_mono h fun _ hop => neutral_inert hop

theorem neutral_asks {α : Type} {p : Program α} (h : Asks p) : Only (Op.neutral n) p :=
  neutral_of_inert (inert_asks h)

theorem neutral_fsWrite {p : FilePath} (hs : p ≠ serviceMarker n) (ha : p ≠ applyingMarker n)
    (data : String) : Only (Op.neutral n) (fsWrite p data) := by
  refine Prog.only_bind (only_perform (neutral_openTrunc hs ha)) fun r => ?_
  cases r with
  | none => trivial
  | some ino =>
    exact Prog.only_ite trivial (only_perform fun _ => ⟨trivial, fun _ _ h => h⟩)

/-- Another marker than the two. -/
theorem marker_ne {s t : String} (hs : '.' ∉ s.toList) (ht : '.' ∉ t.toList) (h : m ≠ n ∨ s ≠ t) :
    activationMarker m s ≠ activationMarker n t := by
  intro heq
  obtain ⟨hm, hst⟩ := (activationMarker_inj hs ht).1 heq
  rcases h with h | h
  · exact h hm
  · exact h hst

/-- A marker that is neither of the two. -/
theorem other_marker {s : String} (hs : '.' ∉ s.toList) (h : m ≠ n ∨ s ≠ "service" ∧ s ≠ "applying") :
    activationMarker m s ≠ serviceMarker n ∧ activationMarker m s ≠ applyingMarker n :=
  ⟨marker_ne hs (by decide) (h.imp id And.left), marker_ne hs (by decide) (h.imp id And.right)⟩

theorem neutral_writeMarker {s : String} (hs : '.' ∉ s.toList)
    (h : m ≠ n ∨ s ≠ "service" ∧ s ≠ "applying") (data : String) :
    Only (Op.neutral n) (fsWrite (activationMarker m s) data) :=
  neutral_fsWrite (other_marker hs h).1 (other_marker hs h).2 data

theorem neutral_createDirAll (p : FilePath) : (Op.createDirAll p).neutral n :=
  fun _ => ⟨trivial, fun _ _ h => h⟩

theorem neutral_writeActivationMarker {s : String} (hs : '.' ∉ s.toList)
    (h : m ≠ n ∨ s ≠ "service" ∧ s ≠ "applying") :
    Only (Op.neutral n) (writeActivationMarker m s) :=
  Prog.only_bind (only_perform (neutral_createDirAll _)) fun _ =>
    Prog.only_bind (neutral_writeMarker hs h "1") fun _ => trivial

theorem serviceScript_ne {dir : FilePath} {script : String} (h : script ≠ "service.sh" ∨ dir ≠ activeDir n) :
    dir ++ [script] ≠ serviceScript n := by
  intro heq
  obtain ⟨hdir, hscript⟩ := List.append_inj' heq rfl
  rcases h with h | h
  · exact h (by simpa using hscript)
  · exact h hdir

theorem neutral_runIfFile {dir : FilePath} {script : String}
    (h : script ≠ "service.sh" ∨ dir ≠ activeDir n) :
    Only (Op.neutral n) (runIfFile dir script) := by
  refine Prog.only_bind (neutral_asks (asks_isFile _)) fun _ => Prog.only_ite ?_ trivial
  exact only_perform (neutral_runModuleScript (serviceScript_ne h))

theorem neutral_ensureModuleDaemonStarted (name : String) (dir : FilePath) :
    Only (Op.neutral n) (ensureModuleDaemonStarted name dir) := by
  refine Prog.only_bind (neutral_asks (asks_isFile _)) fun _ => Prog.only_ite ?_ trivial
  refine Prog.only_bind (neutral_asks (asks_readToString _)) fun _ => ?_
  refine Prog.only_bind (neutral_of_inert (Prog.only_bind (only_perform trivial) fun _ => trivial))
    fun _ => Prog.only_ite trivial ?_
  refine Prog.only_bind (only_perform fun _ => ⟨trivial, fun _ _ h => h⟩) fun _ => ?_
  exact Prog.only_bind (only_perform fun _ => ⟨trivial, fun _ _ h => h⟩) fun _ => trivial

/-! ### The lock -/

/-- The stage in which a thread holds the lock. -/
def lockStage (n : String) (use : LockUse) : Stage := if use = .swap n then .locked else .busy

theorem spec_acquireHotplugLock (use : LockUse) :
    Spec (stageRules n) (acquireHotplugLock use) .idle fun r o =>
      r = .ok () ∧ o = lockStage n use ∨ r ≠ .ok () ∧ o = .idle := by
  refine ⟨trivial, ?_⟩
  rintro created _ rfl
  cases created with
  | false => exact .inr ⟨by simp, rfl⟩
  | true =>
    refine ⟨trivial, ?_⟩
    rintro opened _ rfl
    cases opened with
    | false => exact .inr ⟨by simp, rfl⟩
    | true =>
      refine ⟨rfl, ?_⟩
      rintro taken _ rfl
      cases taken with
      | false => exact .inr ⟨by simp, rfl⟩
      | true => exact .inl ⟨rfl, rfl⟩

/-- A body under the lock has to come to a stage the lock can be dropped in. -/
theorem spec_withHotplugLock {α : Type} {use : LockUse} {onError : String → α} {body : Program α}
    {Q : α → Stage → Prop} (herror : ∀ msg, Q (onError msg) .idle)
    (hbody : Spec (stageRules n) body (lockStage n use) fun a o =>
      o = .busy ∧ Q a .idle ∨ o = .locked ∧ Q a .idle ∨ o = .armed ∧ Q a .owed) :
    Spec (stageRules n) (withHotplugLock use onError body) .idle Q := by
  refine Prog.spec_seq (spec_acquireHotplugLock use) ?_
  rintro r o (⟨rfl, rfl⟩ | ⟨hr, rfl⟩)
  · refine Prog.spec_seq hbody ?_
    rintro a o (⟨rfl, hQ⟩ | ⟨rfl, hQ⟩ | ⟨rfl, hQ⟩)
    · refine ⟨.inl rfl, ?_⟩
      rintro _ _ rfl
      exact hQ
    · refine ⟨.inr (.inl rfl), ?_⟩
      rintro _ _ rfl
      exact hQ
    · refine ⟨.inr (.inr rfl), ?_⟩
      rintro _ _ rfl
      exact hQ
  · cases r with
    | error msg => exact herror msg
    | ok u => exact absurd rfl hr

/-- A body that does not concern the module, under a lock taken for something else. -/
theorem spec_lock_neutral {α : Type} {use : LockUse} {onError : String → α} {body : Program α}
    (huse : use ≠ .swap n) (hbody : Only (Op.neutral n) body) :
    Spec (stageRules n) (withHotplugLock use onError body) .idle fun _ o => o = .idle := by
  refine spec_withHotplugLock (fun _ => rfl) (Prog.spec_mono (spec_neutral hbody _) ?_)
  rintro a _ rfl
  exact .inl ⟨if_neg huse, rfl⟩

theorem spec_signalSystemServerHotplug (name : String) (force : Bool) :
    Spec (stageRules n) (signalSystemServerHotplug name force) .idle fun _ o => o = .idle := by
  refine Prog.spec_seq (spec_neutral (neutral_of_inert inert_systemServerReady) _) ?_
  rintro ready _ rfl
  cases ready with
  | false => rfl
  | true =>
    refine spec_lock_neutral (by simp) (Prog.only_bind (only_perform (neutral_inert trivial)) fun pid => ?_)
    cases pid with
    | none => trivial
    | some pid =>
      refine Prog.only_bind (Prog.only_ite trivial (Prog.only_bind (neutral_asks (asks_readToString _))
        fun _ => trivial)) fun _ => Prog.only_ite trivial ?_
      refine Prog.only_bind (only_perform (neutral_inert trivial)) fun _ => Prog.only_ite ?_ trivial
      refine Prog.only_bind (only_perform fun _ => ⟨trivial, fun _ _ h => h⟩) fun _ =>
        Prog.only_ite ?_ trivial
      exact Prog.only_bind (neutral_writeMarker (by decide) (.inr (by decide)) _) fun _ => trivial

theorem spec_restartFrameworkOnce (name : String) :
    Spec (stageRules n) (restartFrameworkOnce name) .idle fun _ o => o = .idle := by
  have hstate : Only (Op.neutral n) (frameworkState name) :=
    neutral_asks (Prog.only_bind (asks_readToString _) fun _ => trivial)
  refine spec_lock_neutral (by simp) (Prog.only_bind (neutral_of_inert inert_currentBootId) fun boot => ?_)
  cases boot with
  | none => trivial
  | some bootId =>
    refine Prog.only_bind (Prog.only_bind hstate fun recorded => ?_) fun _ => Prog.only_ite trivial ?_
    · cases recorded.filter fun s => s.bootId = bootId with
      | none => trivial
      | some s => exact Prog.only_bind (only_perform (neutral_inert trivial)) fun _ => trivial
    · refine Prog.only_bind (only_perform (neutral_inert trivial)) fun pid => ?_
      cases pid with
      | none => trivial
      | some pid =>
        refine Prog.only_bind hstate fun _ => Prog.only_bind (Prog.only_bind
          (neutral_writeMarker (by decide) (.inr (by decide)) _) fun _ => trivial) fun _ => ?_
        exact Prog.only_bind (only_perform fun _ => ⟨trivial, fun _ _ h => h⟩) fun _ => trivial

/-! ### The worker threads -/

/-- A thread that works on `m` is in one of the stages, if that is the module. -/
def At (n m : String) (stages : List Stage) (o : Stage) : Prop :=
  if m = n then o ∈ stages else o = .idle

variable {o : Stage}

theorem At.mono {stages stages' : List Stage} (h : At n m stages o) (hsub : stages ⊆ stages') :
    At n m stages' o := by
  unfold At at h ⊢
  split_ifs at h ⊢
  · exact hsub h
  · exact h

theorem spec_release (ho : At n m [.owed, .served] o) :
    Spec (stageRules n) (perform (.removeFile (activationMarker m "applying"))) o
      fun _ o' => o' = .idle := by
  by_cases hmn : m = n
  · subst hmn
    rw [At, if_pos rfl, List.mem_pair] at ho
    have hne : activationMarker m "applying" ≠ serviceMarker m :=
      marker_ne (by decide) (by decide) (.inr (by decide))
    refine ⟨⟨fun h => absurd h hne, fun _ => .inr ho⟩, ?_⟩
    rintro r o' rfl
    rw [if_pos]
    · rfl
    · refine ⟨rfl, ?_⟩
      rintro rfl
      simp at ho
  · rw [At, if_neg hmn] at ho
    subst ho
    have hne := other_marker (m := m) (n := n) (s := "applying") (by decide) (.inl hmn)
    exact spec_neutral (only_perform (neutral_removeFile hne.1 hne.2)) _

theorem spec_writeService (ho : At n m [.owed, .started] o) :
    Spec (stageRules n) (fsWrite (activationMarker m "service") "1") o
      fun _ o' => At n m [.served] o' := by
  by_cases hmn : m = n
  · subst hmn
    rw [At, if_pos rfl, List.mem_pair] at ho
    have hne : activationMarker m "service" ≠ applyingMarker m :=
      marker_ne (by decide) (by decide) (.inr (by decide))
    refine ⟨⟨fun h => absurd h hne, fun _ => ho⟩, ?_⟩
    intro ino o' hmoves
    simp only [stageRules, Stage.moves, if_neg hne, serviceMarker, if_true] at hmoves
    obtain ⟨hino, rfl⟩ := hmoves
    obtain ⟨ino, rfl⟩ := Option.isSome_iff_exists.1 hino
    refine ⟨trivial, ?_⟩
    rintro written _ rfl
    simp [At]
  · rw [At, if_neg hmn] at ho
    subst ho
    refine Prog.spec_mono (spec_neutral (neutral_writeMarker (by decide) (.inl hmn) _) _) ?_
    rintro _ _ rfl
    rw [At, if_neg hmn]

theorem spec_runService (ho : At n m [.owed] o) :
    Spec (stageRules n) (startService m (activeDir m)) o fun _ o' => At n m [.owed, .started] o' := by
  have hrun : Spec (stageRules n) (runIfFile (activeDir m) "service.sh") o
      fun _ o' => At n m [.owed, .started] o' := by
    by_cases hmn : m = n
    · subst hmn
      rw [At, if_pos rfl, List.mem_singleton] at ho
      subst ho
      refine Prog.spec_seq (spec_neutral (neutral_asks (asks_isFile _)) _) ?_
      rintro found _ rfl
      cases found with
      | false => simp [At]
      | true =>
        refine ⟨fun _ => rfl, ?_⟩
        rintro _ _ rfl
        simp [At, serviceScript]
    · rw [At, if_neg hmn] at ho
      subst ho
      have hdir : activeDir m ≠ activeDir n := by simpa [activeDir] using hmn
      refine Prog.spec_mono (spec_neutral (neutral_runIfFile (.inr hdir)) _) ?_
      rintro _ _ rfl
      rw [At, if_neg hmn]
  refine Prog.spec_seq hrun fun _ o' ho' => ?_
  refine Prog.spec_mono (spec_neutral (neutral_ensureModuleDaemonStarted _ _) _) ?_
  rintro _ _ rfl
  exact ho'

theorem spec_finishActivation (ho : At n m [.served] o) :
    Spec (stageRules n) (finishActivation m) o fun _ o' => o' = .idle := by
  refine Prog.spec_seq (spec_neutral (neutral_writeMarker (by decide) (.inr (by decide)) _) o) ?_
  rintro _ o rfl
  refine Prog.spec_seq (spec_release (ho.mono (by simp))) ?_
  rintro _ _ rfl
  refine Prog.spec_seq (spec_neutral (neutral_of_inert inert_refreshControllerInfo) _) ?_
  rintro _ _ rfl
  refine Prog.spec_seq (spec_signalSystemServerHotplug m false) ?_
  rintro _ _ rfl
  rfl

theorem spec_activationThread (ho : At n m [.owed] o) :
    Spec (stageRules n) (activationThread m (activeDir m)) o fun _ o' => o' = .idle := by
  refine Prog.spec_seq (spec_neutral (neutral_runIfFile (.inl (by decide))) o) ?_
  rintro _ o rfl
  refine Prog.spec_seq
    (spec_neutral (neutral_writeActivationMarker (by decide) (.inr (by decide))) o) ?_
  rintro _ o rfl
  refine Prog.spec_seq (spec_neutral (neutral_of_inert inert_systemServerReady) o) ?_
  rintro ready o rfl
  cases ready with
  | false =>
    exact Prog.spec_seq (spec_release (ho.mono (by simp))) fun _ _ h => h
  | true =>
    refine Prog.spec_seq (spec_runService ho) fun _ o₁ ho₁ => ?_
    refine Prog.spec_seq (M := fun _ o' => At n m [.served] o') ?_ fun _ _ ho₂ =>
      spec_finishActivation ho₂
    refine Prog.spec_seq (spec_neutral (only_perform (neutral_createDirAll _)) o₁) ?_
    rintro _ _ rfl
    exact Prog.spec_seq (spec_writeService ho₁) fun _ _ h => h

theorem spec_frameworkActivationThread (ho : At n m [.owed] o) (dir : FilePath) :
    Spec (stageRules n) (frameworkActivationThread m dir) o fun _ o' => o' = .idle := by
  refine Prog.spec_seq (spec_neutral (neutral_runIfFile (.inl (by decide))) o) ?_
  rintro _ o rfl
  refine Prog.spec_seq
    (spec_neutral (neutral_writeActivationMarker (by decide) (.inr (by decide))) o) ?_
  rintro _ o rfl
  refine Prog.spec_seq (spec_neutral (neutral_writeMarker (by decide) (.inr (by decide)) _) o) ?_
  rintro _ o rfl
  refine Prog.spec_seq (spec_release (ho.mono (by simp))) ?_
  rintro _ _ rfl
  refine Prog.spec_seq (spec_neutral (neutral_of_inert inert_refreshControllerInfo) _) ?_
  rintro _ _ rfl
  refine Prog.spec_seq (spec_restartFrameworkOnce m) ?_
  rintro _ _ rfl
  rfl

theorem spec_pendingServiceThread (ho : At n m [.owed] o) :
    Spec (stageRules n) (pendingServiceThread m (activeDir m)) o fun _ o' => o' = .idle := by
  refine Prog.spec_seq (spec_runService ho) fun _ o₁ ho₁ => ?_
  exact Prog.spec_seq (spec_writeService ho₁) fun _ _ ho₂ => spec_finishActivation ho₂

/-! ### Swaps and claims -/

theorem neutral_clearActivationMarkers (hmn : m ≠ n) :
    Only (Op.neutral n) (clearActivationMarkers m) := by
  refine Prog.only_forEach fun suffix hsuffix => Prog.only_bind ?_ fun _ => trivial
  have hne := other_marker (m := m) (markerSuffixes_dotless suffix hsuffix) (.inl hmn)
  exact only_perform (neutral_removeFile hne.1 hne.2)

/-- The swap of the module itself resets and claims it under the lock. -/
theorem spec_reset : Spec (stageRules n) (clearActivationMarkers n) .swapping
    fun _ o => o = .swapping := by
  refine Prog.spec_forEach (I := fun o : Stage => o = .swapping) rfl ?_
  rintro suffix - _ rfl
  refine ⟨⟨fun _ => rfl, fun _ => .inl rfl⟩, ?_⟩
  rintro _ _ rfl
  rw [if_neg (by simp)]
  rfl

theorem spec_arm : Spec (stageRules n) (writeActivationMarker n "applying") .swapping
    fun _ o => o = .armed := by
  have hne : activationMarker n "applying" ≠ serviceMarker n :=
    marker_ne (by decide) (by decide) (.inr (by decide))
  refine Prog.spec_seq (spec_neutral (only_perform (neutral_createDirAll _)) _) ?_
  rintro _ _ rfl
  refine ⟨⟨fun _ => rfl, fun h => absurd h hne⟩, ?_⟩
  intro ino o' hmoves
  simp only [stageRules, Stage.moves, applyingMarker, if_true] at hmoves
  obtain ⟨hino, rfl⟩ := hmoves
  obtain ⟨ino, rfl⟩ := Option.isSome_iff_exists.1 hino
  refine ⟨trivial, ?_⟩
  rintro _ _ rfl
  rfl

theorem neutral_removeDirAll (p : FilePath) : (Op.removeDirAll p).neutral n :=
  fun _ => ⟨trivial, fun _ _ h => h⟩

theorem stagedDir_ne_backupDir (n : String) : stagedDir n ≠ backupDir n := by
  have hlen : n.length ≠ (".onyx-hotplug-backup-" ++ n).length := by
    rw [String.length_append]
    have : ".onyx-hotplug-backup-".length = 21 := by decide
    omega
  intro h
  have hname : n = ".onyx-hotplug-backup-" ++ n := by simpa [stagedDir, backupDir] using h
  exact hlen (congrArg String.length hname)

theorem neutral_preserve (m : String) : (Op.rename (activeDir m) (backupDir m)).neutral n :=
  neutral_rename (.inr (by simp [activeDir, backupDir]))

theorem neutral_restore (m : String) : (Op.rename (backupDir m) (activeDir m)).neutral n := by
  by_cases hmn : m = n
  · subst hmn
    exact neutral_rename (.inl (stagedDir_ne_backupDir m).symm)
  · exact neutral_rename (.inr (by simpa [activeDir] using hmn))

/-- The lock is held for the swap of `m`. -/
theorem lockStage_swap : lockStage n (.swap m) = if m = n then .locked else .busy := by
  by_cases hmn : m = n
  · simp [lockStage, hmn]
  · simp [lockStage, hmn]

/-- What a swap of `m` leaves the lock's holder in. -/
def Swapped (n m : String) (r : Except String FilePath) (o : Stage) : Prop :=
  match r with
  | .ok dir => dir = activeDir m ∧ o = if m = n then .armed else .busy
  | .error _ => o = if m = n then .locked else .busy

theorem spec_move : Spec (stageRules n) (perform (.rename (stagedDir n) (activeDir n))) .locked
    fun r o => o = if r = true then .swapping else .locked := by
  refine ⟨fun _ _ => rfl, ?_⟩
  rintro r _ rfl
  simp

theorem spec_moveIn (hadActive : Bool) :
    Spec (stageRules n) (moveIn m hadActive) (if m = n then .locked else .busy) (Swapped n m) := by
  have hbackup : Only (Op.neutral n) (onlyIf hadActive do
      let _ ← perform (.removeDirAll (backupDir m))) :=
    only_onlyIf (Prog.only_bind (only_perform (neutral_removeDirAll _)) fun _ => trivial)
  have hrestore : Only (Op.neutral n) (onlyIf hadActive do
      let _ ← perform (.rename (backupDir m) (activeDir m))) :=
    only_onlyIf (Prog.only_bind (only_perform (neutral_restore m)) fun _ => trivial)
  by_cases hmn : m = n
  · subst hmn
    rw [if_pos rfl]
    refine Prog.spec_seq spec_move ?_
    rintro moved _ rfl
    cases moved with
    | false =>
      refine Prog.spec_seq (spec_neutral hrestore _) ?_
      rintro _ _ rfl
      simp [Swapped]
    | true =>
      refine Prog.spec_seq (spec_neutral hbackup _) ?_
      rintro _ _ rfl
      refine Prog.spec_seq spec_reset ?_
      rintro _ _ rfl
      refine Prog.spec_seq spec_arm ?_
      rintro _ _ rfl
      simp [Swapped]
  · rw [if_neg hmn]
    have hmove : (Op.rename (stagedDir m) (activeDir m)).neutral n :=
      neutral_rename (.inr (by simpa [activeDir] using hmn))
    refine Prog.spec_seq (spec_neutral (only_perform hmove) _) ?_
    rintro moved _ rfl
    cases moved with
    | false =>
      refine Prog.spec_seq (spec_neutral hrestore _) ?_
      rintro _ _ rfl
      simp [Swapped, hmn]
    | true =>
      refine Prog.spec_seq (spec_neutral hbackup _) ?_
      rintro _ _ rfl
      refine Prog.spec_seq (spec_neutral (neutral_clearActivationMarkers hmn) _) ?_
      rintro _ _ rfl
      refine Prog.spec_seq
        (spec_neutral (neutral_writeActivationMarker (by decide) (.inl hmn)) _) ?_
      rintro _ _ rfl
      simp [Swapped, hmn]

theorem neutral_removeStaleBackup (m : String) : Only (Op.neutral n) (removeStaleBackup m) :=
  Prog.only_bind (neutral_asks (asks_pathExists _)) fun _ =>
    Prog.only_ite (only_perform (neutral_removeDirAll _)) trivial

theorem neutral_preserveActive (m : String) : Only (Op.neutral n) (preserveActive m) := by
  have hflag : ∀ s, stagedDir m ++ ["disable"] ≠ activationMarker n s := by
    intro s
    simp [stagedDir, activationMarker, activationMarkers]
  refine Prog.only_bind (neutral_asks ⟨trivial, fun _ => trivial⟩) fun node => ?_
  rcases node with _ | ⟨_ | _ | _⟩
  · trivial
  · trivial
  · refine Prog.only_bind (Prog.only_bind (neutral_asks (asks_pathExists _)) fun _ =>
      Prog.only_ite (Prog.only_bind (neutral_asks (asks_pathExists _)) fun _ =>
        Prog.only_ite trivial (neutral_fsWrite (hflag _) (hflag _) _)) trivial) fun _ =>
      Prog.only_ite ?_ trivial
    exact Prog.only_bind (only_perform (neutral_preserve m)) fun _ => Prog.only_ite trivial trivial
  · trivial

theorem spec_swapLocked :
    Spec (stageRules n) (swapLocked m) (if m = n then .locked else .busy) (Swapped n m) := by
  generalize hheld : (if m = n then Stage.locked else .busy) = held
  have herror : ∀ msg, Swapped n m (.error msg) held := fun _ => hheld.symm
  have hmove : ∀ hadActive, Spec (stageRules n) (moveIn m hadActive) held (Swapped n m) :=
    fun hadActive => hheld ▸ spec_moveIn hadActive
  refine Prog.spec_seq (spec_neutral (neutral_asks (asks_stagedUpdateReady m)) held) ?_
  rintro ready held rfl
  cases ready with
  | false => exact herror _
  | true =>
    refine Prog.spec_seq (spec_neutral (neutral_asks (p := perform (.look (stagedDir m)))
      ⟨trivial, fun _ => trivial⟩) held) ?_
    rintro node held rfl
    rcases node with _ | ⟨_ | _ | _⟩
    · exact herror _
    · exact herror _
    · refine Prog.spec_seq (spec_neutral (neutral_removeStaleBackup m) held) ?_
      rintro removed held rfl
      cases removed with
      | false => exact herror _
      | true =>
        refine Prog.spec_seq (spec_neutral (neutral_asks (asks_pathExists _)) held) ?_
        rintro hadActive held rfl
        cases hadActive with
        | false => exact hmove false
        | true =>
          refine Prog.spec_seq (spec_neutral (neutral_preserveActive m) held) ?_
          rintro preserved held rfl
          cases preserved with
          | error msg => exact herror _
          | ok u => exact hmove true
    · exact herror _

theorem spec_swapStagedModule (dir : FilePath) :
    Spec (stageRules n) (swapStagedModule m dir) .idle fun r o =>
      match r with
      | .ok dir => dir = activeDir m ∧ At n m [.owed] o
      | .error _ => o = .idle := by
  rw [swapStagedModule]
  split_ifs with hid hdir
  · rfl
  · rfl
  · refine Prog.spec_seq (spec_neutral (neutral_asks (asks_stagedUpdateReady m)) _) ?_
    rintro ready _ rfl
    cases ready with
    | false => rfl
    | true =>
      refine spec_withHotplugLock (fun _ => rfl) ?_
      rw [lockStage_swap]
      refine Prog.spec_mono spec_swapLocked fun r o ho => ?_
      by_cases hmn : m = n
      · cases r with
        | error msg => exact .inr (.inl ⟨by simpa [Swapped, hmn] using ho, rfl⟩)
        | ok dir =>
          obtain ⟨hdir, ho⟩ := ho
          exact .inr (.inr ⟨by simpa [hmn] using ho, hdir, by simp [At, hmn]⟩)
      · cases r with
        | error msg => exact .inl ⟨by simpa [Swapped, hmn] using ho, rfl⟩
        | ok dir =>
          obtain ⟨hdir, ho⟩ := ho
          exact .inl ⟨by simpa [hmn] using ho, hdir, by simp [At, hmn]⟩

/-- Starting a worker for `m` hands the claim over. -/
theorem spec_spawn {j : Job} (hj : j.worker = some (m, activeDir m)) (ho : At n m [.owed] o) :
    Spec (stageRules n) (perform (.spawn j)) o fun _ o' => o' = .idle := by
  refine ⟨⟨m, hj, ?_⟩, fun _ _ h => h⟩
  simpa [At] using ho

theorem spec_activateStagedModule (dir : FilePath) :
    Spec (stageRules n) (activateStagedModule m dir) .idle fun _ o => o = .idle := by
  refine Prog.spec_seq (spec_swapStagedModule dir) fun r o hr => ?_
  cases r with
  | error msg => exact hr
  | ok dir =>
    obtain ⟨rfl, ho⟩ := hr
    refine Prog.spec_seq (spec_neutral (neutral_asks (asks_isFrameworkModule _)) o) ?_
    rintro framework o rfl
    cases framework with
    | false => exact spec_spawn rfl ho
    | true => exact spec_spawn rfl ho

theorem spec_runPendingStagedService :
    Spec (stageRules n) (runPendingStagedService m) .idle fun _ o => o = .idle := by
  refine Prog.spec_seq (spec_neutral (neutral_asks (asks_pathExists _)) _) ?_
  rintro served _ rfl
  cases served with
  | true => rfl
  | false =>
    refine Prog.spec_seq (spec_neutral (neutral_asks (asks_isFrameworkModule _)) _) ?_
    rintro framework _ rfl
    cases framework with
    | true => rfl
    | false =>
      refine Prog.spec_seq (spec_neutral (neutral_asks (asks_hasDeferredSo _)) _) ?_
      rintro library _ rfl
      cases library with
      | false => rfl
      | true =>
        by_cases hmn : m = n
        · subst hmn
          refine ⟨fun _ => rfl, ?_⟩
          rintro claimed o hmoves
          simp only [stageRules, Stage.moves, applyingMarker, true_and] at hmoves
          subst hmoves
          cases claimed with
          | false => rfl
          | true => exact spec_spawn rfl (by simp [At])
        · have hne := other_marker (m := m) (n := n) (s := "applying") (by decide) (.inl hmn)
          refine Prog.spec_seq (spec_neutral (only_perform (neutral_createNew hne.2)) _) ?_
          rintro claimed _ rfl
          cases claimed with
          | false => rfl
          | true => exact spec_spawn rfl (by simp [At, hmn])

theorem spec_runPendingStagedServices :
    Spec (stageRules n) runPendingStagedServices .idle fun _ o => o = .idle := by
  refine Prog.spec_seq (spec_neutral (neutral_of_inert inert_systemServerReady) _) ?_
  rintro ready _ rfl
  cases ready with
  | false => rfl
  | true =>
    refine Prog.spec_seq (spec_neutral (neutral_asks (asks_readDir _)) _) ?_
    rintro entries _ rfl
    cases entries with
    | none => rfl
    | some entries =>
      refine Prog.spec_forEach (I := fun o : Stage => o = .idle) rfl ?_
      rintro name - _ rfl
      exact spec_runPendingStagedService

end OnyxZygisk.Daemon

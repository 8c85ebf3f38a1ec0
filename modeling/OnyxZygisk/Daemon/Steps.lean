import OnyxZygisk.Daemon.Activation

/-!
# What one operation does

The inversion of `exec`, one lemma for each operation that changes the world, and the rules (`Sound`)
under which the daemon's programs are specified: steps are steps of the machine in admissible
environments, and an operation can start where the invariant `I` holds and no held lock is waited for.
-/

namespace OnyxZygisk.Daemon

variable {e : Env} {w w' : World} {p : FilePath}

/-- The operations that leave files, lock and log alone. -/
def Op.inert : Op → Prop
  | .look _ | .read _ | .readDir _ | .getProperty _ | .lp64 | .systemServerUp | .setSystemServerUp
  | .bootId | .pidofSystemServer | .moduleDaemonPids _ _ | .waitForDaemon _ _
  | .stopModuleDaemon _ _ | .caughtSignals _ | .libraryFd _ | .errorText | .sendStartupInfo _
  | .loadModuleFromMemfd _ => True
  | _ => False

theorem exec_inert {op : Op} {r : Resp op} (hop : op.inert) (h : exec e op w = some (r, w')) :
    w' = w := by
  cases op <;> first | exact hop.elim | simp_all [exec]

theorem exec_look {r : Option Node} (h : exec e (.look p) w = some (r, w')) :
    w' = w ∧ (r = w.fs.get p ∨ r = none ∧ e.works (.look p) = false) := by
  simp only [exec, Option.some.injEq, Prod.mk.injEq] at h
  obtain ⟨rfl, rfl⟩ := h
  cases e.works (.look p) <;> simp

theorem exec_createDirAll {r : Bool} (h : exec e (.createDirAll p) w = some (r, w')) :
    (w' = { w with fs := (w.fs.mkdirAll p).1 } ∧ r = (w.fs.mkdirAll p).2) ∨
      (w' = w ∧ r = false ∧ e.works (.createDirAll p) = false) := by
  simp only [exec] at h
  split_ifs at h with hw
  · simp_all
  · right
    simp_all

theorem become_eq {w : World} {o : Option FileTree} {r : Bool} (h : w.become o = (r, w')) :
    (r = true ∧ ∃ fs, o = some fs ∧ w' = { w with fs := fs }) ∨
      (r = false ∧ o = none ∧ w' = w) := by
  cases o with
  | none => simp_all [World.become, eq_comm]
  | some fs => simp_all [World.become, eq_comm]

theorem exec_createNew {r : Bool} (h : exec e (.createNew p) w = some (r, w')) :
    (r = true ∧ ∃ fs, w.fs.create p (.file w.fs.fresh "") = some fs ∧ w' = { w with fs := fs }) ∨
      (r = false ∧ w' = w) := by
  simp only [exec, Option.some.injEq] at h
  rcases become_eq h with ⟨rfl, fs, ho, rfl⟩ | ⟨rfl, -, rfl⟩
  · split_ifs at ho
    exact .inl ⟨rfl, fs, ho, rfl⟩
  · exact .inr ⟨rfl, rfl⟩

theorem exec_openKeep {r : Bool} (h : exec e (.openKeep p) w = some (r, w')) :
    (r = true ∧ ∃ fs, w.fs.openKeep p = some fs ∧ w' = { w with fs := fs }) ∨
      (r = false ∧ w' = w ∧ (e.works (.openKeep p) = false ∨ w.fs.openKeep p = none)) := by
  simp only [exec, Option.some.injEq] at h
  rcases become_eq h with ⟨rfl, fs, ho, rfl⟩ | ⟨rfl, ho, rfl⟩
  · split_ifs at ho
    exact .inl ⟨rfl, fs, ho, rfl⟩
  · split_ifs at ho with hw
    · exact .inr ⟨rfl, rfl, .inr ho⟩
    · exact .inr ⟨rfl, rfl, .inl (by simpa using hw)⟩

theorem exec_openTrunc {r : Option Nat} (h : exec e (.openTrunc p) w = some (r, w')) :
    (∃ ino fs, r = some ino ∧ w.fs.openTrunc p = some (ino, fs) ∧ w' = { w with fs := fs }) ∨
      (r = none ∧ w' = w ∧ (e.works (.openTrunc p) = false ∨ w.fs.openTrunc p = none)) := by
  simp only [exec] at h
  by_cases hw : e.works (.openTrunc p) = true
  · rw [if_pos hw] at h
    cases ho : w.fs.openTrunc p with
    | none => simp_all
    | some z =>
      obtain ⟨ino, fs⟩ := z
      simp only [ho, Option.some.injEq, Prod.mk.injEq] at h
      exact .inl ⟨ino, fs, h.1.symm, rfl, h.2.symm⟩
  · rw [if_neg hw] at h
    right
    simp_all

theorem exec_writeData {r : Bool} {ino : Nat} {data : String}
    (h : exec e (.writeData p ino data) w = some (r, w')) :
    (r = true ∧ w' = { w with fs := w.fs.writeData p ino data }) ∨
      (r = false ∧ w' = w ∧ e.works (.writeData p ino data) = false) := by
  simp only [exec] at h
  split_ifs at h with hw
  · simp_all
  · right
    simp_all

theorem exec_removeFile {r : Bool} (h : exec e (.removeFile p) w = some (r, w')) :
    (r = true ∧ ∃ fs, w.fs.removeFile p = some fs ∧ w' = { w with fs := fs }) ∨
      (r = false ∧ w' = w ∧ (e.works (.removeFile p) = false ∨ w.fs.removeFile p = none)) := by
  simp only [exec, Option.some.injEq] at h
  rcases become_eq h with ⟨rfl, fs, ho, rfl⟩ | ⟨rfl, ho, rfl⟩
  · split_ifs at ho
    exact .inl ⟨rfl, fs, ho, rfl⟩
  · split_ifs at ho with hw
    · exact .inr ⟨rfl, rfl, .inr ho⟩
    · exact .inr ⟨rfl, rfl, .inl (by simpa using hw)⟩

/-- A failing removal touches what lies below the path only. -/
theorem exec_removeDirAll {r : Bool} (h : exec e (.removeDirAll p) w = some (r, w')) :
    (r = true ∧ ∃ fs, w.fs.removeDirAll p = some fs ∧ w' = { w with fs := fs }) ∨
      (r = false ∧ (∃ fs, w' = { w with fs := fs } ∧ (∀ q, ¬ p <+: q → fs.get q = w.fs.get q) ∧
          fs.get p = w.fs.get p) ∧
        (e.works (.removeDirAll p) = false ∨ w.fs.isDir p = false)) := by
  simp only [exec] at h
  split_ifs at h with hw hdir
  · simp only [Option.some.injEq] at h
    rcases become_eq h with ⟨rfl, fs, ho, rfl⟩ | ⟨rfl, ho, rfl⟩
    · exact .inl ⟨rfl, fs, ho, rfl⟩
    · refine .inr ⟨rfl, ⟨_, rfl, fun _ _ => rfl, rfl⟩, .inr ?_⟩
      simpa [FileTree.removeDirAll] using ho
  · simp only [Option.some.injEq, Prod.mk.injEq] at h
    obtain ⟨rfl, rfl⟩ := h
    exact .inr ⟨rfl, ⟨_, rfl, fun q hq => FileTree.get_removePartly_of_not_prefix _ _ hq,
      FileTree.get_removePartly_self _ _ _⟩, .inl (by simpa using hw)⟩
  · simp only [Option.some.injEq, Prod.mk.injEq] at h
    obtain ⟨rfl, rfl⟩ := h
    exact .inr ⟨rfl, ⟨_, rfl, fun _ _ => rfl, rfl⟩, .inl (by simpa using hw)⟩

theorem exec_rename {src dst : FilePath} {r : Bool} (h : exec e (.rename src dst) w = some (r, w')) :
    (r = true ∧ ∃ fs, w.fs.rename src dst = some fs ∧
        w' = { w with fs := fs, log := .rename src dst :: w.log }) ∨
      (r = false ∧ w' = w ∧ (e.works (.rename src dst) = false ∨ w.fs.rename src dst = none)) := by
  simp only [exec] at h
  by_cases hw : e.works (.rename src dst) = true
  · rw [if_pos hw] at h
    cases ho : w.fs.rename src dst with
    | none => simp_all
    | some fs =>
      simp only [ho, Option.some.injEq, Prod.mk.injEq] at h
      exact .inl ⟨h.1.symm, fs, rfl, h.2.symm⟩
  · rw [if_neg hw] at h
    right
    simp_all

theorem exec_flock {use : LockUse} {r : Bool} (h : exec e (.flock use) w = some (r, w')) :
    (r = true ∧ w.lock = none ∧ w' = { w with lock := some use }) ∨
      (r = false ∧ w' = w ∧ e.works (.flock use) = false) := by
  simp only [exec] at h
  split_ifs at h with hw
  · cases hl : w.lock with
    | none => simp_all
    | some u => simp_all
  · right
    simp_all

theorem exec_unlock {r : Unit} (h : exec e .unlock w = some (r, w')) :
    w' = { w with lock := none } := by
  simp only [exec, Option.some.injEq, Prod.mk.injEq] at h
  exact h.2.symm

/-- Only the lock is waited for. -/
theorem exec_isSome (e : Env) (op : Op) (w : World)
    (h : ∀ use, op = .flock use → w.lock = none) : (exec e op w).isSome = true := by
  cases op with
  | flock use =>
    simp only [exec, h use rfl]
    split_ifs <;> rfl
  | createDirAll p =>
    simp only [exec]
    split_ifs <;> rfl
  | openTrunc p =>
    simp only [exec]
    split <;> rfl
  | writeData p ino data =>
    simp only [exec]
    split_ifs <;> rfl
  | removeDirAll p =>
    simp only [exec]
    split_ifs <;> rfl
  | rename src dst =>
    simp only [exec]
    split <;> rfl
  | _ => rfl

/-- Nothing fails; the system server is up. -/
def Env.fine : Env where
  works _ := true
  kept _ := true
  property key := if key = "ro.product.cpu.abi" then "arm64-v8a" else "1"
  lp64 := true
  systemServerUp := true
  bootId := some "boot"
  systemServer := some 1000
  daemonPids _ := []
  daemonAppears _ := true
  caughtSignals := 0
  errorText := "error"
  loads _ := true

/-- A disk at rest. -/
def World.idle (fs : FileTree) : World := ⟨fs, none, []⟩

/-! ### Specifications over the world -/

structure Sound (R : Prog.Rules Resp World) (I : World → Prop) (adm : Admissible) : Prop where
  next : ∀ {w : World} {op : Op} {r : Resp op} {w' : World}, R.next w op r w' →
    StepIn adm w op r w'
  allow : ∀ {w : World} {op : Op}, I w → (∀ use, op = .flock use → w.lock = none) → R.allow w op

variable {R : Prog.Rules Resp World} {I : World → Prop} {adm : Admissible}

/-- Every operation starts where `I` holds. -/
theorem sound_always (adm : Admissible) (I : World → Prop) :
    Sound (Prog.Rules.always (StepIn adm) I) I adm := ⟨id, fun hI _ => hI⟩

/-- The environment `e` at every operation. -/
theorem sound_exact (e : Env) :
    Sound (Prog.Rules.exact exec e) (fun _ => True) (fun e' _ _ => e' = e) :=
  ⟨fun h => ⟨e, rfl, h⟩, fun _ h => exec_isSome e _ _ h⟩

namespace Sound

theorem call {α : Type} (hR : Sound R I adm) {op : Op} {k : Resp op → Program α} {w : World}
    {Q : α → World → Prop} (hI : I w) (hlock : ∀ use, op = .flock use → w.lock = none)
    (h : ∀ e r w', adm e op w → exec e op w = some (r, w') → Prog.Spec R (k r) w' Q) :
    Prog.Spec R (.call op k) w Q := by
  refine ⟨hR.allow hI hlock, fun r w' hn => ?_⟩
  obtain ⟨e, he, hx⟩ := hR.next hn
  exact h e r w' he hx

theorem perform (hR : Sound R I adm) {op : Op} {w : World} {Q : Resp op → World → Prop}
    (hI : I w) (hlock : ∀ use, op = .flock use → w.lock = none)
    (h : ∀ e r w', adm e op w → exec e op w = some (r, w') → Q r w') :
    Prog.Spec R (Daemon.perform op) w Q :=
  hR.call hI hlock h

/-- A program of inert operations leaves the world as it is. -/
theorem inert {α : Type} (hR : Sound R I adm) {p : Program α} (hp : Prog.Only Op.inert p)
    {w : World} (hI : I w) : Prog.Spec R p w fun _ w' => w' = w := by
  refine Prog.spec_only hp fun op hop => ⟨hR.allow hI ?_, fun r w' hn => ?_⟩
  · rintro use rfl
    exact hop.elim
  · obtain ⟨e, -, hx⟩ := hR.next hn
    exact exec_inert hop hx

theorem asks {α : Type} (hR : Sound R I adm) {p : Program α} (hp : Asks p) {w : World}
    (hI : I w) : Prog.Spec R p w fun _ w' => w' = w := by
  refine hR.inert (Prog.only_mono hp fun op hop => ?_) hI
  cases op <;> first | exact hop.elim | trivial

/-- A program that waits for nothing comes to its end. -/
theorem ends {α : Type} (hR : Sound R (fun _ => True) adm) {p : Program α}
    (hp : Prog.Only (fun op => ∀ use, op ≠ .flock use) p) (w : World) :
    Prog.Spec R p w fun _ _ => True := by
  induction p generalizing w with
  | ret a => trivial
  | call op k ih =>
    exact hR.call trivial (fun use h => absurd h (hp.1 use)) fun _ r w' _ _ => ih r (hp.2 r) w'

/-- The operation can fail here. -/
def Fails (adm : Admissible) (op : Op) (w : World) : Prop :=
  ∃ e, adm e op w ∧ e.works op = false

/-- `exists()` is right when it says yes; a failing `stat` reads as no. -/
theorem pathExists (hR : Sound R I adm) {p : FilePath} {w : World} {Q : Bool → World → Prop}
    (hI : I w)
    (h : ∀ r, (r = true → w.fs.present p = true) →
      (r = false → w.fs.present p = false ∨ Fails adm (.look p) w) → Q r w) :
    Prog.Spec R (Daemon.pathExists p) w Q := by
  refine hR.call hI (by simp) fun e r w' he hx => ?_
  obtain ⟨rfl, rfl | ⟨rfl, hw⟩⟩ := exec_look hx
  · exact h _ id fun hr => .inl hr
  · exact h _ (by simp) fun _ => .inr ⟨e, he, hw⟩

theorem look (hR : Sound R I adm) {p : FilePath} {w : World} {Q : Option Node → World → Prop}
    (hI : I w) (hget : Q (w.fs.get p) w) (hfail : Fails adm (.look p) w → Q none w) :
    Prog.Spec R (Daemon.perform (.look p)) w Q := by
  refine hR.perform hI (by simp) fun e r w' he hx => ?_
  obtain ⟨rfl, rfl | ⟨rfl, hw⟩⟩ := exec_look hx
  · exact hget
  · exact hfail ⟨e, he, hw⟩

/-- Where none of its questions can fail, a program that only asks gets its answers. -/
theorem answers {α : Type} (hR : Sound R I adm) {p : Program α} {w : World} (hI : I w)
    (hp : Prog.Only (fun op => op.asks ∧ ¬ Fails adm op w) p) :
    Prog.Spec R p w fun r w' => r = askOf w.fs p ∧ w' = w := by
  induction p with
  | ret a => exact ⟨rfl, rfl⟩
  | call op k ih =>
    obtain ⟨⟨hask, hworks⟩, hk⟩ := hp
    refine hR.call hI (fun use h => ?_) fun e r w' he hx => ?_
    · subst h
      exact hask.elim
    · have hw : e.works op = true := by
        by_contra h
        exact hworks ⟨e, he, by simpa using h⟩
      rw [exec_asks hask hw] at hx
      obtain ⟨rfl, rfl⟩ := Prod.mk.inj (Option.some.inj hx)
      exact ih _ (hk _)

end Sound

end OnyxZygisk.Daemon

import OnyxZygisk.Daemon.Threads

/-!
# Framework modules and the live loader

A framework module's payload must reach system_server at the fork point, so the daemon sends no wakeup
for one. The worker a wakeup is for loads whatever the daemon serves by then, though, framework modules
included. Where no library of a framework module is copied for a worker whose process has not loaded the
module at its fork, none is live-loaded (`noneLiveLoaded`).
-/

namespace OnyxZygisk.Loader

open Daemon

/-- The directory of the module a library belongs to. -/
def moduleDirOf (soPath : FilePath) : FilePath := soPath.dropLast.dropLast

/-- `is_framework_module` on a disk. -/
def frameworkAt (fs : FileTree) (dir : FilePath) : Bool := askOf fs (isFrameworkModule dir)

/-- The library was copied out of a framework module. -/
def frameworkCopy (fd : Memfd) : Bool := frameworkAt fd.disk (moduleDirOf fd.source)

/-- The live loader never called `onLoad` on a framework module. -/
def NoFrameworkLiveLoaded (w : World) : Prop :=
  ∀ name fd, .onLoad name fd ∈ w.log → frameworkCopy fd = false

/-- The daemon together with the live loaders of the system_servers that ran so far. Installs, updates
and toggles change any file. -/
def liveSystem : Pool.System Resp Job World where
  body := body
  called j := j.request ∨ ∃ loaded, j = .hotplugWorker loaded
  step := StepIn fun _ _ _ => True
  forks := forks
  drift w w' := w'.log = w.log
  kill w w' := w'.log = w.log

/-- Of a name on the list. -/
def OneOf (names : List String) (dir : FilePath) : Prop :=
  ∃ name ∈ names, dir = activeDir name ∨ dir = stagedDir name

/-- No request of a live loader finds the library of a framework module that its process has not loaded
already. -/
def FrameworkHeldBack : Pool.Guard Resp Job World := fun j _ w op _ _ => ∀ loaded so,
  j = .hotplugWorker loaded → op = .libraryFd so → w.fs.isFile so = true →
    frameworkAt w.fs (moduleDirOf so) = true → OneOf loaded (moduleDirOf so)

/-! ### The rules of a live loader -/

/-- What a copy made for a live loader is. -/
def Offered (loaded : List String) : (op : Op) → Resp op → Prop
  | .libraryFd so, r => ∀ fd : Memfd, r = some fd →
      fd.source = so ∧ (frameworkCopy fd = true → OneOf loaded (moduleDirOf so))
  | _, _ => True

def liveRules (j : Job) : Prog.Rules Resp Unit where
  allow _ op := ∀ name fd, op = .onLoad name fd → frameworkCopy fd = false
  next _ op r _ := ∀ loaded, j = .hotplugWorker loaded → Offered loaded op r

theorem liveRules_issued {j : Job} {t : Unit} (op : Op) (hop : op.issued) :
    (liveRules j).allow t op ∧ ∀ r t', (liveRules j).next t op r t' → t' = t := by
  refine ⟨?_, fun _ _ _ => rfl⟩
  rintro name fd rfl
  exact hop.elim

variable {loaded : List String}

/-- A framework module of the reply is one the process has loaded. -/
def Safe (loaded : List String) (m : Module) : Prop :=
  frameworkCopy m.libFd = true → m.name ∈ loaded

theorem moduleDirOf_librarySo (dir : FilePath) (arch : String) :
    moduleDirOf (librarySo dir arch) = dir := by
  simp [moduleDirOf, librarySo, List.dropLast_append_of_ne_nil]

theorem mem_of_oneOf {name : String} {dir : FilePath} (hdir : Placed (name, dir))
    (h : OneOf loaded dir) : name ∈ loaded := by
  obtain ⟨n, hn, hname⟩ := h
  suffices heq : name = n by rwa [heq]
  have hdir' : dir = activeDir name ∨ dir = stagedDir name := hdir
  rcases hdir' with rfl | rfl
  · rcases hname with h | h
    · simpa [activeDir] using h
    · simp [activeDir, stagedDir] at h
  · rcases hname with h | h
    · simp [activeDir, stagedDir] at h
    · simpa [stagedDir] using h

theorem spec_loadModule (arch : String) {entry : String × FilePath} (hentry : Placed entry) (t : Unit) :
    Prog.Spec (liveRules (.hotplugWorker loaded)) (loadModule activateStagedModule true arch entry) t
      fun b t' => (∀ m, b = some m → Safe loaded m) ∧ t' = t := by
  have hact : Prog.Only Op.issued (activateEntry activateStagedModule true entry.1 entry.2) :=
    Prog.only_bind (issued_inert inert_systemServerReady) fun _ => only_onlyIf (issued_activateStagedModule _ _)
  have hso : Prog.Gives (fun so => Placed (entry.1, moduleDirOf so)) (resolveSo entry.1 entry.2 arch) := by
    apply Prog.gives_bind (Prog.gives_trivial _)
    intro active _
    cases active with
    | true => exact .inl (moduleDirOf_librarySo _ _)
    | false =>
      show Placed (entry.1, moduleDirOf (librarySo entry.2 arch))
      rw [moduleDirOf_librarySo]
      exact hentry
  refine Prog.spec_seq (Prog.spec_only hact liveRules_issued) fun _ _ _ => ?_
  refine Prog.spec_seq (Prog.spec_gives (issued_asks ?_) hso liveRules_issued) fun so _ hplaced => ?_
  · exact Prog.only_bind (asks_pathExists _) fun _ => Prog.only_ite trivial trivial
  refine ⟨fun name fd h => absurd h (by simp), ?_⟩
  intro libFd _ hoffered
  refine ⟨?_, rfl⟩
  intro m hm hframework
  obtain ⟨fd, rfl, rfl⟩ := Option.map_eq_some_iff.1 hm
  have hfd := hoffered loaded rfl fd rfl
  exact mem_of_oneOf hplaced.1 (hfd.2 hframework)

theorem spec_loadModules (t : Unit) :
    Prog.Spec (liveRules (.hotplugWorker loaded)) (loadModules true) t
      fun reply _ => ∀ ms, reply = .ok ms → ∀ m ∈ ms, Safe loaded m := by
  refine Prog.spec_seq (Prog.spec_only (issued_inert inert_getArch) liveRules_issued) fun arch _ _ => ?_
  cases arch with
  | error msg =>
    intro ms h
    exact absurd h (by simp)
  | ok arch =>
    have hcatch : Prog.Only Op.issued (do runPendingStagedServices; runFrameworkActivations) :=
      Prog.only_bind issued_runPendingStagedServices fun _ => issued_runFrameworkActivations
    refine Prog.spec_seq (Prog.spec_only (only_onlyIf hcatch) liveRules_issued) fun _ _ _ => ?_
    refine Prog.spec_seq (Prog.spec_gives (issued_asks (asks_eligibleModules arch))
      (gives_eligibleModules arch) liveRules_issued) fun eligible _ heligible => ?_
    refine Prog.spec_seq (Prog.spec_gather_all fun entry hentry =>
      spec_loadModule arch (heligible.1 entry hentry) _) fun modules _ hmodules => ?_
    intro ms hms
    obtain rfl := Except.ok.inj hms
    exact hmodules.1

/-- The loop over a reply skips what is loaded already. -/
theorem spec_liveLoad {ms : List Module} (hms : ∀ m ∈ ms, Safe loaded m) {now : List String}
    (hnow : loaded ⊆ now) (t : Unit) :
    Prog.Spec (liveRules (.hotplugWorker loaded)) (liveLoad now ms) t fun _ _ => True := by
  induction ms generalizing now t with
  | nil => trivial
  | cons m ms ih =>
    have hrest : ∀ {now : List String}, loaded ⊆ now → ∀ t,
        Prog.Spec (liveRules (.hotplugWorker loaded)) (liveLoad now ms) t fun _ _ => True :=
      fun hnow t => ih (fun m' hm' => hms m' (List.mem_cons_of_mem m hm')) hnow t
    rw [liveLoad]
    split_ifs with hskip
    · exact hrest hnow t
    · refine ⟨fun name fd h => absurd h (by simp), fun ok _ _ => ?_⟩
      cases ok with
      | false => exact hrest hnow _
      | true =>
        refine ⟨?_, fun _ _ _ => hrest (List.subset_append_of_subset_left _ hnow) _⟩
        intro name fd heq
        obtain ⟨rfl, rfl⟩ := Op.onLoad.inj heq
        by_contra hframework
        have hmem := hms m List.mem_cons_self (by simpa using hframework)
        exact hskip (List.contains_iff_mem.2 (hnow hmem))

/-- Every job follows its rules. -/
theorem spec_body (j : Job) : Prog.Spec (liveRules j) (body j) () fun _ _ => True := by
  by_cases hj : j.ofDaemon
  · exact Prog.spec_mono (Prog.spec_only (only_body hj) liveRules_issued) fun _ _ _ => trivial
  · obtain ⟨loaded, rfl⟩ : ∃ loaded, j = .hotplugWorker loaded := by
      cases j with
      | hotplugWorker loaded => exact ⟨loaded, rfl⟩
      | _ => exact absurd trivial hj
    refine Prog.spec_seq (spec_loadModules ()) fun reply _ hreply => ?_
    have hsafe : ∀ m ∈ reply.toOption.getD [], Safe loaded m := by
      cases reply with
      | error msg => simp [Except.toOption]
      | ok ms => exact hreply ms rfl
    refine Prog.spec_seq (spec_liveLoad hsafe (List.Subset.refl _) _) fun _ _ _ => ?_
    exact ⟨fun name fd h => absurd h (by simp), fun _ _ _ => trivial⟩

/-! ### Runs -/

theorem offered_of_exec {e : Env} {op : Op} {w w' : World} {r : Resp op}
    (hx : exec e op w = some (r, w')) {j : Job} {ts : List (Pool.Thread Resp Job)}
    (hheld : FrameworkHeldBack j ts w op r w') (hj : j = .hotplugWorker loaded) :
    Offered loaded op r := by
  cases op with
  | libraryFd so =>
    intro fd hr
    simp only [exec, Option.some.injEq, Prod.mk.injEq] at hx
    obtain ⟨hfd, -⟩ := hx
    rw [hr] at hfd
    split_ifs at hfd with hfile
    obtain rfl := Option.some.inj hfd
    rw [Bool.and_eq_true] at hfile
    exact ⟨rfl, hheld loaded so hj rfl hfile.2⟩
  | _ => trivial

theorem keeps_live : Pool.Keeps liveSystem FrameworkHeldBack liveRules (fun _ => True)
    fun _ w => NoFrameworkLiveLoaded w where
  starts j _ := ⟨(), spec_body j, fun _ _ h => h⟩
  ops := by
    rintro j others os ⟨⟩ w op r w' hothers hnone hallow ⟨e, -, hx⟩ hheld
    refine ⟨(), os, (forks op).toList.map fun _ => (), fun loaded hj => offered_of_exec hx hheld hj,
      hothers, ?_, ?_⟩
    · rw [Pool.System.forked]
      show Pool.Typed _ _ (((forks op).toList).map _) _
      cases forks op with
      | none => exact .nil
      | some j' => exact .cons (spec_body j') .nil
    · intro name fd hmem
      rcases log_of_exec hx with hlog | hlog
      · exact hnone name fd (hlog ▸ hmem)
      · rw [hlog] at hmem
        rcases List.mem_cons.1 hmem with heq | hmem
        · exact hallow name fd heq.symm
        · exact hnone name fd hmem
  drifts M w w' h hlog := by
    intro name fd hmem
    exact h name fd (hlog ▸ hmem)
  kills o M w w' h hlog := by
    intro name fd hmem
    exact h name fd (hlog ▸ hmem)

/-- An active module with the library and one script. -/
def installed (name script : String) : FileTree :=
  .ofFiles [(librarySo (activeDir name) "arm64-v8a", "elf"), (activeDir name ++ ["service.sh"], script)]

/-- The script of a framework module. -/
def bridgeScript : String := "app_process lspd"

/-- One turn of a live loader whose process has loaded nothing yet. -/
def wakeup (k : Nat) : List DaemonMove :=
  .start (.hotplugWorker []) :: List.replicate k (.op 0 .fine)

theorem legal_wakeup (k : Nat) :
    ∀ m ∈ wakeup k, Pool.Legal liveSystem (fun _ => True) m := by
  intro m hm
  rcases List.mem_cons.1 hm with rfl | hm
  · exact .inr ⟨[], rfl⟩
  · exact Pool.legal_replicate trivial 0 k m hm

theorem liveSystem_step (e : Env) (op : Op) (w : World) (r : Resp op) (w' : World) (_ : True)
    (h : exec e op w = some (r, w')) : liveSystem.step w op r w' := ⟨e, trivial, h⟩

/-- Nothing that is copied for a live loader belongs to a framework module. -/
def checkHeldBack : Pool.Check Resp Job World := fun j _ w op _ _ =>
  match j, op with
  | .hotplugWorker _, .libraryFd so => !frameworkAt w.fs (moduleDirOf so)
  | _, _ => true

theorem checkHeldBack_guard (j : Job) (ts : List (Pool.Thread Resp Job)) (w : World) (op : Op)
    (r : Resp op) (w' : World) (h : Pool.Check.guard checkHeldBack j ts w op r w') :
    FrameworkHeldBack j ts w op r w' := by
  rintro loaded so rfl rfl _ hframework
  have hnot : frameworkAt w.fs (moduleDirOf so) = false := by
    simpa [Pool.Check.guard, checkHeldBack] using h
  rw [hnot] at hframework
  exact absurd hframework (by simp)

end OnyxZygisk.Loader

import OnyxZygisk.Daemon.Scope

/-!
# Deferred services

`run_pending_staged_services` claims the modules whose late stage is still to come, each by creating its marker and
starting one thread. It looks for the libraries of ARM only where `staged_update_ready` takes those of four
architectures, so on x86 the late stage of a staged module never comes (`deferred_claimed_iff`).
-/

namespace OnyxZygisk.Daemon

open Prog (forEach Only)

variable {e : Env} {fs fs' : FileTree} {w : World} {n m : String} {dir : FilePath} {names : List String}

/-! ### What is deferred -/

/-- One of the libraries `staged_update_ready` accepts. -/
def anyLibrary (fs : FileTree) (dir : FilePath) : Bool :=
  carries fs dir "arm64-v8a" || carries fs dir "armeabi-v7a" || carries fs dir "x86_64" || carries fs dir "x86"

def armLibrary (fs : FileTree) (dir : FilePath) : Bool := carries fs dir "arm64-v8a" || carries fs dir "armeabi-v7a"

/-- Past the early stage, not past the late one, in no thread's hands and no framework module. -/
def awaitsService (fs : FileTree) (n : String) : Bool :=
  fs.present (activationMarker n "post_fs_data") && !fs.present (activationMarker n "service") &&
    !fs.present (activationMarker n "applying") && !askOf fs (isFrameworkModule (activeDir n))

def deferred (fs : FileTree) (n : String) : Bool := awaitsService fs n && anyLibrary fs (activeDir n)

/-- The thread of a claimed module. -/
def serviceJob (n : String) : Op := .spawn (.pendingService n (activeDir n))

/-- The deferred modules are claimed, each once, and no others. -/
structure ClaimedOnce (w w' : World) : Prop where
  spawned : ∃ names : List String, names.Nodup ∧ (∀ n, n ∈ names ↔ deferred w.fs n = true) ∧
    w'.log = names.map serviceJob ++ w.log
  marked : ∀ n, w'.fs.present (activationMarker n "applying") =
    (w.fs.present (activationMarker n "applying") || deferred w.fs n)

/-- `system_server_ready()` -/
def Env.SystemReady (e : Env) : Prop := e.systemServerUp = true ∨ Text.trim (e.property "sys.boot_completed") = "1"

/-! ### Questions about one directory -/

theorem askOf_congr {α : Type} {p : Program α}
    (h : Only (fun op => op.asks ∧ answers fs op = answers fs' op) p) : askOf fs p = askOf fs' p := by
  induction p with
  | ret a => rfl
  | call op k ih =>
    obtain ⟨⟨-, hop⟩, hk⟩ := h
    show askOf fs (k (answers fs op)) = askOf fs' (k (answers fs' op))
    rw [hop]
    exact ih _ (hk _)

theorem only_isFrameworkModule {ops : Op → Prop} (hread : ∀ p, ops (.read (dir ++ p)))
    (hlist : ops (.readDir (dir ++ ["bin"]))) : Only ops (isFrameworkModule dir) := by
  refine Prog.only_bind ?_ fun _ => trivial
  refine Prog.only_bind (only_perform hlist) fun bin => Prog.only_bind (Prog.only_firstSome ?_) fun named => ?_
  · intro wrapper hwrapper
    refine Prog.only_bind ?_ fun _ => trivial
    rcases List.mem_cons.1 hwrapper with rfl | h
    · exact only_perform (hread ["daemon"])
    · obtain ⟨entry, -, rfl⟩ := List.mem_map.1 h
      exact only_perform (hread ["bin", entry])
  · cases named with
    | some name => trivial
    | none =>
      refine Prog.only_bind (only_perform (hread ["service.sh"])) fun text => ?_
      cases text with
      | none => trivial
      | some service => exact Prog.only_ite trivial trivial

/-- A new file elsewhere makes no module a framework module. -/
theorem framework_create {p : FilePath} {node : Node} (h : fs.create p node = some fs')
    (hapart : FileTree.Apart p dir) :
    askOf fs' (isFrameworkModule dir) = askOf fs (isFrameworkModule dir) := by
  have honly := FileTree.onlyAt_create h
  have hget : ∀ q, fs'.get (dir ++ q) = fs.get (dir ++ q) := fun q => honly.get _ (hapart.not_below q)
  apply askOf_congr
  apply only_isFrameworkModule
  · intro q
    refine ⟨trivial, ?_⟩
    show fs'.read (dir ++ q) = fs.read (dir ++ q)
    rw [FileTree.read, FileTree.read, hget]
  · refine ⟨trivial, ?_⟩
    have hchildren : fs'.children (dir ++ ["bin"]) = fs.children (dir ++ ["bin"]) := by
      apply honly.children
      intro c
      rw [List.append_assoc]
      exact hapart.not_below _
    show (if fs'.isDir (dir ++ ["bin"]) then some (fs'.children (dir ++ ["bin"])) else none) =
      if fs.isDir (dir ++ ["bin"]) then some (fs.children (dir ++ ["bin"])) else none
    rw [hchildren, FileTree.isDir, FileTree.isDir, hget]

/-! ### One turn -/

/-- What one turn of the loop claims. -/
def claimable (e : Env) (fs : FileTree) (n : String) : Bool :=
  !fs.present (activationMarker n "service") && !askOf fs (isFrameworkModule (activeDir n)) &&
    armLibrary fs (activeDir n) && e.works (.createNew (activationMarker n "applying")) &&
    !fs.present (activationMarker n "applying")

theorem askOf_hasDeferredSo (fs : FileTree) (dir : FilePath) : askOf fs (hasDeferredSo dir) = armLibrary fs dir := by
  simp only [hasDeferredSo, askOf_bind, askOf_ite, askOf_pathExists, askOf_pure, armLibrary, carries]
  cases fs.present (librarySo dir "arm64-v8a") <;> rfl

theorem marker_apart (n suffix name : String) : FileTree.Apart (activationMarker n suffix) (activeDir name) := by
  constructor <;> simp [activationMarker, activationMarkers, activeDir]

/-- The marker of one module is no other file the loop looks at. -/
theorem claimable_create {node : Node} (h : fs.create (activationMarker n "applying") node = some fs') (hne : m ≠ n) :
    claimable e fs' m = claimable e fs m := by
  have hmarker : ∀ suffix, '.' ∉ suffix.toList →
      fs'.present (activationMarker m suffix) = fs.present (activationMarker m suffix) := by
    intro suffix hdot
    have hother : activationMarker m suffix ≠ activationMarker n "applying" := fun heq =>
      hne ((activationMarker_inj hdot (by decide)).1 heq).1
    rw [FileTree.present, FileTree.present, FileTree.get_create h, if_neg hother]
  have hso : ∀ arch, carries fs' (activeDir m) arch = carries fs (activeDir m) arch := by
    intro arch
    have hget := (FileTree.onlyAt_create h).get _ ((marker_apart n "applying" m).not_below ["zygisk", arch ++ ".so"])
    rw [carries, carries, librarySo, FileTree.present, FileTree.present, hget]
  unfold claimable armLibrary
  rw [hmarker "service" (by decide), hmarker "applying" (by decide), framework_create h (marker_apart n "applying" m),
    hso, hso]

/-- `create_new` works where it can and nobody was first. -/
theorem exec_createNew_cases {applying : FilePath} (hdir : w.fs.isDir applying.dropLast = true) :
    (e.works (.createNew applying) && !w.fs.present applying) = true ∧
        (∃ fs', w.fs.create applying (.file w.fs.fresh "") = some fs' ∧
          exec e (.createNew applying) w = some (true, { w with fs := fs' })) ∨
      (e.works (.createNew applying) && !w.fs.present applying) = false ∧
        exec e (.createNew applying) w = some (false, w) := by
  cases hworks : e.works (.createNew applying) with
  | false =>
    refine .inr ⟨rfl, ?_⟩
    simp only [exec, hworks, if_neg Bool.false_ne_true, World.become]
  | true =>
    cases hthere : w.fs.present applying with
    | true =>
      have hnone : w.fs.create applying (.file w.fs.fresh "") = none := by
        rw [FileTree.create_eq_none]
        rintro ⟨habsent, -⟩
        rw [FileTree.present, habsent] at hthere
        exact Bool.false_ne_true hthere
      refine .inr ⟨rfl, ?_⟩
      simp only [exec, hworks, ↓reduceIte, hnone, World.become]
    | false =>
      have habsent : w.fs.get applying = none :=
        Option.isNone_iff_eq_none.1 (Option.isSome_eq_false_iff.1 hthere)
      obtain ⟨fs', hcreate⟩ := FileTree.create_of (.file w.fs.fresh "") habsent hdir
      refine .inl ⟨rfl, fs', hcreate, ?_⟩
      simp only [exec, hworks, ↓reduceIte, hcreate, World.become]

/-- One turn: a claim is a new marker and one thread, and without a claim nothing happens. -/
theorem run_pendingService (he : e.Answers) (hdir : w.fs.isDir activationMarkers = true) :
    claimable e w.fs n = true ∧
        (∃ fs', w.fs.create (activationMarker n "applying") (.file w.fs.fresh "") = some fs' ∧
          Prog.run exec e (runPendingStagedService n) w =
            some ((), { w with fs := fs', log := serviceJob n :: w.log })) ∨
      claimable e w.fs n = false ∧ Prog.run exec e (runPendingStagedService n) w = some ((), w) := by
  have hexists : Prog.run exec e (pathExists (activationMarker n "service")) w =
      some (w.fs.present (activationMarker n "service"), w) := by
    rw [run_ask (asks_pathExists _) he, askOf_pathExists]
  have hso : Prog.run exec e (hasDeferredSo (activeDir n)) w = some (armLibrary w.fs (activeDir n), w) := by
    rw [run_ask (asks_hasDeferredSo _) he, askOf_hasDeferredSo]
  unfold runPendingStagedService claimable
  rw [Prog.run_bind, hexists, Option.bind_some]
  dsimp only
  cases w.fs.present (activationMarker n "service") with
  | true => exact .inr ⟨rfl, rfl⟩
  | false =>
    rw [if_neg Bool.false_ne_true, Prog.run_bind, run_ask (asks_isFrameworkModule _) he, Option.bind_some]
    dsimp only
    cases askOf w.fs (isFrameworkModule (activeDir n)) with
    | true => exact .inr ⟨rfl, rfl⟩
    | false =>
      rw [if_neg Bool.false_ne_true, Prog.run_bind, hso, Option.bind_some]
      dsimp only
      cases armLibrary w.fs (activeDir n) with
      | false => exact .inr ⟨rfl, rfl⟩
      | true =>
        rw [if_pos rfl, Prog.run_bind, perform, Prog.run_perform]
        have hparent : w.fs.isDir (activationMarker n "applying").dropLast = true := by
          rw [activationMarker, List.dropLast_concat]
          exact hdir
        rcases @exec_createNew_cases e w _ hparent with ⟨hclaim, fs', hcreate, hexec⟩ | ⟨hclaim, hexec⟩
        · rw [hexec]
          exact .inl ⟨hclaim, fs', hcreate, rfl⟩
        · rw [hexec]
          exact .inr ⟨hclaim, rfl⟩

/-! ### The loop -/

theorem isDir_create {p q : FilePath} {node : Node} (h : fs.create p node = some fs') (hdir : fs.isDir q = true) :
    fs'.isDir q = true := by
  have hne : q ≠ p := by
    rintro rfl
    have habsent : fs.get q = none := by
      unfold FileTree.create at h
      split_ifs at h with hc
      exact hc.1
    rw [FileTree.isDir, habsent] at hdir
    exact Bool.false_ne_true hdir
  rw [FileTree.isDir, FileTree.get_create h, if_neg hne]
  exact hdir

/-- The loop claims what is claimable, in the order of the names. -/
theorem run_pendingServices (he : e.Answers) (hnames : names.Nodup) (hdir : w.fs.isDir activationMarkers = true) :
    ∃ fs', Prog.run exec e (forEach names runPendingStagedService) w =
        some ((), { w with fs := fs', log := ((names.filter (claimable e w.fs)).map serviceJob).reverse ++ w.log }) ∧
      ∀ n, fs'.present (activationMarker n "applying") =
        (w.fs.present (activationMarker n "applying") || (decide (n ∈ names) && claimable e w.fs n)) := by
  induction names generalizing w with
  | nil => exact ⟨w.fs, rfl, fun n => (Bool.or_false _).symm⟩
  | cons m names ih =>
    obtain ⟨hm, hnames⟩ := List.nodup_cons.1 hnames
    rw [forEach, Prog.run_bind]
    rcases run_pendingService he hdir (n := m) with ⟨hclaim, fs₁, hcreate, hrun⟩ | ⟨hclaim, hrun⟩
    · rw [hrun, Option.bind_some]
      have hdir₁ := isDir_create hcreate hdir
      obtain ⟨fs', hrest, hmarks⟩ := ih (w := { w with fs := fs₁, log := serviceJob m :: w.log }) hnames hdir₁
      have hfilter : names.filter (claimable e fs₁) = names.filter (claimable e w.fs) := by
        apply List.filter_congr
        intro n hn
        exact claimable_create hcreate fun heq => hm (heq ▸ hn)
      refine ⟨fs', ?_, ?_⟩
      · dsimp only at hrest ⊢
        rw [hrest, hfilter, List.filter_cons_of_pos hclaim, List.map_cons, List.reverse_cons, List.append_assoc]
        rfl
      · intro n
        rw [hmarks n]
        dsimp only
        by_cases hn : n = m
        · rw [hn, FileTree.present, FileTree.get_create hcreate, if_pos rfl, hclaim, Bool.and_true,
            decide_eq_true List.mem_cons_self, Bool.or_true]
          rfl
        · have hother : activationMarker n "applying" ≠ activationMarker m "applying" := fun heq =>
            hn ((activationMarker_inj (by decide) (by decide)).1 heq).1
          rw [FileTree.present, FileTree.get_create hcreate, if_neg hother, claimable_create hcreate hn]
          simp only [List.mem_cons, hn, false_or]
          rfl
    · rw [hrun, Option.bind_some]
      obtain ⟨fs', hrest, hmarks⟩ := ih hnames hdir
      refine ⟨fs', ?_, ?_⟩
      · rw [List.filter_cons_of_neg (by rw [hclaim]; exact Bool.false_ne_true)]
        exact hrest
      · intro n
        rw [hmarks n]
        by_cases hn : n = m
        · rw [hn, hclaim, Bool.and_false, Bool.and_false]
        · simp only [List.mem_cons, hn, false_or]

/-! ### The whole run -/

theorem run_systemServerReady (h : e.SystemReady) (w : World) :
    Prog.run exec e systemServerReady w = some (true, w) := by
  unfold systemServerReady
  rw [Prog.run_bind, perform, Prog.run_perform]
  simp only [exec, Option.bind_some]
  cases hup : e.systemServerUp with
  | true => rfl
  | false =>
    rcases h with h | h
    · exact absurd (hup.symm.trans h) Bool.false_ne_true
    · rw [if_neg Bool.false_ne_true, Prog.run_bind, perform, Prog.run_perform]
      simp only [exec, Option.bind_some]
      rw [if_pos h]
      rfl

/-- The modules with a marker of the early stage. -/
def earlyModules (fs : FileTree) : List String :=
  (fs.children activationMarkers).filterMap (Text.stripSuffix ".post_fs_data")

theorem mem_earlyModules : n ∈ earlyModules fs ↔ fs.present (activationMarker n "post_fs_data") = true := by
  have hname : n ++ ".post_fs_data" = n ++ "." ++ "post_fs_data" := by
    rw [String.append_assoc]
    rfl
  unfold earlyModules
  rw [List.mem_filterMap, activationMarker, ← hname, ← FileTree.mem_children]
  constructor
  · rintro ⟨entry, hentry, hstrip⟩
    rwa [Text.stripSuffix_eq_some.1 hstrip] at hentry
  · intro h
    exact ⟨_, h, Text.stripSuffix_append n _⟩

theorem nodup_earlyModules (fs : FileTree) : (earlyModules fs).Nodup := by
  refine (FileTree.nodup_children fs _).filterMap ?_
  intro a b n ha hb
  rw [Option.mem_def, Text.stripSuffix_eq_some] at ha hb
  rw [ha, hb]

/-- What the run leaves: the claimable ones of these modules are claimed. -/
theorem run_pendingStagedServices (he : e.Answers) (hready : e.SystemReady) (w : World) :
    ∃ fs', Prog.run exec e runPendingStagedServices w = some ((), { w with
        fs := fs', log := (((earlyModules w.fs).filter (claimable e w.fs)).map serviceJob).reverse ++ w.log }) ∧
      ∀ n, fs'.present (activationMarker n "applying") =
        (w.fs.present (activationMarker n "applying") || (decide (n ∈ earlyModules w.fs) && claimable e w.fs n)) := by
  unfold runPendingStagedServices
  rw [Prog.run_bind, run_systemServerReady hready, Option.bind_some, if_pos rfl, Prog.run_bind,
    run_ask (asks_readDir _) he, Option.bind_some, askOf_readDir]
  cases hdir : w.fs.isDir activationMarkers with
  | true => exact run_pendingServices he (nodup_earlyModules w.fs) hdir
  | false =>
    have hnone : earlyModules w.fs = [] := by
      rw [List.eq_nil_iff_forall_not_mem]
      intro n hn
      have hparent := FileTree.isDir_of_present_child (mem_earlyModules.1 hn)
      exact Bool.false_ne_true (hdir.symm.trans hparent)
    rw [hnone]
    exact ⟨w.fs, rfl, fun n => (Bool.or_false _).symm⟩

theorem claimed_iff : n ∈ (earlyModules fs).filter (claimable e fs) ↔ awaitsService fs n = true ∧
    armLibrary fs (activeDir n) = true ∧ e.works (.createNew (activationMarker n "applying")) = true := by
  rw [List.mem_filter, mem_earlyModules]
  unfold claimable awaitsService
  simp only [Bool.and_eq_true]
  tauto

theorem anyLibrary_of_arm (h : armLibrary fs dir = true) : anyLibrary fs dir = true := by
  unfold armLibrary at h
  unfold anyLibrary
  rw [h]
  rfl

theorem serviceJob_injective : Function.Injective serviceJob := by
  intro m n h
  injection h with h
  injection h

/-- The deferred modules are claimed, each once, where every one of them has a library of ARM and its marker can be
created. -/
theorem deferred_claimed_iff (e : Env) (w : World) (he : e.Answers) (hready : e.SystemReady) :
    ∃ w', Prog.run exec e runPendingStagedServices w = some ((), w') ∧
      (ClaimedOnce w w' ↔ ∀ n, deferred w.fs n = true →
        armLibrary w.fs (activeDir n) = true ∧ e.works (.createNew (activationMarker n "applying")) = true) := by
  obtain ⟨fs', hrun, hmarks⟩ := run_pendingStagedServices he hready w
  refine ⟨_, hrun, ?_⟩
  constructor
  · rintro ⟨⟨names, -, hnames, hlog⟩, -⟩ n hn
    have hjobs := List.append_cancel_right hlog
    rw [← List.map_reverse] at hjobs
    have hlist := serviceJob_injective.list_map hjobs
    have hmem := (hnames n).2 hn
    rw [← hlist, List.mem_reverse] at hmem
    exact (claimed_iff.1 hmem).2
  · intro h
    have hsame : ∀ n, n ∈ (earlyModules w.fs).filter (claimable e w.fs) ↔ deferred w.fs n = true := by
      intro n
      rw [claimed_iff, deferred, Bool.and_eq_true]
      constructor
      · rintro ⟨hwaits, harm, -⟩
        exact ⟨hwaits, anyLibrary_of_arm harm⟩
      · intro hn
        exact ⟨hn.1, h n (Bool.and_eq_true_iff.2 hn)⟩
    constructor
    · refine ⟨((earlyModules w.fs).filter (claimable e w.fs)).reverse, ?_, ?_, ?_⟩
      · exact List.nodup_reverse.2 ((nodup_earlyModules w.fs).filter _)
      · intro n
        rw [List.mem_reverse]
        exact hsame n
      · rw [List.map_reverse]
    · intro n
      have hmem : (decide (n ∈ earlyModules w.fs) && claimable e w.fs n) = deferred w.fs n := by
        rw [Bool.eq_iff_iff, Bool.and_eq_true, decide_eq_true_eq, ← List.mem_filter]
        exact hsame n
      rw [← hmem]
      exact hmarks n

/-! ### A module of an x86 device -/

def Env.x86 : Env := { Env.fine with property := fun key => if key = "ro.product.cpu.abi" then "x86_64" else "1" }

def x86Disk : FileTree :=
  .ofFiles [(activeDir "m" ++ ["module.prop"], "id=m"), (librarySo (activeDir "m") "x86_64", "so"),
    (activationMarker "m" "post_fs_data", "1")]

theorem deferred_claimed_x86 : ∃ w', Prog.run exec .x86 runPendingStagedServices (.idle x86Disk) = some ((), w') ∧
    (ClaimedOnce (.idle x86Disk) w' ↔ ∀ n, deferred x86Disk n = true → armLibrary x86Disk (activeDir n) = true ∧
      Env.x86.works (.createNew (activationMarker n "applying")) = true) :=
  deferred_claimed_iff .x86 (.idle x86Disk) (fun _ _ => rfl) (.inl rfl)

/-- Its late stage is still to come, and no thread is started for it. -/
theorem x86_service_unclaimed : deferred x86Disk "m" = true ∧
    ∃ w', Prog.run exec .x86 runPendingStagedServices (.idle x86Disk) = some ((), w') ∧ w'.log = [] ∧
      ¬ ClaimedOnce (.idle x86Disk) w' := by
  have hdeferred : deferred x86Disk "m" = true := by decide
  have hnone : (earlyModules x86Disk).filter (claimable .x86 x86Disk) = [] := by decide
  have hanswers : Env.x86.Answers := fun _ _ => rfl
  have hleft : ∃ w', Prog.run exec .x86 runPendingStagedServices (.idle x86Disk) = some ((), w') ∧ w'.log = [] := by
    obtain ⟨fs', hrun, -⟩ := run_pendingStagedServices hanswers (.inl rfl) (.idle x86Disk)
    exact ⟨_, hrun, congrArg (fun names => (names.map serviceJob).reverse ++ []) hnone⟩
  obtain ⟨w', hrun, hlog⟩ := hleft
  refine ⟨hdeferred, w', hrun, hlog, ?_⟩
  rintro ⟨⟨names, -, hnames, hjobs⟩, -⟩
  rw [hlog] at hjobs
  have hempty : names = [] := List.map_eq_nil_iff.1 (List.append_eq_nil_iff.1 hjobs.symm).1
  have hmem := (hnames "m").2 hdeferred
  rw [hempty] at hmem
  nomatch hmem

end OnyxZygisk.Daemon

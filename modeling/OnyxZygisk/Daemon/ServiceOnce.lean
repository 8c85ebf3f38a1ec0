import OnyxZygisk.Daemon.ServiceStages

/-!
# service.sh, once for each swap

A scan that finds a module without its `service` marker claims it by creating the `applying` marker, and
the worker that finishes deletes that marker after writing the other. A scan that looked before the
worker wrote, and claims after the worker deleted, runs the script a second time. Where no claim is made
on a module that is served by then, or being swapped, and no module is swapped while it is claimed, the
script is started at most once between two swaps (`startedOnce`).
-/

namespace OnyxZygisk.Daemon

open Pool (AtMostOne)

/-- The rename that puts a staged copy in place. -/
def swapOp (n : String) : Op := .rename (stagedDir n) (activeDir n)

def serviceOp (n : String) : Op := .runModuleScript (activeDir n) (serviceScript n)

/-- The starts of `service.sh` since the last swap of the module. -/
def servicesSince (n : String) (log : List Op) : Nat :=
  (log.takeWhile (· ≠ swapOp n)).count (serviceOp n)

/-- Between two swaps of a module its `service.sh` is started at most once. -/
def StartedOnce (w : World) : Prop := ∀ n, swapOp n ∈ w.log → servicesSince n w.log ≤ 1

/-- The scans of both daemons, the activations, and the workers they start. The surroundings leave the
markers and the lock alone. -/
def serviceSystem : Pool.System Resp Job World where
  body := body
  called j := j = .runPendingStagedServices ∨ ∃ name dir, j = .activateStagedModule name dir
  step := StepIn fun _ _ _ => True
  forks := forks
  drift w w' := w'.log = w.log ∧ w'.lock = w.lock ∧
    ∀ q, activationMarkers <+: q → w'.fs.get q = w.fs.get q
  kill _ _ := False

/-- The file was opened, if that was what the operation was for. -/
def Op.opens : (op : Op) → Resp op → Bool
  | .openTrunc _, r => r.isSome
  | _, _ => true

/-- A claim that succeeds is made on a module that has no `service` marker and is not being swapped; a
swap that succeeds meets no claim; the two markers can be written. -/
def ClaimsExclude : Pool.Guard Resp Job World := fun _ _ w op r w' => ∀ n,
  (op = .createNew (applyingMarker n) → w.fs.present (applyingMarker n) = false →
    w.fs.present (serviceMarker n) = false ∧ w.lock ≠ some (.swap n)) ∧
  (op = swapOp n → w'.log ≠ w.log → w.fs.present (applyingMarker n) = false) ∧
  (op = .openTrunc (applyingMarker n) ∨ op = .openTrunc (serviceMarker n) → op.opens r = true)

variable {n : String} {M : Multiset Stage} {o o' : Stage} {w w' : World} {e : Env}

/-! ### The count -/

theorem servicesSince_swap (n : String) (log : List Op) : servicesSince n (swapOp n :: log) = 0 := by
  simp [servicesSince]

theorem servicesSince_start (n : String) (log : List Op) :
    servicesSince n (serviceOp n :: log) = servicesSince n log + 1 := by
  have hne : serviceOp n ≠ swapOp n := by simp [serviceOp, swapOp]
  rw [servicesSince, List.takeWhile_cons_of_pos (by simpa using hne), List.count_cons_self,
    servicesSince]

theorem servicesSince_other {op : Op} (hswap : op ≠ swapOp n) (hservice : op ≠ serviceOp n)
    (log : List Op) : servicesSince n (op :: log) = servicesSince n log := by
  rw [servicesSince, List.takeWhile_cons_of_pos (by simpa using hswap),
    List.count_cons_of_ne hservice, servicesSince]

/-- Who holds the lock, and whether for a swap of the module. -/
abbrev SwapHeld (n : String) : Multiset Stage → World → Prop :=
  Held Stage.holds Stage.swaps (.swap n)

/-- The lock is taken for a swap of the module, or for something else. -/
theorem lockStage_holds (n : String) (use : LockUse) :
    (lockStage n use).swaps = true ↔ use = .swap n := by
  rw [lockStage]
  split_ifs with huse <;> simp [huse, Stage.swaps]

/-! ### The claim -/

/-- At most one thread has claimed the module, which its `applying` marker shows; `service.sh` was
started at most once, and after that the module is served or about to be. -/
structure Claimed (n : String) (M : Multiset Stage) (w : World) : Prop where
  one : AtMostOne Stage.claims M
  shown : ∀ o ∈ M, o.claims = true → w.fs.present (applyingMarker n) = true
  alone : .swapping ∈ M → ∀ o ∈ M, o.claims = false
  fresh : ∀ o ∈ M, o.unstarted = true → servicesSince n w.log = 0
  starts : servicesSince n w.log ≤ 1
  served : servicesSince n w.log = 0 ∨ w.fs.present (serviceMarker n) = true ∨ .started ∈ M

theorem Claimed.frame (h : Claimed n M w)
    (ha : w.fs.present (applyingMarker n) = true → w'.fs.present (applyingMarker n) = true)
    (hs : w.fs.present (serviceMarker n) = true → w'.fs.present (serviceMarker n) = true)
    (hlog : servicesSince n w'.log = servicesSince n w.log) : Claimed n M w' where
  one := h.one
  shown o ho hc := ha (h.shown o ho hc)
  alone := h.alone
  fresh o ho hu := hlog.trans (h.fresh o ho hu)
  starts := hlog ▸ h.starts
  served := hlog ▸ h.served.imp id (Or.imp hs id)

/-- A stage that claims no more than the one before. -/
theorem Claimed.restage (h : Claimed n (o ::ₘ M) w) (hc : o'.claims = true → o.claims = true)
    (hu : o'.unstarted = true → o.unstarted = true) (hswap : o' ≠ .swapping)
    (hstart : o ≠ .started) : Claimed n (o' ::ₘ M) w where
  one := h.one.replace hc
  shown x hx hx' := by
    rcases Multiset.mem_cons.1 hx with rfl | hx
    · exact h.shown o (Multiset.mem_cons_self o M) (hc hx')
    · exact h.shown x (Multiset.mem_cons_of_mem hx) hx'
  alone hmem x hx := by
    have hmem' : .swapping ∈ o ::ₘ M := by
      rcases Multiset.mem_cons.1 hmem with heq | hmem
      · exact absurd heq.symm hswap
      · exact Multiset.mem_cons_of_mem hmem
    rcases Multiset.mem_cons.1 hx with rfl | hx
    · cases hx' : x.claims with
      | false => rfl
      | true =>
        have hnot := h.alone hmem' o (Multiset.mem_cons_self o M)
        rw [hc hx'] at hnot
        exact hnot
    · exact h.alone hmem' x (Multiset.mem_cons_of_mem hx)
  fresh x hx hx' := by
    rcases Multiset.mem_cons.1 hx with rfl | hx
    · exact h.fresh o (Multiset.mem_cons_self o M) (hu hx')
    · exact h.fresh x (Multiset.mem_cons_of_mem hx) hx'
  starts := h.starts
  served := h.served.imp id (Or.imp id fun hmem => by
    rcases Multiset.mem_cons.1 hmem with heq | hmem
    · exact absurd heq.symm hstart
    · exact Multiset.mem_cons_of_mem hmem)

/-- Nobody has claimed the module while its `applying` marker is missing. -/
theorem Claimed.none_of_absent (h : Claimed n M w) (ha : w.fs.present (applyingMarker n) = false) :
    ∀ x ∈ M, x.claims = false := by
  intro x hx
  cases hc : x.claims with
  | false => rfl
  | true =>
    rw [h.shown x hx hc] at ha
    exact absurd ha (by simp)

/-- The stages that remain where nobody has claimed the module. -/
theorem swapping_of_unstarted {x : Stage} (hc : x.claims = false) (hu : x.unstarted = true) :
    x = .swapping := by
  cases x <;> simp_all [Stage.claims, Stage.unstarted]

/-- The staged copy is moved in. -/
theorem Claimed.swap (h : Claimed n (o ::ₘ M) w) (ha : w.fs.present (applyingMarker n) = false)
    (hcount : servicesSince n w'.log = 0) : Claimed n (.swapping ::ₘ M) w' := by
  have hnone := h.none_of_absent ha
  have hnone' : ∀ x ∈ (.swapping ::ₘ M : Multiset Stage), x.claims = false := by
    intro x hx
    rcases Multiset.mem_cons.1 hx with rfl | hx
    · rfl
    · exact hnone x (Multiset.mem_cons_of_mem hx)
  refine ⟨AtMostOne.cons (fun x hx => hnone x (Multiset.mem_cons_of_mem hx)) _, ?_,
    fun _ => hnone', fun _ _ _ => hcount, by omega, .inl hcount⟩
  intro x hx hc
  rw [hnone' x hx] at hc
  exact absurd hc (by simp)

/-- Nothing shows a claim while the markers are reset. -/
theorem Claimed.reset (h : Claimed n (.swapping ::ₘ M) w) (hlog : w'.log = w.log) :
    Claimed n (.swapping ::ₘ M) w' := by
  have hmem := Multiset.mem_cons_self Stage.swapping M
  have hcount := h.fresh _ hmem rfl
  refine ⟨h.one, ?_, h.alone, hlog ▸ h.fresh, hlog ▸ h.starts, .inl (hlog ▸ hcount)⟩
  intro x hx hc
  rw [h.alone hmem x hx] at hc
  exact absurd hc (by simp)

/-- The swap claims the module. -/
theorem Claimed.arm (h : Claimed n (.swapping ::ₘ M) w) (hheld : SwapHeld n (.swapping ::ₘ M) w)
    (ha : w'.fs.present (applyingMarker n) = true) (hlog : w'.log = w.log) :
    Claimed n (.armed ::ₘ M) w' := by
  have hmem := Multiset.mem_cons_self Stage.swapping M
  have hcount : servicesSince n w'.log = 0 := hlog ▸ h.fresh _ hmem rfl
  refine ⟨AtMostOne.cons (fun x hx => h.alone hmem x (Multiset.mem_cons_of_mem hx)) _,
    fun _ _ _ => ha, ?_, fun _ _ _ => hcount, by omega, .inl hcount⟩
  -- two threads cannot both hold the lock
  intro hswap
  rcases Multiset.mem_cons.1 hswap with heq | hswap
  · exact absurd heq (by simp)
  · have := hheld.one.others rfl _ hswap
    exact absurd this (by simp [Stage.holds])

/-- The claim is given up: nothing was started, or the module is served. -/
theorem Claimed.release (h : Claimed n (o ::ₘ M) w) (ho : o = .owed ∨ o = .served)
    (hs : w.fs.present (serviceMarker n) = true → w'.fs.present (serviceMarker n) = true)
    (hlog : w'.log = w.log) : Claimed n (.idle ::ₘ M) w' := by
  have hidle : Claimed n (.idle ::ₘ M) w := by
    apply h.restage
    · simp [Stage.claims]
    · simp [Stage.unstarted]
    · simp
    · rcases ho with rfl | rfl <;> simp
  have hothers : ∀ x ∈ M, x.claims = false := by
    apply h.one.others
    rcases ho with rfl | rfl <;> rfl
  refine ⟨hidle.one, ?_, hidle.alone, hlog ▸ hidle.fresh, hlog ▸ hidle.starts,
    hlog ▸ hidle.served.imp id (Or.imp hs id)⟩
  intro x hx hc
  rcases Multiset.mem_cons.1 hx with rfl | hx
  · exact absurd hc (by simp [Stage.claims])
  · rw [hothers x hx] at hc
    exact absurd hc (by simp)

/-- The module is served. -/
theorem Claimed.serve (h : Claimed n (o ::ₘ M) w) (ho : o = .owed ∨ o = .started)
    (ha : w.fs.present (applyingMarker n) = true → w'.fs.present (applyingMarker n) = true)
    (hs : w'.fs.present (serviceMarker n) = true) (hlog : w'.log = w.log) :
    Claimed n (.served ::ₘ M) w' := by
  have hclaims : o.claims = true := by rcases ho with rfl | rfl <;> rfl
  have hself := Multiset.mem_cons_self o M
  have hothers := h.one.others hclaims
  have hnoswap : .swapping ∉ M := by
    intro hmem
    have := h.alone (Multiset.mem_cons_of_mem hmem) o hself
    rw [hclaims] at this
    exact absurd this (by simp)
  refine ⟨AtMostOne.cons hothers _, fun _ _ _ => ha (h.shown o hself hclaims), ?_, ?_,
    hlog ▸ h.starts, .inr (.inl hs)⟩
  · intro hmem
    rcases Multiset.mem_cons.1 hmem with heq | hmem
    · exact absurd heq (by simp)
    · exact absurd hmem hnoswap
  · intro x hx hu
    rcases Multiset.mem_cons.1 hx with rfl | hx
    · exact absurd hu (by simp [Stage.unstarted])
    · exact hlog ▸ h.fresh x (Multiset.mem_cons_of_mem hx) hu

/-- A scan claims a module that nobody has claimed, that is not served and not being swapped. -/
theorem Claimed.claim (h : Claimed n (.idle ::ₘ M) w) (hheld : SwapHeld n (.idle ::ₘ M) w)
    (ha : w.fs.present (applyingMarker n) = false)
    (hs : w.fs.present (serviceMarker n) = false) (hlock : w.lock ≠ some (.swap n))
    (ha' : w'.fs.present (applyingMarker n) = true) (hlog : w'.log = w.log) :
    Claimed n (.owed ::ₘ M) w' := by
  have hnone := h.none_of_absent ha
  have hcount : servicesSince n w'.log = 0 := by
    rw [hlog]
    rcases h.served with h0 | hserved | hmem
    · exact h0
    · rw [hs] at hserved
      exact absurd hserved (by simp)
    · exact absurd (hnone _ hmem) (by simp [Stage.claims])
  refine ⟨AtMostOne.cons (fun x hx => hnone x (Multiset.mem_cons_of_mem hx)) _,
    fun _ _ _ => ha', ?_, fun _ _ _ => hcount, by omega, .inl hcount⟩
  intro hmem
  rcases Multiset.mem_cons.1 hmem with heq | hmem
  · exact absurd heq (by simp)
  · obtain ⟨use, huse, hiff⟩ := hheld.use _ (Multiset.mem_cons_of_mem hmem) rfl
    exact absurd (huse.trans (congrArg some (hiff.1 rfl))) hlock

/-- The script of a claimed module is started, for the first time. -/
theorem Claimed.start (h : Claimed n (.owed ::ₘ M) w)
    (hfs : w'.fs = w.fs) (hlog : servicesSince n w'.log ≤ servicesSince n w.log + 1) :
    Claimed n (.started ::ₘ M) w' := by
  have hself := Multiset.mem_cons_self Stage.owed M
  have hothers := h.one.others rfl
  have hzero := h.fresh _ hself rfl
  have hnoswap : .swapping ∉ M := by
    intro hmem
    exact absurd (h.alone (Multiset.mem_cons_of_mem hmem) _ hself) (by simp [Stage.claims])
  refine ⟨AtMostOne.cons hothers _, fun _ _ _ => ?_, ?_, ?_, by omega,
    .inr (.inr (Multiset.mem_cons_self _ _))⟩
  · rw [hfs]
    exact h.shown _ hself rfl
  · intro hmem
    rcases Multiset.mem_cons.1 hmem with heq | hmem
    · exact absurd heq (by simp)
    · exact absurd hmem hnoswap
  · intro x hx hu
    rcases Multiset.mem_cons.1 hx with rfl | hx
    · exact absurd hu (by simp [Stage.unstarted])
    · exact absurd (swapping_of_unstarted (hothers x hx) hu ▸ hx) hnoswap

/-! ### One operation -/

structure Account (n : String) (M : Multiset Stage) (w : World) : Prop where
  held : SwapHeld n M w
  claimed : Claimed n M w

theorem Account.frame (h : Account n M w) (hlock : w'.lock = w.lock)
    (ha : w.fs.present (applyingMarker n) = true → w'.fs.present (applyingMarker n) = true)
    (hs : w.fs.present (serviceMarker n) = true → w'.fs.present (serviceMarker n) = true)
    (hlog : servicesSince n w'.log = servicesSince n w.log) : Account n M w' :=
  ⟨h.held.frame hlock, h.claimed.frame ha hs hlog⟩

theorem marker_applying_ne_service : applyingMarker n ≠ serviceMarker n :=
  marker_ne (by decide) (by decide) (.inr (by decide))

/-- An operation keeps the account, and leads to the stage the rules give. -/
theorem Account.step {op : Op} {r : Resp op} (h : Account n (o ::ₘ M) w) (hop : op.issued)
    (hallow : o.allows n op) (hx : exec e op w = some (r, w')) (hspawn : ∀ job, op ≠ .spawn job)
    (hok : ∀ j ts, ClaimsExclude j ts w op r w') :
    ∃ o', o.moves n op r o' ∧ Account n (o' ::ₘ M) w' := by
  obtain ⟨hclaim, hswap, hopen⟩ := hok .startup [] n
  have hA : w.fs.present (applyingMarker n) = true →
      w'.fs.present (applyingMarker n) = true ∨ op = .removeFile (applyingMarker n) :=
    present_leaf hop hx (isLeaf_activationMarker n "applying")
  have hS : w.fs.present (serviceMarker n) = true →
      w'.fs.present (serviceMarker n) = true ∨ op = .removeFile (serviceMarker n) :=
    present_leaf hop hx (isLeaf_activationMarker n "service")
  have hcount : op ≠ swapOp n → op ≠ serviceOp n →
      servicesSince n w'.log = servicesSince n w.log := by
    intro hne hne'
    rcases log_of_exec hx with hlog | hlog <;> rw [hlog]
    exact servicesSince_other hne hne' _
  -- an operation that is neither a removal, nor a lock, nor counted
  have hframe : (∀ p, op ≠ .removeFile p) → (∀ use, op ≠ .flock use) → op ≠ .unlock →
      op ≠ swapOp n → op ≠ serviceOp n → Account n (o ::ₘ M) w' := fun hrm hfl hun hsw hse =>
    h.frame (lock_of_exec hx hfl hun) (fun h => (hA h).resolve_right (hrm _))
      (fun h => (hS h).resolve_right (hrm _)) (hcount hsw hse)
  cases op with
  | flock use =>
    obtain rfl : o = .idle := hallow
    rcases exec_flock hx with ⟨rfl, hlock, rfl⟩ | ⟨rfl, rfl, -⟩
    · refine ⟨lockStage n use, rfl, h.held.take hlock (lockStage_holds n use), ?_⟩
      have hclaimed : Claimed n (lockStage n use ::ₘ M) w := by
        rw [lockStage]
        split_ifs <;> exact h.claimed.restage (by simp [Stage.claims]) (by simp [Stage.unstarted])
          (by simp) (by simp)
      exact hclaimed.frame id id rfl
    · exact ⟨.idle, rfl, h⟩
  | unlock =>
    obtain rfl := exec_unlock hx
    rcases hallow with rfl | rfl | rfl
    · exact ⟨.idle, rfl, h.held.drop rfl rfl,
        (h.claimed.restage (by simp [Stage.claims]) (by simp [Stage.unstarted]) (by simp)
          (by simp)).frame id id rfl⟩
    · exact ⟨.idle, rfl, h.held.drop rfl rfl,
        (h.claimed.restage (by simp [Stage.claims]) (by simp [Stage.unstarted]) (by simp)
          (by simp)).frame id id rfl⟩
    · exact ⟨.owed, rfl, h.held.drop rfl rfl,
        (h.claimed.restage (fun _ => rfl) (fun _ => rfl) (by simp) (by simp)).frame id id rfl⟩
  | rename src dst =>
    by_cases hown : src = stagedDir n ∧ dst = activeDir n
    · obtain ⟨rfl, rfl⟩ := hown
      obtain rfl : o = .locked := hallow rfl rfl
      rcases exec_rename hx with ⟨rfl, fs, hfs, rfl⟩ | ⟨rfl, rfl, -⟩
      · have habsent := hswap rfl (by simp)
        have hheld : SwapHeld n (.swapping ::ₘ M) w := h.held.restage (fun _ => rfl) (fun _ => rfl)
        exact ⟨.swapping, by simp [Stage.moves], hheld.frame rfl,
          h.claimed.swap habsent (servicesSince_swap n w.log)⟩
      · exact ⟨.locked, by simp [Stage.moves], h⟩
    · refine ⟨o, by simp [Stage.moves, ← and_assoc, hown], hframe (by simp) (by simp) (by simp) ?_ ?_⟩
      · simpa [swapOp] using hown
      · simp [serviceOp]
  | removeFile p =>
    have hlock := lock_of_exec hx (by simp) (by simp)
    have hlog : w'.log = w.log := by
      rcases exec_removeFile hx with ⟨-, fs, -, rfl⟩ | ⟨-, rfl, -⟩ <;> rfl
    by_cases ha : p = applyingMarker n
    · subst ha
      have hs : w.fs.present (serviceMarker n) = true → w'.fs.present (serviceMarker n) = true :=
        fun h => (hS h).resolve_right (by simpa using marker_applying_ne_service)
      rcases hallow.2 rfl with rfl | ho
      · exact ⟨.swapping, by simp [Stage.moves], h.held.frame hlock, h.claimed.reset hlog⟩
      · refine ⟨.idle, ?_, (h.held.restage (by simp [Stage.holds]) (by simp [Stage.holds])).frame hlock,
          h.claimed.release ho hs hlog⟩
        rcases ho with rfl | rfl <;> simp [Stage.moves]
    · by_cases hs : p = serviceMarker n
      · subst hs
        obtain rfl := hallow.1 rfl
        exact ⟨.swapping, by simp [Stage.moves], h.held.frame hlock, h.claimed.reset hlog⟩
      · refine ⟨o, by simp [Stage.moves, ha], h.frame hlock ?_ ?_ (by rw [hlog])⟩
        · exact fun h => (hA h).resolve_right (by simpa using ha)
        · exact fun h => (hS h).resolve_right (by simpa using hs)
  | openTrunc p =>
    have hlock := lock_of_exec hx (by simp) (by simp)
    by_cases ha : p = applyingMarker n
    · subst ha
      obtain rfl := hallow.1 rfl
      have hr : r.isSome = true := hopen (.inl rfl)
      rcases exec_openTrunc hx with ⟨ino, fs, rfl, hfs, rfl⟩ | ⟨rfl, -, -⟩
      · have hpresent : fs.present (applyingMarker n) = true := by
          rw [FileTree.present, FileTree.get_openTrunc_self hfs]
          rfl
        have hheld : SwapHeld n (.armed ::ₘ M) w := h.held.restage (fun _ => rfl) (fun _ => rfl)
        exact ⟨.armed, by simp [Stage.moves], hheld.frame hlock,
          h.claimed.arm h.held hpresent rfl⟩
      · exact absurd hr (by simp)
    · by_cases hs : p = serviceMarker n
      · subst hs
        have ho := hallow.2 rfl
        have hr : r.isSome = true := hopen (.inr rfl)
        rcases exec_openTrunc hx with ⟨ino, fs, rfl, hfs, rfl⟩ | ⟨rfl, -, -⟩
        · have hpresent : fs.present (serviceMarker n) = true := by
            rw [FileTree.present, FileTree.get_openTrunc_self hfs]
            rfl
          exact ⟨.served, by simp [Stage.moves, ha],
            (h.held.restage (by simp [Stage.holds]) (by simp [Stage.holds])).frame hlock,
            h.claimed.serve ho (fun h => (hA h).resolve_right (by simp)) hpresent rfl⟩
        · exact absurd hr (by simp)
      · exact ⟨o, by simp [Stage.moves, ha, hs],
          hframe (by simp) (by simp) (by simp) (by simp [swapOp]) (by simp [serviceOp])⟩
  | createNew p =>
    by_cases ha : p = applyingMarker n
    · subst ha
      obtain rfl := hallow rfl
      rcases exec_createNew hx with ⟨rfl, fs, hfs, rfl⟩ | ⟨rfl, rfl⟩
      · have habsent : w.fs.present (applyingMarker n) = false := by
          cases hget : w.fs.get (applyingMarker n) with
          | none => simp [FileTree.present, hget]
          | some node => simp [FileTree.create, hget] at hfs
        have hpresent : fs.present (applyingMarker n) = true := by
          rw [FileTree.present, FileTree.get_create hfs, if_pos rfl]
          rfl
        obtain ⟨hs, hlock⟩ := hclaim rfl habsent
        exact ⟨.owed, by simp [Stage.moves],
          (h.held.restage (by simp [Stage.holds]) (by simp [Stage.holds])).frame rfl,
          h.claimed.claim h.held habsent hs hlock hpresent rfl⟩
      · exact ⟨.idle, by simp [Stage.moves], h⟩
    · exact ⟨o, by simp [Stage.moves, ha],
        hframe (by simp) (by simp) (by simp) (by simp [swapOp]) (by simp [serviceOp])⟩
  | runModuleScript dir script =>
    by_cases hscript : script = serviceScript n
    · subst hscript
      obtain rfl := hallow rfl
      simp only [exec, Option.some.injEq, Prod.mk.injEq] at hx
      obtain ⟨-, rfl⟩ := hx
      refine ⟨.started, by simp [Stage.moves],
        (h.held.restage (by simp [Stage.holds]) (by simp [Stage.holds])).frame rfl,
        h.claimed.start rfl ?_⟩
      show servicesSince n (_ :: w.log) ≤ _
      by_cases hdir : dir = activeDir n
      · subst hdir
        exact le_of_eq (servicesSince_start n w.log)
      · rw [servicesSince_other (by simp [swapOp]) (by simpa [serviceOp] using hdir)]
        exact Nat.le_succ _
    · refine ⟨o, by simp [Stage.moves, hscript],
        hframe (by simp) (by simp) (by simp) (by simp [swapOp]) ?_⟩
      simp [serviceOp, hscript]
  | spawn job => exact absurd rfl (hspawn job)
  | _ => exact ⟨o, rfl, hframe (by simp) (by simp) (by simp) (by simp [swapOp]) (by simp [serviceOp])⟩

/-! ### Runs -/

/-- A thread that has nothing to do with the module. -/
theorem Account.idle_cons (h : Account n M w) : Account n (.idle ::ₘ M) w := by
  have hmem : ∀ x ∈ (.idle ::ₘ M : Multiset Stage), x = .idle ∨ x ∈ M := fun x hx =>
    Multiset.mem_cons.1 hx
  refine ⟨h.held.cons_free rfl, ⟨(AtMostOne.cons_iff rfl).2 h.claimed.one, ?_, ?_, ?_, h.claimed.starts, ?_⟩⟩
  · intro x hx hc
    rcases hmem x hx with rfl | hx
    · exact absurd hc (by simp [Stage.claims])
    · exact h.claimed.shown x hx hc
  · intro hswap x hx
    rcases hmem x hx with rfl | hx
    · rfl
    · exact h.claimed.alone ((hmem _ hswap).resolve_left (by simp)) x hx
  · intro x hx hu
    rcases hmem x hx with rfl | hx
    · exact absurd hu (by simp [Stage.unstarted])
    · exact h.claimed.fresh x hx hu
  · exact h.claimed.served.imp id (Or.imp id fun h => Multiset.mem_cons_of_mem h)

/-- A worker starts with the claim that was handed to it. -/
theorem spec_worker {j : Job} {m : String} (hj : j.worker = some (m, activeDir m))
    (ho : At n m [.owed] o) :
    Prog.Spec ((stageRules n).also Op.issued) (body j) o fun _ _ => True := by
  have hdaemon : j.ofDaemon := by
    cases j <;> trivial
  refine Prog.spec_also ?_ (only_body hdaemon)
  cases j with
  | activation name dir =>
    obtain ⟨rfl, rfl⟩ : name = m ∧ dir = activeDir m := by simpa [Job.worker] using hj
    exact Prog.spec_mono (spec_activationThread ho) fun _ _ _ => trivial
  | frameworkActivation name dir =>
    obtain ⟨rfl, -⟩ : name = m ∧ dir = activeDir m := by simpa [Job.worker] using hj
    exact Prog.spec_mono (spec_frameworkActivationThread ho dir) fun _ _ _ => trivial
  | pendingService name dir =>
    obtain ⟨rfl, rfl⟩ : name = m ∧ dir = activeDir m := by simpa [Job.worker] using hj
    exact Prog.spec_mono (spec_pendingServiceThread ho) fun _ _ _ => trivial
  | _ => exact absurd hj (by simp [Job.worker])

theorem keeps_account (n : String) :
    Pool.Keeps serviceSystem ClaimsExclude (fun _ => (stageRules n).also Op.issued) (fun _ => True)
      (Account n) where
  starts := by
    rintro j hj
    refine ⟨.idle, ?_, fun M w h => h.idle_cons⟩
    rcases hj with rfl | ⟨name, dir, rfl⟩
    · exact Prog.spec_mono (Prog.spec_also spec_runPendingStagedServices
        issued_runPendingStagedServices) fun _ _ _ => trivial
    · exact Prog.spec_mono (Prog.spec_also (spec_activateStagedModule dir)
        (issued_activateStagedModule name dir)) fun _ _ _ => trivial
  ops := by
    rintro j others os o w op r w' hothers hown ⟨hissued, hallow⟩ ⟨e, -, hx⟩ hok
    by_cases hspawn : ∃ job, op = .spawn job
    · obtain ⟨job, rfl⟩ := hspawn
      obtain ⟨m, hjob, hm⟩ := hallow
      have ho : At n m [.owed] o := by simpa [At] using hm
      simp only [exec, Option.some.injEq, Prod.mk.injEq] at hx
      obtain ⟨-, rfl⟩ := hx
      refine ⟨.idle, os, [o], rfl, hothers, .cons (spec_worker hjob ho) .nil, ?_⟩
      rw [Pool.coe_middle os [] o, List.append_nil]
      have hlog : servicesSince n (.spawn job :: w.log) = servicesSince n w.log :=
        servicesSince_other (by simp [swapOp]) (by simp [serviceOp]) _
      have hnote : Account n (o ::ₘ os) (w.note (.spawn job)) := hown.frame rfl id id hlog
      exact hnote.idle_cons
    · have hno : ∀ job, op ≠ .spawn job := fun job h => hspawn ⟨job, h⟩
      obtain ⟨o', hmoves, hown'⟩ := hown.step hissued hallow hx hno fun _ _ => hok
      have hforks : forks op = none := by
        cases op with
        | spawn job => exact absurd rfl (hno job)
        | _ => rfl
      refine ⟨o', os, [], hmoves, hothers, ?_, by simpa using hown'⟩
      rw [Pool.System.forked]
      show Pool.Typed _ _ ((forks op).toList.map _) _
      rw [hforks]
      exact .nil
  drifts := by
    rintro M w w' h ⟨hlog, hlock, hfs⟩
    have hpresent : ∀ s, w'.fs.present (activationMarker n s) = w.fs.present (activationMarker n s) := by
      intro s
      rw [FileTree.present, hfs (activationMarker n s) (List.prefix_append _ _), FileTree.present]
    exact h.frame hlock (fun ha => (hpresent _).trans ha) (fun hs => (hpresent _).trans hs)
      (by rw [hlog])
  kills _ _ _ _ _ h := h.elim

/-- In every run in which claims and swaps exclude each other, `service.sh` is started at most once
between two swaps of its module. -/
theorem startedOnce {fs : FileTree} {s : Pool.State Resp Job World}
    (hs : Pool.Reach serviceSystem ClaimsExclude ⟨[], .idle fs⟩ s) : StartedOnce s.world := by
  intro n _
  have hinit : Account n 0 (.idle fs) :=
    ⟨⟨AtMostOne.zero, by simp⟩, ⟨AtMostOne.zero, by simp, by simp, by simp, by simp [World.idle, servicesSince],
      .inl (by simp [World.idle, servicesSince])⟩⟩
  obtain ⟨os, -, hown⟩ := (keeps_account n).run hs (Pool.inv_nil hinit)
  exact hown.claimed.starts

/-! ### Two runs -/

/-- A complete staged module with a service script. -/
def stagedService : FileTree :=
  .ofFiles [(activeDir "other" ++ ["module.prop"], "id=other"),
    (stagedDir "m" ++ ["module.prop"], "id=m"), (librarySo (stagedDir "m") "arm64-v8a", "elf"),
    (stagedDir "m" ++ ["service.sh"], "true")]

/-- The system server is not up yet. -/
def Env.early : Env := { Env.fine with systemServerUp := false, property := fun _ => "0" }

/-- The swap, and its worker up to the point where it looks for the system server. -/
def swapAndRun : List DaemonMove :=
  .start (.activateStagedModule "m" (stagedDir "m")) :: steps 0 26 .fine ++ steps 1 4 .fine

theorem serviceSystem_step (e : Env) (op : Op) (w : World) (r : Resp op) (w' : World) (_ : True)
    (h : exec e op w = some (r, w')) : serviceSystem.step w op r w' := ⟨e, trivial, h⟩

theorem legal_steps (i k : Nat) (e : Env) :
    ∀ m ∈ steps i k e, Pool.Legal serviceSystem (fun _ => True) m :=
  Pool.legal_replicate trivial i k

theorem legal_swapAndRun : ∀ m ∈ swapAndRun, Pool.Legal serviceSystem (fun _ => True) m := by
  intro m hm
  rcases List.mem_cons.1 hm with rfl | hm
  · exact .inr ⟨_, _, rfl⟩
  · rcases List.mem_append.1 hm with hm | hm
    · exact legal_steps 0 26 _ m hm
    · exact legal_steps 1 4 _ m hm

/-- The condition on a run without claims that swaps one module. -/
def checkSwap : Pool.Check Resp Job World := fun _ _ w op r _ =>
  match op with
  | .createNew _ => false
  | .rename _ dst => dst == activeDir "m" && !w.fs.present (applyingMarker "m")
  | op => op.opens r

theorem checkSwap_guard (j : Job) (ts : List (Pool.Thread Resp Job)) (w : World) (op : Op)
    (r : Resp op) (w' : World) (h : Pool.Check.guard checkSwap j ts w op r w') :
    ClaimsExclude j ts w op r w' := by
  intro n
  refine ⟨?_, ?_, ?_⟩
  · rintro rfl
    exact absurd h (by simp [Pool.Check.guard, checkSwap])
  · rintro rfl -
    simp only [Pool.Check.guard, checkSwap, swapOp, Bool.and_eq_true, beq_iff_eq,
      Bool.not_eq_true'] at h
    obtain rfl : n = "m" := by simpa [activeDir] using h.1
    exact h.2
  · rintro (rfl | rfl) <;> exact h

/-- The script of a module that was swapped in is started once. -/
theorem startedOnce_swapped : ∃ s,
    Pool.Reach serviceSystem ClaimsExclude ⟨[], .idle stagedService⟩ s ∧
    swapOp "m" ∈ s.world.log ∧ servicesSince "m" s.world.log = 1 ∧ StartedOnce s.world := by
  have hplay : (Pool.play serviceSystem exec checkSwap (swapAndRun ++ steps 1 3 .fine)
      ⟨[], .idle stagedService⟩).any (fun s => s.world.log.contains (swapOp "m") &&
        servicesSince "m" s.world.log == 1) = true := by
    decide
  obtain ⟨s, hs, hlog⟩ := (Option.any_eq_true _ _).1 hplay
  rw [Bool.and_eq_true, List.contains_iff_mem, beq_iff_eq] at hlog
  have hlegal : ∀ m ∈ swapAndRun ++ steps 1 3 .fine,
      Pool.Legal serviceSystem (fun _ => True) m := by
    intro m hm
    rcases List.mem_append.1 hm with hm | hm
    · exact legal_swapAndRun m hm
    · exact legal_steps 1 3 _ m hm
  have hreach := Pool.reach_mono checkSwap_guard (Pool.play_sound serviceSystem_step hlegal hs)
  exact ⟨s, hreach, hlog.1, hlog.2, startedOnce hreach⟩

/-- Two scans after a swap before the system server was up: the first has looked for the `service`
marker when the second claims the module, runs the script and gives the claim up. -/
def twoScans : List DaemonMove :=
  steps 1 3 .early ++ .start .runPendingStagedServices :: steps 2 3 .fine ++
    .start .runPendingStagedServices :: steps 3 9 .fine ++ steps 4 8 .fine ++ steps 2 6 .fine ++
    steps 5 2 .fine

theorem service_startedTwice : ¬ ∀ (fs : FileTree) (s : Pool.State Resp Job World),
    Pool.Reach serviceSystem (fun _ _ _ _ _ _ => True) ⟨[], .idle fs⟩ s → StartedOnce s.world := by
  intro hall
  have hplay : (Pool.play serviceSystem exec (fun _ _ _ _ _ _ => true) (swapAndRun ++ twoScans)
      ⟨[], .idle stagedService⟩).any (fun s => s.world.log.contains (swapOp "m") &&
        servicesSince "m" s.world.log == 2) = true := by
    decide
  obtain ⟨s, hs, hlog⟩ := (Option.any_eq_true _ _).1 hplay
  rw [Bool.and_eq_true, List.contains_iff_mem, beq_iff_eq] at hlog
  have hlegal : ∀ m ∈ swapAndRun ++ twoScans, Pool.Legal serviceSystem (fun _ => True) m := by
    intro m hm
    simp only [twoScans, List.cons_append, List.append_assoc, List.mem_append, List.mem_cons] at hm
    rcases hm with hm | hm | rfl | hm | rfl | hm | hm | hm | hm
    · exact legal_swapAndRun m hm
    · exact legal_steps 1 3 _ m hm
    · exact .inl rfl
    · exact legal_steps 2 3 _ m hm
    · exact .inl rfl
    · exact legal_steps 3 9 _ m hm
    · exact legal_steps 4 8 _ m hm
    · exact legal_steps 2 6 _ m hm
    · exact legal_steps 5 2 _ m hm
  have hreach := Pool.reach_mono (fun _ _ _ _ _ _ _ => trivial)
    (Pool.play_sound serviceSystem_step hlegal hs)
  have hone := hall _ s hreach "m" hlog.1
  omega

end OnyxZygisk.Daemon

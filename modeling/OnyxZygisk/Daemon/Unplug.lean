import OnyxZygisk.Daemon.Threads

/-!
# Unplugging

Whether an active copy came from a swap is read off the `post_fs_data` marker. The swap deletes that
marker and a thread writes it again after a script has run, so until then only the opt-in says that the
module may be served: a switch turned off in between is forgotten. Where the switch stays on for that
long, a module that was swapped in is served only with its switch on (`unplug_effective`).
-/

namespace OnyxZygisk.Daemon

/-- `swap_staged_module` has put an active copy of the module in place. -/
def SwappedIn (w : World) (name : String) : Prop :=
  .rename (stagedDir name) (activeDir name) ∈ w.log

/-- The marker by which the daemon tells such a copy. -/
def marked (fs : FileTree) (name : String) : Bool :=
  fs.present (activationMarker name "post_fs_data")

/-- No module that was swapped in is served with its switch off. -/
def UnplugEffective (w : World) : Prop :=
  ∀ name arch dir, SwappedIn w name → (name, dir) ∈ eligibleIn w.fs arch →
    optedIn w.fs name = true

/-- Installs, updates and toggles change any file; the markers are the daemon's. -/
def Surroundings (w w' : World) : Prop :=
  w'.log = w.log ∧ ∀ name, marked w.fs name = true → marked w'.fs name = true

/-- The switch of a module that was swapped in goes off only once the module is marked. -/
def SwitchStays (w w' : World) : Prop :=
  ∀ name, SwappedIn w name → optedIn w.fs name = true →
    optedIn w'.fs name = true ∨ marked w.fs name = true

/-- A module is moved in and its marker reset only while its switch is on, and the daemon removes an
opt-in only once the module is marked. -/
def SwitchHeld : Pool.Guard Resp Job World := fun _ _ w op _ _ => ∀ name,
  (op = .rename (stagedDir name) (activeDir name) →
    optedIn w.fs name = true ∨ marked w.fs name = true) ∧
  (op = .removeFile (activationMarker name "post_fs_data") → optedIn w.fs name = true) ∧
  (op = .removeFile (hotplugOptIn name) → SwappedIn w name → marked w.fs name = true)

/-! ### The invariant -/

/-- A module that was swapped in is marked or switched on. -/
def Accounted (w : World) : Prop :=
  ∀ name, SwappedIn w name → marked w.fs name = true ∨ optedIn w.fs name = true

theorem Accounted.unplugEffective {w : World} (h : Accounted w) : UnplugEffective w := by
  intro name arch dir hswap hmem
  rcases (mem_eligibleIn w.fs arch).1 hmem with ⟨hstaged, -, -⟩ | ⟨-, -, hactive, -⟩
  · simp only [stagedServed, Bool.and_eq_true] at hstaged
    exact hstaged.1.2
  · rcases h name hswap with hm | ho
    · simp only [activeRecorded, unplugged, Bool.and_eq_true] at hactive
      rw [marked] at hm
      simpa [hm] using hactive.2
    · exact ho

/-- One operation keeps the account. -/
theorem Accounted.step {w w' : World} {e : Env} {op : Op} {r : Resp op} (h : Accounted w)
    (hop : op.issued) (hx : exec e op w = some (r, w'))
    (hheld : ∀ j ts, SwitchHeld j ts w op r w') : Accounted w' := by
  intro name hswap
  obtain ⟨hmove, hreset, hremove⟩ := hheld .startup [] name
  have hmark := isLeaf_activationMarker name "post_fs_data"
  have hopt := isLeaf_hotplugOptIn name
  -- what was on account stays on account
  have hkeep : SwappedIn w name ∨ op = .rename (stagedDir name) (activeDir name) →
      marked w.fs name = true ∨ optedIn w.fs name = true →
      marked w'.fs name = true ∨ optedIn w'.fs name = true := by
    intro hin hacc
    rcases hacc with hm | ho
    · rcases present_leaf hop hx hmark hm with hm | hrm
      · exact .inl hm
      · rcases present_leaf hop hx hopt (hreset hrm) with ho | hrm'
        · exact .inr ho
        · rw [hrm'] at hrm
          exact absurd hrm (by simp [hotplugOptIn, activationMarker, hotplugDir, activationMarkers])
    · rcases present_leaf hop hx hopt ho with ho | hrm
      · exact .inr ho
      · have hm : marked w.fs name = true := by
          refine hremove hrm (hin.resolve_right ?_)
          rw [hrm]
          simp
        rcases present_leaf hop hx hmark hm with hm | hrm'
        · exact .inl hm
        · rw [hrm'] at hrm
          exact absurd hrm (by simp [hotplugOptIn, activationMarker, hotplugDir, activationMarkers])
  rcases log_of_exec hx with hlog | hlog
  · rw [SwappedIn, hlog] at hswap
    exact hkeep (.inl hswap) (h name hswap)
  · rw [SwappedIn, hlog] at hswap
    rcases List.mem_cons.1 hswap with heq | hswap
    · exact hkeep (.inr heq.symm) (hmove heq.symm).symm
    · exact hkeep (.inl hswap) (h name hswap)

/-- In every run in which the switch stays on from a swap to its marker, unplugging is effective. -/
theorem unplug_effective {fs : FileTree} {s : Pool.State Resp Job World}
    (hs : Pool.Reach (daemon (fun _ _ _ => True) fun w w' => Surroundings w w' ∧ SwitchStays w w')
      SwitchHeld ⟨[], .idle fs⟩ s) : UnplugEffective s.world := by
  suffices h : Accounted s.world from h.unplugEffective
  refine Pool.run_only (fun _ hj => only_body (Job.ofDaemon_of_request hj)) only_forked ?_ ?_ ?_ hs ?_
  · rintro j others w op r w' hop hI ⟨e, -, hx⟩ hheld
    exact hI.step hop hx fun _ _ => hheld
  · rintro w w' hI ⟨⟨hlog, hmarked⟩, hstays⟩ name hswap
    rw [SwappedIn, hlog] at hswap
    rcases hI name hswap with hm | ho
    · exact .inl (hmarked name hm)
    · exact (hstays name hswap ho).symm.imp (hmarked name) id
  · rintro w w' hI ⟨hfs, hlog, -⟩ name hswap
    rw [SwappedIn, hlog] at hswap
    rw [hfs]
    exact hI name hswap
  · intro name hswap
    exact absurd hswap (by simp [SwappedIn, World.idle])

/-! ### Two runs -/

/-- A complete staged module, switched on. -/
def switchedOn : FileTree :=
  .ofFiles [(activeDir "other" ++ ["module.prop"], "id=other"), (hotplugOptIn "m", ""),
    (stagedDir "m" ++ ["module.prop"], "id=m"), (librarySo (stagedDir "m") "arm64-v8a", "elf")]

/-- An activation of the staged module, up to its `k`-th operation. -/
def activateFor (k : Nat) : List DaemonMove :=
  .start (.activateStagedModule "m" (stagedDir "m")) :: List.replicate k (.op 0 .fine)

theorem legal_activateFor {drift : World → World → Prop} (k : Nat) :
    ∀ m ∈ activateFor k, Pool.Legal (daemon (fun _ _ _ => True) drift) (fun _ => True) m := by
  intro m hm
  rcases List.mem_cons.1 hm with rfl | hm
  · trivial
  · exact Pool.legal_replicate trivial 0 k m hm

theorem daemon_step {drift : World → World → Prop} (e : Env) (op : Op) (w : World) (r : Resp op)
    (w' : World) (_ : True) (h : exec e op w = some (r, w')) :
    (daemon (fun _ _ _ => True) drift).step w op r w' := ⟨e, trivial, h⟩

/-- The guard on the one module of the run, as a scheduler checks it. -/
def checkHeld : Pool.Check Resp Job World := fun _ _ w op _ _ =>
  match op with
  | .rename src dst => src == stagedDir "m" && dst == activeDir "m" && optedIn w.fs "m"
  | .removeFile p => markerSuffixes.any (p == activationMarker "m" ·) && optedIn w.fs "m"
  | _ => true

theorem checkHeld_guard (j : Job) (ts : List (Pool.Thread Resp Job)) (w : World) (op : Op)
    (r : Resp op) (w' : World) (h : Pool.Check.guard checkHeld j ts w op r w') :
    SwitchHeld j ts w op r w' := by
  intro name
  refine ⟨?_, ?_, ?_⟩
  · rintro rfl
    simp only [Pool.Check.guard, checkHeld, Bool.and_eq_true, beq_iff_eq] at h
    obtain ⟨⟨hsrc, -⟩, ho⟩ := h
    have hname : name = "m" := by simpa [stagedDir] using hsrc
    exact .inl (hname ▸ ho)
  · rintro rfl
    simp only [Pool.Check.guard, checkHeld, Bool.and_eq_true, List.any_eq_true, beq_iff_eq] at h
    obtain ⟨⟨suffix, hsuffix, heq⟩, ho⟩ := h
    have hname := (activationMarker_inj (by decide) (markerSuffixes_dotless suffix hsuffix)).1 heq
    rw [hname.1]
    exact ho
  · rintro rfl
    simp only [Pool.Check.guard, checkHeld, Bool.and_eq_true, List.any_eq_true, beq_iff_eq] at h
    obtain ⟨⟨suffix, -, heq⟩, -⟩ := h
    exact absurd heq (by simp [hotplugOptIn, activationMarker, hotplugDir, activationMarkers])

/-- Swapped in and marked, the module may be served. -/
theorem unplug_effective_marked : ∃ s,
    Pool.Reach (daemon (fun _ _ _ => True) fun w w' => Surroundings w w' ∧ SwitchStays w w')
      SwitchHeld ⟨[], .idle switchedOn⟩ s ∧
    SwappedIn s.world "m" ∧ marked s.world.fs "m" = true ∧ UnplugEffective s.world := by
  have hplay : (Pool.play (daemon (fun _ _ _ => True) fun w w' => Surroundings w w' ∧ SwitchStays w w')
      exec checkHeld (activateFor 26 ++ List.replicate 4 (.op 1 .fine)) ⟨[], .idle switchedOn⟩).any
        (fun s => s.world.log.contains (.rename (stagedDir "m") (activeDir "m")) &&
          marked s.world.fs "m") = true := by
    decide
  obtain ⟨s, hs, hmarked⟩ := (Option.any_eq_true _ _).1 hplay
  rw [Bool.and_eq_true, List.contains_iff_mem] at hmarked
  have hlegal : ∀ m ∈ activateFor 26 ++ List.replicate 4 (.op 1 .fine),
      Pool.Legal (daemon (fun _ _ _ => True) fun w w' => Surroundings w w' ∧ SwitchStays w w')
        (fun _ => True) m := by
    intro m hm
    rcases List.mem_append.1 hm with hm | hm
    · exact legal_activateFor 26 m hm
    · exact Pool.legal_replicate trivial 1 4 m hm
  have hreach := Pool.reach_mono checkHeld_guard (Pool.play_sound daemon_step hlegal hs)
  exact ⟨s, hreach, hmarked.1, hmarked.2, unplug_effective hreach⟩

/-- The switch of the surroundings: off. -/
def switchOff (w : World) : World :=
  { w with fs := (w.fs.removeFile (hotplugOptIn "m")).getD w.fs }

theorem surroundings_switchOff (w : World) : Surroundings w (switchOff w) := by
  refine ⟨rfl, ?_⟩
  intro name hm
  rw [switchOff, marked]
  cases h : w.fs.removeFile (hotplugOptIn "m") with
  | none => exact hm
  | some fs =>
    have hnot : ¬ hotplugOptIn "m" <+: activationMarker name "post_fs_data" := by
      simp [hotplugOptIn, activationMarker, hotplugDir, activationMarkers]
    rw [Option.getD_some, FileTree.present, FileTree.get_removeFile h, if_neg hnot]
    exact hm

/-- The daemon stops right after the rename, and the switch goes off: the module is served. -/
theorem unplug_not_effective : ¬ ∀ (fs : FileTree) (s : Pool.State Resp Job World),
    Pool.Reach (daemon (fun _ _ _ => True) Surroundings) (fun _ _ _ _ _ _ => True) ⟨[], .idle fs⟩ s →
      UnplugEffective s.world := by
  intro hall
  have hplay : (Pool.play (daemon (fun _ _ _ => True) Surroundings) exec (fun _ _ _ _ _ _ => true)
      (activateFor 11 ++ [.kill 0 id, .drift switchOff]) ⟨[], .idle switchedOn⟩).any (fun s =>
        s.world.log.contains (.rename (stagedDir "m") (activeDir "m")) &&
          activeRecorded s.world.fs "arm64-v8a" "m" && !flagged s.world.fs (activeDir "m") &&
          !optedIn s.world.fs "m") = true := by
    decide
  obtain ⟨s, hs, hserved⟩ := (Option.any_eq_true _ _).1 hplay
  have hlegal : ∀ m ∈ activateFor 11 ++ [.kill 0 id, .drift switchOff],
      Pool.Legal (daemon (fun _ _ _ => True) Surroundings) (fun _ => True) m := by
    intro m hm
    rcases List.mem_append.1 hm with hm | hm
    · exact legal_activateFor 11 m hm
    · rcases List.mem_pair.1 hm with rfl | rfl
      · exact fun w => ⟨rfl, rfl, .inl rfl⟩
      · exact surroundings_switchOff
  have hreach := Pool.reach_mono (fun _ _ _ _ _ _ _ => trivial)
    (Pool.play_sound daemon_step hlegal hs)
  simp only [Bool.and_eq_true, Bool.not_eq_true', List.contains_iff_mem] at hserved
  obtain ⟨⟨⟨hswap, hactive⟩, hflag⟩, hoff⟩ := hserved
  -- with the switch off the staged copy is not served, so the active one is
  have hstaged : stagedServed s.world.fs "arm64-v8a" "m" = false := by
    simp [stagedServed, hoff]
  have hon := hall _ s hreach "m" "arm64-v8a" (activeDir "m") hswap
    ((mem_eligibleIn _ _).2 (.inr ⟨hstaged, rfl, hactive, hflag⟩))
  rw [hoff] at hon
  exact absurd hon (by simp)

end OnyxZygisk.Daemon

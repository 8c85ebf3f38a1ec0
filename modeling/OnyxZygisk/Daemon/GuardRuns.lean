import OnyxZygisk.Daemon.Guard
import OnyxZygisk.Lib.Folds

/-!
# The restart guard over boots

Any number of boots, with any events in each. The module is unplugged just where a startup finds the guard of
an earlier boot past its reboot, or a system server that starts finds the guard of its own boot with another
pid; a second startup in a boot changes nothing (`unplugged_iff_found`).
-/

namespace OnyxZygisk.Daemon

open Prog (Only)

variable {name : String} {fs : FileTree}

/-! ### No event waits -/

def Op.awake (op : Op) : Prop := ∀ use, op ≠ .flock use

theorem awake_inert {α : Type} {p : Program α} (h : Only Op.inert p) : Only Op.awake p := by
  refine Prog.only_mono h fun op hop use heq => ?_
  rw [heq] at hop
  exact hop

theorem awake_fsWrite (p : FilePath) (data : String) : Only Op.awake (fsWrite p data) := by
  refine Prog.only_bind (only_perform nofun) fun ino => ?_
  cases ino with
  | none => trivial
  | some ino => exact Prog.only_ite trivial (only_perform nofun)

theorem awake_crashBlock (name : String) : Only Op.awake (crashBlock name) :=
  Prog.only_bind (only_perform nofun) fun _ => Prog.only_bind (awake_fsWrite _ _) fun _ =>
    Prog.only_bind (awake_fsWrite _ _) fun _ => Prog.only_bind (only_perform nofun) fun _ => trivial

theorem awake_resolveGuard {content bootId : String} {p : Program Unit} (hp : p = resolveGuard content bootId) :
    Only Op.awake p := by
  rw [hp]
  unfold resolveGuard
  extract_lets parts stage name recordedBoot
  clear_value stage name recordedBoot
  have hremove : ∀ p, Only Op.awake (do let _ ← perform (.removeFile p)) := fun p =>
    Prog.only_bind (only_perform nofun) fun _ => trivial
  refine Prog.only_ite (hremove _) (Prog.only_ite (Prog.only_bind (only_perform nofun) fun _ => hremove _) ?_)
  refine Prog.only_ite (Prog.only_ite trivial ?_) (Prog.only_ite (Prog.only_ite trivial ?_) (hremove _))
  · exact Prog.only_bind (only_perform nofun) fun _ => Prog.only_bind (awake_fsWrite _ _) fun _ => trivial
  · exact awake_crashBlock name

theorem awake_handleGuard (stage name recordedBoot : String) (recordedPid : Option Int32) (bootId : String)
    (pid : Int32) : Only Op.awake (handleGuard stage name recordedBoot recordedPid bootId pid) := by
  refine Prog.only_ite trivial (Prog.only_ite (Prog.only_ite trivial ?_) ?_)
  · exact Prog.only_bind (awake_crashBlock name) fun _ => awake_inert inert_refreshControllerInfo
  · exact Prog.only_bind (awake_fsWrite _ _) fun _ => Prog.only_ite (only_perform nofun) trivial

theorem awake_program (name : String) (boot : Uuid) (k : Kind) : Only Op.awake (k.program name boot) := by
  have hread : Only Op.awake (readToString hotplugRestartGuard) := only_perform nofun
  cases k with
  | startup =>
    refine Prog.only_bind hread fun content => ?_
    cases content with
    | none => trivial
    | some content =>
      refine Prog.only_bind (awake_inert inert_currentBootId) fun bootId => ?_
      cases bootId with
      | none => trivial
      | some bootId =>
        dsimp only
        generalize hp : resolveGuard content bootId = p
        exact awake_resolveGuard hp.symm
  | serverStarted =>
    refine Prog.only_bind hread fun contents => ?_
    cases contents with
    | none => trivial
    | some contents =>
      simp only
      split
      · refine Prog.only_bind (awake_inert inert_currentBootId) fun bootId => ?_
        cases bootId with
        | none => trivial
        | some bootId =>
          refine Prog.only_ite (Prog.only_bind (only_perform nofun) fun _ => trivial) ?_
          refine Prog.only_bind (only_perform nofun) fun pid => ?_
          cases pid with
          | none => trivial
          | some pid => exact awake_handleGuard ..
      · trivial
  | expiry pid =>
    refine Prog.only_bind hread fun value => Prog.only_ite ?_ trivial
    exact Prog.only_bind (only_perform nofun) fun _ => only_onlyIf (Prog.only_bind (only_perform nofun) fun _ =>
      Prog.only_bind (only_perform nofun) fun _ => trivial)

/-! ### Boots -/

/-- An event, in an environment whose file operations work. -/
structure Happening where
  kind : Kind
  env : Env
  completes : env.Completes

structure BootRun where
  boot : Uuid
  events : List Happening

/-- The boot id is the one of the boot. -/
def Env.inBoot (e : Env) (boot : Uuid) : Env := { e with bootId := some (boot.text ++ "\n") }

/-- One event on a disk, run to its end. -/
def Happening.after (name : String) (boot : Uuid) (fs : FileTree) (ev : Happening) : FileTree :=
  match Prog.run exec (ev.env.inBoot boot) (ev.kind.program name boot) (World.idle fs) with
  | some (_, w) => w.fs
  | none => fs

def duringBoot (name : String) (boot : Uuid) (done : List Happening) (fs : FileTree) : FileTree :=
  done.foldl (Happening.after name boot) fs

def afterBoots (name : String) (sessions : List BootRun) (fs : FileTree) : FileTree :=
  sessions.foldl (fun fs b => duringBoot name b.boot b.events fs) fs

theorem Happening.exists_run (name : String) (boot : Uuid) (fs : FileTree) (ev : Happening) :
    ∃ u w, Prog.run exec (ev.env.inBoot boot) (ev.kind.program name boot) (World.idle fs) = some (u, w) ∧
      ev.after name boot fs = w.fs := by
  have hawake : ∀ op, op.awake → ∀ w, (exec (ev.env.inBoot boot) op w).isSome := fun op hop w =>
    exec_isSome _ op w fun use heq => absurd heq (hop use)
  obtain ⟨u, w, hrun⟩ := Prog.exists_run (awake_program name boot ev.kind) hawake (World.idle fs)
  exact ⟨u, w, hrun, by rw [after, hrun]⟩

def Breaker.happen (boot : Uuid) (s : Breaker) (ev : Happening) : Breaker :=
  s.step boot ev.env.systemServer ev.kind

def Breaker.duringBoot (boot : Uuid) (done : List Happening) (s : Breaker) : Breaker :=
  done.foldl (Breaker.happen boot) s

def Breaker.afterBoots (sessions : List BootRun) (s : Breaker) : Breaker :=
  sessions.foldl (fun s b => s.duringBoot b.boot b.events) s

section History

variable {s : Breaker} {sessions past : List BootRun} {boot boot₀ : Uuid} {b : BootRun} {done : List Happening}
  {ev : Happening}

theorem Holds.after (hname : validModuleId name = true) (h : Holds name fs s) (boot : Uuid) (ev : Happening) :
    Holds name (ev.after name boot fs) (s.happen boot ev) := by
  obtain ⟨u, w, hrun, heq⟩ := ev.exists_run name boot fs
  have h₀ : Holds name (World.idle fs).fs s := h
  have he : (ev.env.inBoot boot).Completes := ev.completes
  rw [heq]
  exact h₀.happen hname he rfl hrun

theorem Holds.duringBoot (hname : validModuleId name = true) (h : Holds name fs s) (boot : Uuid)
    (done : List Happening) : Holds name (duringBoot name boot done fs) (s.duringBoot boot done) :=
  List.foldl_rel h fun ev _ _ _ hev => hev.after hname boot ev

theorem Holds.afterBoots (hname : validModuleId name = true) (h : Holds name fs s) (sessions : List BootRun) :
    Holds name (afterBoots name sessions fs) (s.afterBoots sessions) :=
  List.foldl_rel h fun b _ _ _ hb => hb.duringBoot hname b.boot b.events

/-- The guard names a boot of the list. -/
def GuardState.knows (boots : List Uuid) : GuardState → Prop
  | .gone => True
  | .rebooting b | .confirming b | .observing b _ => b ∈ boots

theorem GuardState.knows_mono {boots boots' : List Uuid} (h : ∀ b ∈ boots, b ∈ boots') {g : GuardState}
    (hg : g.knows boots) : g.knows boots' := by
  cases g with
  | gone => exact trivial
  | rebooting b => exact h b hg
  | confirming b => exact h b hg
  | observing b pid => exact h b hg

theorem Breaker.knows_step {boots : List Uuid} (hboot : boot ∈ boots) {server : Option Int32}
    (h : s.guard.knows boots) (k : Kind) : (s.step boot server k).guard.knows boots := by
  obtain ⟨g, u⟩ := s
  cases k with
  | startup =>
    cases g with
    | gone => exact trivial
    | rebooting b =>
      by_cases hb : b = boot <;> simpa [step, hb, GuardState.knows] using hboot
    | confirming b =>
      by_cases hb : b = boot
      · simpa [step, hb, GuardState.knows] using hboot
      · simp [step, hb, GuardState.knows]
    | observing b pid =>
      by_cases hb : b = boot
      · simpa [step, hb, GuardState.knows] using hboot
      · simp [step, hb, GuardState.knows]
  | serverStarted =>
    cases server with
    | none => exact h
    | some pid =>
      cases g with
      | gone => exact trivial
      | rebooting b =>
        by_cases hb : b = boot <;> simpa [step, hb, GuardState.knows] using hboot
      | confirming b =>
        by_cases hb : b = boot
        · simpa [step, hb, GuardState.knows] using hboot
        · simpa [step, hb, GuardState.knows] using h
      | observing b old =>
        by_cases hb : b = boot ∧ old ≠ pid
        · simp [step, hb, GuardState.knows]
        · simpa only [step, if_neg hb] using h
  | expiry pid =>
    by_cases hg : g = .observing boot pid ∧ server = some pid
    · simp [step, hg, GuardState.knows]
    · rw [step, if_neg hg]
      exact h

theorem Breaker.knows_duringBoot {boots : List Uuid} (hboot : boot ∈ boots) (h : s.guard.knows boots)
    (done : List Happening) : (s.duringBoot boot done).guard.knows boots := by
  induction done generalizing s with
  | nil => exact h
  | cons ev done ih => exact ih (Breaker.knows_step hboot h ev.kind)

/-- Between boots the guard names a boot before, or the one it was written in. -/
theorem Breaker.knows_afterBoots {boots : List Uuid} (h : s.guard.knows boots) (past : List BootRun) :
    (s.afterBoots past).guard.knows (boots ++ past.map BootRun.boot) := by
  induction past generalizing s boots with
  | nil => simpa [afterBoots] using h
  | cons b past ih =>
    have hb : (s.duringBoot b.boot b.events).guard.knows (boots ++ [b.boot]) :=
      knows_duringBoot (by simp) (GuardState.knows_mono (fun _ => List.mem_append_left _) h) b.events
    have hrest := ih hb
    rwa [List.append_assoc, List.singleton_append] at hrest

/-- A module that waits for its reboot since the boot `boot`. -/
structure Armed (name : String) (boot : Uuid) (fs : FileTree) : Prop where
  guard : fs.read hotplugRestartGuard = (GuardState.rebooting boot).text name
  optIn : fs.isFile (hotplugOptIn name) = true
  markers : fs.isDir activationMarkers = true
  state : Plain fs (activationMarker name "state")
  blocked : Plain fs (activationMarker name "crash_blocked")

theorem Armed.holds (h : Armed name boot fs) : Holds name fs ⟨.rebooting boot, false⟩ := by
  have hplain : Plain fs hotplugRestartGuard := by
    intro n hn
    have hread := h.guard
    rw [FileTree.read, hn] at hread
    cases n with
    | file ino data => rfl
    | dir => cases hread
    | link => cases hread
  have hoptIn : fs.present (hotplugOptIn name) = true := by
    have hfile := h.optIn
    unfold FileTree.isFile at hfile
    unfold FileTree.present
    cases hget : fs.get (hotplugOptIn name) with
    | none =>
      rw [hget] at hfile
      simp at hfile
    | some n => rfl
  have hwork : fs.isDir tmpPath = true := FileTree.isDir_of_present_child (FileTree.present_of_isDir h.markers)
  refine ⟨⟨hwork, h.markers, ?_, fun _ => hoptIn, by simp⟩, h.guard, hplain⟩
  simp only [List.forall_mem_cons]
  refine ⟨fun n hn => ?_, h.state, h.blocked, fun _ hq => absurd hq List.not_mem_nil⟩
  have hfile := h.optIn
  rw [FileTree.isFile, hn] at hfile
  exact hfile

/-- The event `ev` of the boot `b`, after `done` there and the boots `past`. -/
def Occurs (sessions past : List BootRun) (b : BootRun) (done : List Happening) (ev : Happening) : Prop :=
  ∃ rest more, sessions = past ++ b :: rest ∧ b.events = done ++ ev :: more

/-- The disk this event finds. -/
def diskBefore (name : String) (fs : FileTree) (past : List BootRun) (b : BootRun) (done : List Happening) : FileTree :=
  duringBoot name b.boot done (afterBoots name past fs)

/-- A startup finds a confirming or observing guard of an earlier boot, or a system server that starts finds
an observing guard of its own boot with another pid. -/
def Finds (name : String) (earlier : List Uuid) (boot : Uuid) (ev : Happening) (fs : FileTree) : Prop :=
  match ev.kind with
  | .startup => ∃ b ∈ earlier, fs.read hotplugRestartGuard = (GuardState.confirming b).text name ∨
      ∃ pid, fs.read hotplugRestartGuard = (GuardState.observing b pid).text name
  | .serverStarted => ∃ old pid, fs.read hotplugRestartGuard = (GuardState.observing boot old).text name ∧
      ev.env.systemServer = some pid ∧ old ≠ pid
  | .expiry _ => False

/-- What the event finds is what the breaker fires on. -/
theorem Holds.fires_iff (hname : validModuleId name = true) (h : Holds name fs s) {earlier : List Uuid}
    (hnew : boot ∉ earlier) (hknows : s.guard.knows (earlier ++ [boot])) :
    s.fires boot ev.env.systemServer ev.kind ↔ Finds name earlier boot ev fs := by
  have hread : ∀ g : GuardState, fs.read hotplugRestartGuard = g.text name ↔ s.guard = g := fun g =>
    ⟨fun hg => GuardState.text_inj hname (h.guard.symm.trans hg), fun hg => hg ▸ h.guard⟩
  have hearlier : ∀ {b}, b ∈ earlier ++ [boot] → b ≠ boot → b ∈ earlier := fun {b} hb hne => by
    rcases List.mem_append.1 hb with hb | hb
    · exact hb
    · exact absurd (List.mem_singleton.1 hb) hne
  unfold Finds Breaker.fires
  cases ev.kind with
  | startup =>
    simp only [hread]
    constructor
    · rintro (⟨b, hb, hg⟩ | ⟨b, pid, hb, hg⟩)
      · rw [hg] at hknows
        exact ⟨b, hearlier hknows hb, .inl hg⟩
      · rw [hg] at hknows
        exact ⟨b, hearlier hknows hb, .inr ⟨pid, hg⟩⟩
    · rintro ⟨b, hb, hg | ⟨pid, hg⟩⟩
      · exact .inl ⟨b, fun heq => hnew (heq ▸ hb), hg⟩
      · exact .inr ⟨b, pid, fun heq => hnew (heq ▸ hb), hg⟩
  | serverStarted =>
    simp only [hread]
  | expiry pid => exact Iff.rfl

/-- The breaker at an event of the history. -/
theorem Occurs.holds (hname : validModuleId name = true) (harmed : Armed name boot₀ fs)
    (hdistinct : (sessions.map BootRun.boot).Nodup) (hfirst : ∀ b ∈ sessions.head?, b.boot = boot₀)
    (hoccurs : Occurs sessions past b done ev) :
    ∃ s, s = Breaker.duringBoot b.boot done (Breaker.afterBoots past ⟨.rebooting boot₀, false⟩) ∧
      Holds name (diskBefore name fs past b done) s ∧ b.boot ∉ past.map BootRun.boot ∧
      s.guard.knows (past.map BootRun.boot ++ [b.boot]) := by
  obtain ⟨rest, more, rfl, -⟩ := hoccurs
  refine ⟨_, rfl, (harmed.holds.afterBoots hname past).duringBoot hname b.boot done, ?_, ?_⟩
  · rw [List.map_append, List.nodup_append] at hdistinct
    intro hmem
    exact hdistinct.2.2 _ hmem _ (by simp) rfl
  · have hstart : GuardState.knows [boot₀] (.rebooting boot₀) := List.mem_singleton_self boot₀
    refine Breaker.knows_duringBoot (by simp) (GuardState.knows_mono ?_
      (Breaker.knows_afterBoots (s := ⟨.rebooting boot₀, false⟩) hstart past)) done
    intro b' hb'
    rcases List.mem_append.1 hb' with hb' | hb'
    · obtain rfl := List.mem_singleton.1 hb'
      cases past with
      | nil => exact List.mem_singleton.2 (hfirst b rfl).symm
      | cons c past =>
        rw [← hfirst c rfl]
        simp
    · exact List.mem_append_left _ hb'

/-- The breaker is fired somewhere in the history. -/
theorem Breaker.unplugged_afterBoots (hs : s.unplugged = false) :
    (s.afterBoots sessions).unplugged = true ↔ ∃ past b done ev, Occurs sessions past b done ev ∧
      Breaker.fires b.boot ev.env.systemServer ((s.afterBoots past).duringBoot b.boot done) ev.kind := by
  have hevents : ∀ (s : Breaker) (b : BootRun), (s.duringBoot b.boot b.events).unplugged = true ↔
      s.unplugged = true ∨ ∃ done ev more, b.events = done ++ ev :: more ∧
        Breaker.fires b.boot ev.env.systemServer (s.duringBoot b.boot done) ev.kind := fun s b =>
    Folds.flag_foldl (fun s : Breaker => s.unplugged = true) (fun _ _ => Breaker.step_unplugged) b.events s
  have hsessions := Folds.flag_foldl (fun s : Breaker => s.unplugged = true) hevents sessions s
  refine hsessions.trans ⟨fun h => ?_, fun h => .inr ?_⟩
  · rcases h with h | ⟨past, b, rest, heq, done, ev, more, hevent, hfires⟩
    · rw [hs] at h
      nomatch h
    · exact ⟨past, b, done, ev, ⟨rest, more, heq, hevent⟩, hfires⟩
  · obtain ⟨past, b, done, ev, ⟨rest, more, heq, hevent⟩, hfires⟩ := h
    exact ⟨past, b, rest, heq, done, ev, more, hevent, hfires⟩

theorem Breaker.settled_duringBoot (h : s.guard.settled boot) (done : List Happening) :
    (s.duringBoot boot done).guard.settled boot := by
  induction done generalizing s with
  | nil => exact h
  | cons ev done ih => exact ih (Breaker.settled_step h ev.kind)

/-- After a startup in a boot the guard is settled there. -/
theorem Breaker.settled_of_startup (h : ∃ prev ∈ done, prev.kind = .startup) :
    (s.duringBoot boot done).guard.settled boot := by
  obtain ⟨prev, hprev, hkind⟩ := h
  obtain ⟨front, back, rfl⟩ := List.append_of_mem hprev
  rw [duringBoot, List.foldl_append, List.foldl_cons]
  refine Breaker.settled_duringBoot ?_ back
  rw [happen, hkind]
  exact Breaker.settled_startup ..

/-- Over boots the module is unplugged just where an event finds the evidence of a crash, and a startup in a
boot that had one changes nothing. -/
theorem unplugged_iff_found (hname : validModuleId name = true) (harmed : Armed name boot₀ fs)
    (hdistinct : (sessions.map BootRun.boot).Nodup) (hfirst : ∀ b ∈ sessions.head?, b.boot = boot₀) :
    (Unplugged name (afterBoots name sessions fs) ↔ ∃ past b done ev, Occurs sessions past b done ev ∧
      Finds name (past.map BootRun.boot) b.boot ev (diskBefore name fs past b done)) ∧
    ∀ past b done ev, Occurs sessions past b done ev → ev.kind = .startup →
      (∃ prev ∈ done, prev.kind = .startup) →
        ev.after name b.boot (diskBefore name fs past b done) = diskBefore name fs past b done := by
  constructor
  · have hend := harmed.holds.afterBoots hname sessions
    have hunplugged : Unplugged name (afterBoots name sessions fs) ↔
        (Breaker.afterBoots sessions ⟨.rebooting boot₀, false⟩).unplugged = true := by
      refine ⟨fun hgone => ?_, hend.ground.unplugged⟩
      by_contra hplugged
      have hpresent := hend.ground.plugged (Bool.eq_false_iff.2 hplugged)
      rw [FileTree.present, hgone.optIn] at hpresent
      simp at hpresent
    rw [hunplugged, Breaker.unplugged_afterBoots rfl]
    refine exists_congr fun past => exists_congr fun b => exists_congr fun done => exists_congr fun ev =>
      and_congr_right fun hoccurs => ?_
    obtain ⟨s, rfl, hholds, hnew, hknows⟩ := hoccurs.holds hname harmed hdistinct hfirst
    exact hholds.fires_iff hname hnew hknows
  · intro past b done ev hoccurs hkind hprev
    obtain ⟨s, rfl, hholds, -, -⟩ := hoccurs.holds hname harmed hdistinct hfirst
    obtain ⟨u, w, hrun, heq⟩ := ev.exists_run name b.boot (diskBefore name fs past b done)
    have h₀ : Holds name (World.idle (diskBefore name fs past b done)).fs _ := hholds
    have he : (ev.env.inBoot b.boot).Completes := ev.completes
    rw [hkind] at hrun
    rw [heq, h₀.startup_settled hname he rfl (Breaker.settled_of_startup hprev) hrun]
    rfl

end History

/-- The boot the guard was written in, and the two after it: in the next one the system server starts. -/
def guardBoot : BootRun := ⟨⟨"5f000000-0000-4000-8000-000000000000", by decide⟩, []⟩

def observedBoot : BootRun :=
  ⟨⟨"5f000000-0000-4000-8000-000000000001", by decide⟩,
    [⟨.startup, Env.fine, fun _ _ => rfl⟩, ⟨.serverStarted, Env.fine, fun _ _ => rfl⟩]⟩

def crashedBoot : BootRun :=
  ⟨⟨"5f000000-0000-4000-8000-000000000002", by decide⟩, [⟨.startup, Env.fine, fun _ _ => rfl⟩]⟩

def armedTree : FileTree :=
  FileTree.ofFiles [(hotplugRestartGuard, "rebooting:m:" ++ guardBoot.boot.text), (hotplugOptIn "m", ""),
    (activationMarker "m" "restarted", "1")]

/-- The guard was still observing when the device rebooted again. -/
theorem unplugged_after_reboot : Unplugged "m" (afterBoots "m" [guardBoot, observedBoot, crashedBoot] armedTree) := by
  have harmed : Armed "m" guardBoot.boot armedTree := by
    have hstate : armedTree.get (activationMarker "m" "state") = none := by decide
    have hblocked : armedTree.get (activationMarker "m" "crash_blocked") = none := by decide
    refine ⟨by decide, by decide, by decide, fun n hn => ?_, fun n hn => ?_⟩
    · nomatch hstate ▸ hn
    · nomatch hblocked ▸ hn
  have hoccurs : Occurs [guardBoot, observedBoot, crashedBoot] [guardBoot, observedBoot] crashedBoot []
      ⟨.startup, Env.fine, fun _ _ => rfl⟩ := ⟨[], [], rfl, rfl⟩
  have hobserving : (diskBefore "m" armedTree [guardBoot, observedBoot] crashedBoot []).read hotplugRestartGuard =
      (GuardState.observing observedBoot.boot 1000).text "m" := by decide
  exact (unplugged_iff_found (by decide) harmed (by decide) (by simp)).1.2
    ⟨_, _, _, _, hoccurs, observedBoot.boot, by decide, .inr ⟨1000, hobserving⟩⟩

end OnyxZygisk.Daemon

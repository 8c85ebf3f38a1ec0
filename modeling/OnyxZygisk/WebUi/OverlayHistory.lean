import OnyxZygisk.Lib.Folds
import OnyxZygisk.WebUi.History

/-!
# The overlays in the history

After each render `useOverlayHistory` consumes the keys of the overlays that are no longer open and pushes
those of the open ones that it does not track yet. Its set of tracked keys is at all times that of the live
entries (`Page.Tracks`), so that it never pushes a live key: a render always comes to its end
(`Page.render_tracks`), and what the page does to the history is a run of the history.
-/

namespace OnyxZygisk.WebUi.Overlay

structure OverlayEntry where
  key : String
  isOpen : Bool

/-- The hook's state with the history it works on. A callback is the key it was made for, which it deletes
from the tracked keys; what it closes is shown by a later render. -/
structure Page where
  tracked : List String
  world : World String
  run : List (Taken String)

namespace Page

def start : Page := ⟨[], World.start, []⟩

def act (p : Page) (a : Action String) : Option Page :=
  match p.world.step a with
  | none => none
  | some (e, w) => some { p with world := w, run := p.run ++ [⟨p.world, e⟩] }

/-- `current.get(key)`; of two overlays of one key the map holds the last. -/
def get (overlays : List OverlayEntry) (key : String) : Option OverlayEntry :=
  overlays.reverse.find? fun entry => entry.key = key

/-- The first loop of the effect. -/
def untrack (overlays : List OverlayEntry) (p : Page) (key : String) : Option Page :=
  if (get overlays key).any OverlayEntry.isOpen then some p
  else { p with tracked := p.tracked.filter fun other => other ≠ key }.act (.consume key)

/-- The second loop. -/
def track (p : Page) (entry : OverlayEntry) : Option Page :=
  if !entry.isOpen ∨ entry.key ∈ p.tracked then some p
  else { p with tracked := p.tracked ++ [entry.key] }.act (.push entry.key entry.key)

/-- The effect after a render of `overlays`. -/
def render (p : Page) (overlays : List OverlayEntry) : Option Page := do
  let p ← p.tracked.foldlM (untrack overlays) p
  overlays.foldlM track p

/-- The next popstate, with the callbacks it runs. -/
def popstate (p : Page) : Option Page :=
  match p.world.step .deliver with
  | some (.popstate back called, w) =>
    some
      { tracked := p.tracked.filter fun key => key ∉ called.map Prod.snd
        world := w
        run := p.run ++ [⟨p.world, .popstate back called⟩] }
  | _ => none

end Page

inductive PageAction where
  | render (overlays : List OverlayEntry)
  | userBack
  | popstate

def Page.step (p : Page) : PageAction → Option Page
  | .render overlays => p.render overlays
  | .userBack => p.act .userBack
  | .popstate => p.popstate

/-! ### The steps the hook takes -/

theorem World.step_push {α : Type} {w : World α} {key : String} (hkey : key ∉ w.history.activeKeys) (onBack : α) :
    ∃ w', w.step (.push key onBack) = some (.push key onBack, w') := by
  rw [World.step, if_neg hkey]
  exact ⟨_, rfl⟩

theorem World.step_consume {α : Type} (w : World α) (key : String) :
    ∃ w', w.step (.consume key) = some (.consume key, w') := by
  rw [World.step]
  split
  · exact ⟨_, rfl⟩
  · exact ⟨_, rfl⟩

/-- A popstate runs callbacks of live entries. -/
theorem called_live {α : Type} {w w' : World α} {a : Action α} {back : Back} {called entries : List (String × α)}
    (hm : Mirrors w.history entries) (h : w.step a = some (.popstate back called, w')) :
    ∀ entry ∈ called, entry ∈ entries := by
  obtain ⟨state, below, -, -, -, rfl, -⟩ := popstate_cases h
  intro entry hentry
  rcases Nat.eq_zero_or_pos w.history.pendingCleanupCount with hcount | hcount
  · rw [hm.called hcount] at hentry
    exact List.mem_reverse.1 ((List.takeWhile_sublist _).subset hentry)
  · rw [History.onPopState, if_pos hcount] at hentry
    exact absurd hentry List.not_mem_nil

theorem mem_keys_filter {α : Type} (keep : String → Prop) [DecidablePred keep] (entries : List (String × α))
    (key : String) :
    key ∈ (entries.filter fun entry => keep entry.1).map Prod.fst ↔ key ∈ entries.map Prod.fst ∧ keep key := by
  have hfilter := List.filter_map (f := Prod.fst) (p := fun key => decide (keep key)) (l := entries)
  rw [Function.comp_def] at hfilter
  rw [← hfilter, List.mem_filter, decide_eq_true_iff]

/-! ### The tracked keys -/

/-- The hook tracks the live keys, each under its own callback. -/
structure Page.Tracks (p : Page) : Prop where
  steps : Steps p.run p.world
  keys : ∀ key, key ∈ p.tracked ↔ key ∈ (live p.run).map Prod.fst
  own : ∀ entry ∈ live p.run, entry.2 = entry.1

namespace Page.Tracks

variable {p : Page}

theorem start : Page.start.Tracks :=
  ⟨Steps.start, fun _ => Iff.rfl, fun _ h => absurd h List.not_mem_nil⟩

/-- Deleting a key and consuming it. -/
theorem untrack (hp : p.Tracks) (overlays : List OverlayEntry) (key : String) :
    ∃ p', Page.untrack overlays p key = some p' ∧ p'.Tracks := by
  rw [Page.untrack]
  split
  · exact ⟨p, rfl, hp⟩
  · obtain ⟨w, hstep⟩ := p.world.step_consume key
    rw [Page.act, hstep]
    refine ⟨_, rfl, hp.steps.step hstep, fun other => ?_, fun entry hentry => ?_⟩
    · rw [live_snoc, Event.live, mem_keys_filter (· ≠ key), List.mem_filter, hp.keys other, decide_eq_true_iff]
    · rw [live_snoc] at hentry
      exact hp.own entry (List.mem_filter.1 hentry).1

/-- A key that is not tracked is not live, and can be pushed. -/
theorem track (hp : p.Tracks) (entry : OverlayEntry) : ∃ p', Page.track p entry = some p' ∧ p'.Tracks := by
  rw [Page.track]
  split
  · exact ⟨p, rfl, hp⟩
  · next hnew =>
    have hkey : entry.key ∉ p.world.history.activeKeys := by
      rw [hp.steps.mirrors.keys, ← hp.keys]
      exact fun hmem => hnew (Or.inr hmem)
    obtain ⟨w, hstep⟩ := World.step_push hkey entry.key
    rw [Page.act, hstep]
    refine ⟨_, rfl, hp.steps.step hstep, fun key => ?_, fun other hother => ?_⟩
    · rw [live_snoc, Event.live, List.map_append, List.mem_append, List.mem_append, hp.keys key]
      rfl
    · rw [live_snoc, Event.live, List.mem_append, List.mem_singleton] at hother
      rcases hother with hother | rfl
      · exact hp.own other hother
      · rfl

theorem render (hp : p.Tracks) (overlays : List OverlayEntry) :
    ∃ p', p.render overlays = some p' ∧ p'.Tracks := by
  obtain ⟨p₁, hclosed, hp₁⟩ := Folds.foldlM_invariant (fun p key hp => hp.untrack overlays key) p.tracked hp
  obtain ⟨p₂, hopened, hp₂⟩ := Folds.foldlM_invariant (fun p entry hp => hp.track entry) overlays hp₁
  refine ⟨p₂, ?_, hp₂⟩
  rw [Page.render, hclosed]
  exact hopened

theorem userBack (hp : p.Tracks) : ∃ p', p.act .userBack = some p' ∧ p'.Tracks := by
  refine ⟨_, rfl, hp.steps.step (a := .userBack) rfl, ?_, ?_⟩
  · rw [live_snoc]
    exact hp.keys
  · rw [live_snoc]
    exact hp.own

theorem popstate (hp : p.Tracks) {p' : Page} (h : p.popstate = some p') : p'.Tracks := by
  rw [Page.popstate] at h
  split at h
  · next back called w hstep =>
    cases h
    have hcalled := called_live hp.steps.mirrors hstep
    refine ⟨hp.steps.step hstep, fun key => ?_, fun entry hentry => ?_⟩
    · have hsnd : called.map Prod.snd = called.map Prod.fst :=
        List.map_congr_left fun entry hentry => hp.own entry (hcalled entry hentry)
      rw [live_snoc, Event.live, mem_keys_filter (· ∉ called.map Prod.fst), List.mem_filter, hp.keys key, hsnd,
        decide_eq_true_iff]
    · rw [live_snoc] at hentry
      exact hp.own entry (List.mem_filter.1 hentry).1
  · cases h

/-- Whatever the page renders and the user does, the hook tracks the live keys. -/
theorem reached {actions : List PageAction} (h : actions.foldlM Page.step Page.start = some p) : p.Tracks := by
  refine Folds.foldlM_some_invariant (fun p a p' hp h => ?_) start h
  cases a with
  | render overlays =>
    obtain ⟨p₁, hrender, hp₁⟩ := hp.render overlays
    cases hrender.symm.trans h
    exact hp₁
  | userBack =>
    obtain ⟨p₁, hback, hp₁⟩ := hp.userBack
    cases hback.symm.trans h
    exact hp₁
  | popstate => exact hp.popstate h

end Page.Tracks

end OnyxZygisk.WebUi.Overlay

import OnyxZygisk.WebUi.HistorySync
import OnyxZygisk.WebUi.OverlayHistory

/-!
# Orderly pages

What the history asks of its caller, put to the page: each render closes no overlay, or the last one with no back of
the user on its way; and it opens overlays only if it closes none and no cleanup is awaited (`Page.Orderly`). On such
a page `useOverlayHistory` keeps the stacks in step, whatever the user does meanwhile, so each settled back closes the
overlay on top and no other (`Page.orderly_tracksLive`).
-/

namespace OnyxZygisk.WebUi.Overlay

namespace Page

/-- The tracked keys of overlays that are not open any more. -/
def closing (p : Page) (overlays : List OverlayEntry) : List String :=
  p.tracked.filter fun key => !(get overlays key).any OverlayEntry.isOpen

/-- The open overlays that are not tracked once those are deleted. -/
def opening (p : Page) (overlays : List OverlayEntry) : List OverlayEntry :=
  overlays.filter fun entry => entry.isOpen && (entry.key ∉ p.tracked || entry.key ∈ p.closing overlays)

/-- The render closes at most the last overlay, with no back of the user on its way, and opens overlays only if it
closes none and no cleanup is awaited. -/
structure Orderly (p : Page) (overlays : List OverlayEntry) : Prop where
  closes : p.closing overlays = [] ∨
    p.closing overlays = p.world.history.activeKeys.getLast?.toList ∧ ∀ back ∈ p.world.pending, back = .cleanup
  opens : p.opening overlays = [] ∨ p.closing overlays = [] ∧ p.world.history.pendingCleanupCount = 0

instance (p : Page) (overlays : List OverlayEntry) : Decidable (p.Orderly overlays) :=
  decidable_of_iff (_ ∧ _) ⟨And.rec Orderly.mk, fun h => ⟨h.closes, h.opens⟩⟩

/-- Every step of the run so far has kept the stacks in step. -/
def InStep (p : Page) : Prop := ∀ t ∈ p.run, t.InStep

variable {p p' : Page} {overlays : List OverlayEntry}

theorem InStep.snoc (hp : p.InStep) {t : Taken String} (ht : t.InStep) {tracked : List String} {w : World String} :
    Page.InStep ⟨tracked, w, p.run ++ [t]⟩ := by
  intro t' ht'
  rcases List.mem_append.1 ht' with ht' | ht'
  · exact hp t' ht'
  · exact List.mem_singleton.1 ht' ▸ ht

/-! ### The two loops -/

/-- The first loop takes an action for each key that is closing and for no other. -/
theorem foldlM_untrack (keys : List String) :
    keys.foldlM (untrack overlays) p =
      (keys.filter fun key => !(get overlays key).any OverlayEntry.isOpen).foldlM (untrack overlays) p := by
  induction keys generalizing p with
  | nil => rfl
  | cons key keys ih =>
    by_cases hopen : (get overlays key).any OverlayEntry.isOpen = true
    · rw [List.filter_cons_of_neg (by simp [hopen]), List.foldlM_cons, untrack, if_pos hopen]
      exact ih
    · rw [List.filter_cons_of_pos (by simp [hopen]), List.foldlM_cons, List.foldlM_cons]
      exact congrArg _ (funext fun q => ih)

/-- Nothing is pushed when each open overlay is tracked. -/
theorem foldlM_track (entries : List OverlayEntry)
    (htracked : ∀ entry ∈ entries, entry.isOpen → entry.key ∈ p.tracked) :
    entries.foldlM track p = some p := by
  induction entries with
  | nil => rfl
  | cons entry entries ih =>
    rw [List.forall_mem_cons] at htracked
    have hnoop : track p entry = some p := by
      rw [track, if_pos]
      by_cases hopen : entry.isOpen
      · exact Or.inr (htracked.1 hopen)
      · exact Or.inl (by simpa using hopen)
    rw [List.foldlM_cons, hnoop]
    exact ih htracked.2

/-- With no cleanup awaited, pushes keep in step and leave none awaited. -/
theorem InStep.track (hp : p.InStep ∧ p.world.history.pendingCleanupCount = 0) {entry : OverlayEntry}
    (h : Page.track p entry = some p') : p'.InStep ∧ p'.world.history.pendingCleanupCount = 0 := by
  rw [Page.track] at h
  split at h
  · cases h
    exact hp
  · rw [act, World.step] at h
    split at h
    · cases h
    · next hstep =>
      split at hstep
      · cases hstep
      · cases hstep
        cases h
        refine ⟨hp.1.snoc ?_, hp.2⟩
        exact hp.2

/-- The last key is consumed in step, and only it is tracked no more. -/
theorem InStep.untrack (hp : p.InStep) {key : String} (hkey : key ∈ p.closing overlays)
    (hlast : p.world.history.activeKeys.getLast? = some key) (hpending : ∀ back ∈ p.world.pending, back = .cleanup)
    (h : Page.untrack overlays p key = some p') :
    p'.InStep ∧ p'.tracked = p.tracked.filter fun other => other ≠ key := by
  have hclosed := (List.mem_filter.1 hkey).2
  rw [Bool.not_eq_true'] at hclosed
  rw [Page.untrack, if_neg (Bool.not_eq_true _ ▸ hclosed)] at h
  obtain ⟨w, hstep⟩ := p.world.step_consume key
  rw [act, hstep] at h
  cases h
  refine ⟨hp.snoc ?_, rfl⟩
  exact fun _ => ⟨hlast, hpending⟩

theorem mem_of_opening_nil (hopening : p.opening overlays = []) {entry : OverlayEntry} (hentry : entry ∈ overlays)
    (hopen : entry.isOpen) : entry.key ∈ p.tracked ∧ entry.key ∉ p.closing overlays := by
  have hnot := fun hnew => List.eq_nil_iff_forall_not_mem.1 hopening entry (List.mem_filter.2 ⟨hentry, hnew⟩)
  simpa [hopen] using hnot

/-- An orderly render keeps in step. -/
theorem InStep.render (hp : p.InStep) (horderly : p.Orderly overlays) (h : p.render overlays = some p') :
    p'.InStep := by
  rw [Page.render, foldlM_untrack, ← closing] at h
  obtain hnone | ⟨key, hkey, hlast, hpending⟩ : p.closing overlays = [] ∨ ∃ key, p.closing overlays = [key] ∧
      p.world.history.activeKeys.getLast? = some key ∧ ∀ back ∈ p.world.pending, back = .cleanup := by
    rcases horderly.closes with hnone | ⟨hclosing, hpending⟩
    · exact .inl hnone
    · cases hlast : p.world.history.activeKeys.getLast? with
      | none =>
        rw [hlast] at hclosing
        exact .inl hclosing
      | some key =>
        rw [hlast] at hclosing
        exact .inr ⟨key, hclosing, rfl, hpending⟩
  · rw [hnone] at h
    change overlays.foldlM Page.track p = some p' at h
    rcases horderly.opens with hopening | ⟨-, hcount⟩
    · rw [foldlM_track overlays fun entry hentry hopen => (mem_of_opening_nil hopening hentry hopen).1] at h
      cases h
      exact hp
    · exact (Folds.foldlM_some_invariant (fun _ _ _ hs hnext => InStep.track hs hnext) ⟨hp, hcount⟩ h).1
  · have hopening : p.opening overlays = [] := by
      rcases horderly.opens with hopening | ⟨hclosing, -⟩
      · exact hopening
      · cases hkey.symm.trans hclosing
    rw [hkey, Option.bind_eq_bind, Option.bind_eq_some_iff] at h
    obtain ⟨q, hclosed, hopened⟩ := h
    obtain ⟨q', huntrack, hq⟩ := Folds.foldlM_cons_iff.1 hclosed
    cases hq
    have hmem : key ∈ p.closing overlays := hkey ▸ List.mem_singleton_self key
    obtain ⟨hin, htracked⟩ := hp.untrack hmem hlast hpending huntrack
    -- what is open was tracked before, and is not the key that closes
    rw [foldlM_track] at hopened
    · cases hopened
      exact hin
    · intro entry hentry hopen
      obtain ⟨hold, hstays⟩ := mem_of_opening_nil hopening hentry hopen
      rw [htracked, List.mem_filter]
      exact ⟨hold, decide_eq_true fun heq => hstays (heq ▸ hmem)⟩

theorem InStep.userBack (hp : p.InStep) (h : p.act .userBack = some p') : p'.InStep := by
  cases h
  refine hp.snoc ?_
  trivial

theorem InStep.popstate (hp : p.InStep) (h : p.popstate = some p') : p'.InStep := by
  rw [Page.popstate] at h
  split at h
  · cases h
    refine hp.snoc ?_
    trivial
  · cases h

/-! ### Runs of orderly pages -/

/-- A render among the actions is orderly on the page it is made on. -/
def OrderlyAt (p : Page) : PageAction → Prop
  | .render overlays => p.Orderly overlays
  | _ => True

instance (p : Page) : (a : PageAction) → Decidable (p.OrderlyAt a)
  | .render overlays => inferInstanceAs (Decidable (p.Orderly overlays))
  | .userBack | .popstate => inferInstanceAs (Decidable True)

def OrderlyRun (p : Page) : List PageAction → Prop
  | [] => True
  | a :: actions => p.OrderlyAt a ∧ ∀ q ∈ p.step a, q.OrderlyRun actions

instance OrderlyRun.decidable (p : Page) : (actions : List PageAction) → Decidable (p.OrderlyRun actions)
  | [] => inferInstanceAs (Decidable True)
  | a :: actions =>
    have := fun q : Page => OrderlyRun.decidable q actions
    inferInstanceAs (Decidable (p.OrderlyAt a ∧ ∀ q ∈ p.step a, q.OrderlyRun actions))

theorem InStep.run (hp : p.InStep) {actions : List PageAction} (horderly : p.OrderlyRun actions)
    (h : actions.foldlM Page.step p = some p') : p'.InStep := by
  induction actions generalizing p with
  | nil =>
    cases h
    exact hp
  | cons a actions ih =>
    obtain ⟨q, hstep, hrest⟩ := Folds.foldlM_cons_iff.1 h
    refine ih ?_ (horderly.2 q hstep) hrest
    cases a with
    | render overlays => exact hp.render horderly.1 hstep
    | userBack => exact hp.userBack hstep
    | popstate => exact hp.popstate hstep

/-- On a page whose renders are orderly the history mirrors the tracked overlays, and each settled back of the user
closes the one on top and no other. -/
theorem orderly_tracksLive {actions : List PageAction} (horderly : start.OrderlyRun actions)
    (h : actions.foldlM Page.step start = some p) : TracksLive p.run p.world :=
  (Tracks.reached h).steps.tracksLive_of_inStep
    (InStep.run (fun _ ht => absurd ht List.not_mem_nil) horderly h)

/-- An overlay is opened, closed by the page, and opened again below another one, which a back of the user closes. -/
def sheetAndDialog : List PageAction :=
  [.render [⟨"sheet", true⟩, ⟨"dialog", false⟩], .render [⟨"sheet", false⟩, ⟨"dialog", false⟩], .popstate,
    .render [⟨"sheet", true⟩, ⟨"dialog", true⟩], .userBack, .popstate]

theorem orderly_tracksLive_sheetAndDialog :
    ∃ p, sheetAndDialog.foldlM Page.step start = some p ∧ p.tracked = ["sheet"] ∧ TracksLive p.run p.world :=
  ⟨_, rfl, by decide, @orderly_tracksLive _ sheetAndDialog (by decide) rfl⟩

end Page

end OnyxZygisk.WebUi.Overlay

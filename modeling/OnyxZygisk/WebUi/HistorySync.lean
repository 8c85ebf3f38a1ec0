import OnyxZygisk.WebUi.History

/-!
# Keeping the history in step

A caller of the history keeps its stack and the browser's in step if it consumes no key but the last, with no
back of the user on its way, and pushes nothing while a cleanup is awaited (`Taken.InStep`). The browser then
stands on top of the tracked keys, below one stale entry for each cleanup to come (`Synced`), and every
settled back of the user closes the last live entry alone (`Steps.tracksLive_of_inStep`).
-/

namespace OnyxZygisk.WebUi.Overlay

variable {α : Type}

/-- Nothing is pushed while a cleanup is awaited, and only the last key is consumed, with no back of the user
on its way. -/
def Taken.InStep (t : Taken α) : Prop :=
  match t.event with
  | .push _ _ => t.before.history.pendingCleanupCount = 0
  | .consume key =>
    key ∈ t.before.history.activeKeys →
      t.before.history.activeKeys.getLast? = some key ∧ ∀ back ∈ t.before.pending, back = .cleanup
  | _ => True

/-- The browser stands on top of the tracked keys and of one stale entry for each cleanup awaited, and these
cleanups come before the backs of the user. -/
structure Synced (w : World α) (stale : List (Option String)) (users : List Back) : Prop where
  browser : w.browser.current :: w.browser.below = stale ++ (w.history.activeKeys.reverse.map some ++ [none])
  count : w.history.pendingCleanupCount = stale.length
  pending : w.pending = List.replicate stale.length Back.cleanup ++ users
  users : Back.cleanup ∉ users

theorem synced_start : Synced (World.start : World α) [] [] :=
  ⟨rfl, rfl, rfl, List.not_mem_nil⟩

theorem Synced.push {w : World α} {stale : List (Option String)} {users : List Back} (hw : Synced w stale users)
    (hcount : w.history.pendingCleanupCount = 0) (key : String) (onBack : α) :
    Synced { w with history := w.history.push key onBack, browser := w.browser.pushState key } stale users := by
  obtain rfl := List.length_eq_zero_iff.1 (hw.count.symm.trans hcount)
  refine ⟨?_, hw.count, hw.pending, hw.users⟩
  rw [History.push, Browser.pushState, List.nil_append, List.reverse_append, List.map_append]
  exact congrArg (some key :: ·) hw.browser

/-- Taking the last key for stale. -/
theorem Synced.consume {w : World α} {stale : List (Option String)} {users : List Back}
    {entries : List (String × α)} (hm : Mirrors w.history entries) (hw : Synced w stale users) {key : String}
    {h : History α} (hc : w.history.consume key = some h) (hlast : w.history.activeKeys.getLast? = some key)
    (hpending : ∀ back ∈ w.pending, back = .cleanup) :
    Synced { w with history := h, pending := w.pending ++ [.cleanup] } (stale ++ [some key]) [] := by
  have hnone : users = [] := by
    refine List.eq_nil_iff_forall_not_mem.2 fun back hback => ?_
    obtain rfl := hpending back (hw.pending ▸ List.mem_append_right _ hback)
    exact hw.users hback
  obtain ⟨keys, hkeys⟩ := List.getLast?_eq_some_iff.1 hlast
  have hnodup := hm.nodup
  rw [← hm.keys, hkeys, List.nodup_append] at hnodup
  rw [History.consume] at hc
  split at hc
  · cases hc
    refine ⟨?_, ?_, ?_, List.not_mem_nil⟩
    · have hfilter : (keys ++ [key]).filter (fun candidate => candidate ≠ key) = keys := by
        rw [List.filter_append, List.filter_cons_of_neg (by simp), List.filter_nil, List.append_nil,
          List.filter_eq_self]
        exact fun other hother => decide_eq_true (hnodup.2.2 other hother key List.mem_cons_self)
      have hbrowser := hw.browser
      rw [hkeys, List.reverse_append] at hbrowser
      rw [hkeys, hfilter, List.append_assoc]
      exact hbrowser
    · rw [List.length_append]
      exact congrArg (· + 1) hw.count
    · rw [hw.pending, hnone, List.append_nil, List.append_nil, List.length_append]
      exact List.replicate_succ'.symm
  · cases hc

/-- With a stale entry the first back on its way is the cleanup of one. -/
theorem Synced.first {w : World α} {top : Option String} {stale : List (Option String)} {users pending : List Back}
    {back : Back} (hw : Synced w (top :: stale) users) (hpending : w.pending = back :: pending) :
    back = .cleanup ∧ pending = List.replicate stale.length Back.cleanup ++ users := by
  have hqueue := hpending.symm.trans hw.pending
  rw [List.length_cons, List.replicate_succ, List.cons_append, List.cons.injEq] at hqueue
  exact hqueue

/-- A popstate of a cleanup drops a stale entry. -/
theorem Synced.cleanup {w : World α} {state top : Option String} {stale below : List (Option String)}
    {users pending : List Back} (hw : Synced w (top :: stale) users) (hbelow : w.browser.below = state :: below)
    {back : Back} (hpending : w.pending = back :: pending) :
    Synced ⟨(w.history.onPopState state).1, ⟨state, below⟩, pending⟩ stale users := by
  have hcount := hw.count
  rw [List.length_cons] at hcount
  rw [History.onPopState, if_pos (by omega)]
  refine ⟨?_, ?_, (hw.first hpending).2, hw.users⟩
  · have hbrowser := hw.browser
    rw [hbelow, List.cons_append, List.cons.injEq] at hbrowser
    exact hbrowser.2
  · exact (congrArg (· - 1) hcount).trans (Nat.add_sub_cancel _ _)

/-- With no stale entry the browser stands on the last key, and below it is the one before. -/
theorem Synced.endsBelow {w : World α} {users : List Back} (hw : Synced w [] users) {state : Option String}
    {below : List (Option String)} (hbelow : w.browser.below = state :: below) :
    ∃ key keys, w.history.activeKeys.reverse = key :: keys ∧ state :: below = keys.map some ++ [none] ∧
      EndsBelow state (key :: keys) := by
  have hbrowser := hw.browser
  rw [hbelow, List.nil_append] at hbrowser
  match hkeys : w.history.activeKeys.reverse with
  | [] =>
    rw [hkeys] at hbrowser
    exact absurd (List.cons.inj hbrowser).2 (List.cons_ne_nil state below)
  | key :: keys =>
    rw [hkeys, List.map_cons, List.cons_append, List.cons.injEq] at hbrowser
    refine ⟨key, keys, rfl, hbrowser.2, ?_⟩
    match keys with
    | [] => exact fun heq => (Option.some_ne_none key) (heq.symm.trans (List.cons.inj hbrowser.2).1)
    | next :: rest => exact (List.cons.inj hbrowser.2).1

theorem Synced.aligned {w : World α} {users : List Back} (hw : Synced w [] users) : Aligned w := by
  refine Or.inr ⟨hw.count, fun state hstate => ?_⟩
  obtain ⟨below, hbelow⟩ : ∃ below, w.browser.below = state :: below := by
    match hb : w.browser.below with
    | [] =>
      rw [hb] at hstate
      cases hstate
    | _ :: below =>
      rw [hb] at hstate
      cases hstate
      exact ⟨below, rfl⟩
  obtain ⟨key, keys, hkeys, -, hends⟩ := hw.endsBelow hbelow
  rw [hkeys]
  exact hends

/-- A popstate of the user takes the last key off both stacks. -/
theorem Synced.userPopped {w : World α} {entries : List (String × α)} (hm : Mirrors w.history entries)
    {users pending : List Back} (hw : Synced w [] users) {back : Back} {state : Option String}
    {below : List (Option String)} (hbelow : w.browser.below = state :: below)
    (hpending : w.pending = back :: pending) :
    Synced ⟨(w.history.onPopState state).1, ⟨state, below⟩, pending⟩ [] pending := by
  obtain ⟨key, keys, hkeys, hstack, hends⟩ := hw.endsBelow hbelow
  have hcount : w.history.pendingCleanupCount = 0 := hw.count
  have hleft : (w.history.onPopState state).1.activeKeys.reverse = keys := by
    rw [hm.keys_left hcount]
    rw [← hkeys, hm.keys_reverse, ← takeWhile_above_iff state hm.reversed.2] at hends
    have hsplit := List.takeWhile_append_dropWhile (p := above state) (l := entries.reverse)
    rw [hends] at hsplit
    rw [hm.keys_reverse] at hkeys
    match hrev : entries.reverse with
    | [] =>
      rw [hrev] at hkeys
      cases hkeys
    | entry :: rest =>
      rw [hrev] at hsplit hkeys
      have hdrop : (entry :: rest).dropWhile (above state) = rest := (List.cons.inj hsplit).2
      rw [hdrop]
      exact (List.cons.inj hkeys).2
  refine ⟨?_, ?_, rfl, ?_⟩
  · rw [hleft]
    exact hstack
  · rw [History.onPopState, if_neg (by omega)]
    exact hcount
  · have hqueue : w.pending = users := hw.pending
    intro hmem
    exact hw.users (hqueue ▸ hpending ▸ List.mem_cons_of_mem back hmem)

theorem step_synced {w w' : World α} {a : Action α} {e : Event α} {entries : List (String × α)}
    {stale : List (Option String)} {users : List Back} (hm : Mirrors w.history entries)
    (hw : Synced w stale users) (hin : Taken.InStep ⟨w, e⟩) (h : w.step a = some (e, w')) :
    ∃ stale' users', Synced w' stale' users' := by
  cases a with
  | push key onBack =>
    rw [World.step] at h
    split at h
    · cases h
    · cases h
      exact ⟨stale, users, hw.push hin key onBack⟩
  | consume key =>
    rw [World.step] at h
    split at h
    · cases h
      exact ⟨stale, users, hw⟩
    · next history hc =>
      cases h
      have hlive : key ∈ w.history.activeKeys := by
        rw [hm.keys, ← hm.stored.isSome_iff]
        by_contra hnone
        rw [History.consume, if_neg hnone] at hc
        cases hc
      obtain ⟨hlast, hpending⟩ := hin hlive
      exact ⟨_, _, hw.consume hm hc hlast hpending⟩
  | userBack =>
    cases h
    refine ⟨stale, users ++ [.user (decide (Back.cleanup ∉ w.pending))], hw.browser, hw.count, ?_, ?_⟩
    · rw [← List.append_assoc, ← hw.pending]
    · rw [List.mem_append, List.mem_singleton]
      rintro (hmem | heq)
      · exact hw.users hmem
      · cases heq
  | deliver =>
    obtain ⟨back, called, rfl⟩ : ∃ back called, e = .popstate back called := by
      rw [World.step] at h
      split at h
      · cases h
        exact ⟨_, _, rfl⟩
      · cases h
    obtain ⟨state, below, pending, hbelow, hpending, -, rfl⟩ := popstate_cases h
    cases stale with
    | nil => exact ⟨[], pending, hw.userPopped hm hbelow hpending⟩
    | cons top stale => exact ⟨stale, users, hw.cleanup hbelow hpending⟩

theorem Steps.synced {tr : List (Taken α)} {w : World α} (h : Steps tr w) (hin : ∀ t ∈ tr, t.InStep) :
    ∃ stale users, Synced w stale users := by
  induction h with
  | start => exact ⟨[], [], synced_start⟩
  | step hrun hstep ih =>
    obtain ⟨stale, users, hw⟩ := ih fun t ht => hin t (List.mem_append_left _ ht)
    exact step_synced hrun.mirrors hw (hin _ (List.mem_append_right _ List.mem_cons_self)) hstep

/-- A caller that keeps in step has each of its settled backs close the last live entry. -/
theorem Steps.tracksLive_of_inStep {tr : List (Taken α)} {w : World α} (h : Steps tr w)
    (hin : ∀ t ∈ tr, t.InStep) : TracksLive tr w := by
  refine h.tracksLive fun t ht hback => ?_
  obtain ⟨called, hevent⟩ := Event.settledBack_iff.1 hback
  obtain ⟨before, after, htr⟩ := List.append_of_mem ht
  obtain ⟨hrun, a, w', hstep⟩ := h.taken htr
  obtain ⟨stale, users, hw⟩ := hrun.synced fun t' ht' => hin t' (htr ▸ List.mem_append_left _ ht')
  rw [hevent] at hstep
  obtain ⟨-, -, pending, -, hpending, -⟩ := popstate_cases hstep
  cases stale with
  | nil => exact hw.aligned
  | cons top stale =>
    -- the first popstate to come would be a cleanup's
    cases (hw.first hpending).1

end OnyxZygisk.WebUi.Overlay

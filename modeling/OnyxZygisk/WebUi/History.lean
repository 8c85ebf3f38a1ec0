import Mathlib.Data.List.Induction
import Mathlib.Data.List.TakeWhile
import Mathlib.Data.List.Nodup
import Mathlib.Logic.Function.Basic

/-!
# The overlay history

`History` keeps a stack of keys beside the browser's own stack: each open overlay has an entry in both, a
back of the user closes the overlay on top, and an overlay that is closed otherwise is consumed, which goes
back once to drop its entry. A back is carried out later, by the popstate it ends in. A run is a sequence of
pushes, consumes, backs of the user and popstates in any order.

The tracked keys are the live ones at all times (`mirrors`). A popstate of the user runs the callback of the
last live entry alone if and only if the browser comes to stand on the entry below it (`Aligned`), and a
consume below the top, a consume behind a back of the user and a push behind a consume each end that
(`onPopState_live`).
-/

namespace OnyxZygisk.WebUi.Overlay

variable {α : Type}

/-! ### The class -/

/-- The fields of `History`; `α` is the type of the callbacks. -/
structure History (α : Type) where
  activeKeys : List String
  entries : String → Option α
  pendingCleanupCount : Nat

namespace History

def empty : History α := ⟨[], fun _ => none, 0⟩

/-- `push`, short of `pushState`. -/
def push (h : History α) (key : String) (onBack : α) : History α :=
  { h with activeKeys := h.activeKeys ++ [key], entries := Function.update h.entries key (some onBack) }

/-- `consume`, short of `history.back()`; `none` where it returns `false`. -/
def consume (h : History α) (key : String) : Option (History α) :=
  if (h.entries key).isSome then
    some
      { activeKeys := h.activeKeys.filter fun candidate => candidate ≠ key
        entries := Function.update h.entries key none
        pendingCleanupCount := h.pendingCleanupCount + 1 }
  else none

/-- The loop of `onPopState` over the keys from the last one on: what is left of the keys and of the
entries, and the callbacks it runs. -/
def popEntries (currentKey : Option String) :
    List String → (String → Option α) → List String × (String → Option α) × List (String × α)
  | [], entries => ([], entries, [])
  | lastKey :: keys, entries =>
    if some lastKey = currentKey then (lastKey :: keys, entries, [])
    else
      match entries lastKey with
      | none => popEntries currentKey keys entries
      | some onBack =>
        let popped := popEntries currentKey keys (Function.update entries lastKey none)
        (popped.1, popped.2.1, (lastKey, onBack) :: popped.2.2)

/-- `onPopState`, with the callbacks it runs; the callbacks set state of the page, which comes back to the
history in later actions. -/
def onPopState (h : History α) (currentKey : Option String) : History α × List (String × α) :=
  if 0 < h.pendingCleanupCount then ({ h with pendingCleanupCount := h.pendingCleanupCount - 1 }, [])
  else
    let popped := popEntries currentKey h.activeKeys.reverse h.entries
    ({ h with activeKeys := popped.1.reverse, entries := popped.2.1 }, popped.2.2)

end History

/-! ### The page and its browser -/

/-- The browser's stack up to the entry it stands on: the `key` of that entry's state and of those below it.
The entries ahead of it are dropped by a push and reached by no back. -/
structure Browser where
  current : Option String
  below : List (Option String)
  deriving DecidableEq

/-- `replaceState(null)` of the constructor. -/
def Browser.root : Browser := ⟨none, []⟩

def Browser.pushState (b : Browser) (key : String) : Browser := ⟨some key, b.current :: b.below⟩

/-- There is no way back from the entry the page was opened with: the page is left. -/
def Browser.goBack (b : Browser) : Option Browser :=
  match b.below with
  | [] => none
  | state :: below => some ⟨state, below⟩

/-- A `history.back()` whose popstate is still to come. -/
inductive Back where
  /-- Of `consume`. -/
  | cleanup
  /-- Of the user; `settled` if no popstate of a `consume` was still to come at the time. -/
  | user (settled : Bool)
  deriving DecidableEq

structure World (α : Type) where
  history : History α
  browser : Browser
  /-- The backs on their way, the first one first. -/
  pending : List Back

def World.start : World α := ⟨History.empty, Browser.root, []⟩

inductive Action (α : Type) where
  | push (key : String) (onBack : α)
  | consume (key : String)
  | userBack
  /-- The popstate of the first back on its way. -/
  | deliver

inductive Event (α : Type) where
  | push (key : String) (onBack : α)
  | consume (key : String)
  | userBack
  /-- With the callbacks run, and the keys they were pushed under. -/
  | popstate (back : Back) (called : List (String × α))

/-- One action of a run. A key is not pushed while it is live, and a popstate needs a back on its way. -/
def World.step (w : World α) : Action α → Option (Event α × World α)
  | .push key onBack =>
    if key ∈ w.history.activeKeys then none
    else
      some (.push key onBack,
        { w with history := w.history.push key onBack, browser := w.browser.pushState key })
  | .consume key =>
    match w.history.consume key with
    | none => some (.consume key, w)
    | some history => some (.consume key, { w with history := history, pending := w.pending ++ [.cleanup] })
  | .userBack =>
    some (.userBack, { w with pending := w.pending ++ [.user (decide (Back.cleanup ∉ w.pending))] })
  | .deliver =>
    match w.pending, w.browser.goBack with
    | back :: pending, some browser =>
      let popped := w.history.onPopState browser.current
      some (.popstate back popped.2, ⟨popped.1, browser, pending⟩)
    | _, _ => none

/-- A step of a run: the world it is taken in and what happens. -/
structure Taken (α : Type) where
  before : World α
  event : Event α

/-- The runs from the page's start. -/
inductive Steps : List (Taken α) → World α → Prop
  | start : Steps [] World.start
  | step {tr w a e w'} : Steps tr w → w.step a = some (e, w') → Steps (tr ++ [⟨w, e⟩]) w'

/-! ### The live entries -/

/-- What happens to the entries pushed and not yet consumed or popped. -/
def Event.live : Event α → List (String × α) → List (String × α)
  | .push key onBack, live => live ++ [(key, onBack)]
  | .consume key, live => live.filter fun entry => entry.1 ≠ key
  | .userBack, live => live
  | .popstate _ called, live => live.filter fun entry => entry.1 ∉ called.map Prod.fst

/-- The live entries after a run, in push order. -/
def live (tr : List (Taken α)) : List (String × α) := tr.foldl (fun entries t => t.event.live entries) []

@[simp] theorem live_nil : live ([] : List (Taken α)) = [] := rfl

@[simp] theorem live_snoc (tr : List (Taken α)) (t : Taken α) : live (tr ++ [t]) = t.event.live (live tr) := by
  rw [live, List.foldl_append]
  rfl

/-- The popstate of a settled back of the user. -/
def Event.settledBack : Event α → Bool
  | .popstate (.user settled) _ => settled
  | _ => false

/-- A settled back of the user runs the callback of the last live entry and no other. -/
def Taken.ClosesLast (t : Taken α) (entries : List (String × α)) : Prop :=
  ∀ called, t.event = .popstate (.user true) called → called = entries.getLast?.toList

/-- The tracked keys are the live ones in every world of the run, and each settled back of the user closes
the last live entry. -/
def TracksLive (tr : List (Taken α)) (w : World α) : Prop :=
  (∀ before t after, tr = before ++ t :: after →
    t.before.history.activeKeys = (live before).map Prod.fst ∧ t.ClosesLast (live before)) ∧
  w.history.activeKeys = (live tr).map Prod.fst

/-! ### When the stacks are aligned -/

/-- Whether a popstate into an entry of the key `state` closes the first of the keys alone, `keys` from the
last one on. -/
def EndsBelow (state : Option String) : List String → Prop
  | [] => True
  | [key] => state ≠ some key
  | _ :: key :: _ => state = some key

instance (state : Option String) : (keys : List String) → Decidable (EndsBelow state keys)
  | [] => .isTrue trivial
  | [key] => inferInstanceAs (Decidable (state ≠ some key))
  | _ :: key :: _ => inferInstanceAs (Decidable (state = some key))

/-- No cleanup is awaited and the entry below the browser's is the one tracked below the last key, or nothing
is tracked. -/
def Aligned (w : World α) : Prop :=
  w.history.activeKeys = [] ∨
    w.history.pendingCleanupCount = 0 ∧
      ∀ state ∈ w.browser.below.head?, EndsBelow state w.history.activeKeys.reverse

instance (w : World α) : Decidable (Aligned w) :=
  inferInstanceAs (Decidable (_ ∨ _ ∧ ∀ state ∈ w.browser.below.head?, EndsBelow state w.history.activeKeys.reverse))

/-- The world is aligned at the popstate of each settled back of the user. -/
def AlignedAtBacks (tr : List (Taken α)) : Prop := ∀ t ∈ tr, t.event.settledBack → Aligned t.before

instance (tr : List (Taken α)) : Decidable (AlignedAtBacks tr) :=
  inferInstanceAs (Decidable (∀ t ∈ tr, t.event.settledBack → Aligned t.before))

/-! ### The tracked keys are live -/

/-- The map holds the callback of each of the entries and no other. -/
def Stores (map : String → Option α) (entries : List (String × α)) : Prop :=
  ∀ key onBack, map key = some onBack ↔ (key, onBack) ∈ entries

theorem Stores.isSome_iff {map : String → Option α} {entries : List (String × α)} (h : Stores map entries)
    (key : String) : (map key).isSome ↔ key ∈ entries.map Prod.fst := by
  rw [Option.isSome_iff_exists, List.mem_map]
  constructor
  · rintro ⟨onBack, hmap⟩
    exact ⟨(key, onBack), (h key onBack).1 hmap, rfl⟩
  · rintro ⟨⟨key', onBack⟩, hmem, rfl⟩
    exact ⟨onBack, (h key' onBack).2 hmem⟩

theorem Stores.snoc {map : String → Option α} {entries : List (String × α)} (h : Stores map entries)
    {key : String} (hkey : key ∉ entries.map Prod.fst) (onBack : α) :
    Stores (Function.update map key (some onBack)) (entries ++ [(key, onBack)]) := by
  intro key' onBack'
  rw [List.mem_append, List.mem_singleton, Prod.mk.injEq]
  by_cases heq : key' = key
  · rw [heq, Function.update_self, Option.some.injEq]
    constructor
    · intro hback
      exact Or.inr ⟨rfl, hback.symm⟩
    · rintro (hmem | ⟨-, hback⟩)
      · exact absurd (List.mem_map_of_mem hmem) hkey
      · exact hback.symm
  · rw [Function.update_of_ne heq, h key' onBack']
    exact ⟨Or.inl, fun hmem => hmem.resolve_right fun hlast => heq hlast.1⟩

theorem Stores.erase {map : String → Option α} {entries : List (String × α)} (h : Stores map entries)
    (key : String) :
    Stores (Function.update map key none) (entries.filter fun entry => entry.1 ≠ key) := by
  intro key' onBack'
  rw [List.mem_filter, decide_eq_true_iff]
  by_cases heq : key' = key
  · rw [heq, Function.update_self]
    exact ⟨fun hnone => (Option.some_ne_none _ hnone.symm).elim, fun hmem => absurd rfl hmem.2⟩
  · rw [Function.update_of_ne heq, h key' onBack']
    exact ⟨fun hmem => ⟨hmem, heq⟩, And.left⟩

/-- The entries above the one the browser stands on. -/
def above (state : Option String) (entry : String × α) : Bool := decide (some entry.1 ≠ state)

theorem filter_ne_head {entry : String × α} {entries : List (String × α)}
    (hnodup : ((entry :: entries).map Prod.fst).Nodup) :
    ((entry :: entries).filter fun e => e.1 ≠ entry.1) = entries := by
  have hhead := (List.nodup_cons.1 hnodup).1
  rw [List.filter_cons_of_neg (by simp), List.filter_eq_self]
  intro e he
  exact decide_eq_true fun heq => hhead (heq ▸ List.mem_map_of_mem he)

/-- The loop runs the callbacks of the entries above the browser's and forgets these. -/
theorem popEntries_spec (state : Option String) {entries : List (String × α)} {map : String → Option α}
    (hmap : Stores map entries) (hnodup : (entries.map Prod.fst).Nodup) :
    (History.popEntries state (entries.map Prod.fst) map).1 =
        (entries.dropWhile (above state)).map Prod.fst ∧
      Stores (History.popEntries state (entries.map Prod.fst) map).2.1 (entries.dropWhile (above state)) ∧
      (History.popEntries state (entries.map Prod.fst) map).2.2 = entries.takeWhile (above state) := by
  induction entries generalizing map with
  | nil => exact ⟨rfl, hmap, rfl⟩
  | cons entry entries ih =>
    rw [List.map_cons, History.popEntries]
    by_cases hstate : some entry.1 = state
    · have habove : above state entry = false := decide_eq_false (not_not.2 hstate)
      rw [if_pos hstate, List.dropWhile_cons_of_neg (by simp [habove]),
        List.takeWhile_cons_of_neg (by simp [habove])]
      exact ⟨rfl, hmap, rfl⟩
    · have habove : above state entry = true := decide_eq_true hstate
      have herase := hmap.erase entry.1
      rw [filter_ne_head hnodup] at herase
      have hrest := ih herase (List.nodup_cons.1 hnodup).2
      rw [if_neg hstate, (hmap entry.1 entry.2).2 List.mem_cons_self, List.dropWhile_cons_of_pos habove,
        List.takeWhile_cons_of_pos habove]
      exact ⟨hrest.1, hrest.2.1, congrArg _ hrest.2.2⟩

/-- Without the entries passed there is what the loop leaves. -/
theorem filter_passed (state : Option String) {entries : List (String × α)}
    (hnodup : (entries.map Prod.fst).Nodup) :
    (entries.filter fun entry => entry.1 ∉ (entries.takeWhile (above state)).map Prod.fst) =
      entries.dropWhile (above state) := by
  have hsplit := List.takeWhile_append_dropWhile (p := above state) (l := entries)
  generalize entries.takeWhile (above state) = passed at *
  generalize entries.dropWhile (above state) = left at *
  subst hsplit
  rw [List.map_append, List.nodup_append] at hnodup
  rw [List.filter_append, List.filter_eq_nil_iff.2, List.filter_eq_self.2, List.nil_append]
  · intro entry hentry
    exact decide_eq_true fun hmem => hnodup.2.2 _ hmem _ (List.mem_map_of_mem hentry) rfl
  · intro entry hentry
    simp only [decide_eq_true_eq, not_not]
    exact List.mem_map_of_mem hentry

/-- The history tracks `entries`. -/
structure Mirrors (h : History α) (entries : List (String × α)) : Prop where
  keys : h.activeKeys = entries.map Prod.fst
  nodup : (entries.map Prod.fst).Nodup
  stored : Stores h.entries entries

theorem mirrors_empty : Mirrors (History.empty : History α) [] :=
  ⟨rfl, List.nodup_nil, fun _ _ => ⟨fun h => (Option.some_ne_none _ h.symm).elim, fun h => by cases h⟩⟩

namespace Mirrors

variable {h : History α} {entries : List (String × α)}

theorem push (hm : Mirrors h entries) {key : String} (hkey : key ∉ h.activeKeys) (onBack : α) :
    Mirrors (h.push key onBack) (entries ++ [(key, onBack)]) := by
  rw [hm.keys] at hkey
  refine ⟨?_, ?_, hm.stored.snoc hkey onBack⟩
  · rw [List.map_append, ← hm.keys]
    rfl
  · rw [List.map_append]
    refine List.nodup_append.2 ⟨hm.nodup, List.nodup_singleton key, ?_⟩
    intro live hlive last hlast heq
    rw [heq, List.mem_singleton.1 hlast] at hlive
    exact hkey hlive

theorem consume (hm : Mirrors h entries) {key : String} {h' : History α} (hc : h.consume key = some h') :
    Mirrors h' (entries.filter fun entry => entry.1 ≠ key) := by
  rw [History.consume] at hc
  split at hc
  · obtain rfl := (Option.some.inj hc).symm
    refine ⟨?_, ?_, hm.stored.erase key⟩
    · rw [hm.keys, List.filter_map]
      rfl
    · exact hm.nodup.sublist (List.filter_sublist.map Prod.fst)
  · cases hc

/-- A key that is not live is none of those consumed. -/
theorem consume_absent (hm : Mirrors h entries) {key : String} (hc : h.consume key = none) :
    (entries.filter fun entry => entry.1 ≠ key) = entries := by
  rw [History.consume] at hc
  split at hc
  · cases hc
  · next habsent =>
    rw [hm.stored.isSome_iff] at habsent
    rw [List.filter_eq_self]
    intro entry hentry
    exact decide_eq_true fun heq => habsent (heq ▸ List.mem_map_of_mem hentry)

theorem reversed (hm : Mirrors h entries) :
    Stores h.entries entries.reverse ∧ (entries.reverse.map Prod.fst).Nodup := by
  refine ⟨fun key onBack => ?_, ?_⟩
  · rw [List.mem_reverse]
    exact hm.stored key onBack
  · rw [List.map_reverse, List.nodup_reverse]
    exact hm.nodup

theorem keys_reverse (hm : Mirrors h entries) : h.activeKeys.reverse = entries.reverse.map Prod.fst := by
  rw [hm.keys, List.map_reverse]

/-- The callbacks of a popstate that is not taken for a cleanup. -/
theorem called (hm : Mirrors h entries) (hcount : h.pendingCleanupCount = 0) (state : Option String) :
    (h.onPopState state).2 = entries.reverse.takeWhile (above state) := by
  rw [History.onPopState, if_neg (by omega), hm.keys_reverse]
  exact (popEntries_spec state hm.reversed.1 hm.reversed.2).2.2

theorem onPopState (hm : Mirrors h entries) (state : Option String) :
    Mirrors (h.onPopState state).1
      (entries.filter fun entry => entry.1 ∉ (h.onPopState state).2.map Prod.fst) := by
  rcases Nat.eq_zero_or_pos h.pendingCleanupCount with hcount | hcount
  · have hpop := popEntries_spec state hm.reversed.1 hm.reversed.2
    have hleft := congrArg List.reverse (filter_passed state hm.reversed.2)
    rw [List.filter_reverse, List.reverse_reverse, ← hm.called hcount state] at hleft
    rw [hleft, History.onPopState, if_neg (by omega), hm.keys_reverse]
    refine ⟨?_, ?_, fun key onBack => ?_⟩
    · refine (congrArg List.reverse hpop.1).trans ?_
      rw [List.map_reverse]
    · rw [List.map_reverse, List.nodup_reverse]
      exact hm.reversed.2.sublist ((List.dropWhile_sublist _).map Prod.fst)
    · rw [List.mem_reverse]
      exact hpop.2.1 key onBack
  · rw [History.onPopState, if_pos hcount, List.filter_eq_self.2 (by simp)]
    exact ⟨hm.keys, hm.nodup, hm.stored⟩

/-- The keys such a popstate leaves. -/
theorem keys_left (hm : Mirrors h entries) (hcount : h.pendingCleanupCount = 0) (state : Option String) :
    (h.onPopState state).1.activeKeys.reverse = (entries.reverse.dropWhile (above state)).map Prod.fst := by
  rw [History.onPopState, if_neg (by omega), hm.keys_reverse, List.reverse_reverse]
  exact (popEntries_spec state hm.reversed.1 hm.reversed.2).1

end Mirrors

/-- Each step tracks the live entries on. -/
theorem step_mirrors {w w' : World α} {a : Action α} {e : Event α} {entries : List (String × α)}
    (hm : Mirrors w.history entries) (h : w.step a = some (e, w')) : Mirrors w'.history (e.live entries) := by
  cases a with
  | push key onBack =>
    rw [World.step] at h
    split at h
    · cases h
    · next hkey =>
      cases h
      exact hm.push hkey onBack
  | consume key =>
    rw [World.step] at h
    split at h
    · next hc =>
      cases h
      rw [Event.live, hm.consume_absent hc]
      exact hm
    · next history hc =>
      cases h
      exact hm.consume hc
  | userBack =>
    cases h
    exact hm
  | deliver =>
    rw [World.step] at h
    split at h
    · cases h
      exact hm.onPopState _
    · cases h

theorem Steps.mirrors {tr : List (Taken α)} {w : World α} (h : Steps tr w) : Mirrors w.history (live tr) := by
  induction h with
  | start => exact mirrors_empty
  | step _ hstep ih =>
    rw [live_snoc]
    exact step_mirrors ih hstep

/-! ### The backs of the user -/

/-- The loop stops below the first of the entries, and not before it. -/
theorem takeWhile_above_iff (state : Option String) {entries : List (String × α)}
    (hnodup : (entries.map Prod.fst).Nodup) :
    entries.takeWhile (above state) = entries.head?.toList ↔ EndsBelow state (entries.map Prod.fst) := by
  match entries with
  | [] => exact iff_of_true rfl trivial
  | [entry] =>
    by_cases habove : some entry.1 = state
    · rw [List.takeWhile_cons_of_neg (by simp [above, habove])]
      exact iff_of_false (by simp) fun hne => hne habove.symm
    · rw [List.takeWhile_cons_of_pos (by simp [above, habove])]
      exact iff_of_true rfl (Ne.symm habove)
  | entry :: next :: rest =>
    have hne : entry.1 ≠ next.1 := fun heq =>
      (List.nodup_cons.1 hnodup).1 (heq ▸ List.mem_cons_self)
    by_cases hnext : some next.1 = state
    · have habove : some entry.1 ≠ state := fun heq => hne (Option.some.inj (heq.trans hnext.symm))
      rw [List.takeWhile_cons_of_pos (by simp [above, habove]),
        List.takeWhile_cons_of_neg (by simp [above, hnext])]
      exact iff_of_true rfl hnext.symm
    · refine iff_of_false ?_ (Ne.symm hnext)
      by_cases habove : some entry.1 = state
      · rw [List.takeWhile_cons_of_neg (by simp [above, habove])]
        simp
      · rw [List.takeWhile_cons_of_pos (by simp [above, habove]),
          List.takeWhile_cons_of_pos (by simp [above, hnext])]
        simp

/-- What a popstate comes from and leads to. -/
theorem popstate_cases {w w' : World α} {a : Action α} {back : Back} {called : List (String × α)}
    (h : w.step a = some (.popstate back called, w')) :
    ∃ state below pending, w.browser.below = state :: below ∧ w.pending = back :: pending ∧
      called = (w.history.onPopState state).2 ∧
      w' = ⟨(w.history.onPopState state).1, ⟨state, below⟩, pending⟩ := by
  cases a with
  | push key onBack =>
    rw [World.step] at h
    split at h <;> cases h
  | consume key =>
    rw [World.step] at h
    split at h <;> cases h
  | userBack => cases h
  | deliver =>
    obtain ⟨history, ⟨current, below⟩, pending⟩ := w
    rw [World.step, Browser.goBack] at h
    match pending, below with
    | [], _ => cases h
    | _ :: _, [] => cases h
    | back :: pending, state :: below =>
      cases h
      exact ⟨state, below, pending, rfl, rfl, rfl, rfl⟩

/-- A popstate runs the callback of the last entry alone exactly where the world is aligned. -/
theorem called_eq_last_iff {w w' : World α} {a : Action α} {back : Back} {called entries : List (String × α)}
    (hm : Mirrors w.history entries) (h : w.step a = some (.popstate back called, w')) :
    called = entries.getLast?.toList ↔ Aligned w := by
  obtain ⟨state, below, -, hbelow, -, rfl, -⟩ := popstate_cases h
  rw [Aligned, hm.keys_reverse, hbelow, List.getLast?_eq_head?_reverse]
  rcases Nat.eq_zero_or_pos w.history.pendingCleanupCount with hcount | hcount
  · rw [hm.called hcount, takeWhile_above_iff state hm.reversed.2]
    constructor
    · intro hends
      refine Or.inr ⟨hcount, fun state' hstate => ?_⟩
      cases hstate
      exact hends
    · rintro (hnone | ⟨-, hends⟩)
      · rw [← hm.keys_reverse, hnone]
        trivial
      · exact hends state rfl
  · -- taken for a cleanup, it runs no callback
    rw [History.onPopState, if_pos hcount]
    constructor
    · intro hnil
      have hnone := List.head?_eq_none_iff.1 (Option.toList_eq_nil_iff.1 hnil.symm)
      refine Or.inl (hm.keys.trans ?_)
      rw [List.reverse_eq_nil_iff.1 hnone]
      rfl
    · rintro (hnone | ⟨hzero, -⟩)
      · rw [hm.keys, List.map_eq_nil_iff] at hnone
        rw [hnone]
        rfl
      · exact absurd hzero hcount.ne'

/-- Each step of a run is taken after a run. -/
theorem Steps.taken {tr before after : List (Taken α)} {t : Taken α} {w : World α} (h : Steps tr w)
    (htr : tr = before ++ t :: after) :
    Steps before t.before ∧ ∃ a w', t.before.step a = some (t.event, w') := by
  induction h generalizing after with
  | start => exact absurd htr.symm (by simp)
  | @step tr w a e w' hrun hstep ih =>
    rcases List.eq_nil_or_concat after with rfl | ⟨after, last, rfl⟩
    · obtain ⟨rfl, hlast⟩ := List.append_inj' htr rfl
      cases hlast
      exact ⟨hrun, a, w', hstep⟩
    · rw [List.concat_eq_append, ← List.cons_append, ← List.append_assoc] at htr
      exact ih (List.append_inj' htr rfl).1

theorem Event.settledBack_iff {e : Event α} : e.settledBack ↔ ∃ called, e = .popstate (.user true) called := by
  match e with
  | .push _ _ | .consume _ | .userBack | .popstate .cleanup _ => simp [Event.settledBack]
  | .popstate (.user settled) called => cases settled <;> simp [Event.settledBack]

theorem Steps.tracksLive {tr : List (Taken α)} {w : World α} (h : Steps tr w) (haligned : AlignedAtBacks tr) :
    TracksLive tr w := by
  refine ⟨fun before t after htr => ?_, h.mirrors.keys⟩
  obtain ⟨hrun, a, w', hstep⟩ := h.taken htr
  refine ⟨hrun.mirrors.keys, fun called hevent => ?_⟩
  rw [hevent] at hstep
  refine (called_eq_last_iff hrun.mirrors hstep).2 (haligned t ?_ (Event.settledBack_iff.2 ⟨called, hevent⟩))
  rw [htr]
  exact List.mem_append_right before List.mem_cons_self

/-- In every run the tracked keys are the live ones, and the settled backs of the user close the last live
entry if and only if the world is aligned at each of their popstates. -/
theorem onPopState_live {tr : List (Taken α)} {w : World α} (h : Steps tr w) :
    TracksLive tr w ↔ AlignedAtBacks tr := by
  refine ⟨?_, h.tracksLive⟩
  rintro ⟨hsteps, -⟩ t ht hback
  obtain ⟨called, hevent⟩ := Event.settledBack_iff.1 hback
  obtain ⟨before, after, htr⟩ := List.append_of_mem ht
  obtain ⟨hrun, a, w', hstep⟩ := h.taken htr
  rw [hevent] at hstep
  exact (called_eq_last_iff hrun.mirrors hstep).1 ((hsteps before t after htr).2 called hevent)

/-- What a list of actions does from the start; an action that cannot be taken is passed over. -/
def ran (actions : List (Action α)) : List (Taken α) × World α :=
  actions.foldl
    (fun run a =>
      match run.2.step a with
      | none => run
      | some (e, w) => (run.1 ++ [⟨run.2, e⟩], w))
    ([], World.start)

theorem steps_ran (actions : List (Action α)) : Steps (ran actions).1 (ran actions).2 := by
  induction actions using List.reverseRecOn with
  | nil => exact Steps.start
  | append_singleton actions a ih =>
    rw [ran, List.foldl_append, ← ran, List.foldl_cons, List.foldl_nil]
    split
    · exact ih
    · next hstep => exact ih.step hstep

/-- A back of the user on two entries, pushed one after the other. -/
def twoOverlays : List (Action Unit) := [.push "sheet" (), .push "dialog" (), .userBack, .deliver]

theorem onPopState_live_twoOverlays :
    Steps (ran twoOverlays).1 (ran twoOverlays).2 ∧ TracksLive (ran twoOverlays).1 (ran twoOverlays).2 :=
  ⟨steps_ran twoOverlays, (onPopState_live (steps_ran twoOverlays)).2 (by decide)⟩

/-- The lowest of three entries is consumed, and its popstate arrives; the browser still has a stale entry
on its stack, and stands on the one of the second. -/
def consumedBelow : List (Action Unit) :=
  [.push "picker" (), .push "sheet" (), .push "dialog" (), .consume "picker", .deliver, .userBack]

/-- The next popstate of the user then closes both entries that are left. -/
theorem consumedBelow_closesBoth :
    Steps (ran (consumedBelow ++ [.deliver])).1 (ran (consumedBelow ++ [.deliver])).2 ∧
      ¬TracksLive (ran (consumedBelow ++ [.deliver])).1 (ran (consumedBelow ++ [.deliver])).2 := by
  refine ⟨steps_ran _, fun h => ?_⟩
  have hlast := (h.1 (ran consumedBelow).1
    ⟨(ran consumedBelow).2, .popstate (.user true) [("dialog", ()), ("sheet", ())]⟩ [] rfl).2 _ rfl
  exact absurd hlast (by decide)

end OnyxZygisk.WebUi.Overlay

import Mathlib.Tactic.Common

/-!
# The cache of mount namespaces

`save_mount_namespace` forks a child that makes the namespace and says so with a byte in a pipe; the
parent reads, opens the child's `/proc/<pid>/ns/mnt`, kills the child and keeps the descriptor. It does
not look at the number of bytes it read: a child that dies ends the pipe too. What keeps its namespace
out of the cache is that a dead process has none, but a process gives its files up before it leaves its
namespaces (`clean_cache_run`).
-/

namespace OnyxZygisk.Daemon.Mount

inductive MountNamespace where
  | clean
  | root
  deriving DecidableEq

/-- Where the child is. `unwrapping` is the failure of its write: the write end is closed by then. -/
inductive Stage where
  | switching
  | unsharing
  | cleaning
  | writing
  | unwrapping
  | waiting
  deriving DecidableEq

/-- `unshare` and `clean_mount_namespace` are done. -/
def Stage.cleaned : Stage → Bool
  | .writing | .unwrapping | .waiting => true
  | _ => false

/-- A child that dies closes its files first (`closing`) and then leaves its namespaces. The zombie is there
until it is reaped. -/
inductive Child where
  | alive (stage : Stage)
  | closing (stage : Stage)
  | zombie
  | reaped
  deriving DecidableEq

/-- The descriptor of a namespace. `cleaned` tells whether the child was done with it when the descriptor
was opened. -/
structure Descriptor where
  cleaned : Bool
  deriving DecidableEq

/-- Where the parent is. -/
inductive Parent where
  | forked
  | reading
  | opening
  | killing (fd : Descriptor)
  | caching (fd : Descriptor)
  deriving DecidableEq

/-- A call that has forked: both processes and the bytes in the pipe. -/
structure Call where
  namespaceType : MountNamespace
  parent : Parent
  child : Child
  signalled : Bool
  deriving DecidableEq

/-- The manager. `answer` is what the last call returned, `none` standing for an error. -/
structure MountNamespaceManager where
  cleanMntNsFd : Option Descriptor
  rootMntNsFd : Option Descriptor
  call : Option Call
  answer : Option (MountNamespace × Option Descriptor)
  deriving DecidableEq

namespace MountNamespaceManager

def new : MountNamespaceManager := ⟨none, none, none, none⟩

def getNamespaceStorage (m : MountNamespaceManager) : MountNamespace → Option Descriptor
  | .clean => m.cleanMntNsFd
  | .root => m.rootMntNsFd

def setNamespaceStorage (m : MountNamespaceManager) (fd : Descriptor) :
    MountNamespace → MountNamespaceManager
  | .clean => { m with cleanMntNsFd := some fd }
  | .root => { m with rootMntNsFd := some fd }

/-- The call returns. -/
def returns (m : MountNamespaceManager) (namespaceType : MountNamespace) (fd : Option Descriptor) :
    MountNamespaceManager :=
  { m with call := none, answer := some (namespaceType, fd) }

end MountNamespaceManager

/-! ### The steps of the two processes -/

inductive Action where
  /-- A call; `forks` tells whether it gets its pipe and its child. -/
  | call (namespaceType : MountNamespace) (forks : Bool)
  | dropWriter
  | readByte
  | readEnd
  | readFails
  | openNs (opens : Bool)
  | killAndWait
  | cache
  /-- The child's next call succeeds. -/
  | childStep
  | childWriteFails
  /-- A failed call of the child, or a signal. -/
  | childDies
  | childLeaves
  deriving DecidableEq

/-- The child after its next call. -/
def Stage.next (namespaceType : MountNamespace) : Stage → Option Stage
  | .switching => some (if namespaceType = .clean then .unsharing else .writing)
  | .unsharing => some .cleaning
  | .cleaning => some .writing
  | .writing => some .waiting
  | .unwrapping | .waiting => none

/-- The last write end is closed. When a child that dies is the last to hold it, it is only closed with
the child's last files, which is left open here. -/
def Child.writerClosed : Child → Bool
  | .alive stage => stage = .unwrapping || stage = .waiting
  | _ => true

/-- `open` of `/proc/<pid>/ns/mnt`: a process that has left its namespaces has no such file. -/
def Child.openNs : Child → Option Descriptor
  | .alive stage | .closing stage => some ⟨stage.cleaned⟩
  | .zombie | .reaped => none

open MountNamespaceManager in
def stepCall (m : MountNamespaceManager) (c : Call) : Action → Option MountNamespaceManager
  | .call _ _ => none
  | .dropWriter =>
    if c.parent = .forked then some { m with call := some { c with parent := .reading } } else none
  | .readByte =>
    if c.parent = .reading ∧ c.signalled then
      some { m with call := some { c with parent := .opening, signalled := false } }
    else none
  | .readEnd =>
    if c.parent = .reading ∧ !c.signalled ∧ c.child.writerClosed then
      some { m with call := some { c with parent := .opening } }
    else none
  | .readFails => if c.parent = .reading then some (m.returns c.namespaceType none) else none
  | .openNs opens =>
    if c.parent = .opening then
      match opens, c.child.openNs with
      | true, some fd => some { m with call := some { c with parent := .killing fd } }
      | true, none => none
      | false, _ => some (m.returns c.namespaceType none)
    else none
  | .killAndWait =>
    match c.parent with
    | .killing fd => some { m with call := some { c with parent := .caching fd, child := .reaped } }
    | _ => none
  | .cache =>
    match c.parent with
    | .caching fd =>
      match m.getNamespaceStorage c.namespaceType with
      | none => some ((m.setNamespaceStorage fd c.namespaceType).returns c.namespaceType (some fd))
      | some _ => some (m.returns c.namespaceType none)
    | _ => none
  | .childStep =>
    match c.child with
    | .alive stage =>
      (stage.next c.namespaceType).map fun next =>
        { m with call := some { c with child := .alive next, signalled := c.signalled || next = .waiting } }
    | _ => none
  | .childWriteFails =>
    if c.child = .alive .writing then some { m with call := some { c with child := .alive .unwrapping } }
    else none
  | .childDies =>
    match c.child with
    | .alive stage => some { m with call := some { c with child := .closing stage } }
    | _ => none
  | .childLeaves =>
    match c.child with
    | .closing _ => some { m with call := some { c with child := .zombie } }
    | _ => none

/-- The daemon's main loop makes one call after the other. -/
def step (m : MountNamespaceManager) (a : Action) : Option MountNamespaceManager :=
  match m.call with
  | some c => stepCall m c a
  | none =>
    match a with
    | .call namespaceType forks =>
      match m.getNamespaceStorage namespaceType with
      | some fd => some (m.returns namespaceType (some fd))
      | none =>
        if forks then
          some { m with call := some ⟨namespaceType, .forked, .alive .switching, false⟩ }
        else some (m.returns namespaceType none)
    | _ => none

/-- A run whose steps all satisfy `ok`. -/
def run (ok : MountNamespaceManager → Action → Bool) (m : MountNamespaceManager) :
    List Action → Option MountNamespaceManager
  | [] => some m
  | a :: as => if ok m a then (step m a).bind (run ok · as) else none

/-! ### What the cache holds -/

/-- The clean descriptor is that of a namespace that was cleaned, and a call that did not give it left the
cell empty for the next one. -/
structure MountNamespaceManager.Sound (m : MountNamespaceManager) : Prop where
  cleaned : ∀ fd, m.cleanMntNsFd = some fd → fd.cleaned = true
  answered : ∀ fd, m.answer = some (.clean, fd) → m.cleanMntNsFd = fd

/-- The parent does not open the namespace of a child that died before it was done and has not left its
namespaces yet. -/
def inTime (m : MountNamespaceManager) (a : Action) : Bool :=
  match a, m.call with
  | .openNs true, some ⟨.clean, _, .closing stage, _⟩ => stage.cleaned
  | _, _ => true

/-- What a call has reached. -/
structure Call.Ordered (c : Call) : Prop where
  signalled : c.signalled = true → ∀ stage, c.child = .alive stage → stage = .waiting
  opening : c.parent = .opening → ∀ stage, c.child = .alive stage → stage.cleaned = true
  opened : c.namespaceType = .clean → ∀ fd, c.parent = .killing fd ∨ c.parent = .caching fd →
    fd.cleaned = true

structure MountNamespaceManager.Inv (m : MountNamespaceManager) : Prop extends m.Sound where
  ordered : ∀ c, m.call = some c → c.Ordered
  empty : ∀ c, m.call = some c → m.getNamespaceStorage c.namespaceType = none

variable {m m' : MountNamespaceManager} {c : Call} {a : Action}

open MountNamespaceManager

theorem inv_new : new.Inv where
  cleaned fd h := by cases h
  answered fd h := by cases h
  ordered c h := by cases h
  empty c h := by cases h

/-- A call that goes on. -/
theorem inv_call {c' : Call} (hm : m.Inv) (hc : m.call = some c)
    (htype : c'.namespaceType = c.namespaceType) (hordered : c'.Ordered) :
    ({ m with call := some c' } : MountNamespaceManager).Inv where
  cleaned := hm.cleaned
  answered := hm.answered
  ordered d hd := by
    obtain rfl := Option.some.inj hd
    exact hordered
  empty d hd := by
    obtain rfl := Option.some.inj hd
    rw [htype]
    exact hm.empty c hc

/-- A call that fails. -/
theorem inv_returns_none (hm : m.Inv) (namespaceType : MountNamespace)
    (hempty : m.getNamespaceStorage namespaceType = none) : (m.returns namespaceType none).Inv where
  cleaned := hm.cleaned
  answered fd h := by
    obtain ⟨htype, rfl⟩ := Prod.mk.inj (Option.some.inj h)
    rw [htype] at hempty
    exact hempty
  ordered d hd := by cases hd
  empty d hd := by cases hd

theorem inv_returns_some (hm : m.Inv) {namespaceType : MountNamespace} {fd : Descriptor}
    (hfd : m.getNamespaceStorage namespaceType = some fd) : (m.returns namespaceType (some fd)).Inv where
  cleaned := hm.cleaned
  answered fd' h := by
    obtain ⟨htype, rfl⟩ := Prod.mk.inj (Option.some.inj h)
    rw [htype] at hfd
    exact hfd
  ordered d hd := by cases hd
  empty d hd := by cases hd

/-- The descriptor goes into its cell. -/
theorem inv_cache (hm : m.Inv) {namespaceType : MountNamespace} {fd : Descriptor}
    (hfd : namespaceType = .clean → fd.cleaned = true) :
    ((m.setNamespaceStorage fd namespaceType).returns namespaceType (some fd)).Inv := by
  cases namespaceType with
  | clean =>
    exact {
      cleaned := fun fd' h => Option.some.inj h ▸ hfd rfl
      answered := fun fd' h => (Prod.mk.inj (Option.some.inj h)).2
      ordered := fun d hd => by cases hd
      empty := fun d hd => by cases hd }
  | root =>
    exact {
      cleaned := hm.cleaned
      answered := fun fd' h => by cases h
      ordered := fun d hd => by cases hd
      empty := fun d hd => by cases hd }

/-- A child that is done and still runs has cleaned its namespace. -/
theorem cleaned_next {namespaceType : MountNamespace} {stage next : Stage}
    (h : stage.next namespaceType = some next) (hcleaned : stage.cleaned = true) : next.cleaned = true := by
  cases stage with
  | writing => cases h; rfl
  | switching | unsharing | cleaning => cases hcleaned
  | unwrapping | waiting => cases h

theorem cleaned_of_inTime (h : inTime m (.openNs true) = true) (hc : m.call = some c)
    (htype : c.namespaceType = .clean) {stage : Stage} (hchild : c.child = .closing stage) :
    stage.cleaned = true := by
  obtain ⟨namespaceType, parent, child, signalled⟩ := c
  change namespaceType = _ at htype
  change child = _ at hchild
  unfold inTime at h
  rw [hc, htype, hchild] at h
  exact h

theorem inv_stepCall (hm : m.Inv) (hc : m.call = some c) (ha : inTime m a = true)
    (h : stepCall m c a = some m') : m'.Inv := by
  have hordered := hm.ordered c hc
  have hempty := hm.empty c hc
  cases a with
  | call namespaceType forks => cases h
  | dropWriter =>
    simp only [stepCall, Option.ite_none_right_eq_some, Option.some.injEq] at h
    obtain ⟨-, rfl⟩ := h
    refine inv_call hm hc (by rfl) ?_
    exact { signalled := hordered.signalled, opening := by simp, opened := by simp }
  | readByte =>
    simp only [stepCall, Option.ite_none_right_eq_some, Option.some.injEq] at h
    obtain ⟨⟨-, hsignalled⟩, rfl⟩ := h
    refine inv_call hm hc (by rfl) ?_
    refine { signalled := by simp, opening := fun _ stage hstage => ?_, opened := by simp }
    rw [hordered.signalled hsignalled stage hstage]
    rfl
  | readEnd =>
    simp only [stepCall, Option.ite_none_right_eq_some, Option.some.injEq] at h
    obtain ⟨⟨-, -, hclosed⟩, rfl⟩ := h
    refine inv_call hm hc (by rfl) ?_
    refine { signalled := hordered.signalled, opening := fun _ stage hstage => ?_, opened := by simp }
    change c.child = _ at hstage
    rw [hstage] at hclosed
    cases stage <;> first | rfl | cases hclosed
  | readFails =>
    simp only [stepCall, Option.ite_none_right_eq_some, Option.some.injEq] at h
    obtain ⟨-, rfl⟩ := h
    exact inv_returns_none hm _ hempty
  | openNs opens =>
    simp only [stepCall] at h
    split at h
    · rename_i hparent
      split at h
      · rename_i fd hopen
        obtain rfl := Option.some.inj h
        refine inv_call hm hc (by rfl) ?_
        refine { signalled := hordered.signalled, opening := by simp, opened := fun htype fd' hfd => ?_ }
        obtain rfl : fd = fd' := by simpa using hfd
        change c.namespaceType = .clean at htype
        -- the child still runs, or it dies and the open came in time
        cases hchild : c.child with
        | alive stage =>
          rw [hchild] at hopen
          obtain rfl := Option.some.inj hopen
          exact hordered.opening hparent stage hchild
        | closing stage =>
          rw [hchild] at hopen
          obtain rfl := Option.some.inj hopen
          exact cleaned_of_inTime ha hc htype hchild
        | zombie =>
          rw [hchild] at hopen
          cases hopen
        | reaped =>
          rw [hchild] at hopen
          cases hopen
      · cases h
      · obtain rfl := Option.some.inj h
        exact inv_returns_none hm _ hempty
    · cases h
  | killAndWait =>
    simp only [stepCall] at h
    split at h
    · rename_i fd hparent
      obtain rfl := Option.some.inj h
      refine inv_call hm hc (by rfl) ?_
      refine { signalled := by simp, opening := by simp, opened := fun htype fd' hfd => ?_ }
      obtain rfl : fd = fd' := by simpa using hfd
      exact hordered.opened htype fd (.inl hparent)
    · cases h
  | cache =>
    simp only [stepCall] at h
    split at h
    · rename_i fd hparent
      rw [hempty] at h
      obtain rfl := Option.some.inj h
      exact inv_cache hm fun htype => hordered.opened htype fd (.inr hparent)
    · cases h
  | childStep =>
    simp only [stepCall] at h
    split at h
    · rename_i stage hchild
      obtain ⟨next, hnext, rfl⟩ := Option.map_eq_some_iff.1 h
      refine inv_call hm hc (by rfl) ?_
      refine { signalled := ?_, opening := ?_, opened := hordered.opened }
      · intro hsignalled stage' hstage'
        obtain rfl : next = stage' := by simpa using hstage'
        simp only [Bool.or_eq_true, decide_eq_true_eq] at hsignalled
        refine hsignalled.resolve_left fun hbefore => ?_
        rw [hordered.signalled hbefore stage hchild] at hnext
        cases hnext
      · intro hparent stage' hstage'
        obtain rfl : next = stage' := by simpa using hstage'
        exact cleaned_next hnext (hordered.opening hparent stage hchild)
    · cases h
  | childWriteFails =>
    simp only [stepCall, Option.ite_none_right_eq_some, Option.some.injEq] at h
    obtain ⟨hchild, rfl⟩ := h
    refine inv_call hm hc (by rfl) ?_
    refine { signalled := ?_, opening := ?_, opened := hordered.opened }
    · intro hsignalled
      cases hordered.signalled hsignalled _ hchild
    · intro _ stage hstage
      obtain rfl : Stage.unwrapping = stage := by simpa using hstage
      rfl
  | childDies =>
    simp only [stepCall] at h
    split at h
    · obtain rfl := Option.some.inj h
      refine inv_call hm hc (by rfl) ?_
      exact { signalled := by simp, opening := by simp, opened := hordered.opened }
    · cases h
  | childLeaves =>
    simp only [stepCall] at h
    split at h
    · obtain rfl := Option.some.inj h
      refine inv_call hm hc (by rfl) ?_
      exact { signalled := by simp, opening := by simp, opened := hordered.opened }
    · cases h

theorem inv_step (hm : m.Inv) (ha : inTime m a = true) (h : step m a = some m') : m'.Inv := by
  unfold step at h
  cases hcall : m.call with
  | some c =>
    rw [hcall] at h
    exact inv_stepCall hm hcall ha h
  | none =>
    rw [hcall] at h
    cases a with
    | call namespaceType forks =>
      dsimp only at h
      split at h
      · rename_i fd hfd
        obtain rfl := Option.some.inj h
        exact inv_returns_some hm hfd
      · rename_i hempty
        split at h
        · obtain rfl := Option.some.inj h
          exact {
            cleaned := hm.cleaned
            answered := hm.answered
            ordered := fun c hc => by
              obtain rfl := Option.some.inj hc
              exact { signalled := by simp, opening := by simp, opened := by simp }
            empty := fun c hc => by
              obtain rfl := Option.some.inj hc
              exact hempty }
        · obtain rfl := Option.some.inj h
          exact inv_returns_none hm namespaceType hempty
    | dropWriter | readByte | readEnd | readFails | openNs | killAndWait | cache | childStep
    | childWriteFails | childDies | childLeaves => cases h

theorem inv_run {as : List Action} (hm : m.Inv) (h : run inTime m as = some m') : m'.Inv := by
  induction as generalizing m with
  | nil =>
    obtain rfl := Option.some.inj h
    exact hm
  | cons a as ih =>
    rw [run, Option.ite_none_right_eq_some] at h
    obtain ⟨ha, h⟩ := h
    obtain ⟨next, hstep, hrun⟩ := Option.bind_eq_some_iff.1 h
    exact ih (inv_step hm ha hstep) hrun

/-- However the steps of the manager and its children interleave, and whichever of them fail: as long as
no namespace of a dying child is opened too early, the cell holds nothing but a cleaned namespace, and is
empty after a call that returned an error. -/
theorem clean_cache_run (as : List Action) (m : MountNamespaceManager)
    (h : run inTime .new as = some m) : m.Sound :=
  (inv_run inv_new h).toSound

/-- A child that dies in `switch_mount_namespace` after its parent has dropped the writer, and is gone when
the parent opens: an error and an empty cell. The next call succeeds. -/
theorem clean_cache_retry :
    let m : MountNamespaceManager := ⟨some ⟨true⟩, none, none, some (.clean, some ⟨true⟩)⟩
    run inTime .new [.call .clean true, .dropWriter, .childDies, .readEnd, .childLeaves, .openNs false,
      .call .clean true, .childStep, .childStep, .childStep, .dropWriter, .childStep, .readByte,
      .openNs true, .killAndWait, .cache] = some m ∧ m.Sound := by
  intro m
  have hrun : run inTime .new [.call .clean true, .dropWriter, .childDies, .readEnd, .childLeaves,
      .openNs false, .call .clean true, .childStep, .childStep, .childStep, .dropWriter, .childStep,
      .readByte, .openNs true, .killAndWait, .cache] = some m := by decide
  exact ⟨hrun, clean_cache_run _ m hrun⟩

/-- A child that dies before its parent has dropped the writer: the end of the pipe is all there is to
read, and the namespace the child was forked with becomes the clean one. -/
theorem clean_cache_poisoned : ∃ m,
    run (fun _ _ => true) .new [.call .clean true, .childDies, .dropWriter, .readEnd, .openNs true,
      .childLeaves, .killAndWait, .cache] = some m ∧
    m.cleanMntNsFd = some ⟨false⟩ ∧ ¬ m.Sound := by
  refine ⟨_, rfl, rfl, fun h => ?_⟩
  exact absurd (h.cleaned _ rfl) (by decide)

end OnyxZygisk.Daemon.Mount

import OnyxZygisk.Lib.Text

/-!
# The descriptors of an app

The framework aborts a forked app that has a descriptor it does not know. So the loader forks by itself before the
modules run, records what is open, and behind the modules closes what came since. A module may exempt descriptors; they
go on the list that the framework ignores (`open_after_sanitizeFds`).
-/

namespace OnyxZygisk.Loader

/-- A descriptor, as an `int`. -/
abbrev Fd := Fin (2 ^ 31)

/-- The part of `ZygiskContext` for descriptors, with the descriptors that its process has open. -/
structure FdContext where
  openFds : List Fd
  pid : Int
  postSpecialize : Bool
  appForkAndSpecialize : Bool
  skipCloseLogPipe : Bool
  /-- One entry for each descriptor below the limit. -/
  allowedFds : List Bool
  exemptedFds : List Int
  /-- `args.app->fds_to_ignore`, which some signatures do not have, and the array there. -/
  fdsToIgnore : Option (Option (List Int))

/-- `parse_int`, which is `std::from_chars` for an `int` up to the end. -/
def parseInt (s : String) : Int :=
  match s.toList with
  | '-' :: cs => match Text.digits cs with
    | some n => if n ≤ 2 ^ 31 then -n else -1
    | none => -1
  | cs => match Text.digits cs with
    | some n => if n < 2 ^ 31 then n else -1
    | none => -1

/-- What `readdir` says of a directory of descriptors. -/
def entries (fds : List Fd) : List String := "." :: ".." :: fds.map fun fd => fd.val.repr

namespace FdContext

variable (c : FdContext)

def isChild : Bool := c.pid ≤ 0

def close (fd : Int) : FdContext := { c with openFds := c.openFds.filter fun f => (f.val : Int) ≠ fd }

/-- `fd < 0 || fd >= allowed_fds.size()` -/
def outside (fd : Int) : Bool := fd < 0 || (c.allowedFds.length : Int) ≤ fd

def allow (fd : Int) : FdContext :=
  if c.outside fd then c else { c with allowedFds := c.allowedFds.set fd.toNat true }

def allowAll (fds : List Int) : FdContext := fds.foldl allow c

/-- The loop of `fork_pre`. -/
def recordFds (names : List String) : FdContext :=
  names.foldl (fun c name => if c.outside (parseInt name) then c.close (parseInt name) else c.allow (parseInt name)) c

/-- `fork_pre`, where the fork says `pid` and the directory is opened as `dfd`. -/
def forkPre (pid : Int) (dfd : Fd) : FdContext :=
  let c := { c with pid }
  if !c.isChild then c
  else
    let c := { c with openFds := dfd :: c.openFds }
    let c := c.recordFds (entries c.openFds)
    { c with allowedFds := c.allowedFds.set dfd.val false }.close dfd.val

def canExemptFd : Bool := c.appForkAndSpecialize && c.fdsToIgnore.isSome

/-- `exempt_fd` -/
def exemptFd (fd : Int) : FdContext × Bool :=
  if c.postSpecialize || c.skipCloseLogPipe then (c, true)
  else if !c.canExemptFd then (c, false)
  else ({ c with exemptedFds := c.exemptedFds ++ [fd] }, true)

/-- `update_fd_array` behind the `ignored` descriptors; `alloc` is whether there was memory for the array. -/
def updateFdArray (alloc : Bool) (ignored : List Int) : FdContext :=
  if alloc then { c.allowAll c.exemptedFds with fdsToIgnore := some (some (ignored ++ c.exemptedFds)) } else c

/-- What `sanitize_fds` allows behind the modules. -/
def allowExempted (alloc : Bool) : FdContext :=
  if c.canExemptFd && !c.exemptedFds.isEmpty then
    match c.fdsToIgnore with
    | some (some ignored) => (c.allowAll ignored).updateFdArray alloc ignored
    | _ => c.updateFdArray alloc []
  else c

/-- The loop of `sanitize_fds`. -/
def closeForbidden (dfd : Fd) (names : List String) : FdContext :=
  names.foldl (fun c name =>
    if (c.outside (parseInt name) || !c.allowedFds.getD (parseInt name).toNat false) && parseInt name ≠ dfd.val then
      c.close (parseInt name)
    else c) c

/-- `sanitize_fds`, where the directory is opened as `dfd`. -/
def sanitizeFds (alloc : Bool) (dfd : Fd) : FdContext :=
  if !c.isChild then c
  else
    let c := c.allowExempted alloc
    let c := { c with openFds := dfd :: c.openFds }
    (c.closeForbidden dfd (entries c.openFds)).close dfd.val

/-- What a module does to descriptors. -/
inductive Op
  | opens (fd : Fd)
  | closes (fd : Int)
  | exempts (fd : Int)

def apply : Op → FdContext
  | .opens fd => { c with openFds := fd :: c.openFds }
  | .closes fd => c.close fd
  | .exempts fd => (c.exemptFd fd).1

def exemptions : List Op → List Int
  | [] => []
  | .exempts fd :: ops => fd :: exemptions ops
  | _ :: ops => exemptions ops

/-- `ZygiskContext` before the fork, with a limit on descriptors. -/
def fresh (openFds : List Fd) (limit : Nat) (appForkAndSpecialize skipCloseLogPipe : Bool)
    (fdsToIgnore : Option (Option (List Int))) : FdContext :=
  ⟨openFds, -1, false, appForkAndSpecialize, skipCloseLogPipe, List.replicate limit false, [], fdsToIgnore⟩

/-- The descriptors that the framework is told to ignore. -/
def ignored : List Int := (c.fdsToIgnore.getD none).getD []

/-- `nativeForkAndSpecialize_pre` around what the modules do. -/
def forkAndSpecialize (pid : Int) (dfd dfd' : Fd) (alloc : Bool) (ops : List Op) : FdContext :=
  let c := c.forkPre pid dfd
  let c := if c.isChild then ops.foldl apply c else c
  c.sanitizeFds alloc dfd'

/-! ### Reading the directory -/

theorem parseInt_repr (fd : Fd) : parseInt fd.val.repr = fd.val := by
  obtain ⟨ch, cs, hdigits, hdigit⟩ := Text.toDigits_head fd.val
  have hlist : fd.val.repr.toList = Nat.toDigits 10 fd.val := Nat.toList_repr
  have hminus : ch ≠ '-' := fun h => by
    rw [h] at hdigit
    exact absurd hdigit (by decide)
  have hvalue := Text.digits_toDigits fd.val
  unfold parseInt
  rw [hlist]
  rw [hdigits] at hvalue ⊢
  split
  · rename_i heq
    exact absurd (List.cons.inj heq).1 hminus
  · rw [hvalue]
    exact if_pos fd.isLt

variable {c : FdContext} {fd : Fd} {z : Int}

/-- A descriptor stays open. -/
def Allowed (c : FdContext) (fd : Fd) : Prop := c.allowedFds.getD fd.val false = true

/-- What reading a directory leaves as it is. -/
structure Frame (c d : FdContext) : Prop where
  length : d.allowedFds.length = c.allowedFds.length
  pid : d.pid = c.pid
  postSpecialize : d.postSpecialize = c.postSpecialize
  appForkAndSpecialize : d.appForkAndSpecialize = c.appForkAndSpecialize
  skipCloseLogPipe : d.skipCloseLogPipe = c.skipCloseLogPipe
  exemptedFds : d.exemptedFds = c.exemptedFds
  fdsToIgnore : d.fdsToIgnore = c.fdsToIgnore

theorem Frame.trans {d e : FdContext} (h : Frame c d) (h' : Frame d e) : Frame c e :=
  ⟨h'.length.trans h.length, h'.pid.trans h.pid, h'.postSpecialize.trans h.postSpecialize,
    h'.appForkAndSpecialize.trans h.appForkAndSpecialize, h'.skipCloseLogPipe.trans h.skipCloseLogPipe,
    h'.exemptedFds.trans h.exemptedFds, h'.fdsToIgnore.trans h.fdsToIgnore⟩

theorem frame_refl (c : FdContext) : Frame c c := ⟨rfl, rfl, rfl, rfl, rfl, rfl, rfl⟩

theorem close_frame (c : FdContext) (z : Int) : Frame c (c.close z) := ⟨rfl, rfl, rfl, rfl, rfl, rfl, rfl⟩

theorem mem_close : fd ∈ (c.close z).openFds ↔ fd ∈ c.openFds ∧ (fd.val : Int) ≠ z := by
  rw [close, List.mem_filter, decide_eq_true_eq]

theorem outside_val : c.outside fd.val = decide (c.allowedFds.length ≤ fd.val) := by
  rw [outside, Bool.eq_iff_iff, Bool.or_eq_true, decide_eq_true_eq, decide_eq_true_eq, decide_eq_true_eq]
  omega

theorem outside_eq_false : c.outside z = false ↔ 0 ≤ z ∧ z < c.allowedFds.length := by
  simp [outside]

theorem allow_frame (c : FdContext) (z : Int) : Frame c (c.allow z) ∧ (c.allow z).openFds = c.openFds := by
  unfold allow
  split_ifs
  · exact ⟨frame_refl c, rfl⟩
  · exact ⟨⟨List.length_set, rfl, rfl, rfl, rfl, rfl, rfl⟩, rfl⟩

theorem allowed_set {n : Nat} {b : Bool} (hn : n < c.allowedFds.length) :
    Allowed { c with allowedFds := c.allowedFds.set n b } fd ↔ if fd.val = n then b = true else c.Allowed fd := by
  unfold Allowed
  dsimp only
  rw [List.getD_eq_getElem?_getD, List.getElem?_set, List.getD_eq_getElem?_getD]
  by_cases heq : n = fd.val
  · rw [if_pos heq, if_pos hn, if_pos heq.symm, Option.getD_some]
  · rw [if_neg heq, if_neg (Ne.symm heq)]

theorem allowed_allow : (c.allow z).Allowed fd ↔
    c.Allowed fd ∨ ((fd.val : Int) = z ∧ fd.val < c.allowedFds.length) := by
  unfold allow
  split_ifs with hout
  · rw [or_iff_left]
    rintro ⟨rfl, hlt⟩
    rw [outside_val, decide_eq_true_eq] at hout
    omega
  · rw [Bool.not_eq_true, outside_eq_false] at hout
    rw [allowed_set (by omega)]
    split_ifs with heq
    · exact iff_of_true rfl (Or.inr ⟨by omega, by omega⟩)
    · rw [or_iff_left]
      omega

theorem allowAll_spec (c : FdContext) (zs : List Int) : Frame c (c.allowAll zs) ∧ (c.allowAll zs).openFds = c.openFds ∧
    ∀ fd : Fd, (c.allowAll zs).Allowed fd ↔
      c.Allowed fd ∨ ((fd.val : Int) ∈ zs ∧ fd.val < c.allowedFds.length) := by
  induction zs generalizing c with
  | nil => exact ⟨frame_refl c, rfl, fun fd => by rw [or_iff_left (fun h => List.not_mem_nil h.1)]; exact Iff.rfl⟩
  | cons z zs ih =>
    obtain ⟨hframe, hopen⟩ := allow_frame c z
    obtain ⟨hframe', hopen', hallowed⟩ := ih (c.allow z)
    refine ⟨hframe.trans hframe', hopen'.trans hopen, fun fd => ?_⟩
    rw [allowAll, List.foldl_cons]
    refine (hallowed fd).trans ?_
    rw [allowed_allow, hframe.length, List.mem_cons, or_and_right, or_assoc]

/-- The entries for the directory itself and the one above it are no descriptors. -/
theorem foldl_entries {α : Type} {f : α → String → α} {a : α} (hdot : ∀ a, f a "." = a) (hup : ∀ a, f a ".." = a)
    (fds : List Fd) : (entries fds).foldl f a = fds.foldl (fun a fd => f a fd.val.repr) a := by
  rw [entries, List.foldl_cons, hdot, List.foldl_cons, hup, List.foldl_map]

theorem close_neg (c : FdContext) (hz : z < 0) : c.close z = c := by
  have hall : c.openFds.filter (fun f : Fd => decide ((f.val : Int) ≠ z)) = c.openFds := by
    rw [List.filter_eq_self]
    intro f _
    rw [decide_eq_true_eq]
    omega
  rw [close, hall]

/-- Descriptors beyond the limit are closed, and the others are recorded. -/
theorem recordFds_spec (c : FdContext) (fds : List Fd) : Frame c (c.recordFds (entries fds)) ∧
    (∀ fd : Fd, fd ∈ (c.recordFds (entries fds)).openFds ↔
      fd ∈ c.openFds ∧ ¬ (fd ∈ fds ∧ c.allowedFds.length ≤ fd.val)) ∧
    ∀ fd : Fd, (c.recordFds (entries fds)).Allowed fd ↔
      c.Allowed fd ∨ (fd ∈ fds ∧ fd.val < c.allowedFds.length) := by
  have hneg : ∀ (a : FdContext) (s : String), parseInt s = -1 →
      (if a.outside (parseInt s) then a.close (parseInt s) else a.allow (parseInt s)) = a := fun a s hs => by
    rw [hs, if_pos (by rw [outside]; rfl), close_neg a (by decide)]
  rw [recordFds, foldl_entries (fun a => hneg a "." (by decide)) (fun a => hneg a ".." (by decide))]
  simp only [parseInt_repr]
  induction fds generalizing c with
  | nil => exact ⟨frame_refl c, fun fd => by simp, fun fd => by simp⟩
  | cons g fds ih =>
    have hval : ∀ fd : Fd, (fd.val : Int) = g.val ↔ fd = g := fun fd => by
      rw [Int.natCast_inj, Fin.val_inj]
    rw [List.foldl_cons]
    split_ifs with hout
    · rw [outside_val, decide_eq_true_eq] at hout
      have hclose := close_frame c g.val
      obtain ⟨hframe, hopen, hallowed⟩ := ih (c.close g.val)
      refine ⟨hclose.trans hframe, fun fd => ?_, fun fd => ?_⟩
      · rw [hopen, mem_close, hclose.length, ne_eq, hval, List.mem_cons]
        by_cases heq : fd = g
        · simp [heq, hout]
        · simp [heq]
      · rw [hallowed, hclose.length, List.mem_cons]
        refine or_congr Iff.rfl (and_congr_left fun hlt => ⟨Or.inr, fun h => h.resolve_left fun heq => ?_⟩)
        rw [heq] at hlt
        omega
    · rw [Bool.not_eq_true, outside_eq_false] at hout
      obtain ⟨hallow, hsame⟩ := allow_frame c g.val
      obtain ⟨hframe, hopen, hallowed⟩ := ih (c.allow g.val)
      refine ⟨hallow.trans hframe, fun fd => ?_, fun fd => ?_⟩
      · rw [hopen, hsame, hallow.length, List.mem_cons]
        refine and_congr Iff.rfl (not_congr (and_congr_left fun hle => ⟨Or.inr, fun h => h.resolve_left fun heq => ?_⟩))
        rw [heq] at hle
        omega
      · rw [hallowed, allowed_allow, hallow.length, hval, List.mem_cons, or_and_right, or_assoc]

/-- The last loop closes what is not allowed, the directory itself apart. -/
theorem closeForbidden_spec (c : FdContext) (dfd : Fd) (fds : List Fd) :
    Frame c (c.closeForbidden dfd (entries fds)) ∧
    ∀ fd : Fd, fd ∈ (c.closeForbidden dfd (entries fds)).openFds ↔
      fd ∈ c.openFds ∧ (fd ∈ fds → c.Allowed fd ∨ fd = dfd) := by
  have hneg : ∀ (a : FdContext) (s : String), parseInt s = -1 →
      (if (a.outside (parseInt s) || !a.allowedFds.getD (parseInt s).toNat false) && parseInt s ≠ dfd.val then
        a.close (parseInt s) else a) = a := fun a s hs => by
    rw [hs, close_neg a (by decide), ite_self]
  rw [closeForbidden, foldl_entries (fun a => hneg a "." (by decide)) (fun a => hneg a ".." (by decide))]
  simp only [parseInt_repr, Int.toNat_natCast]
  induction fds generalizing c with
  | nil => exact ⟨frame_refl c, fun fd => by simp⟩
  | cons g fds ih =>
    have hval : ∀ fd f : Fd, (fd.val : Int) = f.val ↔ fd = f := fun fd f => by
      rw [Int.natCast_inj, Fin.val_inj]
    have hcond : ((c.outside g.val || !c.allowedFds.getD g.val false) && decide ((g.val : Int) ≠ dfd.val)) = true ↔
        ¬ (c.Allowed g ∨ g = dfd) := by
      rw [Bool.and_eq_true, decide_eq_true_eq, ne_eq, hval, not_or, Bool.or_eq_true, Bool.not_eq_true',
        ← Bool.not_eq_true, or_iff_right_of_imp]
      · exact Iff.rfl
      · intro hout
        rw [outside_val, decide_eq_true_eq] at hout
        rw [List.getD_eq_getElem?_getD, List.getElem?_eq_none hout]
        exact Bool.false_ne_true
    rw [List.foldl_cons]
    split_ifs with hclose
    · rw [hcond] at hclose
      obtain ⟨hframe, hopen⟩ := ih (c.close g.val)
      refine ⟨(close_frame c g.val).trans hframe, fun fd => ?_⟩
      rw [hopen, mem_close, ne_eq, hval, List.mem_cons]
      have hsame : (c.close g.val).Allowed fd ↔ c.Allowed fd := Iff.rfl
      rw [hsame]
      by_cases heq : fd = g
      · rw [heq]
        exact iff_of_false (fun h => h.1.2 rfl) fun h => hclose (h.2 (Or.inl rfl))
      · simp [heq]
    · rw [hcond, not_not] at hclose
      obtain ⟨hframe, hopen⟩ := ih c
      refine ⟨hframe, fun fd => ?_⟩
      rw [hopen, List.mem_cons]
      refine and_congr Iff.rfl ⟨fun h hmem => ?_, fun h hmem => h (Or.inr hmem)⟩
      rcases hmem with rfl | hmem
      · exact hclose
      · exact h hmem

/-! ### The child -/

variable {pid : Int} {dfd dfd' : Fd} {alloc : Bool} {ops : List Op}

theorem isChild_of_pid (hpid : c.pid ≤ 0) : (!c.isChild) = false := by
  rw [isChild, decide_eq_true hpid]
  rfl

/-- The child knows what was open, below the limit. -/
theorem forkPre_spec (hpid : pid ≤ 0) (hnone : ∀ fd : Fd, ¬ c.Allowed fd) (hdfd : dfd.val < c.allowedFds.length)
    (hfree : dfd ∉ c.openFds) :
    Frame { c with pid } (c.forkPre pid dfd) ∧
      (∀ fd : Fd, fd ∈ (c.forkPre pid dfd).openFds ↔ fd ∈ c.openFds ∧ fd.val < c.allowedFds.length) ∧
      ∀ fd : Fd, (c.forkPre pid dfd).Allowed fd ↔ fd ∈ c.openFds ∧ fd.val < c.allowedFds.length := by
  obtain ⟨hframe, hopen, hallowed⟩ := recordFds_spec { c with pid, openFds := dfd :: c.openFds } (dfd :: c.openFds)
  unfold forkPre
  dsimp only
  rw [isChild_of_pid hpid, if_neg Bool.false_ne_true]
  generalize recordFds { c with pid, openFds := dfd :: c.openFds } (entries (dfd :: c.openFds)) = q
    at hframe hopen hallowed ⊢
  refine ⟨⟨?_, hframe.pid, hframe.postSpecialize, hframe.appForkAndSpecialize, hframe.skipCloseLogPipe,
    hframe.exemptedFds, hframe.fdsToIgnore⟩, fun fd => ?_, fun fd => ?_⟩
  · exact List.length_set.trans hframe.length
  · have hval : (fd.val : Int) = dfd.val ↔ fd = dfd := by rw [Int.natCast_inj, Fin.val_inj]
    rw [mem_close, ne_eq, hval]
    dsimp only at hopen ⊢
    rw [hopen, List.mem_cons]
    by_cases heq : fd = dfd
    · rw [heq]
      exact iff_of_false (fun h => h.2 rfl) fun h => hfree h.1
    · simp only [heq, false_or, not_and, Nat.not_le, not_false_iff, and_true]
      exact and_congr_right fun hmem => ⟨fun h => h hmem, fun h _ => h⟩
  · have hset : Allowed { q with allowedFds := q.allowedFds.set dfd.val false } fd ↔ _ :=
      allowed_set (hframe.length.symm ▸ hdfd)
    have hclose : Allowed (close { q with allowedFds := q.allowedFds.set dfd.val false } dfd.val) fd ↔
        Allowed { q with allowedFds := q.allowedFds.set dfd.val false } fd := Iff.rfl
    rw [hclose, hset]
    split_ifs with heq
    · rw [Fin.val_inj] at heq
      rw [heq]
      exact iff_of_false not_false fun h => hfree h.1
    · rw [Fin.val_inj] at heq
      rw [hallowed, List.mem_cons, or_iff_right heq]
      exact or_iff_right (hnone fd)

/-- What a module's exemptions come to. -/
def exempted (c : FdContext) (ops : List Op) : List Int :=
  if !c.postSpecialize && !c.skipCloseLogPipe && c.canExemptFd then exemptions ops else []

theorem exempted_cons (c : FdContext) (op : Op) (ops : List Op) :
    c.exempted (op :: ops) = c.exempted [op] ++ c.exempted ops := by
  unfold exempted
  split_ifs
  · cases op <;> rfl
  · rfl

theorem exempted_congr {d : FdContext} (h : Frame c d) (ops : List Op) : d.exempted ops = c.exempted ops := by
  rw [exempted, canExemptFd, h.postSpecialize, h.skipCloseLogPipe, h.appForkAndSpecialize, h.fdsToIgnore]
  rfl

theorem exemptFd_eq (c : FdContext) (z : Int) :
    (c.exemptFd z).1 = { c with exemptedFds := c.exemptedFds ++ c.exempted [.exempts z] } := by
  have hnil : { c with exemptedFds := c.exemptedFds ++ [] } = c := by rw [List.append_nil]
  unfold exemptFd exempted exemptions exemptions
  by_cases hactive : (!c.postSpecialize && !c.skipCloseLogPipe && c.canExemptFd) = true
  · rw [if_pos hactive]
    simp only [Bool.and_eq_true, Bool.not_eq_true'] at hactive
    rw [hactive.1.1, hactive.1.2, hactive.2]
    rfl
  · rw [if_neg hactive, hnil]
    split_ifs with hidle hcan
    · rfl
    · rfl
    · rw [Bool.or_eq_true, not_or, Bool.not_eq_true, Bool.not_eq_true] at hidle
      rw [Bool.not_eq_true, Bool.not_eq_false'] at hcan
      rw [hidle.1, hidle.2, hcan] at hactive
      exact absurd rfl hactive

theorem apply_frame (c : FdContext) (op : Op) :
    Frame { c with exemptedFds := c.exemptedFds ++ c.exempted [op] } (c.apply op) ∧
      ∀ fd : Fd, (c.apply op).Allowed fd ↔ c.Allowed fd := by
  have hsame : ∀ d : FdContext, Frame c d → c.exempted [op] = [] →
      Frame { c with exemptedFds := c.exemptedFds ++ c.exempted [op] } d := fun d hd hnil => by
    rw [hnil, List.append_nil]
    exact hd
  cases op with
  | opens fd => exact ⟨hsame _ ⟨rfl, rfl, rfl, rfl, rfl, rfl, rfl⟩ (ite_self _), fun _ => Iff.rfl⟩
  | closes z => exact ⟨hsame _ (close_frame c z) (ite_self _), fun _ => Iff.rfl⟩
  | exempts z =>
    rw [apply, exemptFd_eq]
    exact ⟨frame_refl _, fun _ => Iff.rfl⟩

theorem foldl_apply (c : FdContext) (ops : List Op) :
    Frame { c with exemptedFds := c.exemptedFds ++ c.exempted ops } (ops.foldl apply c) ∧
      ∀ fd : Fd, (ops.foldl apply c).Allowed fd ↔ c.Allowed fd := by
  induction ops generalizing c with
  | nil =>
    rw [exempted, exemptions, ite_self, List.append_nil]
    exact ⟨frame_refl c, fun _ => Iff.rfl⟩
  | cons op ops ih =>
    obtain ⟨hop, hallowed⟩ := apply_frame c op
    obtain ⟨hops, hallowed'⟩ := ih (c.apply op)
    have hexempted : (c.apply op).exempted ops = c.exempted ops := exempted_congr hop ops
    refine ⟨⟨hops.length.trans hop.length, hops.pid.trans hop.pid, hops.postSpecialize.trans hop.postSpecialize,
      hops.appForkAndSpecialize.trans hop.appForkAndSpecialize, hops.skipCloseLogPipe.trans hop.skipCloseLogPipe, ?_,
      hops.fdsToIgnore.trans hop.fdsToIgnore⟩, fun fd => (hallowed' fd).trans (hallowed fd)⟩
    refine hops.exemptedFds.trans ?_
    dsimp only
    rw [hexempted, hop.exemptedFds, List.append_assoc, ← exempted_cons]

theorem updateFdArray_spec (c : FdContext) (alloc : Bool) (ignored : List Int) :
    (c.updateFdArray alloc ignored).openFds = c.openFds ∧
      (c.updateFdArray alloc ignored).allowedFds.length = c.allowedFds.length ∧
      (c.updateFdArray alloc ignored).ignored = (if alloc then ignored ++ c.exemptedFds else c.ignored) ∧
      ∀ fd : Fd, (c.updateFdArray alloc ignored).Allowed fd ↔
        c.Allowed fd ∨ (alloc = true ∧ (fd.val : Int) ∈ c.exemptedFds ∧ fd.val < c.allowedFds.length) := by
  unfold updateFdArray
  split_ifs with halloc
  · obtain ⟨hframe, hopen, hallowed⟩ := allowAll_spec c c.exemptedFds
    refine ⟨hopen, hframe.length, rfl, fun fd => ?_⟩
    rw [and_iff_right halloc]
    exact hallowed fd
  · exact ⟨rfl, rfl, rfl, fun fd => (or_iff_left fun h => halloc h.1).symm⟩

theorem allowExempted_spec (alloc : Bool) (hcan : c.exemptedFds ≠ [] → c.canExemptFd = true) :
    (c.allowExempted alloc).openFds = c.openFds ∧
      (c.allowExempted alloc).ignored = c.ignored ++ (if alloc then c.exemptedFds else []) ∧
      ∀ fd : Fd, (c.allowExempted alloc).Allowed fd ↔ c.Allowed fd ∨ (c.exemptedFds ≠ [] ∧
        fd.val < c.allowedFds.length ∧ (fd.val : Int) ∈ (c.allowExempted alloc).ignored) := by
  unfold allowExempted
  by_cases hnone : c.exemptedFds = []
  · rw [hnone, List.isEmpty_nil, Bool.not_true, Bool.and_false, if_neg Bool.false_ne_true, ite_self, List.append_nil]
    exact ⟨rfl, rfl, fun fd => (or_iff_left fun h => h.1 rfl).symm⟩
  · have hsome := hcan hnone
    have hempty : c.exemptedFds.isEmpty = false := List.isEmpty_eq_false_iff.2 hnone
    rw [hsome, hempty, Bool.not_false, Bool.and_true, if_pos rfl]
    rw [canExemptFd, Bool.and_eq_true] at hsome
    obtain ⟨array, harray⟩ := Option.isSome_iff_exists.1 hsome.2
    cases array with
    | none =>
      have hignored : c.ignored = [] := by rw [ignored, harray]; rfl
      rw [harray, hignored]
      obtain ⟨hopen, -, hlist, hallowed⟩ := updateFdArray_spec c alloc []
      refine ⟨hopen, hlist.trans (by rw [hignored]; cases alloc <;> rfl), fun fd => ?_⟩
      dsimp only
      rw [hallowed, hlist, hignored, and_iff_right hnone]
      refine or_congr Iff.rfl ?_
      split_ifs with halloc
      · rw [and_iff_right halloc, List.nil_append, and_comm]
      · exact iff_of_false (fun h => halloc h.1) fun h => List.not_mem_nil h.2
    | some array =>
      have hignored : c.ignored = array := by rw [ignored, harray]; rfl
      rw [harray, hignored]
      obtain ⟨hframe, hopen, hallowed⟩ := allowAll_spec c array
      obtain ⟨hopen', hlength, hlist, hallowed'⟩ := updateFdArray_spec (c.allowAll array) alloc array
      have hkept : (c.allowAll array).ignored = array := by rw [ignored, hframe.fdsToIgnore, harray]; rfl
      rw [hframe.exemptedFds, hkept] at hlist
      refine ⟨hopen'.trans hopen, hlist.trans (by cases alloc <;> simp), fun fd => ?_⟩
      dsimp only
      rw [hallowed', hallowed, hlist, hframe.exemptedFds, hframe.length, and_iff_right hnone, or_assoc]
      refine or_congr Iff.rfl ?_
      split_ifs with halloc
      · rw [and_iff_right halloc, ← or_and_right, ← List.mem_append, and_comm]
      · rw [or_iff_left fun h => halloc h.1, and_comm]

/-- The framework ignores what a module exempted, and the child keeps what the framework knows or ignores. -/
theorem sanitizeFds_spec (hpid : c.pid ≤ 0) (hfree : dfd ∉ c.openFds)
    (hcan : c.exemptedFds ≠ [] → c.canExemptFd = true) :
    (c.sanitizeFds alloc dfd).ignored = c.ignored ++ (if alloc then c.exemptedFds else []) ∧
      ∀ fd : Fd, fd ∈ (c.sanitizeFds alloc dfd).openFds ↔ fd ∈ c.openFds ∧
        (c.Allowed fd ∨ (c.exemptedFds ≠ [] ∧ fd.val < c.allowedFds.length ∧
          (fd.val : Int) ∈ (c.sanitizeFds alloc dfd).ignored)) := by
  obtain ⟨hopen, hignored, hallowed⟩ := allowExempted_spec alloc hcan
  unfold sanitizeFds
  rw [isChild_of_pid hpid, if_neg Bool.false_ne_true]
  dsimp only
  generalize c.allowExempted alloc = q at hopen hignored hallowed ⊢
  obtain ⟨hframe, hclosed⟩ := closeForbidden_spec { q with openFds := dfd :: q.openFds } dfd (dfd :: q.openFds)
  generalize closeForbidden { q with openFds := dfd :: q.openFds } dfd (entries (dfd :: q.openFds)) = r
    at hframe hclosed ⊢
  have hlist : (r.close dfd.val).ignored = q.ignored := congrArg (fun o => (o.getD none).getD []) hframe.fdsToIgnore
  refine ⟨hlist.trans hignored, fun fd => ?_⟩
  have hval : (fd.val : Int) = dfd.val ↔ fd = dfd := by rw [Int.natCast_inj, Fin.val_inj]
  have hsame : Allowed { q with openFds := dfd :: q.openFds } fd ↔ q.Allowed fd := Iff.rfl
  rw [hlist, mem_close, hclosed, ne_eq, hval, hsame, hallowed, List.mem_cons, hopen]
  by_cases heq : fd = dfd
  · rw [heq]
    exact iff_of_false (fun h => h.2 rfl) fun h => hfree h.1
  · simp only [heq, false_or, or_false, not_false_iff, and_true]
    exact and_congr_right fun hmem => ⟨fun h => h hmem, fun h _ => h⟩

/-- A module that opens two descriptors and exempts one. -/
def exemptsOne : FdContext :=
  (fresh [0, 1, 2] 16 true false (some none)).forkAndSpecialize 0 3 3 true [.opens 5, .opens 6, .exempts 5]

end FdContext

end OnyxZygisk.Loader

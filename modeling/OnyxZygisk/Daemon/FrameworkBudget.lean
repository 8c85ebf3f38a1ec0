import OnyxZygisk.Daemon.FrameworkTurns

/-!
# The restart budget of a framework module

The marker holds how often the framework was restarted for a module in this kernel boot, and how often
its daemon was started. A scan that finds the marker truncated takes it for no transaction and removes
it, and the budget starts anew. Where nobody reads or removes the marker while another thread is between
its truncation and its write, nobody truncates it under a thread that decided on an earlier read, and the
operations on it work, both counters hold in every run (`withinBudget`).
-/

namespace OnyxZygisk.Daemon

open Pool (AtMostOne)

/-! ### The two counters -/

/-- A kill of system_server for the module. -/
def Op.killsFor (n : String) : Op → Bool
  | .kill _ signal name => name = n && signal = sigKill
  | _ => false

/-- A daemon start scheduled for the module. -/
def Op.schedules (n : String) : Op → Bool
  | .spawn job => job.startsFor n
  | _ => false

def kills (n : String) (log : List Op) : Nat := log.countP (Op.killsFor n)

def starts (n : String) (log : List Op) : Nat := log.countP (Op.schedules n)

def WithinBudget (n : String) (w : World) : Prop :=
  kills n w.log ≤ maxFrameworkRestarts.toNat ∧ starts n w.log ≤ maxFrameworkDaemonStarts.toNat

/-- The transaction recorded on disk. -/
def recordedOn (n : String) (fs : FileTree) : Option FrameworkState :=
  (fs.read (frameworkMarker n)).bind FrameworkState.parse

/-- Restarts and activations of any number of processes within one kernel boot. A read finds what is on
disk; the boot id may be unreadable at times. -/
def budgetSystem (boot : String) : Pool.System Resp Job World where
  body := body
  called j := j = .runFrameworkActivations ∨ ∃ name, j = .restartFrameworkOnce name
  step := StepIn fun e _ _ =>
    (∀ b, bootIdOf e.bootId = some b → b = boot) ∧ ∀ p, e.works (.read p) = true
  forks := forks
  drift w w' := w'.log = w.log ∧ w'.lock = w.lock ∧
    ∀ q, activationMarkers <+: q → w'.fs.get q = w.fs.get q
  kill _ _ := False

/-- The module stays plugged in. -/
def StaysPlugged (n : String) : Pool.Guard Resp Job World := fun _ _ _ op _ _ =>
  op ≠ .removeFile (hotplugOptIn n)

/-- The thread has truncated the marker and writes it next. -/
def Writing (n : String) (p : Program Unit) : Prop :=
  ∃ ino data k, p = .call (.writeData (frameworkMarker n) ino data) k

/-- The thread reads the marker before it writes or removes it. -/
def ReadsFirst (n : String) : Program Unit → Prop :=
  Prog.AsksFirst (fun op => op.target = some (frameworkMarker n)) (· = .read (frameworkMarker n))

/-- The operation works, as far as the marker depends on it: the boot id can be read, and the module is
installed and stays plugged in. -/
def Op.goes (n boot : String) : (op : Op) → Resp op → Prop
  | .openTrunc p, r => p = frameworkMarker n → r.isSome = true
  | .writeData p _ _, r => p = frameworkMarker n → r = true
  | .removeFile p, _ => p ≠ hotplugOptIn n
  | .bootId, r => bootIdOf r = some boot
  | .look p, r => p = activeDir n → r.any Node.isDir = true
  | _, _ => True

/-- The operations on the marker work, and they exclude each other. -/
def MarkerExclusive (n boot : String) : Pool.Guard Resp Job World := fun _ others _ op r _ =>
  op.goes n boot r ∧
  (op = .read (frameworkMarker n) ∨ op = .removeFile (frameworkMarker n) →
    ∀ t ∈ others, ¬ Writing n t.rest) ∧
  (op = .openTrunc (frameworkMarker n) → ∀ t ∈ others, ReadsFirst n t.rest)

variable {n boot : String} {L : Option FrameworkState} {M : Multiset Turn} {o o' : Turn} {w w' : World}
  {e : Env}

/-! ### The books -/

/-- What threads have counted and not done yet. -/
def owing (d : Debt) (M : Multiset Turn) : Nat := M.countP fun o => o.debt = d

/-- What a transaction has counted. -/
def counted (count : FrameworkState → UInt32) (L : Option FrameworkState) : Nat :=
  (L.map fun s => (count s).toNat).getD 0

/-- `L` is the transaction of this boot. It is what the marker says, except while one thread has it
truncated; whoever has read the marker has read it; and nothing was done that is not counted there. -/
structure Books (n boot : String) (L : Option FrameworkState) (M : Multiset Turn) (w : World) :
    Prop where
  budget : ∀ s, L = some s → s.restarts = maxFrameworkRestarts ∧ s.heals ≤ maxFrameworkDaemonStarts
  disk : (∀ o ∈ M, o.torn = false) → ofBoot boot (recordedOn n w.fs) = L
  torn : ∀ o ∈ M, ∀ recorded ino, o.view = .torn recorded ino →
    ofBoot boot recorded = L ∧ w.fs.get (frameworkMarker n) = some (.file ino "")
  one : AtMostOne Turn.torn M
  seen : ∀ o ∈ M, ∀ recorded, o.view = .seen recorded → ofBoot boot recorded = L
  apart : ∀ o ∈ M, o.torn = true → ∀ x ∈ M, x.sees = false
  checked : ∀ o ∈ M, o.grip = .checked → L = none
  kills : kills n w.log + owing .restart M ≤ counted FrameworkState.restarts L
  starts : starts n w.log + owing .start M ≤ counted FrameworkState.heals L

theorem owing_cons (d : Debt) (o : Turn) (M : Multiset Turn) :
    owing d (o ::ₘ M) = owing d M + if o.debt = d then 1 else 0 := Multiset.countP_cons _ o M

theorem Books.frame (h : Books n boot L M w)
    (hget : w'.fs.get (frameworkMarker n) = w.fs.get (frameworkMarker n))
    (hkills : Daemon.kills n w'.log = Daemon.kills n w.log)
    (hstarts : Daemon.starts n w'.log = Daemon.starts n w.log) : Books n boot L M w' where
  budget := h.budget
  disk ht := by
    rw [recordedOn, FileTree.read, hget]
    exact h.disk ht
  torn o ho recorded ino hview := by
    rw [hget]
    exact h.torn o ho recorded ino hview
  one := h.one
  seen := h.seen
  apart := h.apart
  checked := h.checked
  kills := hkills ▸ h.kills
  starts := hstarts ▸ h.starts

theorem torn_of_view {recorded : Option FrameworkState} {ino : Nat} (h : o.view = .torn recorded ino) :
    o.torn = true := by
  rw [Turn.torn, h]

theorem sees_of_view {recorded : Option FrameworkState} (h : o.view = .seen recorded) :
    o.sees = true := by
  rw [Turn.sees, h]

theorem not_torn_of_view {recorded : Option FrameworkState} (h : o.view = .seen recorded) :
    o.torn = false := by
  rw [Turn.torn, h]

theorem view_ne_torn {recorded : Option FrameworkState} {ino : Nat} (h : o.torn = false) :
    o.view ≠ .torn recorded ino := by
  intro hview
  rw [torn_of_view hview] at h
  exact Bool.false_ne_true h.symm

theorem view_ne_seen {recorded : Option FrameworkState} (h : o.sees = false) : o.view ≠ .seen recorded := by
  intro hview
  rw [sees_of_view hview] at h
  exact Bool.false_ne_true h.symm

/-- A thread that has not truncated the marker changes what it knows and owes. -/
theorem Books.restage (h : Books n boot L (o ::ₘ M) w) (ho : o.torn = false) (ho' : o'.torn = false)
    (hseen : ∀ recorded, o'.view = .seen recorded → ofBoot boot recorded = L)
    (hsees : o'.sees = true → o.sees = true ∨ ∀ x ∈ M, x.torn = false)
    (hchecked : o'.grip = .checked → L = none)
    (hkills : Daemon.kills n w.log + owing .restart (o' ::ₘ M) ≤ counted FrameworkState.restarts L)
    (hstarts : Daemon.starts n w.log + owing .start (o' ::ₘ M) ≤ counted FrameworkState.heals L) :
    Books n boot L (o' ::ₘ M) w := by
  have hmem := Multiset.mem_cons_self o M
  refine ⟨h.budget, ?_, ?_, ?_, ?_, ?_, ?_, hkills, hstarts⟩
  · intro ht
    apply h.disk
    intro x hx
    rcases Multiset.mem_cons.1 hx with rfl | hx
    · exact ho
    · exact ht x (Multiset.mem_cons_of_mem hx)
  · intro x hx recorded ino hview
    rcases Multiset.mem_cons.1 hx with rfl | hx
    · exact absurd hview (view_ne_torn ho')
    · exact h.torn x (Multiset.mem_cons_of_mem hx) recorded ino hview
  · exact (AtMostOne.cons_iff ho').2 h.one.tail
  · intro x hx
    rcases Multiset.mem_cons.1 hx with rfl | hx
    · exact hseen
    · exact h.seen x (Multiset.mem_cons_of_mem hx)
  · intro x hx ht y hy
    rcases Multiset.mem_cons.1 hx with heq | hxM
    · rw [heq, ho'] at ht
      exact absurd ht (by simp)
    have hx' : x ∈ o ::ₘ M := Multiset.mem_cons_of_mem hxM
    rcases Multiset.mem_cons.1 hy with heq | hyM
    · rw [heq]
      cases hs : o'.sees with
      | false => rfl
      | true =>
        rcases hsees hs with hs | hnone
        · rw [h.apart x hx' ht o hmem] at hs
          exact absurd hs (by simp)
        · rw [hnone x hxM] at ht
          exact absurd ht (by simp)
    · exact h.apart x hx' ht y (Multiset.mem_cons_of_mem hyM)
  · intro x hx
    rcases Multiset.mem_cons.1 hx with rfl | hx
    · exact hchecked
    · exact h.checked x (Multiset.mem_cons_of_mem hx)

/-- A thread that owes what it did before changes what it knows. -/
theorem Books.restage_view (h : Books n boot L (o ::ₘ M) w) (ho : o.torn = false) (ho' : o'.torn = false)
    (hdebt : o'.debt = o.debt) (hseen : ∀ recorded, o'.view = .seen recorded → ofBoot boot recorded = L)
    (hsees : o'.sees = true → o.sees = true ∨ ∀ x ∈ M, x.torn = false) (hchecked : o'.grip = .checked → L = none) :
    Books n boot L (o' ::ₘ M) w := by
  have howing (d : Debt) : owing d (o' ::ₘ M) = owing d (o ::ₘ M) := by
    rw [owing_cons, owing_cons, hdebt]
  refine h.restage ho ho' hseen hsees hchecked ?_ ?_
  · rw [howing]
    exact h.kills
  · rw [howing]
    exact h.starts

/-- A thread that takes or drops the lock knows and owes what it did before. -/
theorem Books.regrip (h : Books n boot L (o ::ₘ M) w) (ho : o.torn = false) {g : Grip}
    (hg : g ≠ .checked) : Books n boot L ({ o with grip := g } ::ₘ M) w := by
  have hmem := Multiset.mem_cons_self o M
  exact h.restage_view ho ho rfl (h.seen o hmem) .inl fun hc => absurd hc hg

/-- The marker is read while nobody has it truncated. -/
theorem Books.read (h : Books n boot L (o ::ₘ M) w) (ht : ∀ x ∈ o ::ₘ M, x.torn = false) {g : Grip}
    (hg : g = .checked → L = none) :
    Books n boot L ({ o with view := .seen (recordedOn n w.fs), grip := g } ::ₘ M) w := by
  have hmem := Multiset.mem_cons_self o M
  refine h.restage_view (ht o hmem) rfl rfl ?_ (fun _ => .inr fun x hx => ht x (Multiset.mem_cons_of_mem hx)) hg
  intro recorded hview
  obtain rfl := View.seen.inj hview
  exact h.disk ht

theorem forget_torn (o : Turn) : o.forget.torn = o.torn := by
  obtain ⟨grip, view, debt⟩ := o
  cases view <;> rfl

theorem forget_sees (o : Turn) : o.forget.sees = false := by
  obtain ⟨grip, view, debt⟩ := o
  cases view <;> rfl

theorem forget_grip (o : Turn) : o.forget.grip = o.grip := by
  obtain ⟨grip, view, debt⟩ := o
  cases view <;> rfl

theorem forget_debt (o : Turn) : o.forget.debt = o.debt := by
  obtain ⟨grip, view, debt⟩ := o
  cases view <;> rfl

theorem owing_forget (d : Debt) (M : Multiset Turn) : owing d (M.map Turn.forget) = owing d M := by
  rw [owing, Multiset.countP_map, owing, Multiset.countP_eq_card_filter]
  congr 1
  apply Multiset.filter_congr
  intro x _
  rw [forget_debt]

/-- The marker is truncated; the others have to read it again. -/
theorem Books.open (h : Books n boot L (o ::ₘ M) w) {recorded : Option FrameworkState} {ino : Nat}
    (hview : o.view = .seen recorded) (ht : ∀ x ∈ M, x.torn = false)
    (hget : w'.fs.get (frameworkMarker n) = some (.file ino "")) (hlog : w'.log = w.log) :
    Books n boot L ({ o with view := .torn recorded ino } ::ₘ M.map Turn.forget) w' := by
  have hself := Multiset.mem_cons_self o M
  have hothers : ∀ x ∈ M.map Turn.forget, x.torn = false ∧ x.sees = false := by
    intro x hx
    obtain ⟨y, hy, rfl⟩ := Multiset.mem_map.1 hx
    exact ⟨(forget_torn y).trans (ht y hy), forget_sees y⟩
  refine ⟨h.budget, ?_, ?_, AtMostOne.cons (fun x hx => (hothers x hx).1) _, ?_, ?_, ?_, ?_, ?_⟩
  · intro hnone
    exact absurd (hnone _ (Multiset.mem_cons_self _ _)) (by simp [Turn.torn])
  · intro x hx recorded' ino' hview'
    rcases Multiset.mem_cons.1 hx with rfl | hx
    · obtain ⟨rfl, rfl⟩ := View.torn.inj hview'
      exact ⟨h.seen o hself _ hview, hget⟩
    · exact absurd hview' (view_ne_torn (hothers x hx).1)
  · intro x hx recorded' hview'
    rcases Multiset.mem_cons.1 hx with rfl | hx
    · exact absurd hview' (by simp)
    · exact absurd hview' (view_ne_seen (hothers x hx).2)
  · intro x hx _ y hy
    rcases Multiset.mem_cons.1 hy with rfl | hy
    · rfl
    · exact (hothers y hy).2
  · intro x hx hc
    rcases Multiset.mem_cons.1 hx with rfl | hx
    · exact h.checked o hself hc
    · obtain ⟨y, hy, rfl⟩ := Multiset.mem_map.1 hx
      rw [forget_grip] at hc
      exact h.checked y (Multiset.mem_cons_of_mem hy) hc
  · have := h.kills
    rw [owing_cons] at this
    rw [owing_cons, owing_forget, hlog]
    exact this
  · have := h.starts
    rw [owing_cons] at this
    rw [owing_cons, owing_forget, hlog]
    exact this

/-- A write within the budget, in numbers. -/
theorem counted_of_owes (hbudget : ∀ s, L = some s →
      s.restarts = maxFrameworkRestarts ∧ s.heals ≤ maxFrameworkDaemonStarts)
    {recorded : Option FrameworkState} {g : Grip} {new : FrameworkState} {debt : Debt}
    (howes : owes boot recorded g new = some debt) (hL : ofBoot boot recorded = L) :
    new.restarts = maxFrameworkRestarts ∧ new.heals ≤ maxFrameworkDaemonStarts ∧
      counted FrameworkState.restarts L + (if debt = .restart then 1 else 0) ≤ new.restarts.toNat ∧
      counted FrameworkState.heals L + (if debt = .start then 1 else 0) ≤ new.heals.toNat := by
  cases L with
  | none =>
    obtain ⟨-, hrestarts, hheals, rfl⟩ := owes_first howes hL
    rw [hrestarts, hheals]
    decide
  | some s =>
    obtain ⟨hs, hmax⟩ := hbudget s rfl
    obtain ⟨hrestarts, ⟨hheals, rfl⟩ | ⟨hheals, hle, rfl⟩⟩ := owes_later howes hL
    · rw [hrestarts, hheals]
      exact ⟨hs, hmax, le_refl _, le_refl _⟩
    · have hsucc : (s.heals + 1).toNat = s.heals.toNat + 1 := by
        have hlt : s.heals.toNat ≤ 2 := UInt32.le_iff_toNat_le.1 hmax
        rw [UInt32.toNat_add]
        exact Nat.mod_eq_of_lt (by show s.heals.toNat + 1 < 2 ^ 32; omega)
      refine ⟨hrestarts.trans hs, hle, ?_, ?_⟩
      · rw [hrestarts]
        exact le_refl _
      · rw [hheals, hsucc]
        exact le_refl _

/-- What was counted is written: the transaction is the new one. -/
theorem Books.write (h : Books n boot L (o ::ₘ M) w)
    (hheld : Held Turn.holds Turn.restarts (.restart n) (o ::ₘ M) w) {raw : Option String}
    (hboot : bootIdOf raw = some boot) {recorded : Option FrameworkState} {ino : Nat}
    {new : FrameworkState} {debt : Debt} (hview : o.view = .torn recorded ino)
    (howes : owes boot recorded o.grip new = some debt)
    (hfs : w'.fs = w.fs.writeData (frameworkMarker n) ino new.print) (hlog : w'.log = w.log) :
    Books n boot (some new) (⟨if o.grip = .checked then .mine else o.grip, .out, debt⟩ ::ₘ M) w' := by
  have hself := Multiset.mem_cons_self o M
  obtain ⟨hL, hget⟩ := h.torn o hself recorded ino hview
  have hid := bootId_of_owes howes
  have hparse : FrameworkState.parse new.print = some new :=
    FrameworkState.parse_print (hboot.trans (congrArg some hid.symm))
  have hget' : w'.fs.get (frameworkMarker n) = some (.file ino new.print) := by
    rw [hfs, FileTree.get_writeData_self hget, FileTree.overwrite_empty]
  have hothers : ∀ x ∈ M, x.torn = false ∧ x.sees = false := fun x hx =>
    ⟨h.one.others (torn_of_view hview) x hx,
      h.apart o hself (torn_of_view hview) x (Multiset.mem_cons_of_mem hx)⟩
  obtain ⟨hrestarts, hheals, hkill, hstart⟩ := counted_of_owes h.budget howes hL
  refine ⟨?_, ?_, ?_, AtMostOne.cons (fun x hx => (hothers x hx).1) _, ?_, ?_, ?_, ?_, ?_⟩
  · intro s hs
    obtain rfl := Option.some.inj hs
    exact ⟨hrestarts, hheals⟩
  · intro _
    rw [recordedOn, FileTree.read, hget']
    simp [hparse, ofBoot, hid]
  · intro x hx recorded' ino' hview'
    rcases Multiset.mem_cons.1 hx with rfl | hx
    · exact absurd hview' (by simp)
    · exact absurd hview' (view_ne_torn (hothers x hx).1)
  · intro x hx recorded' hview'
    rcases Multiset.mem_cons.1 hx with rfl | hx
    · exact absurd hview' (by simp)
    · exact absurd hview' (view_ne_seen (hothers x hx).2)
  · intro x hx ht
    rcases Multiset.mem_cons.1 hx with rfl | hx
    · exact absurd ht (by simp [Turn.torn])
    · exact absurd (hothers x hx).1 (by simp [ht])
  · intro x hx hc
    rcases Multiset.mem_cons.1 hx with rfl | hx
    · simp only at hc
      split_ifs at hc with hg
      exact absurd hc hg
    -- another thread that found no transaction would hold the lock as well
    · have hnone := h.checked x (Multiset.mem_cons_of_mem hx) hc
      have ho : o.holds = true := by
        rw [Turn.holds, (owes_first howes (hL.trans hnone)).1]
        rfl
      have hx' := hheld.one.others ho x hx
      rw [Turn.holds, hc] at hx'
      exact absurd hx' (by decide)
  · have := h.kills
    rw [owing_cons] at this ⊢
    rw [hlog, counted, Option.map_some, Option.getD_some]
    simp only at this ⊢
    omega
  · have := h.starts
    rw [owing_cons] at this ⊢
    rw [hlog, counted, Option.map_some, Option.getD_some]
    simp only at this ⊢
    omega

/-- The marker of another boot, or an unreadable one, is removed. -/
theorem Books.drop (h : Books n boot L (o ::ₘ M) w) {recorded : Option FrameworkState}
    (hview : o.view = .seen recorded) (hnone : ofBoot boot recorded = none)
    (ht : ∀ x ∈ M, x.torn = false)
    (hget : w'.fs.get (frameworkMarker n) = none ∨ w'.fs = w.fs) (hlog : w'.log = w.log) :
    Books n boot L ({ o with view := .out } ::ₘ M) w' := by
  have hself := Multiset.mem_cons_self o M
  have hL : L = none := (h.seen o hself _ hview).symm.trans hnone
  have htorn : ∀ x ∈ o ::ₘ M, x.torn = false := by
    intro x hx
    rcases Multiset.mem_cons.1 hx with rfl | hx
    · exact not_torn_of_view hview
    · exact ht x hx
  have hdisk : ofBoot boot (recordedOn n w'.fs) = L := by
    rcases hget with hget | hfs
    · rw [recordedOn, FileTree.read, hget, hL]
      rfl
    · rw [hfs]
      exact h.disk htorn
  have hrest : Books n boot L ({ o with view := .out } ::ₘ M) w := by
    refine h.restage_view (htorn o hself) rfl rfl ?_ ?_ (h.checked o hself)
    · exact fun recorded hview => absurd hview (by simp)
    · exact fun hs => absurd hs (by simp [Turn.sees])
  have hnot : ∀ x ∈ ({ o with view := .out } ::ₘ M : Multiset Turn), x.torn = false := by
    intro x hx
    rcases Multiset.mem_cons.1 hx with rfl | hx
    · rfl
    · exact ht x hx
  refine ⟨hrest.budget, fun _ => hdisk, ?_, hrest.one, hrest.seen, hrest.apart, hrest.checked,
    hlog ▸ hrest.kills, hlog ▸ hrest.starts⟩
  intro x hx recorded' ino' hview'
  exact absurd hview' (view_ne_torn (hnot x hx))

/-! ### One operation -/

structure Budget (n boot : String) (M : Multiset Turn) (w : World) : Prop where
  held : Held Turn.holds Turn.restarts (.restart n) M w
  books : ∃ L, Books n boot L M w

/-- What was counted and owed is done. -/
theorem Books.settle (h : Books n boot L (o ::ₘ M) w) (ho : o.torn = false) (hfs : w'.fs = w.fs)
    (hkills : Daemon.kills n w'.log = Daemon.kills n w.log + if o.debt = .restart then 1 else 0)
    (hstarts : Daemon.starts n w'.log = Daemon.starts n w.log + if o.debt = .start then 1 else 0) :
    Books n boot L ({ o with debt := .nothing } ::ₘ M) w' := by
  have hself := Multiset.mem_cons_self o M
  have hothers (d : Debt) (hd : .nothing ≠ d) : owing d ({ o with debt := .nothing } ::ₘ M) = owing d M := by
    rw [owing_cons, if_neg hd, Nat.add_zero]
  have hk := h.kills
  have hs := h.starts
  rw [owing_cons] at hk hs
  have hrest : Books n boot L ({ o with debt := .nothing } ::ₘ M) w := by
    refine h.restage ho ho (h.seen o hself) .inl (h.checked o hself) ?_ ?_
    · rw [hothers .restart nofun]
      omega
    · rw [hothers .start nofun]
      omega
  refine ⟨hrest.budget, hfs ▸ hrest.disk, hfs ▸ hrest.torn, hrest.one, hrest.seen, hrest.apart,
    hrest.checked, ?_, ?_⟩
  · rw [hkills, hothers .restart nofun]
    omega
  · rw [hstarts, hothers .start nofun]
    omega

/-- The kill that was counted is done. -/
theorem Books.killed (h : Books n boot L (o ::ₘ M) w) (ho : o.torn = false) (hdebt : o.debt = .restart)
    (hfs : w'.fs = w.fs) (hkills : Daemon.kills n w'.log = Daemon.kills n w.log + 1)
    (hstarts : Daemon.starts n w'.log = Daemon.starts n w.log) :
    Books n boot L ({ o with debt := .nothing } ::ₘ M) w' := by
  apply h.settle ho hfs
  · rw [hkills, hdebt, if_pos rfl]
  · rw [hstarts, hdebt, if_neg nofun, Nat.add_zero]

/-- The daemon start that was counted is scheduled. -/
theorem Books.scheduled (h : Books n boot L (o ::ₘ M) w) (ho : o.torn = false)
    (hdebt : o.debt = .start) (hfs : w'.fs = w.fs)
    (hkills : Daemon.kills n w'.log = Daemon.kills n w.log)
    (hstarts : Daemon.starts n w'.log = Daemon.starts n w.log + 1) :
    Books n boot L ({ o with debt := .nothing } ::ₘ M) w' := by
  apply h.settle ho hfs
  · rw [hkills, hdebt, if_neg nofun, Nat.add_zero]
  · rw [hstarts, hdebt, if_pos rfl]

theorem counts_of_exec {op : Op} {r : Resp op} (hx : exec e op w = some (r, w'))
    (hkill : op.killsFor n = false) (hstart : op.schedules n = false) :
    kills n w'.log = kills n w.log ∧ starts n w'.log = starts n w.log := by
  rcases log_of_exec hx with hlog | hlog
  · rw [hlog]
    exact ⟨rfl, rfl⟩
  · rw [hlog, kills, starts, List.countP_cons_of_neg (by simp [hkill]),
      List.countP_cons_of_neg (by simp [hstart])]
    exact ⟨rfl, rfl⟩

/-- An operation that neither touches the marker nor counts. -/
theorem Budget.frame {op : Op} {r : Resp op} (h : Budget n boot M w) (hop : op.issued)
    (hx : exec e op w = some (r, w')) (hlock : w'.lock = w.lock)
    (htarget : op.target ≠ some (frameworkMarker n)) (hkill : op.killsFor n = false)
    (hstart : op.schedules n = false) : Budget n boot M w' := by
  obtain ⟨L, hbooks⟩ := h.books
  obtain ⟨hkills, hstarts⟩ := counts_of_exec hx hkill hstart
  have hget := get_leaf hop hx (isLeaf_activationMarker n "framework") htarget
  exact ⟨h.held.frame hlock, L, hbooks.frame hget hkills hstarts⟩

theorem held_same (h : Held Turn.holds Turn.restarts (.restart n) (o ::ₘ M) w)
    (hholds : o'.holds = o.holds) (hrestarts : o'.restarts = o.restarts) :
    Held Turn.holds Turn.restarts (.restart n) (o' ::ₘ M) w :=
  h.restage (fun hh => hholds ▸ hh) fun _ => hrestarts

theorem torn_of_true (ho : o.torn = true) : ∃ recorded ino, o.view = .torn recorded ino := by
  obtain ⟨grip, view, debt⟩ := o
  cases view with
  | torn recorded ino => exact ⟨recorded, ino, rfl⟩
  | _ => exact absurd ho (by simp [Turn.torn])

/-- What a thread that has the marker truncated issues is the write. -/
theorem write_of_torn {op : Op} (ho : o.torn = true) (hallow : o.allows n boot op) :
    ∃ recorded ino new debt, o.view = .torn recorded ino ∧ op = .writeData (frameworkMarker n) ino new.print ∧
      owes boot recorded o.grip new = some debt := by
  obtain ⟨recorded, ino, hview⟩ := torn_of_true ho
  rw [Turn.allows, hview] at hallow
  obtain ⟨new, debt, hop, howes⟩ := hallow
  exact ⟨recorded, ino, new, debt, hview, hop, howes⟩

theorem not_torn_of_allows {op : Op} (hallow : o.allows n boot op) (hop : ∀ p ino data, op ≠ .writeData p ino data) :
    o.torn = false := by
  cases hto : o.torn with
  | false => rfl
  | true =>
    obtain ⟨recorded, ino, new, debt, -, hwrite, -⟩ := write_of_torn hto hallow
    exact absurd hwrite (hop _ _ _)

/-- The write that follows the truncation. -/
theorem Budget.write {op : Op} {r : Resp op} (h : Budget n boot (o ::ₘ M) w) {raw : Option String}
    (hboot : bootIdOf raw = some boot) (ho : o.torn = true) (hallow : o.allows n boot op)
    (hx : exec e op w = some (r, w')) (hgoes : op.goes n boot r) :
    ∃ o', o.moves n boot op r o' ∧ Budget n boot (o' ::ₘ M) w' := by
  obtain ⟨recorded, ino, new, debt, hview, rfl, howes⟩ := write_of_torn ho hallow
  obtain rfl : r = true := hgoes rfl
  obtain ⟨L, hbooks⟩ := h.books
  rcases exec_writeData hx with ⟨-, rfl⟩ | ⟨hfalse, -⟩
  · refine ⟨⟨if o.grip = .checked then .mine else o.grip, .out, debt⟩, ?_, ?_, some new,
      hbooks.write h.held hboot hview howes rfl rfl⟩
    · show if _ then _ else _
      rw [if_pos rfl]
      exact ⟨recorded, ino, new, debt, hview, rfl, howes, rfl, rfl⟩
    · refine (held_same h.held ?_ ?_).frame rfl
      · by_cases hc : o.grip = .checked <;> simp [Turn.holds, hc]
      · by_cases hc : o.grip = .checked <;> simp [Turn.restarts, hc]
  · exact absurd hfalse (by simp)

/-- A read finds the transaction of this boot. -/
theorem Budget.read (h : Budget n boot (o ::ₘ M) w) (ht : ∀ x ∈ o ::ₘ M, x.torn = false) :
    ∃ o', o.moves n boot (.read (frameworkMarker n)) (w.fs.read (frameworkMarker n)) o' ∧
      Budget n boot (o' ::ₘ M) w := by
  have hself := Multiset.mem_cons_self o M
  obtain ⟨L, hbooks⟩ := h.books
  have hL : ofBoot boot (recordedOn n w.fs) = L := hbooks.disk ht
  have hfound : Found boot o.grip (recordedOn n w.fs) :=
    ⟨fun s hs => hbooks.budget s (hL.symm.trans hs), fun hc => hL.trans (hbooks.checked o hself hc)⟩
  by_cases hmine : o.grip = .mine ∧ ofBoot boot (recordedOn n w.fs) = none
  · refine ⟨{ o with view := .seen (recordedOn n w.fs), grip := .checked }, ?_, ?_, L,
      hbooks.read ht fun _ => hL.symm.trans hmine.2⟩
    · show if _ then _ else _
      rw [if_pos rfl]
      exact ⟨hfound, by rw [← recordedOn, if_pos hmine]⟩
    · apply held_same h.held <;> simp [Turn.holds, Turn.restarts, hmine.1]
  · refine ⟨{ o with view := .seen (recordedOn n w.fs), grip := o.grip }, ?_, ?_, L,
      hbooks.read ht (hbooks.checked o hself)⟩
    · show if _ then _ else _
      rw [if_pos rfl]
      exact ⟨hfound, by rw [← recordedOn, if_neg hmine]⟩
    · exact held_same h.held rfl rfl

theorem lockGrip_restarts (n : String) (use : LockUse) :
    (⟨lockGrip n use, View.out, Debt.nothing⟩ : Turn).restarts = true ↔ use = .restart n := by
  rw [lockGrip]
  split_ifs with huse <;> simp [huse, Turn.restarts]

theorem lockGrip_ne_checked (n : String) (use : LockUse) : lockGrip n use ≠ .checked := by
  rw [lockGrip]
  split_ifs <;> simp

/-- An operation keeps the account and leads where the rules say. -/
theorem Budget.step {op : Op} {r : Resp op} (h : Budget n boot (o ::ₘ M) w) {raw : Option String}
    (hboot : bootIdOf raw = some boot) (hop : op.issued) (hallow : o.allows n boot op)
    (hx : exec e op w = some (r, w')) (he : ∀ p, e.works (.read p) = true)
    (hgoes : op.goes n boot r) (hspawn : ∀ job, op ≠ .spawn job)
    (hopen : op ≠ .openTrunc (frameworkMarker n))
    (hquiet : op = .read (frameworkMarker n) ∨ op = .removeFile (frameworkMarker n) →
      ∀ x ∈ M, x.torn = false) :
    ∃ o', o.moves n boot op r o' ∧ Budget n boot (o' ::ₘ M) w' := by
  cases ho : o.torn with
  | true => exact h.write hboot ho hallow hx hgoes
  | false =>
    rw [allows_of_not_torn ho] at hallow
    have hself := Multiset.mem_cons_self o M
    obtain ⟨L, hbooks⟩ := h.books
    -- an operation that is about neither the lock nor the marker nor the two counters
    have hframe : (∀ use, op ≠ .flock use) → op ≠ .unlock → op.target ≠ some (frameworkMarker n) →
        op.killsFor n = false → op.schedules n = false → Budget n boot (o ::ₘ M) w' :=
      fun hflock hunlock => h.frame hop hx (lock_of_exec hx hflock hunlock)
    cases op with
    | flock use =>
      have hfree : o.grip = .free := hallow
      rcases exec_flock hx with ⟨rfl, hlock, rfl⟩ | ⟨rfl, rfl, -⟩
      · refine ⟨{ o with grip := lockGrip n use }, rfl, h.held.take hlock ?_, L,
          (hbooks.regrip ho (lockGrip_ne_checked n use)).frame rfl rfl rfl⟩
        exact lockGrip_restarts n use
      · exact ⟨o, rfl, h⟩
    | unlock =>
      obtain rfl := exec_unlock hx
      have hgrip : o.grip ≠ .free := hallow
      refine ⟨{ o with grip := .free }, rfl, h.held.drop ?_ rfl, L,
        (hbooks.regrip ho (by simp)).frame rfl rfl rfl⟩
      simpa [Turn.holds] using hgrip
    | read p =>
      by_cases hp : p = frameworkMarker n
      · subst hp
        obtain rfl : w' = w := exec_inert (show (Op.read _).inert from trivial) hx
        obtain rfl : r = w'.fs.read (frameworkMarker n) := by
          simp only [exec, he, if_true, Option.some.injEq, Prod.mk.injEq, and_true] at hx
          exact hx.symm
        apply h.read
        intro x hx
        rcases Multiset.mem_cons.1 hx with rfl | hx
        · exact ho
        · exact hquiet (.inl rfl) x hx
      · exact ⟨o, by simp [Turn.moves, hp],
          hframe (by simp) (by simp) (by simp [Op.target]) rfl rfl⟩
    | removeFile p =>
      by_cases hp : p = frameworkMarker n
      · subst hp
        obtain ⟨recorded, hview, hnone⟩ := hallow rfl
        have hlock := lock_of_exec hx (by simp) (by simp)
        have hheld : Held Turn.holds Turn.restarts (.restart n) ({ o with view := .out } ::ₘ M) w :=
          held_same h.held rfl rfl
        refine ⟨{ o with view := .out }, ⟨hgoes, by rw [if_pos rfl]⟩, hheld.frame hlock, L,
          hbooks.drop hview hnone (hquiet (.inr rfl)) ?_ ?_⟩
        · rcases exec_removeFile hx with ⟨-, fs, hfs, rfl⟩ | ⟨-, rfl, -⟩
          · left
            rw [FileTree.get_removeFile hfs, if_pos (List.prefix_refl _)]
          · exact .inr rfl
        · rcases exec_removeFile hx with ⟨-, fs, -, rfl⟩ | ⟨-, rfl, -⟩ <;> rfl
      · exact ⟨o, ⟨hgoes, by rw [if_neg hp]⟩,
          hframe (by simp) (by simp) (by simpa [Op.target] using hp) rfl rfl⟩
    | kill pid signal name =>
      by_cases hkill : name = n ∧ signal = sigKill
      · obtain ⟨rfl, rfl⟩ := hkill
        simp only [exec, Option.some.injEq, Prod.mk.injEq] at hx
        obtain ⟨-, rfl⟩ := hx
        have hheld : Held Turn.holds Turn.restarts (.restart name)
            ({ o with debt := .nothing } ::ₘ M) w := held_same h.held rfl rfl
        refine ⟨{ o with debt := .nothing }, by simp [Turn.moves], hheld.frame rfl, L,
          hbooks.killed ho (hallow rfl rfl) rfl ?_ ?_⟩
        · exact List.countP_cons_of_pos (by simp [Op.killsFor])
        · exact List.countP_cons_of_neg (by simp [Op.schedules])
      · refine ⟨o, by simp [Turn.moves, hkill],
          hframe (by simp) (by simp) (by simp [Op.target]) ?_ rfl⟩
        simpa [Op.killsFor] using hkill
    | openTrunc p =>
      have hp : p ≠ frameworkMarker n := fun hp => hopen (congrArg _ hp)
      exact ⟨o, by simp [Turn.moves, hp],
        hframe (by simp) (by simp) (by simpa [Op.target] using hp) rfl rfl⟩
    | writeData p ino data =>
      have hp : p ≠ frameworkMarker n := hallow
      exact ⟨o, by simp [Turn.moves, hp],
        hframe (by simp) (by simp) (by simpa [Op.target] using hp) rfl rfl⟩
    | createNew p | openKeep p =>
      have hp : p ≠ frameworkMarker n := hallow
      exact ⟨o, rfl, hframe (by simp) (by simp) (by simpa [Op.target] using hp) rfl rfl⟩
    | bootId | look p =>
      exact ⟨o, ⟨hgoes, rfl⟩, hframe (by simp) (by simp) (by simp [Op.target]) rfl rfl⟩
    | spawn job => exact absurd rfl (hspawn job)
    | _ => exact ⟨o, rfl, hframe (by simp) (by simp) (by simp [Op.target]) rfl rfl⟩

/-! ### Reading again -/

/-- The rules of the threads of the pool. -/
abbrev budgetRules (n boot : String) : Prog.Rules Resp Turn := (turnRules n boot).also Op.issued

/-- A read replaces what was read before. -/
theorem moves_read_forget (t : Turn) (hview : t.torn = false) {r : Resp (.read (frameworkMarker n))}
    {t' : Turn} (hm : t.forget.moves n boot (.read (frameworkMarker n)) r t') :
    t.moves n boot (.read (frameworkMarker n)) r t' := by
  simp only [Turn.moves, if_true] at hm ⊢
  obtain ⟨grip, view, debt⟩ := t
  cases view with
  | torn recorded ino => exact absurd hview (by simp [Turn.torn])
  | _ => exact hm

/-- A thread that reads the marker first does not depend on what it read before. -/
theorem spec_forgetTurn {p : Program Unit} {t : Turn}
    (h : Prog.Spec (budgetRules n boot) p t fun _ t' => t'.torn = false) (hp : ReadsFirst n p) :
    Prog.Spec (budgetRules n boot) p t.forget fun _ t' => t'.torn = false := by
  refine Prog.spec_forget h hp ?_ ?_ fun _ t ht => (forget_torn t).trans ht
  · rintro ⟨grip, view, debt⟩ _ rfl hallow
    cases view with
    | out => exact ⟨hallow, fun _ _ hm => hm⟩
    | torn recorded ino => exact ⟨hallow, fun _ _ hm => hm⟩
    | seen recorded => exact ⟨⟨trivial, trivial⟩, fun _ _ hm => moves_read_forget _ rfl hm⟩
  · rintro ⟨grip, view, debt⟩ op htarget ⟨hissued, hallow⟩
    cases view with
    | out => exact ⟨⟨hissued, hallow⟩, fun _ t' hm => ⟨t', hm, .inr rfl⟩⟩
    | torn recorded ino => exact ⟨⟨hissued, hallow⟩, fun _ t' hm => ⟨t', hm, .inr rfl⟩⟩
    | seen recorded =>
      cases op with
      | flock use =>
        refine ⟨⟨hissued, hallow⟩, fun r t' hm => ?_⟩
        obtain rfl : t' = _ := hm
        cases r with
        | false => exact ⟨_, rfl, .inl rfl⟩
        | true => exact ⟨_, rfl, .inl rfl⟩
      | unlock =>
        refine ⟨⟨hissued, hallow⟩, fun r t' hm => ?_⟩
        obtain rfl : t' = _ := hm
        exact ⟨_, rfl, .inl rfl⟩
      | read p =>
        refine ⟨⟨hissued, hallow⟩, fun r t' hm => ?_⟩
        by_cases hp : p = frameworkMarker n
        · subst hp
          exact ⟨t', moves_read_forget _ rfl hm, .inr rfl⟩
        · simp only [Prog.Rules.also, turnRules, Turn.moves, if_neg hp] at hm ⊢
          exact ⟨_, rfl, .inl hm⟩
      | openTrunc p =>
        have hp : p ≠ frameworkMarker n := by simpa [Op.target] using htarget
        refine ⟨⟨hissued, fun h => absurd h hp⟩, fun r t' hm => ?_⟩
        simp only [Prog.Rules.also, turnRules, Turn.moves, if_neg hp] at hm ⊢
        exact ⟨_, rfl, .inl hm⟩
      | writeData p ino data =>
        have hp : p ≠ frameworkMarker n := by simpa [Op.target] using htarget
        refine ⟨⟨hissued, hp⟩, fun r t' hm => ?_⟩
        simp only [Prog.Rules.also, turnRules, Turn.moves, if_neg hp] at hm ⊢
        exact ⟨_, rfl, .inl hm⟩
      | removeFile p =>
        have hp : p ≠ frameworkMarker n := by simpa [Op.target] using htarget
        refine ⟨⟨hissued, fun h => absurd h hp⟩, fun r t' hm => ?_⟩
        simp only [Prog.Rules.also, turnRules, Turn.moves, if_neg hp] at hm ⊢
        exact ⟨_, ⟨hm.1, rfl⟩, .inl hm.2⟩
      | kill pid signal name =>
        refine ⟨⟨hissued, hallow⟩, fun r t' hm => ?_⟩
        by_cases hkill : name = n ∧ signal = sigKill
        · simp only [Prog.Rules.also, turnRules, Turn.moves, if_pos hkill] at hm ⊢
          exact ⟨_, rfl, .inl hm⟩
        · simp only [Prog.Rules.also, turnRules, Turn.moves, if_neg hkill] at hm ⊢
          exact ⟨_, rfl, .inl hm⟩
      | spawn job =>
        refine ⟨⟨hissued, hallow⟩, fun r t' hm => ?_⟩
        by_cases hjob : job.startsFor n = true
        · simp only [Prog.Rules.also, turnRules, Turn.moves, if_pos hjob] at hm ⊢
          exact ⟨_, rfl, .inl hm⟩
        · simp only [Prog.Rules.also, turnRules, Turn.moves, if_neg hjob] at hm ⊢
          exact ⟨_, rfl, .inl hm⟩
      | bootId | look p =>
        exact ⟨⟨hissued, hallow⟩, fun r t' hm => ⟨_, ⟨hm.1, rfl⟩, .inl hm.2⟩⟩
      | _ => exact ⟨⟨hissued, hallow⟩, fun r t' hm => ⟨_, rfl, .inl hm⟩⟩

/-- A thread that has truncated the marker is about to write it. -/
theorem writing_of_torn {p : Program Unit} {t : Turn}
    (h : Prog.Spec (budgetRules n boot) p t fun _ t' => t'.torn = false) (ht : t.torn = true) :
    Writing n p := by
  cases p with
  | ret u =>
    have hnot : t.torn = false := h
    rw [ht] at hnot
    exact absurd hnot (by simp)
  | call op k =>
    obtain ⟨recorded, ino, new, debt, -, rfl, -⟩ := write_of_torn ht h.1.2
    exact ⟨ino, _, k, rfl⟩

theorem not_writing_of_readsFirst {p : Program Unit} (h : ReadsFirst n p) : ¬ Writing n p := by
  rintro ⟨ino, data, k, rfl⟩
  rcases h with h | ⟨h, -⟩
  · exact absurd h (by simp)
  · exact h rfl

/-- Nobody has the marker truncated where nobody is about to write it. -/
theorem none_torn {ts : List (Pool.Thread Resp Job)} {os : List Turn}
    (h : Pool.Typed (fun _ => budgetRules n boot) (fun t => t.torn = false) ts os)
    (hts : ∀ t ∈ ts, ¬ Writing n t.rest) : ∀ o ∈ os, o.torn = false := by
  induction h with
  | nil => simp
  | cons ht _ ih =>
    intro o ho
    rcases List.mem_cons.1 ho with rfl | ho
    · cases htorn : o.torn with
      | false => rfl
      | true => exact absurd (writing_of_torn ht htorn) (hts _ List.mem_cons_self)
    · exact ih (fun t ht => hts t (List.mem_cons_of_mem _ ht)) o ho

theorem typed_forget {ts : List (Pool.Thread Resp Job)} {os : List Turn}
    (h : Pool.Typed (fun _ => budgetRules n boot) (fun t => t.torn = false) ts os)
    (hts : ∀ t ∈ ts, ReadsFirst n t.rest) :
    Pool.Typed (fun _ => budgetRules n boot) (fun t => t.torn = false) ts (os.map Turn.forget) := by
  induction h with
  | nil => exact .nil
  | cons ht _ ih =>
    exact .cons (spec_forgetTurn ht (hts _ List.mem_cons_self))
      (ih fun t ht => hts t (List.mem_cons_of_mem _ ht))

/-! ### Runs -/

/-- A thread that has nothing to do with the module. -/
def idleTurn : Turn := ⟨.free, .out, .nothing⟩

theorem at_idleTurn : idleTurn.At .free := ⟨rfl, rfl, rfl⟩

theorem Budget.idle_cons (h : Budget n boot M w) : Budget n boot (idleTurn ::ₘ M) w := by
  obtain ⟨L, hbooks⟩ := h.books
  have hmem : ∀ x ∈ (idleTurn ::ₘ M : Multiset Turn), x = idleTurn ∨ x ∈ M := fun x hx =>
    Multiset.mem_cons.1 hx
  refine ⟨h.held.cons_free rfl, L, hbooks.budget, ?_, ?_, (AtMostOne.cons_iff rfl).2 hbooks.one, ?_,
    ?_, ?_, ?_, ?_⟩
  · exact fun ht => hbooks.disk fun x hx => ht x (Multiset.mem_cons_of_mem hx)
  · intro x hx recorded ino hview
    rcases hmem x hx with rfl | hx
    · exact absurd hview (by simp [idleTurn])
    · exact hbooks.torn x hx recorded ino hview
  · intro x hx recorded hview
    rcases hmem x hx with rfl | hx
    · exact absurd hview (by simp [idleTurn])
    · exact hbooks.seen x hx recorded hview
  · intro x hx ht y hy
    rcases hmem x hx with rfl | hx
    · exact absurd ht (by simp [idleTurn, Turn.torn])
    · rcases hmem y hy with rfl | hy
      · rfl
      · exact hbooks.apart x hx ht y hy
  · intro x hx hc
    rcases hmem x hx with rfl | hx
    · exact absurd hc (by simp [idleTurn])
    · exact hbooks.checked x hx hc
  · rw [owing_cons]
    exact hbooks.kills
  · rw [owing_cons]
    exact hbooks.starts

/-- The marker is opened for writing. -/
theorem Budget.open {op : Op} {r : Resp op} (h : Budget n boot (o ::ₘ M) w)
    (hop : op = .openTrunc (frameworkMarker n)) (hallow : o.allows n boot op)
    (hx : exec e op w = some (r, w')) (hgoes : op.goes n boot r) (ht : ∀ x ∈ M, x.torn = false) :
    ∃ o', o.moves n boot op r o' ∧ Budget n boot (o' ::ₘ M.map Turn.forget) w' := by
  subst hop
  have ho : o.torn = false := not_torn_of_allows hallow nofun
  rw [allows_of_not_torn ho] at hallow
  obtain ⟨recorded, hview, -⟩ := hallow rfl
  obtain ⟨L, hbooks⟩ := h.books
  have hsome : r.isSome = true := hgoes rfl
  rcases exec_openTrunc hx with ⟨ino, fs, rfl, hfs, rfl⟩ | ⟨rfl, -, -⟩
  · have hheld : Held Turn.holds Turn.restarts (.restart n)
        ({ o with view := .torn recorded ino } ::ₘ M) w := held_same h.held rfl rfl
    refine ⟨{ o with view := .torn recorded ino }, ?_, ⟨?_, ?_⟩, L,
      hbooks.open hview ht (FileTree.get_openTrunc_self hfs) rfl⟩
    · show if _ then _ else _
      rw [if_pos rfl]
      exact ⟨recorded, ino, hview, rfl, rfl⟩
    · have hmap := hheld.one.map (f := Turn.forget) ?_
      · rw [Multiset.map_cons] at hmap
        exact hmap
      · intro x hx
        rwa [Turn.holds, forget_grip] at hx
    · intro x hx hh
      rcases Multiset.mem_cons.1 hx with rfl | hx
      · exact hheld.use _ (Multiset.mem_cons_self _ _) hh
      · obtain ⟨y, hy, rfl⟩ := Multiset.mem_map.1 hx
        rw [Turn.holds, forget_grip] at hh
        rw [Turn.restarts, forget_grip]
        exact hheld.use y (Multiset.mem_cons_of_mem hy) hh
  · exact absurd hsome (by simp)

/-- The daemon thread of a module has nothing to do with the marker. -/
theorem spec_daemonTurn (m : String) (dir : FilePath) :
    Prog.Spec (budgetRules n boot) (body (.frameworkDaemon m dir)) idleTurn
      fun _ t => t.torn = false := by
  refine Prog.spec_also ?_ (only_body (j := .frameworkDaemon m dir) trivial)
  refine Prog.spec_mono (spec_calm (calm_frameworkDaemonThread m dir) (.inl rfl) at_idleTurn) ?_
  exact fun _ t ht => ht.2.1

/-- A daemon start, counted if it is the module's. -/
theorem Budget.spawn {m : String} {dir : FilePath} (h : Budget n boot (o ::ₘ M) w)
    (hallow : o.allows n boot (.spawn (.frameworkDaemon m dir))) :
    ∃ o', o.moves n boot (.spawn (.frameworkDaemon m dir)) () o' ∧
      Budget n boot (o' ::ₘ M) (w.note (.spawn (.frameworkDaemon m dir))) := by
  have ho : o.torn = false := not_torn_of_allows hallow nofun
  rw [allows_of_not_torn ho] at hallow
  obtain ⟨L, hbooks⟩ := h.books
  by_cases hm : m = n
  · subst hm
    obtain ⟨m', dir', hjob, hdebt⟩ := hallow
    obtain ⟨rfl, rfl⟩ : m = m' ∧ dir = dir' := by simpa using hjob
    have hheld : Held Turn.holds Turn.restarts (.restart m) ({ o with debt := .nothing } ::ₘ M) w :=
      held_same h.held rfl rfl
    refine ⟨{ o with debt := .nothing }, by simp [Turn.moves, Job.startsFor], hheld.frame rfl, L,
      hbooks.scheduled ho (hdebt rfl) rfl ?_ ?_⟩
    · exact List.countP_cons_of_neg (by simp [Op.killsFor])
    · exact List.countP_cons_of_pos (by simp [Op.schedules, Job.startsFor])
  · refine ⟨o, by simp [Turn.moves, Job.startsFor, hm], h.held.frame rfl, L,
      hbooks.frame rfl ?_ ?_⟩
    · exact List.countP_cons_of_neg (by simp [Op.killsFor])
    · exact List.countP_cons_of_neg (by simpa [Op.schedules, Job.startsFor] using hm)

theorem keeps_books {raw : Option String} (hboot : bootIdOf raw = some boot) (n : String) :
    Pool.Keeps (budgetSystem boot) (MarkerExclusive n boot) (fun _ => budgetRules n boot)
      (fun t => t.torn = false) (Budget n boot) where
  starts := by
    intro j hj
    refine ⟨idleTurn, ?_, fun M w h => h.idle_cons⟩
    rcases hj with rfl | ⟨m, rfl⟩
    · exact Prog.spec_mono (Prog.spec_also (spec_runFrameworkActivations hboot at_idleTurn)
        issued_runFrameworkActivations) fun _ t ht => ht.2.1
    · refine Prog.spec_also ?_ (only_body (j := .restartFrameworkOnce m) trivial)
      refine Prog.spec_seq ?_ fun _ t (ht : t.At .free) => ht.2.1
      by_cases hm : m = n
      · subst hm
        exact spec_restartTurn hboot at_idleTurn
      · exact spec_restartOther hm at_idleTurn
  ops := by
    rintro j others os o w op r w' hothers hown ⟨hissued, hallow⟩ ⟨e, ⟨-, he⟩, hx⟩
      ⟨hgoes, hquiet, hopen⟩
    have hnone : (∀ t ∈ others, ¬ Writing n t.rest) → ∀ x ∈ (os : Multiset Turn), x.torn = false :=
      fun hts x hx => none_torn hothers hts x (Multiset.mem_coe.1 hx)
    have hforked : forks op = none → Pool.Typed (fun _ => budgetRules n boot)
        (fun t => t.torn = false) ((budgetSystem boot).forked op) [] := by
      intro hforks
      rw [Pool.System.forked]
      show Pool.Typed _ _ ((forks op).toList.map _) _
      rw [hforks]
      exact .nil
    by_cases hspawn : ∃ job, op = .spawn job
    · obtain ⟨job, rfl⟩ := hspawn
      obtain ⟨m, dir, rfl⟩ : ∃ m dir, job = .frameworkDaemon m dir := by
        have ho : o.torn = false := not_torn_of_allows hallow nofun
        rw [show (turnRules n boot).allow o (.spawn job) = o.permits n boot (.spawn job) from
          allows_of_not_torn ho _] at hallow
        obtain ⟨m, dir, rfl, -⟩ := hallow
        exact ⟨m, dir, rfl⟩
      obtain ⟨o', hmoves, hown'⟩ := hown.spawn hallow
      simp only [exec, Option.some.injEq, Prod.mk.injEq] at hx
      obtain ⟨-, rfl⟩ := hx
      refine ⟨o', os, [idleTurn], hmoves, hothers, .cons (spec_daemonTurn m dir) .nil, ?_⟩
      have hperm : (o' ::ₘ (os ++ [idleTurn] : List Turn) : Multiset Turn) =
          idleTurn ::ₘ o' ::ₘ (os : Multiset Turn) := by
        rw [Pool.coe_middle os [] idleTurn, List.append_nil, Multiset.cons_swap]
      rw [hperm]
      exact hown'.idle_cons
    · have hno : ∀ job, op ≠ .spawn job := fun job h => hspawn ⟨job, h⟩
      have hforks : forks op = none := by
        cases op with
        | spawn job => exact absurd rfl (hno job)
        | _ => rfl
      by_cases hop : op = .openTrunc (frameworkMarker n)
      · have hfirst := hopen hop
        have htorn := hnone fun t ht => not_writing_of_readsFirst (hfirst t ht)
        obtain ⟨o', hmoves, hown'⟩ := hown.open hop hallow hx hgoes htorn
        exact ⟨o', os.map Turn.forget, [], hmoves, typed_forget hothers hfirst, hforked hforks,
          by simpa using hown'⟩
      · obtain ⟨o', hmoves, hown'⟩ := hown.step hboot hissued hallow hx he hgoes hno hop
          fun h => hnone (hquiet h)
        exact ⟨o', os, [], hmoves, hothers, hforked hforks, by simpa using hown'⟩
  drifts := by
    rintro M w w' h ⟨hlog, hlock, hfs⟩
    obtain ⟨L, hbooks⟩ := h.books
    exact ⟨h.held.frame hlock, L, hbooks.frame (hfs _ (List.prefix_append _ _)) (by rw [hlog])
      (by rw [hlog])⟩
  kills _ _ _ _ _ h := h.elim

/-- In every run of one kernel boot in which the operations on the marker exclude each other and work,
the framework is restarted for a module at most once, and its daemon is started at most twice. -/
theorem withinBudget {n boot : String} {raw : Option String} (hboot : bootIdOf raw = some boot)
    {fs : FileTree} (hfs : ofBoot boot (recordedOn n fs) = none) {s : Pool.State Resp Job World}
    (hs : Pool.Reach (budgetSystem boot) (MarkerExclusive n boot) ⟨[], .idle fs⟩ s) :
    WithinBudget n s.world := by
  have hinit : Budget n boot 0 (.idle fs) := by
    refine ⟨⟨AtMostOne.zero, by simp⟩, none, ⟨by simp, fun _ => hfs, by simp, AtMostOne.zero, by simp,
      by simp, by simp, ?_, ?_⟩⟩ <;> simp [World.idle, kills, starts, owing, counted]
  obtain ⟨os, -, hown⟩ := (keeps_books hboot n).run hs (Pool.inv_nil hinit)
  obtain ⟨L, hbooks⟩ := hown.books
  have hkills := hbooks.kills
  have hstarts := hbooks.starts
  cases L with
  | none =>
    simp only [counted, Option.map_none, Option.getD_none] at hkills hstarts
    constructor <;> omega
  | some t =>
    obtain ⟨hrestarts, hheals⟩ := hbooks.budget t rfl
    have hle : t.heals.toNat ≤ maxFrameworkDaemonStarts.toNat := UInt32.le_iff_toNat_le.1 hheals
    simp only [counted, Option.map_some, Option.getD_some, hrestarts] at hkills hstarts
    constructor <;> omega

/-! ### Two runs -/

/-- An installed module with its opt-in, on a disk that holds markers already. -/
def installedFramework : FileTree :=
  .ofFiles [(activeDir "m" ++ ["module.prop"], "id=m"), (hotplugOptIn "m", ""),
    (activationMarker "m" "post_fs_data", "1")]

/-- The framework after its restart. -/
def Env.restarted : Env := { Env.fine with systemServer := some 2000 }

theorem budgetSystem_step (e : Env) (op : Op) (w : World) (r : Resp op) (w' : World)
    (he : (∀ b, bootIdOf e.bootId = some b → b = "boot") ∧ ∀ p, e.works (.read p) = true)
    (h : exec e op w = some (r, w')) : (budgetSystem "boot").step w op r w' := ⟨e, he, h⟩

theorem legal_fine (i k : Nat) : ∀ m ∈ steps i k .fine, Pool.Legal (budgetSystem "boot")
    (fun e => (∀ b, bootIdOf e.bootId = some b → b = "boot") ∧ ∀ p, e.works (.read p) = true) m :=
  Pool.legal_replicate ⟨fun _ hb => (Option.some.inj hb).symm, fun _ => rfl⟩ i k

theorem legal_restarted (i k : Nat) : ∀ m ∈ steps i k .restarted, Pool.Legal (budgetSystem "boot")
    (fun e => (∀ b, bootIdOf e.bootId = some b → b = "boot") ∧ ∀ p, e.works (.read p) = true) m :=
  Pool.legal_replicate ⟨fun _ hb => (Option.some.inj hb).symm, fun _ => rfl⟩ i k

/-- A thread that has finished. -/
def finished (t : Pool.Thread Resp Job) : Bool :=
  match t.rest with
  | .ret _ => true
  | .call _ _ => false

/-- The condition on a run in which one thread runs after the other. -/
def checkAlone : Pool.Check Resp Job World := fun _ others _ op r _ =>
  others.all finished &&
  match op, r with
  | .openTrunc _, r => r.isSome
  | .writeData _ _ _, r => r
  | .removeFile p, _ => p != hotplugOptIn "m"
  | .bootId, r => bootIdOf r == some "boot"
  | .look p, r => p != activeDir "m" || r.any Node.isDir
  | _, _ => true

theorem checkAlone_guard (j : Job) (ts : List (Pool.Thread Resp Job)) (w : World) (op : Op)
    (r : Resp op) (w' : World) (h : Pool.Check.guard checkAlone j ts w op r w') :
    MarkerExclusive "m" "boot" j ts w op r w' := by
  simp only [Pool.Check.guard, checkAlone, Bool.and_eq_true, List.all_eq_true] at h
  obtain ⟨hdone, hgoes⟩ := h
  have hret : ∀ t ∈ ts, ∃ u, t.rest = .ret u := by
    intro t ht
    have hfin := hdone t ht
    unfold finished at hfin
    split at hfin
    · rename_i u hrest
      exact ⟨u, hrest⟩
    · exact absurd hfin (by simp)
  refine ⟨?_, ?_, ?_⟩
  · cases op with
    | openTrunc p => exact fun _ => hgoes
    | writeData p ino data => exact fun _ => hgoes
    | removeFile p => simpa [Op.goes] using hgoes
    | bootId => simpa [Op.goes] using hgoes
    | look p =>
      intro hp
      simpa [hp] using hgoes
    | _ => trivial
  · rintro - t ht ⟨ino, data, k, hrest⟩
    obtain ⟨u, hu⟩ := hret t ht
    rw [hu] at hrest
    exact absurd hrest (by simp)
  · intro _ t ht
    obtain ⟨u, hu⟩ := hret t ht
    rw [ReadsFirst, hu]
    trivial

/-- A restart, and the activation that finds the framework restarted. -/
def restartThenStart : List DaemonMove :=
  .start (.restartFrameworkOnce "m") :: steps 0 11 .fine ++
    .start .runFrameworkActivations :: steps 1 14 .restarted

/-- The framework is restarted once, and the daemon started once. -/
theorem withinBudget_restarted : ∃ s,
    Pool.Reach (budgetSystem "boot") (MarkerExclusive "m" "boot") ⟨[], .idle installedFramework⟩ s ∧
    kills "m" s.world.log = 1 ∧ starts "m" s.world.log = 1 ∧ WithinBudget "m" s.world := by
  have hplay : (Pool.play (budgetSystem "boot") exec checkAlone restartThenStart
      ⟨[], .idle installedFramework⟩).any (fun s => kills "m" s.world.log == 1 &&
        starts "m" s.world.log == 1) = true := by
    decide
  obtain ⟨s, hs, hlog⟩ := (Option.any_eq_true _ _).1 hplay
  rw [Bool.and_eq_true, beq_iff_eq, beq_iff_eq] at hlog
  have hlegal : ∀ m ∈ restartThenStart, Pool.Legal (budgetSystem "boot") (fun e =>
      (∀ b, bootIdOf e.bootId = some b → b = "boot") ∧ ∀ p, e.works (.read p) = true) m := by
    intro m hm
    simp only [restartThenStart, List.cons_append, List.mem_cons, List.mem_append] at hm
    rcases hm with rfl | hm | rfl | hm
    · exact .inr ⟨_, rfl⟩
    · exact legal_fine 0 11 m hm
    · exact .inl rfl
    · exact legal_restarted 1 14 m hm
  have hreach := Pool.reach_mono checkAlone_guard (Pool.play_sound budgetSystem_step hlegal hs)
  have hboot : bootIdOf (some "boot") = some "boot" := by decide
  exact ⟨s, hreach, hlog.1, hlog.2, withinBudget hboot (by decide) hreach⟩

/-- A scan reads the marker while the restart has it truncated, and removes it; the next restart finds
no transaction. -/
def scanTruncated : List DaemonMove :=
  .start (.restartFrameworkOnce "m") :: steps 0 8 .fine ++
    .start .runFrameworkActivations :: steps 1 6 .fine ++ steps 0 3 .fine ++
    .start (.restartFrameworkOnce "m") :: steps 2 11 .fine

def checkPlugged : Pool.Check Resp Job World := fun _ _ _ op _ _ =>
  op != .removeFile (hotplugOptIn "m")

theorem checkPlugged_guard (j : Job) (ts : List (Pool.Thread Resp Job)) (w : World) (op : Op)
    (r : Resp op) (w' : World) (h : Pool.Check.guard checkPlugged j ts w op r w') :
    StaysPlugged "m" j ts w op r w' := by
  simpa [Pool.Check.guard, checkPlugged, StaysPlugged] using h

theorem framework_restartedTwice : ¬ ∀ (n boot : String) (raw : Option String) (fs : FileTree)
    (s : Pool.State Resp Job World), bootIdOf raw = some boot →
    ofBoot boot (recordedOn n fs) = none →
    Pool.Reach (budgetSystem boot) (StaysPlugged n) ⟨[], .idle fs⟩ s → WithinBudget n s.world := by
  intro hall
  have hplay : (Pool.play (budgetSystem "boot") exec checkPlugged scanTruncated
      ⟨[], .idle installedFramework⟩).any (fun s => kills "m" s.world.log == 2) = true := by
    decide
  obtain ⟨s, hs, hlog⟩ := (Option.any_eq_true _ _).1 hplay
  rw [beq_iff_eq] at hlog
  have hlegal : ∀ m ∈ scanTruncated, Pool.Legal (budgetSystem "boot") (fun e =>
      (∀ b, bootIdOf e.bootId = some b → b = "boot") ∧ ∀ p, e.works (.read p) = true) m := by
    intro m hm
    simp only [scanTruncated, List.cons_append, List.append_assoc, List.mem_cons,
      List.mem_append] at hm
    rcases hm with rfl | hm | rfl | hm | hm | rfl | hm
    · exact .inr ⟨_, rfl⟩
    · exact legal_fine 0 8 m hm
    · exact .inl rfl
    · exact legal_fine 1 6 m hm
    · exact legal_fine 0 3 m hm
    · exact .inr ⟨_, rfl⟩
    · exact legal_fine 2 11 m hm
  have hreach := Pool.reach_mono checkPlugged_guard (Pool.play_sound budgetSystem_step hlegal hs)
  have hboot : bootIdOf (some "boot") = some "boot" := by decide
  have hbudget := hall "m" "boot" _ _ s hboot (by decide) hreach
  have hmax : maxFrameworkRestarts.toNat = 1 := rfl
  have := hbudget.1
  omega

end OnyxZygisk.Daemon

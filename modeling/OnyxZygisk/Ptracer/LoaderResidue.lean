import OnyxZygisk.Ptracer.RemoteLoader

/-!
# What a failed load leaves behind

Once the span is reserved the loader has many exits. Those up to the relocations close the descriptor and
leave the span mapped; the later ones unmap it, and put the caller's registers back only from the
constructors on. A failed load leaves nothing behind exactly when it fails on one of the exits that clean up
and finds the tracee's registers as its caller had them where it does not restore them itself
(`residue_iff`).
-/

namespace OnyxZygisk.Ptracer

variable {abi : Abi}

/-! ### The property and its condition -/

/-- Nothing of the load is left: no page of the span, no descriptor, and the registers are the caller's. -/
structure NoResidue (r : Reserved abi) (regs : Regs abi) (t : Tracee abi) : Prop where
  unmapped : ∀ a, Tracee.inSpan r.remoteBase r.layout.mapSize a = true → t.mapped a = false
  closed : t.libFd = none
  restored : t.regs = regs

structure SyscallRun.Works (run : SyscallRun abi) : Prop where
  saves : run.saves = true
  sets : run.sets = true
  steps : run.steps = true
  reads : run.reads = true
  restores : run.restores = true
  answer : run.answer = 0

/-- The system calls that clean up succeed. -/
structure TraceEnv.CleansUp (e : TraceEnv abi) : Prop where
  munmap : ∀ n addr len, (e.syscall n (.munmap addr len)).Works
  close : ∀ n fd, (e.syscall n (.close fd)).Works

section Condition

variable (c : LoaderConfig abi) (r : Reserved abi) (regs : Regs abi) (e : TraceEnv abi)

/-- With the image in place: the exits that do not restore the registers are taken only while the tracee's
are the caller's. -/
def PutsBack (d : DynInfo abi) (t : Tracee abi) : Prop :=
  match Prog.run Tracee.exec e (protectSegments c r) t with
  | some (true, t₁) =>
    if c.constructorReturn = 0 then t₁.live = regs
    else
      match Prog.run Tracee.exec e (runConstructors c r regs d) t₁ with
      | some (true, t₂) => r.lib.entryValue.isSome = true → t₂.live = regs
      | _ => True
  | some (false, t₁) => t₁.live = regs
  | none => True

/-- The reservation is given back at once, or every segment is mapped, the dynamic section loaded and every
relocation applied. -/
def Releases (t : Tracee abi) : Prop :=
  if lowBase r then t.live = regs
  else ∃ d t₁, Prog.run Tracee.exec e (mapImage c r) t = some (some d, t₁) ∧ PutsBack c r regs e d t₁

end Condition

/-! ### System calls -/

section Calls

variable {e : TraceEnv abi} {t : Tracee abi}

/-- The rules of the runs in `e`. -/
abbrev In (e : TraceEnv abi) : Prog.Rules (@RemoteOp.Resp abi) (Tracee abi) :=
  Prog.Rules.exact Tracee.exec e

theorem isErrno_zero : isErrno (0 : Word abi) = false := by
  simp [isErrno]

theorem remoteSyscall_works {run : SyscallRun abi} {call : Syscall abi} (h : run.Works)
    (hcall : Tracee.kernelAnswer call 0 = 0) :
    t.remoteSyscall run call = (0, { t.kernel call 0 with regs := t.live, live := t.live }) := by
  unfold Tracee.remoteSyscall
  simp only [h.saves, h.sets, h.steps, h.reads, h.restores, h.answer, hcall, Bool.not_true, Bool.and_self,
    Bool.true_or, Bool.false_eq_true, if_true, if_false]

/-- An answer other than `-1` is the kernel's. -/
theorem exec_syscall {call : Syscall abi} {v : Word abi} {t' : Tracee abi}
    (h : Tracee.exec e (.syscall call) t = some (v, t')) (hne : v ≠ -1) :
    ∃ answer live, v = Tracee.kernelAnswer call answer ∧
      t' = { t.kernel call v with
        regs := t.live, live := live, log := t.log ++ [⟨.syscall call, v⟩] } := by
  obtain ⟨hv, ht'⟩ := Prod.mk.inj (Option.some.inj h)
  dsimp only at hv ht'
  unfold Tracee.remoteSyscall at hv ht'
  by_cases hsaves : (e.syscall t.log.length call).saves = true
  · by_cases hreturned : ((e.syscall t.log.length call).sets && (e.syscall t.log.length call).steps &&
        (e.syscall t.log.length call).reads) = true
    · simp only [hsaves, hreturned, Bool.not_true, Bool.false_eq_true, if_false, if_true, Bool.true_or] at hv ht'
      subst hv
      exact ⟨_, _, rfl, ht'.symm⟩
    · simp only [hsaves, hreturned, Bool.not_true, Bool.false_eq_true, if_false] at hv
      exact absurd hv.symm hne
  · simp only [hsaves, Bool.not_false, if_true] at hv
    exact absurd hv.symm hne

theorem spec_perform {op : RemoteOp abi} {Q : op.Resp → Tracee abi → Prop}
    (h : ∀ r t', Tracee.exec e op t = some (r, t') → Q r t') :
    Prog.Spec (In e) (Prog.perform op) t Q :=
  (Prog.spec_perform op t Q).2 ⟨rfl, h⟩

end Calls

/-! ### Cleaning up -/

section Cleanup

variable {c : LoaderConfig abi} {r : Reserved abi} {regs : Regs abi} {e : TraceEnv abi} {t : Tracee abi}

/-- No page of the span is mapped. -/
def Unmapped (r : Reserved abi) (t : Tracee abi) : Prop :=
  ∀ a, Tracee.inSpan r.remoteBase r.layout.mapSize a = true → t.mapped a = false

theorem spec_unmapRemote (hclean : e.CleansUp) :
    Prog.Spec (In e) (unmapRemote r.remoteBase r.layout.mapSize) t fun _ t' =>
      Unmapped r t' ∧ t'.libFd = t.libFd ∧ t'.regs = t.live ∧ t'.live = t.live := by
  apply Prog.spec_seq (M := fun _ t' => Unmapped r t' ∧ t'.libFd = t.libFd ∧ t'.regs = t.live ∧ t'.live = t.live)
  · refine Prog.spec_perform_exact rfl ?_
    dsimp only
    rw [remoteSyscall_works (hclean.munmap _ _ _) rfl]
    simp only [Tracee.kernel, isErrno_zero, Bool.false_eq_true, if_false]
    refine ⟨?_, trivial, trivial, trivial⟩
    intro a ha
    simp [ha]
  · exact fun _ _ h => h

theorem spec_closeRemote (hclean : e.CleansUp) (fd : Word abi) :
    Prog.Spec (In e) (closeRemote fd) t fun _ t' =>
      t'.mapped = t.mapped ∧ (t.libFd = some fd ∨ t.libFd = none → t'.libFd = none) ∧ t'.regs = t.live ∧
        t'.live = t.live := by
  apply Prog.spec_seq (M := fun _ t' =>
    t'.mapped = t.mapped ∧ (t.libFd = some fd ∨ t.libFd = none → t'.libFd = none) ∧ t'.regs = t.live ∧
      t'.live = t.live)
  · refine Prog.spec_perform_exact rfl ?_
    dsimp only
    rw [remoteSyscall_works (hclean.close _ _) rfl]
    simp only [Tracee.kernel, isErrno_zero, Bool.false_eq_true, if_false]
    by_cases hfd : t.libFd = some fd
    · rw [if_pos hfd]
      exact ⟨rfl, fun _ => rfl, trivial, trivial⟩
    · rw [if_neg hfd]
      exact ⟨rfl, fun h => h.resolve_left hfd, trivial, trivial⟩
  · exact fun _ _ h => h

theorem spec_giveUp (hclean : e.CleansUp) (hfd : t.libFd = none) :
    Prog.Spec (In e) (giveUp r regs) t fun ok t' =>
      ok = false ∧ Unmapped r t' ∧ t'.libFd = none ∧ t'.regs = regs := by
  refine Prog.spec_seq (spec_unmapRemote hclean) ?_
  rintro _ t₁ ⟨hunmapped, hfd₁, -, -⟩
  refine Prog.spec_seq (M := fun _ t' => Unmapped r t' ∧ t'.libFd = none ∧ t'.regs = regs) ?_ ?_
  · exact Prog.spec_perform_exact rfl ⟨hunmapped, hfd₁.trans hfd, rfl⟩
  · rintro _ t₂ ⟨hunmapped, hfd₂, hregs⟩
    refine Prog.spec_seq (M := fun _ t' => Unmapped r t' ∧ t'.libFd = none ∧ t'.regs = regs) ?_ ?_
    · refine Prog.spec_perform_exact rfl ?_
      cases e.setRegs t₂.log.length with
      | true => exact ⟨hunmapped, hfd₂, hregs⟩
      | false => exact ⟨hunmapped, hfd₂, hregs⟩
    · exact fun _ _ h => ⟨rfl, h⟩

end Cleanup

/-! ### The image -/

section Image

variable {c : LoaderConfig abi} {r : Reserved abi} {regs : Regs abi} {e : TraceEnv abi} {t : Tracee abi}

/-- What the mapping loop and the relocations issue. -/
def RemoteOp.Builds : RemoteOp abi → Prop
  | .syscall (.mmap _ _ _ _ _ _) => True
  | .syscall (.close _) => True
  | op => op.InMemory

theorem RemoteOp.InMemory.builds {op : RemoteOp abi} (h : op.InMemory) : op.Builds := by
  cases op with
  | syscall call => exact absurd h id
  | _ => exact h

theorem kernel_keeps_mapped {call : Syscall abi} (hcall : (RemoteOp.syscall call).Builds) (v : Word abi)
    {a : Word abi} (ha : t.mapped a = true) : (t.kernel call v).mapped a = true := by
  unfold Tracee.kernel
  split
  · exact ha
  · cases call with
    | mmap =>
      dsimp only
      rw [ha, Bool.or_true]
    | close =>
      dsimp only
      split <;> exact ha
    | _ => exact absurd hcall id

theorem remoteSyscall_keeps_mapped {run : SyscallRun abi} {call : Syscall abi}
    (hcall : (RemoteOp.syscall call).Builds) {a : Word abi} (ha : t.mapped a = true) :
    (t.remoteSyscall run call).2.mapped a = true := by
  unfold Tracee.remoteSyscall
  split
  · exact ha
  · dsimp only
    split
    · exact kernel_keeps_mapped hcall _ ha
    · exact ha

/-- What is mapped stays mapped while the image is built. -/
theorem exec_keeps_mapped {op : RemoteOp abi} (hop : op.Builds) {a : Word abi} {res : op.Resp}
    {t' : Tracee abi} (h : Tracee.exec e op t = some (res, t')) (ha : t.mapped a = true) :
    t'.mapped a = true := by
  obtain ⟨-, rfl⟩ := Prod.mk.inj (Option.some.inj h)
  cases op with
  | syscall call => exact remoteSyscall_keeps_mapped hop ha
  | writeProc => exact ha
  | readWord => exact ha
  | calloc => exact ha
  | remoteCall => exact absurd hop id
  | setRegs => exact absurd hop id
  | assignRegs => exact absurd hop id

theorem builds_closeRemote (fd : Word abi) : Prog.Only RemoteOp.Builds (closeRemote fd) :=
  Prog.only_bind (Prog.only_perform trivial) fun _ => trivial

theorem builds_mapSegment (ph : Phdr abi) : Prog.Only RemoteOp.Builds (mapSegment c r ph) := by
  refine Prog.only_ite (by trivial) ?_
  have hfile : Prog.Only RemoteOp.Builds (mapFile c r ph) := by
    apply Prog.only_bind (Prog.only_perform trivial)
    intro (segMap : Word abi)
    refine Prog.only_ite (Prog.only_bind (builds_closeRemote _) fun _ => trivial) ?_
    refine Prog.only_ite ?_ (by trivial)
    apply Prog.only_bind (Prog.only_perform trivial)
    intro (zeros : Bool)
    apply Prog.only_bind (Prog.only_ite (Prog.only_mono (inMemory_writeAll _ _) fun _ h => h.builds) (by trivial))
    intro ok
    exact Prog.only_ite (by trivial) (Prog.only_bind (builds_closeRemote _) fun _ => trivial)
  apply Prog.only_bind (Prog.only_ite hfile (by trivial))
  intro ok
  refine Prog.only_ite (by trivial) (Prog.only_ite ?_ (by trivial))
  apply Prog.only_bind (Prog.only_perform trivial)
  intro (bssMap : Word abi)
  exact Prog.only_ite (Prog.only_bind (builds_closeRemote _) fun _ => trivial) (by trivial)

theorem builds_mapImage : Prog.Only RemoteOp.Builds (mapImage c r) := by
  apply Prog.only_bind (Prog.only_every fun ph _ => builds_mapSegment ph)
  intro mapped
  refine Prog.only_ite (by trivial) ?_
  apply Prog.only_bind (builds_closeRemote _)
  intro _
  cases r.lib.dynInfo with
  | none => trivial
  | some d => exact Prog.only_mono (inMemory_link r d) fun _ h => h.builds

/-- Operations that neither open nor close a file. -/
def RemoteOp.KeepsFiles : RemoteOp abi → Prop
  | .syscall (.openat _) => False
  | .syscall (.close _) => False
  | _ => True

theorem RemoteOp.InMemory.keepsFiles {op : RemoteOp abi} (h : op.InMemory) : op.KeepsFiles := by
  cases op with
  | syscall call => exact absurd h id
  | _ => exact trivial

theorem kernel_libFd {call : Syscall abi} (hcall : (RemoteOp.syscall call).KeepsFiles) (v : Word abi) :
    (t.kernel call v).libFd = t.libFd := by
  unfold Tracee.kernel
  split
  · rfl
  · cases call with
    | openat => exact absurd hcall id
    | close => exact absurd hcall id
    | _ => rfl

theorem exec_libFd {op : RemoteOp abi} (hop : op.KeepsFiles) {res : op.Resp} {t' : Tracee abi}
    (h : Tracee.exec e op t = some (res, t')) : t'.libFd = t.libFd := by
  obtain ⟨-, rfl⟩ := Prod.mk.inj (Option.some.inj h)
  cases op with
  | syscall call =>
    dsimp only
    unfold Tracee.remoteSyscall
    split
    · rfl
    · dsimp only
      split
      · exact kernel_libFd hop _
      · rfl
  | setRegs =>
    dsimp only
    split <;> rfl
  | _ => rfl

theorem spec_libFd {α : Type} {p : Program abi α} {fd : Option (Word abi)}
    (hp : Prog.Only RemoteOp.KeepsFiles p) (hfd : t.libFd = fd) :
    Prog.Spec (In e) p t fun _ t' => t'.libFd = fd :=
  Prog.spec_keep (I := fun t : Tracee abi => t.libFd = fd) hp
    (fun _ hop _ h => ⟨rfl, fun _ _ hn => (exec_libFd hop hn).trans h⟩) hfd

/-- A mapping step: the descriptor is closed when it fails. -/
theorem spec_mmap_libFd {α : Type} {addr len prot flags mapFd offset : Word abi} {failure : α}
    {k : Word abi → Program abi α} {Q : α → Tracee abi → Prop} (hclean : e.CleansUp)
    (hfd : t.libFd = some r.remoteFd) (hfailure : ∀ t', t'.libFd = none → Q failure t')
    (hk : ∀ v t', t'.libFd = some r.remoteFd → Prog.Spec (In e) (k v) t' Q) :
    Prog.Spec (In e) (syscall (.mmap addr len prot flags mapFd offset) >>= fun v =>
      if v = 0 ∨ v = MAP_FAILED then closeRemote r.remoteFd >>= fun _ => pure failure else k v) t Q := by
  refine Prog.spec_seq (spec_libFd (Prog.only_perform trivial) hfd) fun v t₁ hfd₁ => ?_
  split
  · refine Prog.spec_seq (spec_closeRemote hclean _) ?_
    rintro _ t₂ ⟨-, hclosed, -⟩
    exact hfailure t₂ (hclosed (.inl hfd₁))
  · exact hk v t₁ hfd₁

/-- A turn that fails has closed the descriptor. -/
def ClosedIfNot (r : Reserved abi) (ok : Bool) (t : Tracee abi) : Prop :=
  if ok then t.libFd = some r.remoteFd else t.libFd = none

theorem spec_zeroTail_libFd {ph : Phdr abi} (hclean : e.CleansUp) (hfd : t.libFd = some r.remoteFd) :
    Prog.Spec (In e) (zeroTail c r ph) t (ClosedIfNot r) := by
  refine Prog.spec_seq (spec_libFd (Prog.only_perform trivial) hfd) fun (zeros : Bool) t₁ hfd₁ => ?_
  have hwrite : Prog.Only RemoteOp.KeepsFiles (if zeros then writeAll (ph.fileEnd r)
      (List.replicate (ph.filePageEnd c r - ph.fileEnd r).toNat 0) else pure false) :=
    Prog.only_ite (Prog.only_mono (inMemory_writeAll _ _) fun _ h => h.keepsFiles) (by trivial)
  refine Prog.spec_seq (spec_libFd hwrite hfd₁) fun ok t₂ hfd₂ => ?_
  cases ok with
  | true => exact hfd₂
  | false =>
    refine Prog.spec_seq (spec_closeRemote hclean _) ?_
    rintro _ t₃ ⟨-, hclosed, -⟩
    exact hclosed (.inl hfd₂)

theorem spec_mapSegment_libFd {ph : Phdr abi} (hclean : e.CleansUp) (hfd : t.libFd = some r.remoteFd) :
    Prog.Spec (In e) (mapSegment c r ph) t (ClosedIfNot r) := by
  rw [mapSegment]
  split
  · exact hfd
  · have hfile : Prog.Spec (In e) (if 0 < ph.pFilesz then mapFile c r ph else pure true) t (ClosedIfNot r) := by
      split
      · refine spec_mmap_libFd hclean hfd (fun _ h => h) fun _ t₁ hfd₁ => ?_
        split
        · exact spec_zeroTail_libFd hclean hfd₁
        · exact hfd₁
      · exact hfd
    refine Prog.spec_seq hfile fun ok t₁ hfd₁ => ?_
    cases ok with
    | false => exact hfd₁
    | true =>
      show Prog.Spec (In e) (if ph.filePageEnd c r < ph.segPageEnd c r then _ else _) t₁ (ClosedIfNot r)
      split
      · exact spec_mmap_libFd hclean hfd₁ (fun _ h => h) fun _ _ h => h
      · exact hfd₁

theorem spec_mapImage_libFd (hclean : e.CleansUp) (hfd : t.libFd = some r.remoteFd) :
    Prog.Spec (In e) (mapImage c r) t fun _ t' => t'.libFd = none := by
  refine Prog.spec_seq (Prog.spec_every hfd fun ph _ _ h => spec_mapSegment_libFd hclean h) ?_
  intro mapped t₁ hfd₁
  cases mapped with
  | false => exact hfd₁
  | true =>
    refine Prog.spec_seq (spec_closeRemote hclean _) ?_
    rintro _ t₂ ⟨-, hclosed, -⟩
    have hfd₂ : t₂.libFd = none := hclosed (.inl hfd₁)
    cases r.lib.dynInfo with
    | none => exact hfd₂
    | some d => exact spec_libFd (Prog.only_mono (inMemory_link r d) fun _ h => h.keepsFiles) hfd₂

end Image

/-! ### From the protections on -/

section Start

variable {c : LoaderConfig abi} {r : Reserved abi} {regs : Regs abi} {e : TraceEnv abi} {t : Tracee abi}

/-- The span is unmapped and `regs` is what the tracee has. -/
def Left (r : Reserved abi) (t : Tracee abi) : Prop := Unmapped r t ∧ t.libFd = none ∧ t.regs = t.live

theorem spec_unmap_left (hclean : e.CleansUp) (hfd : t.libFd = none) :
    Prog.Spec (In e) (unmapRemote r.remoteBase r.layout.mapSize) t fun _ t' =>
      Left r t' ∧ t'.live = t.live := by
  refine Prog.spec_mono (spec_unmapRemote hclean) ?_
  rintro _ t' ⟨hunmapped, hfd', hregs, hlive⟩
  exact ⟨⟨hunmapped, hfd'.trans hfd, hregs.trans hlive.symm⟩, hlive⟩

theorem spec_protectSegments (hclean : e.CleansUp) (hfd : t.libFd = none) :
    Prog.Spec (In e) (protectSegments c r) t fun ok t' =>
      if ok then t'.libFd = none else Left r t' := by
  refine Prog.spec_every (I := fun t : Tracee abi => t.libFd = none) hfd fun ph _ t hfd => ?_
  refine Prog.spec_seq (spec_libFd (Prog.only_perform trivial) hfd) fun (ret : Word abi) t₁ hfd₁ => ?_
  split
  · exact Prog.spec_seq (spec_unmap_left hclean hfd₁) fun _ _ h => h.1
  · exact hfd₁

/-- A stage from the constructors on: its failure leaves nothing. -/
def CleanIfNot (r : Reserved abi) (regs : Regs abi) (ok : Bool) (t : Tracee abi) : Prop :=
  if ok then t.libFd = none else NoResidue r regs t

theorem spec_giveUp_clean (hclean : e.CleansUp) (hfd : t.libFd = none) :
    Prog.Spec (In e) (giveUp r regs) t (CleanIfNot r regs) := by
  refine Prog.spec_mono (spec_giveUp hclean hfd) ?_
  rintro _ t' ⟨rfl, hunmapped, hfd', hregs⟩
  exact ⟨hunmapped, hfd', hregs⟩

theorem spec_callConstructor (hclean : e.CleansUp) (hfd : t.libFd = none) (address : Word abi) :
    Prog.Spec (In e) (callConstructor c r regs address) t (CleanIfNot r regs) := by
  refine Prog.spec_seq (spec_libFd (Prog.only_perform trivial) hfd) fun (result : Option (Word abi)) t₁ hfd₁ => ?_
  split
  · exact hfd₁
  · exact spec_giveUp_clean hclean hfd₁

theorem spec_runInitArray (hclean : e.CleansUp) (hfd : t.libFd = none) (d : DynInfo abi) :
    Prog.Spec (In e) (runInitArray c r regs d) t (CleanIfNot r regs) := by
  rw [runInitArray]
  split
  · exact spec_giveUp_clean hclean hfd
  · refine Prog.spec_every (I := fun t : Tracee abi => t.libFd = none) hfd fun i _ t hfd => ?_
    refine Prog.spec_seq (spec_libFd (Prog.only_perform trivial) hfd) fun constructor t₁ hfd₁ => ?_
    cases (constructor : Option (Word abi)) with
    | none => exact spec_giveUp_clean hclean hfd₁
    | some constructor =>
      dsimp only
      split
      · exact hfd₁
      · exact spec_callConstructor hclean hfd₁ constructor

theorem spec_runConstructors (hclean : e.CleansUp) (hfd : t.libFd = none) (d : DynInfo abi) :
    Prog.Spec (In e) (runConstructors c r regs d) t (CleanIfNot r regs) := by
  have hinit : Prog.Spec (In e) (if d.initVaddr ≠ 0 then callConstructor c r regs (r.loadBias + d.initVaddr)
      else pure true) t (CleanIfNot r regs) := by
    split
    · exact spec_callConstructor hclean hfd _
    · exact hfd
  refine Prog.spec_seq hinit fun init t₁ hfd₁ => ?_
  cases init with
  | false => exact hfd₁
  | true =>
    show Prog.Spec (In e) (if d.initArrayVaddr ≠ 0 ∧ d.initArraySz ≠ 0 then _ else _) t₁ _
    split
    · exact spec_runInitArray hclean hfd₁ d
    · exact hfd₁

/-- A failed hand-over has put the registers back, or has found that it cannot set them. -/
theorem spec_handOver (hclean : e.CleansUp) (hfd : t.libFd = none) :
    Prog.Spec (In e) (handOver r regs) t fun res t' => res = none →
      if r.lib.entryValue.isSome then Left r t' ∧ t'.live = t.live else NoResidue r regs t' := by
  rw [handOver]
  cases r.lib.entryValue with
  | none =>
    refine Prog.spec_seq (spec_giveUp hclean hfd) ?_
    rintro _ t' ⟨-, hunmapped, hfd', hregs⟩ -
    exact ⟨hunmapped, hfd', hregs⟩
  | some entryValue =>
    refine Prog.spec_seq (M := fun _ t' => t'.libFd = none ∧ t'.live = t.live) ?_ ?_
    · exact Prog.spec_perform_exact rfl ⟨hfd, rfl⟩
    · rintro _ t₁ ⟨hfd₁, hlive₁⟩
      refine Prog.spec_seq (M := fun ok t' => t'.libFd = none ∧ (ok = false → t'.live = t.live)) ?_ ?_
      · refine Prog.spec_perform_exact rfl ?_
        dsimp only
        cases e.setRegs t₁.log.length with
        | true => exact ⟨hfd₁, fun h => absurd h.symm Bool.false_ne_true⟩
        | false => exact ⟨hfd₁, fun _ => hlive₁⟩
      · rintro restored t₂ ⟨hfd₂, hlive₂⟩
        cases restored with
        | true => exact fun h => absurd h (Option.some_ne_none _)
        | false =>
          refine Prog.spec_seq (spec_unmap_left hclean hfd₂) ?_
          rintro _ t₃ ⟨hleft, hlive₃⟩ -
          exact ⟨hleft, hlive₃.trans (hlive₂ rfl)⟩

theorem noResidue_of_left {t : Tracee abi} (h : Left r t) : NoResidue r regs t ↔ t.live = regs := by
  obtain ⟨hunmapped, hfd, hregs⟩ := h
  constructor
  · intro h
    rw [← hregs]
    exact h.restored
  · exact fun hlive => ⟨hunmapped, hfd, hregs.trans hlive⟩

/-- With the image in place. -/
theorem startImage_noResidue {d : DynInfo abi} {t' : Tracee abi} (hclean : e.CleansUp)
    (hfd : t.libFd = none) (hrun : Prog.run Tracee.exec e (startImage c r regs d) t = some (none, t')) :
    NoResidue r regs t' ↔ PutsBack c r regs e d t := by
  obtain ⟨ok, t₁, hprotect, hrun₁⟩ := Prog.run_bind_some hrun
  have hfd₁ := Prog.of_spec (spec_protectSegments hclean hfd) hprotect
  rw [PutsBack, hprotect]
  cases ok with
  | false =>
    obtain ⟨-, rfl⟩ := Prog.run_ret_some hrun₁
    exact noResidue_of_left hfd₁
  | true =>
    dsimp only
    change Prog.run Tracee.exec e (if c.constructorReturn = 0 then _ else _) t₁ = some (none, t') at hrun₁
    by_cases hreturn : c.constructorReturn = 0
    · rw [if_pos hreturn] at hrun₁ ⊢
      obtain ⟨_, t₂, hunmap, hrun₂⟩ := Prog.run_bind_some hrun₁
      obtain ⟨-, rfl⟩ := Prog.run_ret_some hrun₂
      obtain ⟨hleft, hlive⟩ := Prog.of_spec (spec_unmap_left hclean hfd₁) hunmap
      rw [← hlive]
      exact noResidue_of_left hleft
    · rw [if_neg hreturn] at hrun₁ ⊢
      obtain ⟨constructed, t₂, hconstruct, hrun₂⟩ := Prog.run_bind_some hrun₁
      have hfd₂ := Prog.of_spec (spec_runConstructors hclean hfd₁ d) hconstruct
      rw [hconstruct]
      cases constructed with
      | false =>
        obtain ⟨-, rfl⟩ := Prog.run_ret_some hrun₂
        exact iff_of_true hfd₂ trivial
      | true =>
        have hover := Prog.of_spec (spec_handOver hclean hfd₂) hrun₂ rfl
        dsimp only
        by_cases hentry : r.lib.entryValue.isSome = true
        · rw [if_pos hentry] at hover
          obtain ⟨hleft, hlive⟩ := hover
          rw [noResidue_of_left hleft]
          rw [hlive]
          exact ⟨fun h _ => h, fun h => h hentry⟩
        · rw [if_neg hentry] at hover
          exact iff_of_true hover fun h => absurd h hentry

end Start

/-! ### The reservation -/

section Reservation

variable {c : LoaderConfig abi} {r : Reserved abi} {regs : Regs abi} {e : TraceEnv abi} {t : Tracee abi}

theorem slt_minus_one : (-1 : Word abi).slt 0 = true := by
  cases abi <;> decide

theorem isErrno_einval : isErrno (-EINVAL : Word abi) = true := by
  cases abi <;> decide

theorem isErrno_slt {v : Word abi} (h : isErrno v = true) : v.slt 0 = true := by
  simp only [isErrno, Bool.and_eq_true, decide_eq_true_eq] at h
  rw [BitVec.slt, decide_eq_true_eq]
  exact lt_of_lt_of_eq h.2 BitVec.toInt_zero.symm

theorem inSpan_base {base size : Word abi} (h : 0 < size) : Tracee.inSpan base size base = true := by
  rw [Tracee.inSpan, BitVec.sub_self]
  exact decide_eq_true h

theorem spec_openRemote : Prog.Spec (In e) (openRemote c regs) t fun fd t' =>
    ∀ remoteFd, fd = some remoteFd → t'.libFd = some remoteFd := by
  refine Prog.spec_seq (M := fun _ _ => True) (Prog.spec_mono (spec_libFd (Prog.only_mono
    (inMemory_writeAll _ _) fun _ h => h.keepsFiles) rfl) fun _ _ _ => trivial) fun written t₁ _ => ?_
  split
  · exact fun _ h => absurd h.symm (Option.some_ne_none _)
  · refine Prog.spec_seq (M := fun _ _ => True) (spec_perform fun _ _ _ => trivial) fun _ t₂ _ => ?_
    refine Prog.spec_seq (M := fun fd t' => fd.slt 0 = false → t'.libFd = some fd) ?_ ?_
    · apply spec_perform
      intro (fd : Word abi) t' h hfd
      have hne : fd ≠ -1 := by
        rintro rfl
        rw [slt_minus_one] at hfd
        cases hfd
      obtain ⟨_, live, -, rfl⟩ := exec_syscall h hne
      have herr : isErrno fd = false := by
        cases herr : isErrno fd with
        | false => rfl
        | true =>
          rw [isErrno_slt herr] at hfd
          cases hfd
      dsimp only
      rw [Tracee.kernel, herr]
      rfl
    · intro fd t₃ hfd
      by_cases hslt : fd.slt 0 = true
      · show Prog.Spec (In e) (if fd.slt 0 = true then _ else _) t₃ _
        rw [if_pos hslt]
        exact fun _ h => absurd h.symm (Option.some_ne_none _)
      · show Prog.Spec (In e) (if fd.slt 0 = true then _ else _) t₃ _
        rw [if_neg hslt]
        have hopen : t₃.libFd = some fd := hfd (Bool.eq_false_iff.2 hslt)
        refine Prog.spec_seq (spec_libFd (Prog.only_perform trivial) hopen) fun (zeros : Bool) t₄ hfd₄ => ?_
        cases zeros with
        | true =>
          refine Prog.spec_seq (spec_libFd (Prog.only_perform trivial) hfd₄) fun _ t₅ hfd₅ => ?_
          rintro _ ⟨⟩
          exact hfd₅
        | false =>
          rintro _ ⟨⟩
          exact hfd₄

/-- A successful reservation: the span is mapped, and it is not empty. -/
def IsReserved (r : Reserved abi) (t : Tracee abi) : Prop :=
  t.libFd = some r.remoteFd ∧
    (isErrno r.remoteBase = false → 0 < r.layout.mapSize ∧ t.mapped r.remoteBase = true)

theorem spec_reserve_reserved : Prog.Spec (In e) (reserve c regs) t fun res t' =>
    ∀ r, res = some r → IsReserved r t' := by
  have hnone : ∀ (t' : Tracee abi) (r : Reserved abi), none = some r → IsReserved r t' :=
    fun _ _ h => absurd h.symm (Option.some_ne_none _)
  rw [reserve]
  split
  · exact hnone t
  · cases c.library with
    | none => exact hnone t
    | some lib =>
      dsimp only
      cases computeLoadLayout c.pageSize lib with
      | none => exact hnone t
      | some layout =>
        dsimp only
        split
        · exact hnone t
        · refine Prog.spec_seq spec_openRemote fun fd t₁ hfd₁ => ?_
          cases fd with
          | none => exact hnone t₁
          | some remoteFd =>
            refine Prog.spec_seq (M := fun base t' => t'.libFd = some remoteFd ∧
              (base ≠ -1 → isErrno base = false → 0 < layout.mapSize ∧ t'.mapped base = true)) ?_ ?_
            · apply spec_perform
              intro (base : Word abi) t' h
              refine ⟨(exec_libFd (by exact trivial) h).trans (hfd₁ remoteFd rfl), fun hne herr => ?_⟩
              obtain ⟨answer, live, hanswer, rfl⟩ := exec_syscall h hne
              have hsize : layout.mapSize ≠ 0 := by
                intro hzero
                rw [hanswer, Tracee.kernelAnswer, if_pos hzero, isErrno_einval] at herr
                cases herr
              have hpos : 0 < layout.mapSize := (BitVec.pos_iff_ne_zero _).2 hsize
              refine ⟨hpos, ?_⟩
              dsimp only
              rw [Tracee.kernel, herr]
              show (Tracee.inSpan base layout.mapSize base || _) = true
              rw [inSpan_base hpos, Bool.true_or]
            · intro base t₂ hbase
              show Prog.Spec (In e) (if base = 0 ∨ base = MAP_FAILED then _ else _) t₂ _
              by_cases hfailed : base = 0 ∨ base = MAP_FAILED
              · rw [if_pos hfailed]
                exact Prog.spec_seq (M := fun _ _ => True) (spec_perform fun _ _ _ => trivial)
                  fun _ t₃ _ => hnone t₃
              · rw [if_neg hfailed]
                rintro _ ⟨⟩
                exact ⟨hbase.1, hbase.2 fun h => hfailed (.inr h)⟩

end Reservation

/-! ### Failed loads -/

/-- A load that fails with its span reserved leaves nothing behind exactly when its exit gives the span back
and the registers, where it does not restore them, are still the caller's. -/
theorem residue_iff {c : LoaderConfig abi} {e : TraceEnv abi} {live regs : Regs abi}
    {mapped : Word abi → Bool} {r : Reserved abi} {t t' : Tracee abi} (hclean : e.CleansUp)
    (hreserve : Prog.run Tracee.exec e (reserve c regs) (.called live regs mapped) = some (some r, t))
    (hbase : isErrno r.remoteBase = false)
    (hrun : Prog.run Tracee.exec e (remoteCsoloaderLoadAndResolveEntry c regs) (.called live regs mapped) =
      some (none, t')) : NoResidue r regs t' ↔ Releases c r regs e t := by
  obtain ⟨hfd, hmapped⟩ := Prog.of_spec spec_reserve_reserved hreserve r rfl
  obtain ⟨hsize, hmapped⟩ := hmapped hbase
  obtain ⟨_, t₁, hreserve', hload⟩ := Prog.run_bind_some hrun
  obtain ⟨rfl, rfl⟩ := Prog.run_unique hreserve hreserve'
  change Prog.run Tracee.exec e (loadReserved c r regs) t = some (none, t') at hload
  rw [loadReserved] at hload
  rw [Releases]
  by_cases hlow : lowBase r = true
  · rw [if_pos hlow] at hload ⊢
    obtain ⟨_, t₁, hunmap, hload⟩ := Prog.run_bind_some hload
    obtain ⟨_, t₂, hclose, hload⟩ := Prog.run_bind_some hload
    obtain ⟨-, rfl⟩ := Prog.run_ret_some hload
    obtain ⟨hunmapped, hfd₁, -, hlive₁⟩ := Prog.of_spec (spec_unmapRemote hclean) hunmap
    obtain ⟨hkept, hclosed, hregs, -⟩ := Prog.of_spec (spec_closeRemote hclean _) hclose
    rw [← hlive₁, ← hregs]
    constructor
    · exact fun h => h.restored
    · intro hregs
      refine ⟨fun a ha => ?_, hclosed (.inl (hfd₁.trans hfd)), hregs⟩
      rw [hkept]
      exact hunmapped a ha
  · rw [if_neg hlow] at hload ⊢
    obtain ⟨d, t₁, himage, hload⟩ := Prog.run_bind_some hload
    have hfd₁ := Prog.of_spec (spec_mapImage_libFd hclean hfd) himage
    cases d with
    | none =>
      obtain ⟨-, rfl⟩ := Prog.run_ret_some hload
      have hstays : t₁.mapped r.remoteBase = true :=
        Prog.run_keep (I := fun t : Tracee abi => t.mapped r.remoteBase = true) builds_mapImage
          (fun _ hop _ _ _ h hm => exec_keeps_mapped hop h hm) himage hmapped
      constructor
      · intro h
        rw [h.unmapped _ (inSpan_base hsize)] at hstays
        cases hstays
      · rintro ⟨d, t₂, himage', -⟩
        cases (Prog.run_unique himage himage').1
    | some d =>
      rw [startImage_noResidue hclean hfd₁ hload]
      constructor
      · exact fun h => ⟨d, t₁, himage, h⟩
      · rintro ⟨d', t₂, himage', h⟩
        obtain ⟨hd, rfl⟩ := Prog.run_unique himage himage'
        obtain rfl := Option.some.inj hd
        exact h

section Examples

/-- The library with one relocation of a type the loader does not know, `R_AARCH64_TLSDESC`. -/
def oneTlsDesc : Library .aarch64 :=
  { onePage with
    dynInfo := some ⟨0, 0, 0x200, 24, 0, 0, .rela, 0, 0, 0, 0⟩
    rela := fun _ _ => some ⟨0x800, 1031, 0, 0⟩ }

theorem answering_cleansUp (v : Word .aarch64) : (answering v).CleansUp :=
  ⟨fun _ _ _ => ⟨rfl, rfl, rfl, rfl, rfl, rfl⟩, fun _ _ => ⟨rfl, rfl, rfl, rfl, rfl, rfl⟩⟩

/-- The tracee when the loader is called. -/
def atEntry : Tracee .aarch64 := .called ⟨0x8000, 0, 0, 0, []⟩ ⟨0x8000, 0, 0, 0, []⟩ fun _ => false

theorem reserve_oneTlsDesc : ∃ r t, Prog.run Tracee.exec (answering 0x7000000000)
    (reserve (onePageConfig oneTlsDesc) ⟨0x8000, 0, 0, 0, []⟩) atEntry = some (some r, t) ∧
      r.remoteBase = 0x7000000000 := by
  obtain ⟨res, t, hrun⟩ := Tracee.runs (answering 0x7000000000)
    (reserve (onePageConfig oneTlsDesc) ⟨0x8000, 0, 0, 0, []⟩) atEntry
  have hres : (Prog.run Tracee.exec (answering 0x7000000000)
      (reserve (onePageConfig oneTlsDesc) ⟨0x8000, 0, 0, 0, []⟩) atEntry).map
      (fun z => z.1.map Reserved.remoteBase) = some (some 0x7000000000) := by
    decide
  rw [hrun] at hres
  obtain ⟨r, rfl, hbase⟩ := Option.map_eq_some_iff.1 (Option.some.inj hres)
  exact ⟨r, t, hrun, hbase⟩

theorem load_oneTlsDesc : ∃ t, Prog.run Tracee.exec (answering 0x7000000000)
    (remoteCsoloaderLoadAndResolveEntry (onePageConfig oneTlsDesc) ⟨0x8000, 0, 0, 0, []⟩) atEntry =
      some (none, t) ∧ t.mapped 0x7000000000 = true := by
  obtain ⟨res, t, hrun⟩ := Tracee.runs (answering 0x7000000000)
    (remoteCsoloaderLoadAndResolveEntry (onePageConfig oneTlsDesc) ⟨0x8000, 0, 0, 0, []⟩) atEntry
  have hres : (Prog.run Tracee.exec (answering 0x7000000000)
      (remoteCsoloaderLoadAndResolveEntry (onePageConfig oneTlsDesc) ⟨0x8000, 0, 0, 0, []⟩) atEntry).map
      (fun z => (z.1.isNone, z.2.mapped 0x7000000000)) = some (true, true) := by
    decide
  rw [hrun] at hres
  obtain ⟨hnone, hmapped⟩ := Prod.mk.inj (Option.some.inj hres)
  obtain rfl := Option.isNone_iff_eq_none.1 hnone
  exact ⟨t, hrun, hmapped⟩

theorem residue_oneTlsDesc : ∃ r t t', isErrno r.remoteBase = false ∧
    (NoResidue r ⟨0x8000, 0, 0, 0, []⟩ t' ↔
      Releases (onePageConfig oneTlsDesc) r ⟨0x8000, 0, 0, 0, []⟩ (answering 0x7000000000) t) := by
  obtain ⟨r, t, hreserve, hbase⟩ := reserve_oneTlsDesc
  obtain ⟨t', hload, -⟩ := load_oneTlsDesc
  have herr : isErrno r.remoteBase = false := by
    rw [hbase]
    decide
  exact ⟨r, t, t', herr, residue_iff (answering_cleansUp _) hreserve herr hload⟩

theorem span_left_mapped : ¬ ∀ (abi : Abi) (c : LoaderConfig abi) (e : TraceEnv abi) (live regs : Regs abi)
    (mapped : Word abi → Bool) (r : Reserved abi) (t t' : Tracee abi), e.CleansUp →
    Prog.run Tracee.exec e (reserve c regs) (.called live regs mapped) = some (some r, t) →
    isErrno r.remoteBase = false →
    Prog.run Tracee.exec e (remoteCsoloaderLoadAndResolveEntry c regs) (.called live regs mapped) =
      some (none, t') → NoResidue r regs t' := by
  intro h
  obtain ⟨r, t, hreserve, hbase⟩ := reserve_oneTlsDesc
  obtain ⟨t', hload, hmapped⟩ := load_oneTlsDesc
  have herr : isErrno r.remoteBase = false := by
    rw [hbase]
    decide
  obtain ⟨-, hspan⟩ := Prog.of_spec spec_reserve_reserved hreserve r rfl
  have hnoResidue := h _ _ _ _ _ _ r t t' (answering_cleansUp _) hreserve herr hload
  have hunmapped := hnoResidue.unmapped _ (inSpan_base (hspan herr).1)
  rw [hbase, hmapped] at hunmapped
  cases hunmapped

end Examples

end OnyxZygisk.Ptracer

import OnyxZygisk.Ptracer.RemoteLoader

/-!
# The loader's mmap calls

A raw system call reports an error as `-errno`, and the loader looks for `MAP_FAILED`: of the errors it
knows only `-1`. In every run in which `mmap` fails with no other, each failure is noticed
(`mmaps_noticed`).
-/

namespace OnyxZygisk.Ptracer

variable {abi : Abi}

/-! ### What a run shows -/

/-- The error an `mmap` was answered with. -/
def failedMmap : Event abi → Option (Word abi)
  | ⟨.syscall (.mmap _ _ _ _ _ _), v⟩ => if isErrno v then some v else none
  | _ => none

/-- A failed `mmap` makes the loader fail, and it gives the tracee no address any more: neither the value
nor one computed from it. -/
structure MmapsNoticed (log : List (Event abi)) (loaded : Bool) : Prop where
  noticed : ∀ before ev after v, log = before ++ ev :: after → failedMmap ev = some v →
    loaded = false ∧ ∀ later ∈ after, later.1.addresses = []
  succeeded : loaded = true → ∀ ev ∈ log, failedMmap ev = none

/-- `mmap` fails only with the error that reads as `MAP_FAILED`. -/
def PlainErrors (log : List (Event abi)) : Prop :=
  ∀ ev ∈ log, ∀ v, failedMmap ev = some v → v = MAP_FAILED

/-- No `mmap` failed. -/
def NoneFailed (log : List (Event abi)) : Prop := ∀ ev ∈ log, failedMmap ev = none

/-- The last `mmap` failed, and the library's descriptor was closed. -/
def Caught (log : List (Event abi)) : Prop :=
  ∃ before ev fd v, log = before ++ [ev, ⟨.syscall (.close fd), v⟩] ∧ NoneFailed before

theorem plainErrors_append {log log' : List (Event abi)} (h : PlainErrors (log ++ log')) :
    PlainErrors log := fun ev hev => h ev (List.mem_append_left log' hev)

theorem noneFailed_concat {log : List (Event abi)} {ev : Event abi} (h : NoneFailed log)
    (hev : failedMmap ev = none) : NoneFailed (log ++ [ev]) := by
  intro x hx
  rcases List.mem_append.1 hx with hx | hx
  · exact h x hx
  · rw [List.mem_singleton.1 hx]
    exact hev

theorem mmapsNoticed_of_noneFailed {log : List (Event abi)} {loaded : Bool} (h : NoneFailed log) :
    MmapsNoticed log loaded := by
  refine ⟨?_, fun _ => h⟩
  intro before ev after v hlog hev
  rw [h ev (hlog ▸ List.mem_append_right before List.mem_cons_self)] at hev
  cases hev

theorem mmapsNoticed_of_caught {log : List (Event abi)} (h : Caught log) : MmapsNoticed log false := by
  refine ⟨?_, fun hloaded => absurd hloaded Bool.false_ne_true⟩
  obtain ⟨front, failed, fd, w, rfl, hfront⟩ := h
  intro before ev after v hlog hev
  refine ⟨rfl, ?_⟩
  have hnot : ev ∉ front := fun hmem => by
    rw [hfront ev hmem] at hev
    cases hev
  rcases List.append_eq_append_iff.1 hlog with ⟨mid, rfl, hmid⟩ | ⟨mid, rfl, hmid⟩
  · match mid, hmid with
    | [], hmid =>
      obtain ⟨-, rfl⟩ := List.cons.inj hmid
      intro later hlater
      rw [List.mem_singleton.1 hlater]
      rfl
    | [_], hmid =>
      obtain ⟨-, hmid⟩ := List.cons.inj hmid
      obtain ⟨rfl, -⟩ := List.cons.inj hmid
      cases hev
    | _ :: _ :: mid, hmid =>
      have hlen := congrArg List.length hmid
      simp at hlen
  · match mid, hmid with
    | [], hmid =>
      obtain ⟨-, rfl⟩ := List.cons.inj hmid
      intro later hlater
      rw [List.mem_singleton.1 hlater]
      rfl
    | _ :: mid, hmid =>
      obtain ⟨rfl, -⟩ := List.cons.inj hmid
      exact absurd (List.mem_append_right before List.mem_cons_self) hnot

/-! ### Each step -/

/-- The operations and their answers, whatever they are. -/
def logging : Prog.Rules (@RemoteOp.Resp abi) (List (Event abi)) where
  allow _ _ := True
  next log op r log' := log' = log ++ [⟨op, r⟩]

/-- Nothing has failed so far, errors being plain. -/
def Going (log : List (Event abi)) : Prop := PlainErrors log → NoneFailed log

/-- What failed was noticed, errors being plain. -/
def Stopped (log : List (Event abi)) : Prop := PlainErrors log → NoneFailed log ∨ Caught log

theorem Going.stopped {log : List (Event abi)} (h : Going log) : Stopped log := fun hplain => .inl (h hplain)

def RemoteOp.IsMmap : RemoteOp abi → Prop
  | .syscall (.mmap _ _ _ _ _ _) => True
  | _ => False

theorem failedMmap_none {op : RemoteOp abi} (h : ¬ op.IsMmap) (r : op.Resp) : failedMmap ⟨op, r⟩ = none := by
  cases op with
  | syscall call =>
    cases call with
    | mmap => exact absurd trivial h
    | _ => rfl
  | _ => rfl

/-- A program that maps nothing. -/
abbrev MapsNothing {α : Type} (p : Program abi α) : Prop := Prog.Only (fun op => ¬ op.IsMmap) p

theorem spec_mapsNothing {α : Type} {p : Program abi α} {log : List (Event abi)} (h : MapsNothing p)
    (hlog : Going log) : Prog.Spec logging p log fun _ log' => Going log' := by
  refine Prog.spec_keep h (fun op hop log hlog => ⟨trivial, ?_⟩) hlog
  rintro r _ rfl hplain
  exact noneFailed_concat (hlog (plainErrors_append hplain)) (failedMmap_none hop r)

/-- How the loader calls `mmap`. -/
theorem spec_mmap {α : Type} {addr len prot flags mapFd offset fd : Word abi} {failure : α}
    {k : Word abi → Program abi α} {Q : α → List (Event abi) → Prop} {log : List (Event abi)}
    (hlog : Going log) (hfailure : ∀ log', Stopped log' → Q failure log')
    (hk : ∀ v log', Going log' → Prog.Spec logging (k v) log' Q) :
    Prog.Spec logging (syscall (.mmap addr len prot flags mapFd offset) >>= fun v =>
      if v = 0 ∨ v = MAP_FAILED then closeRemote fd >>= fun _ => pure failure else k v) log Q := by
  refine ⟨trivial, ?_⟩
  intro (v : Word abi) log' hlog'
  subst hlog'
  have hplain : ∀ {log' : List (Event abi)}, PlainErrors (log ++ log') → NoneFailed log :=
    fun h => hlog (plainErrors_append h)
  show Prog.Spec logging (if v = 0 ∨ v = MAP_FAILED then _ else _) _ Q
  by_cases hv : v = 0 ∨ v = MAP_FAILED
  · rw [if_pos hv]
    refine ⟨trivial, ?_⟩
    rintro w _ rfl
    refine hfailure _ fun h => .inr ⟨log, _, fd, w, List.append_assoc _ _ _, ?_⟩
    rw [List.append_assoc] at h
    exact hplain h
  · rw [if_neg hv]
    refine hk v _ fun h => noneFailed_concat (hplain h) ?_
    show (if isErrno v then some v else none) = none
    by_cases herr : isErrno v = true
    · have hfailed : @failedMmap abi ⟨.syscall (.mmap addr len prot flags mapFd offset), v⟩ = some v :=
        if_pos herr
      exact absurd (.inr (h _ List.mem_concat_self v hfailed)) hv
    · exact if_neg herr

/-! ### The stages that map nothing -/

section Stages

variable (c : LoaderConfig abi) (r : Reserved abi) (regs : Regs abi)

theorem mapsNothing_perform {op : RemoteOp abi} (h : ¬ op.IsMmap) :
    MapsNothing (Prog.perform op : Program abi op.Resp) := Prog.only_perform h

theorem mapsNothing_closeRemote (fd : Word abi) : MapsNothing (closeRemote fd) :=
  Prog.only_bind (mapsNothing_perform id) fun _ => trivial

theorem mapsNothing_unmapRemote (base size : Word abi) : MapsNothing (unmapRemote base size) :=
  Prog.only_bind (mapsNothing_perform id) fun _ => trivial

theorem mapsNothing_writeAll (addr : Word abi) (data : List UInt8) : MapsNothing (writeAll addr data) :=
  Prog.only_bind (mapsNothing_perform id) fun _ => trivial

theorem mapsNothing_openRemote : MapsNothing (openRemote c regs) := by
  apply Prog.only_bind (mapsNothing_writeAll _ _)
  intro written
  refine Prog.only_ite (by trivial) ?_
  apply Prog.only_bind (mapsNothing_perform id)
  intro _
  apply Prog.only_bind (mapsNothing_perform id)
  intro (remoteFd : Word abi)
  refine Prog.only_ite (by trivial) ?_
  apply Prog.only_bind (mapsNothing_perform id)
  intro (zeros : Bool)
  refine Prog.only_ite ?_ (by trivial)
  exact Prog.only_bind (mapsNothing_perform id) fun _ => trivial

theorem mapsNothing_zeroTail (ph : Phdr abi) : MapsNothing (zeroTail c r ph) := by
  apply Prog.only_bind (mapsNothing_perform id)
  intro (zeros : Bool)
  apply Prog.only_bind (Prog.only_ite (mapsNothing_writeAll _ _) (by trivial))
  intro ok
  refine Prog.only_ite (by trivial) ?_
  exact Prog.only_bind (mapsNothing_closeRemote _) fun _ => trivial

theorem mapsNothing_inMemory {α : Type} {p : Program abi α} (h : InMemory p) : MapsNothing p := by
  refine Prog.only_mono h fun op hop => ?_
  cases op with
  | syscall call => exact absurd hop id
  | _ => exact id

theorem mapsNothing_protectSegments : MapsNothing (protectSegments c r) := by
  refine Prog.only_every fun ph _ => ?_
  apply Prog.only_bind (mapsNothing_perform id)
  intro (ret : Word abi)
  refine Prog.only_ite ?_ (by trivial)
  exact Prog.only_bind (mapsNothing_unmapRemote _ _) fun _ => trivial

theorem mapsNothing_giveUp : MapsNothing (giveUp r regs) := by
  apply Prog.only_bind (mapsNothing_unmapRemote _ _)
  intro _
  apply Prog.only_bind (mapsNothing_perform id)
  intro _
  exact Prog.only_bind (mapsNothing_perform id) fun _ => trivial

theorem mapsNothing_callConstructor (address : Word abi) : MapsNothing (callConstructor c r regs address) :=
  Prog.only_bind (mapsNothing_perform id) fun _ => Prog.only_ite (by trivial) (mapsNothing_giveUp r regs)

theorem mapsNothing_runInitEntry (initArray : Word abi) (i : Nat) :
    MapsNothing (runInitEntry c r regs initArray i) := by
  apply Prog.only_bind (mapsNothing_inMemory (inMemory_readRemoteAddr _))
  intro constructor
  cases constructor with
  | none => exact mapsNothing_giveUp r regs
  | some constructor => exact Prog.only_ite (by trivial) (mapsNothing_callConstructor c r regs constructor)

theorem mapsNothing_runConstructors (d : DynInfo abi) : MapsNothing (runConstructors c r regs d) := by
  apply Prog.only_bind (Prog.only_ite (mapsNothing_callConstructor c r regs _) (by trivial))
  intro init
  refine Prog.only_ite (by trivial) (Prog.only_ite ?_ (by trivial))
  refine Prog.only_ite (mapsNothing_giveUp r regs) ?_
  exact Prog.only_every fun i _ => mapsNothing_runInitEntry c r regs _ i

theorem mapsNothing_handOver : MapsNothing (handOver r regs) := by
  rw [handOver]
  cases r.lib.entryValue with
  | none => exact Prog.only_bind (mapsNothing_giveUp r regs) fun _ => trivial
  | some entryValue =>
    apply Prog.only_bind (mapsNothing_perform id)
    intro _
    apply Prog.only_bind (mapsNothing_perform id)
    intro (restored : Bool)
    refine Prog.only_ite (by trivial) ?_
    exact Prog.only_bind (mapsNothing_unmapRemote _ _) fun _ => trivial

theorem mapsNothing_startImage (d : DynInfo abi) : MapsNothing (startImage c r regs d) := by
  apply Prog.only_bind (mapsNothing_protectSegments c r)
  intro isProtected
  refine Prog.only_ite (by trivial) (Prog.only_ite ?_ ?_)
  · exact Prog.only_bind (mapsNothing_unmapRemote _ _) fun _ => trivial
  · apply Prog.only_bind (mapsNothing_runConstructors c r regs d)
    intro constructed
    exact Prog.only_ite (by trivial) (mapsNothing_handOver r regs)

end Stages

/-! ### The stages that map -/

section Mapping

variable {c : LoaderConfig abi} {r : Reserved abi} {regs : Regs abi} {log : List (Event abi)}

/-- What the result of a step says about the log: a step that succeeds has let nothing fail. -/
def Tells (ok : Bool) (log : List (Event abi)) : Prop := if ok then Going log else Stopped log

theorem Going.tells (h : Going log) (ok : Bool) : Tells ok log := by
  cases ok with
  | true => exact h
  | false => exact h.stopped

theorem spec_mapFile {ph : Phdr abi} (hlog : Going log) : Prog.Spec logging (mapFile c r ph) log Tells := by
  apply spec_mmap hlog fun _ h => h
  intro _ log' hlog'
  split
  · exact Prog.spec_mono (spec_mapsNothing (mapsNothing_zeroTail c r ph) hlog') fun ok _ h => h.tells ok
  · exact hlog'

theorem spec_mapBss {ph : Phdr abi} (hlog : Going log) : Prog.Spec logging (mapBss c r ph) log Tells :=
  spec_mmap hlog (fun _ h => h) fun _ _ hlog' => hlog'

theorem spec_mapSegment {ph : Phdr abi} (hlog : Going log) :
    Prog.Spec logging (mapSegment c r ph) log Tells := by
  rw [mapSegment]
  split
  · exact hlog
  · have hfile : Prog.Spec logging (if 0 < ph.pFilesz then mapFile c r ph else pure true) log Tells := by
      split
      · exact spec_mapFile hlog
      · exact hlog
    refine Prog.spec_seq hfile fun ok log' htells => ?_
    cases ok with
    | false => exact htells
    | true =>
      show Prog.Spec logging (if ph.filePageEnd c r < ph.segPageEnd c r then _ else _) log' Tells
      split
      · exact spec_mapBss htells
      · exact htells

theorem spec_mapImage (hlog : Going log) :
    Prog.Spec logging (mapImage c r) log fun d log' => Tells d.isSome log' := by
  refine Prog.spec_seq (Prog.spec_every hlog fun ph _ log' hlog' => spec_mapSegment hlog') ?_
  intro mapped log₁ htells
  cases mapped with
  | false => exact htells
  | true =>
    refine Prog.spec_seq (spec_mapsNothing (mapsNothing_closeRemote _) htells) fun _ log₂ hlog₂ => ?_
    cases r.lib.dynInfo with
    | none => exact hlog₂.stopped
    | some d =>
      have hlinked := mapsNothing_inMemory (inMemory_link r d)
      exact Prog.spec_mono (spec_mapsNothing hlinked hlog₂) fun d _ h => h.tells d.isSome

theorem spec_reserve (hlog : Going log) :
    Prog.Spec logging (reserve c regs) log fun r log' => Tells r.isSome log' := by
  rw [reserve]
  split
  · exact hlog.stopped
  · cases c.library with
    | none => exact hlog.stopped
    | some lib =>
      dsimp only
      cases computeLoadLayout c.pageSize lib with
      | none => exact hlog.stopped
      | some layout =>
        dsimp only
        split
        · exact hlog.stopped
        · refine Prog.spec_seq (spec_mapsNothing (mapsNothing_openRemote c regs) hlog) fun fd log' hlog' => ?_
          cases fd with
          | none => exact hlog'.stopped
          | some remoteFd => exact spec_mmap hlog' (fun _ h => h) fun _ _ h => h

theorem spec_loadReserved (hlog : Going log) :
    Prog.Spec logging (loadReserved c r regs) log fun res log' => Tells res.isSome log' := by
  rw [loadReserved]
  split
  · have hlow : MapsNothing (α := Option (Loaded abi)) (do
        unmapRemote r.remoteBase r.layout.mapSize
        closeRemote r.remoteFd
        return none) :=
      Prog.only_bind (mapsNothing_unmapRemote _ _) fun _ =>
        Prog.only_bind (mapsNothing_closeRemote _) fun _ => trivial
    exact Prog.spec_mono (spec_mapsNothing hlow hlog) fun res _ h => h.tells res.isSome
  · refine Prog.spec_seq (spec_mapImage hlog) fun d log' htells => ?_
    cases d with
    | none => exact htells
    | some d =>
      exact Prog.spec_mono (spec_mapsNothing (mapsNothing_startImage c r regs d) htells)
        fun res _ h => h.tells res.isSome

theorem spec_loader (hlog : Going log) : Prog.Spec logging (remoteCsoloaderLoadAndResolveEntry c regs) log
    fun res log' => Tells res.isSome log' := by
  refine Prog.spec_seq (spec_reserve hlog) fun r log' htells => ?_
  cases r with
  | none => exact htells
  | some r => exact spec_loadReserved htells

end Mapping

/-! ### Runs of the loader -/

/-- In a run whose `mmap` errors are plain all of them are noticed, and a run that loads the library with
all of them noticed has only plain ones. -/
theorem mmaps_noticed (c : LoaderConfig abi) (e : TraceEnv abi) (live regs : Regs abi)
    (mapped : Word abi → Bool) :
    ∃ res t, Prog.run Tracee.exec e (remoteCsoloaderLoadAndResolveEntry c regs) (.called live regs mapped) =
        some (res, t) ∧
      (PlainErrors t.log → MmapsNoticed t.log res.isSome) ∧
      (res.isSome = true → (MmapsNoticed t.log res.isSome ↔ PlainErrors t.log)) := by
  obtain ⟨res, t, hrun⟩ := Tracee.runs e (remoteCsoloaderLoadAndResolveEntry c regs) (.called live regs mapped)
  have hstart : Going (Tracee.called live regs mapped).log := fun _ ev hev => absurd hev List.not_mem_nil
  have htells := Prog.spec_run (f := Tracee.log) (spec_loader hstart) hrun fun _ _ _ _ h => Tracee.log_exec h
  have hnoticed : PlainErrors t.log → MmapsNoticed t.log res.isSome := by
    intro hplain
    cases hres : res.isSome with
    | true =>
      rw [hres] at htells
      exact mmapsNoticed_of_noneFailed (htells hplain)
    | false =>
      rw [hres] at htells
      rcases htells hplain with hnone | hcaught
      · exact mmapsNoticed_of_noneFailed hnone
      · exact mmapsNoticed_of_caught hcaught
  refine ⟨res, t, hrun, hnoticed, fun hres => ⟨?_, hnoticed⟩⟩
  intro h ev hev v hv
  rw [h.succeeded hres ev hev] at hv
  cases hv

/-! ### An error that is not noticed -/

section Unnoticed

/-- The tracee may reserve memory, but has no mapping left for the file: `ENOMEM`. -/
theorem mmap_unnoticed : ¬ ∀ (abi : Abi) (c : LoaderConfig abi) (e : TraceEnv abi) (live regs : Regs abi)
    (mapped : Word abi → Bool) (res : Option (Loaded abi)) (t : Tracee abi),
    Prog.run Tracee.exec e (remoteCsoloaderLoadAndResolveEntry c regs) (.called live regs mapped) =
      some (res, t) → MmapsNoticed t.log res.isSome := by
  intro h
  obtain ⟨res, t, hrun⟩ := Tracee.runs (answering (-12))
    (remoteCsoloaderLoadAndResolveEntry (onePageConfig onePage) ⟨0x8000, 0, 0, 0, []⟩)
    (.called ⟨0x8000, 0, 0, 0, []⟩ ⟨0x8000, 0, 0, 0, []⟩ fun _ => false)
  have hshown : (Prog.run Tracee.exec (answering (-12))
      (remoteCsoloaderLoadAndResolveEntry (onePageConfig onePage) ⟨0x8000, 0, 0, 0, []⟩)
      (.called ⟨0x8000, 0, 0, 0, []⟩ ⟨0x8000, 0, 0, 0, []⟩ fun _ => false)).map
      (fun z => (z.1.isSome, z.2.log.all fun ev => (failedMmap ev).isNone)) = some (true, false) := by
    decide
  rw [hrun] at hshown
  obtain ⟨hres, hfailed⟩ := Prod.mk.inj (Option.some.inj hshown)
  have hnone := (h _ _ _ _ _ _ res t hrun).succeeded hres
  rw [List.all_eq_true.2 fun ev hev => by rw [hnone ev hev]; rfl] at hfailed
  cases hfailed

end Unnoticed

end OnyxZygisk.Ptracer

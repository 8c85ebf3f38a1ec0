import OnyxZygisk.Ptracer.RemoteCall

/-!
# Stepping a remote system call

`remote_syscall` loads a system call into the registers of the tracee and resumes it twice, and takes the first stop
for the entry into the call and the second for the exit. A stop of another kind, a signal or an event, counts as one
of the two all the same, and what is read then is no result (`remoteSyscall_answers_iff`).
-/

namespace OnyxZygisk.Ptracer

/-! ### The call in the registers -/

/-- A system call as the kernel takes it from the registers: the instruction that makes it, its number, its arguments. -/
structure Call (abi : Abi) where
  insn : Word abi
  nr : Word abi
  args : List (Word abi)
  deriving DecidableEq

def syscallArgRegs : Abi → List Reg
  | .x86_64 => [.rdi, .rsi, .rdx, .r10, .r8, .r9]
  | .i386 => [.ebx, .ecx, .edx, .esi, .edi, .ebp]
  | .aarch64 => (List.range 6).map .regs
  | .arm => (List.range 6).map .uregs

/-- The registers that the number is written to, the one the instruction takes it from last. -/
def sysnrRegs : Abi → List Reg
  | .x86_64 => [.origRax, .rax]
  | .i386 => [.origEax, .eax]
  | .aarch64 => [.regs 8]
  | .arm => [.uregs 7]

/-- The register the instruction takes the number from. -/
def nrReg : Abi → Reg
  | .x86_64 => .rax
  | .i386 => .eax
  | .aarch64 => .regs 8
  | .arm => .uregs 7

/-- `REG_RET` -/
def retReg : Abi → Reg
  | .x86_64 => .rax
  | .i386 => .eax
  | .aarch64 => .regs 0
  | .arm => .uregs 0

variable {abi : Abi}

/-- `PSTATE.BTYPE` -/
def BTYPE_MASK : Word abi := 0xc00

/-- The gadget as the next instruction. On aarch64 a jump there must not count as an illegal branch. -/
def enterGadget (gadget : Word abi) (regs : UserRegs abi) : UserRegs abi :=
  match abi with
  | .aarch64 => { regs.set .pstate (regs.gpr .pstate &&& ~~~BTYPE_MASK) with ip := gadget }
  | .arm => selectThumb { regs with ip := gadget }
  | .x86_64 | .i386 => { regs with ip := gadget }

/-- The registers `remote_syscall` sets. -/
def prepareSyscall (gadget sysnr : Word abi) (args : List (Word abi)) (regs : UserRegs abi) : UserRegs abi :=
  let regs := (sysnrRegs abi).foldl (fun regs r => regs.set r sysnr) regs
  let regs := loadRegs (syscallArgRegs abi) (List.replicate 6 0) regs
  enterGadget gadget (loadRegs (syscallArgRegs abi) args regs)

/-- The call that the kernel finds in the registers. -/
def callOf (regs : UserRegs abi) : Call abi := ⟨regs.ip, regs.gpr (nrReg abi), (syscallArgRegs abi).map regs.gpr⟩

/-- The instruction at the gadget. Only on arm is the lowest bit no part of the address. -/
def gadgetInsn (gadget : Word abi) : Word abi :=
  match abi with
  | .arm => gadget &&& ~~~1
  | .x86_64 | .i386 | .aarch64 => gadget

/-- The call that is asked for, with zeros for the arguments it has not got. -/
def requested (gadget sysnr : Word abi) (args : List (Word abi)) : Call abi :=
  ⟨gadgetInsn gadget, sysnr, (args ++ List.replicate 6 0).take 6⟩

/-! ### Stops -/

/-- A stop that is neither the entry into a system call nor the exit from it. -/
inductive OtherStop where
  /-- A signal is about to be delivered. It is dropped when the tracee is resumed. -/
  | signal (sig : Nat)
  | event (event : Nat)
  deriving DecidableEq

/-- A stop, and the registers the tracee has there. -/
structure Stop (abi : Abi) where
  /-- None at the stop of a system call that is due: the exit if the tracee has entered one, else the entry. -/
  other : Option OtherStop
  regs : UserRegs abi

/-- What one `waitpid` comes back with. -/
inductive Waited (abi : Abi) where
  /-- `EINTR` -/
  | interrupted
  /-- A status that is neither an end nor a stop. -/
  | continued
  | died
  | stopped (stop : Stop abi)

/-- `wait_for_ptrace_syscall_stop`, over what its calls of `waitpid` come back with: the stop it returns true at. The
call that fails stands at the end of the list. -/
def waitForPtraceSyscallStop : List (Waited abi) → Option (Stop abi)
  | [] => none
  | .interrupted :: waits | .continued :: waits => waitForPtraceSyscallStop waits
  | .died :: _ => none
  | .stopped stop :: _ => some stop

/-- The tracee as it is stepped. -/
structure Stepped (abi : Abi) where
  regs : UserRegs abi
  /-- The call it has entered and not left. -/
  pending : Option (Call abi)
  /-- The calls it has left, with the result register at the exit. -/
  executed : List (Call abi × Word abi)

/-- The tracee comes to a stop. -/
def Stepped.stop (t : Stepped abi) (stop : Stop abi) : Stepped abi :=
  match stop.other, t.pending with
  | some _, _ => { t with regs := stop.regs }
  | none, none => { t with regs := stop.regs, pending := some (callOf t.regs) }
  | none, some call => ⟨stop.regs, none, t.executed ++ [(call, stop.regs.gpr (retReg abi))]⟩

/-- One turn of the stepping loop. -/
structure Round (abi : Abi) where
  /-- `PTRACE_SYSCALL` -/
  resumes : Bool
  waits : List (Waited abi)

/-- The stop one turn ends with. -/
def Round.stop (round : Round abi) : Option (Stop abi) :=
  if round.resumes then waitForPtraceSyscallStop round.waits else none

/-- How the calls of one `remote_syscall` go. -/
structure StepRun (abi : Abi) where
  /-- `get_regs(saved)` -/
  saves : Bool
  /-- `set_regs` with the call. -/
  sets : Bool
  entry : Round abi
  exit : Round abi
  /-- `get_regs` for the result. -/
  reads : Bool
  /-- The `set_regs` of `restore`. -/
  restores : Bool

/-- What it leaves: the value it returns, unless it fails itself, the variable `regs`, and the tracee. -/
structure StepEnd (abi : Abi) where
  ret : Option (Word abi)
  regs : UserRegs abi
  tracee : Stepped abi

/-- `restore`, and the return. -/
def restore (restores : Bool) (saved : UserRegs abi) (ret : Option (Word abi)) (t : Stepped abi) : StepEnd abi :=
  ⟨ret, saved, if restores then { t with regs := saved } else t⟩

/-- `remote_syscall` -/
def Stepped.remoteSyscall (run : StepRun abi) (gadget sysnr : Word abi) (args : List (Word abi)) (regs : UserRegs abi)
    (t : Stepped abi) : StepEnd abi :=
  if !run.saves then ⟨none, regs, t⟩
  else
    let restore := restore run.restores t.regs
    if !run.sets then restore none t
    else
      let t := { t with regs := prepareSyscall gadget sysnr args regs }
      match run.entry.stop with
      | none => restore none t
      | some entry =>
        let t := t.stop entry
        match run.exit.stop with
        | none => restore none t
        | some exit =>
          let t := t.stop exit
          if !run.reads then restore none t
          else restore (some (t.regs.gpr (retReg abi))) t

/-! ### The kernel's answer -/

/-- The tracee before the call. -/
def Stepped.before (live : UserRegs abi) : Stepped abi := ⟨live, none, []⟩

/-- A value that is returned is the result of the one call that was made, the requested one, and the registers are as
they were if they are written back. -/
structure Answers (call : Call abi) (restores : Bool) (live : UserRegs abi) (left : StepEnd abi) : Prop where
  result : ∀ v, left.ret = some v → left.tracee.executed = [(call, v)]
  registers : restores → left.tracee.regs = live

/-- Both turns came to a stop, and everything around them went well. -/
def StepRun.Returns (run : StepRun abi) : Prop :=
  run.saves ∧ run.sets ∧ run.entry.stop.isSome ∧ run.exit.stop.isSome ∧ run.reads

/-- Neither turn ends at a stop of another kind. -/
def StepRun.Due (run : StepRun abi) : Prop := ∀ round ∈ [run.entry, run.exit], ∀ stop ∈ round.stop, stop.other = none

/-! ### The registers that are set -/

theorem map_loadRegs {rs : List Reg} (hrs : rs.Nodup) (args : List (Word abi)) (regs : UserRegs abi) :
    rs.map (loadRegs rs args regs).gpr = args.take rs.length ++ (rs.map regs.gpr).drop args.length := by
  induction rs generalizing args regs with
  | nil => rw [List.map_nil, List.map_nil, List.length_nil, List.take_zero, List.drop_nil, List.nil_append]
  | cons r rs ih =>
    rw [List.nodup_cons] at hrs
    cases args with
    | nil => rfl
    | cons arg args =>
      have hrest : rs.map (regs.set r arg).gpr = rs.map regs.gpr := by
        apply List.map_congr_left
        intro q hq
        exact set_of_ne (ne_of_mem_of_not_mem hq hrs.1)
      rw [List.map_cons, loadRegs, ih hrs.2, loadRegs_of_not_mem hrs.1, hrest]
      show (if r = r then arg else regs.gpr r) :: _ = _
      rw [if_pos rfl]
      rfl

theorem syscallArgRegs_nodup (abi : Abi) : (syscallArgRegs abi).Nodup := by cases abi <;> decide

theorem length_syscallArgRegs (abi : Abi) : (syscallArgRegs abi).length = 6 := by cases abi <;> rfl

/-- The registers that are set beside the arguments are none of theirs. -/
theorem syscallArgRegs_free (abi : Abi) :
    nrReg abi ∉ syscallArgRegs abi ∧ .pstate ∉ syscallArgRegs abi ∧ .uregs 16 ∉ syscallArgRegs abi := by
  cases abi <;> decide

theorem nrReg_free (abi : Abi) : nrReg abi ≠ .pstate ∧ nrReg abi ≠ .uregs 16 := by cases abi <;> decide

theorem selectThumb_ip (regs : UserRegs abi) : (selectThumb regs).ip = regs.ip &&& ~~~1 := by
  unfold selectThumb
  split_ifs with hthumb
  · rfl
  · show regs.ip = regs.ip &&& ~~~1
    calc regs.ip = regs.ip &&& (1 ||| ~~~1) := by rw [BitVec.or_not_self, BitVec.and_allOnes]
      _ = (regs.ip &&& 1) ||| (regs.ip &&& ~~~1) := BitVec.and_or_distrib_left
      _ = regs.ip &&& ~~~1 := by
        rw [not_not.1 hthumb]
        exact BitVec.zero_or

theorem set_sysnr (sysnr : Word abi) (regs : UserRegs abi) :
    ((sysnrRegs abi).foldl (fun regs r => regs.set r sysnr) regs).gpr (nrReg abi) = sysnr := by
  cases abi <;> rfl

theorem enterGadget_gpr (gadget : Word abi) (regs : UserRegs abi) {q : Reg} (hstate : q ≠ .pstate)
    (hthumb : q ≠ .uregs 16) : (enterGadget gadget regs).gpr q = regs.gpr q := by
  cases abi with
  | x86_64 => rfl
  | i386 => rfl
  | aarch64 => exact set_of_ne hstate
  | arm => exact selectThumb_gpr hthumb

theorem enterGadget_ip (gadget : Word abi) (regs : UserRegs abi) : (enterGadget gadget regs).ip = gadgetInsn gadget := by
  cases abi with
  | x86_64 => rfl
  | i386 => rfl
  | aarch64 => rfl
  | arm => exact selectThumb_ip _

/-- The gadget makes the call that is in the other registers. -/
theorem callOf_enterGadget (gadget : Word abi) (regs : UserRegs abi) :
    callOf (enterGadget gadget regs) = { callOf regs with insn := gadgetInsn gadget } := by
  have hfree := syscallArgRegs_free abi
  have hargs : (syscallArgRegs abi).map (enterGadget gadget regs).gpr = (syscallArgRegs abi).map regs.gpr := by
    apply List.map_congr_left
    intro q hq
    exact enterGadget_gpr _ _ (ne_of_mem_of_not_mem hq hfree.2.1) (ne_of_mem_of_not_mem hq hfree.2.2)
  rw [callOf, hargs, enterGadget_gpr _ _ (nrReg_free abi).1 (nrReg_free abi).2, enterGadget_ip]
  rfl

/-- Six registers that are zeroed and loaded hold the arguments, then zeros. -/
theorem map_loadRegs_zeros (args : List (Word abi)) (regs : UserRegs abi) :
    (syscallArgRegs abi).map
        (loadRegs (syscallArgRegs abi) args (loadRegs (syscallArgRegs abi) (List.replicate 6 0) regs)).gpr =
      (args ++ List.replicate 6 0).take 6 := by
  have hnodup := syscallArgRegs_nodup abi
  have hlen : ((syscallArgRegs abi).map regs.gpr).length = 6 := by rw [List.length_map, length_syscallArgRegs]
  have hzeros : (syscallArgRegs abi).map (loadRegs (syscallArgRegs abi) (List.replicate 6 0) regs).gpr =
      List.replicate 6 0 := by
    rw [map_loadRegs hnodup, length_syscallArgRegs, List.length_replicate, List.drop_eq_nil_of_le hlen.le,
      List.append_nil]
    rfl
  rw [map_loadRegs hnodup, hzeros, length_syscallArgRegs, List.take_append, List.drop_replicate, List.take_replicate]
  congr 2
  omega

/-- The kernel finds the requested call. -/
theorem callOf_prepareSyscall (gadget sysnr : Word abi) (args : List (Word abi)) (regs : UserRegs abi) :
    callOf (prepareSyscall gadget sysnr args regs) = requested gadget sysnr args := by
  have hnr := (syscallArgRegs_free abi).1
  show callOf (enterGadget gadget _) = _
  rw [callOf_enterGadget, callOf, loadRegs_of_not_mem hnr, loadRegs_of_not_mem hnr, set_sysnr, map_loadRegs_zeros]
  rfl

/-! ### The two turns -/

theorem Stepped.stop_other {stop : Stop abi} (h : stop.other ≠ none) (t : Stepped abi) :
    t.stop stop = { t with regs := stop.regs } := by
  obtain ⟨other, hother⟩ := Option.ne_none_iff_exists'.1 h
  unfold Stepped.stop
  rw [hother]

theorem Stepped.stop_entry {stop : Stop abi} (h : stop.other = none) (regs : UserRegs abi)
    (executed : List (Call abi × Word abi)) :
    Stepped.stop ⟨regs, none, executed⟩ stop = ⟨stop.regs, some (callOf regs), executed⟩ := by
  unfold Stepped.stop
  rw [h]

theorem Stepped.stop_exit {stop : Stop abi} (h : stop.other = none) (regs : UserRegs abi) (call : Call abi)
    (executed : List (Call abi × Word abi)) :
    Stepped.stop ⟨regs, some call, executed⟩ stop =
      ⟨stop.regs, none, executed ++ [(call, stop.regs.gpr (retReg abi))]⟩ := by
  unfold Stepped.stop
  rw [h]

theorem Stepped.stop_regs (t : Stepped abi) (stop : Stop abi) : (t.stop stop).regs = stop.regs := by
  unfold Stepped.stop
  split <;> rfl

/-- Two stops make a call of the tracee's only as its entry and its exit. -/
theorem Stepped.stop_stop_executed (regs : UserRegs abi) (entry exit : Stop abi) :
    (((Stepped.before regs).stop entry).stop exit).executed =
      if entry.other = none ∧ exit.other = none then [(callOf regs, exit.regs.gpr (retReg abi))] else [] := by
  unfold before
  by_cases hentry : entry.other = none
  · rw [stop_entry hentry]
    by_cases hexit : exit.other = none
    · rw [stop_exit hexit, if_pos ⟨hentry, hexit⟩]
      rfl
    · rw [stop_other hexit, if_neg fun h => hexit h.2]
  · rw [stop_other hentry, if_neg fun h => hentry h.1]
    by_cases hexit : exit.other = none
    · rw [stop_entry hexit]
    · rw [stop_other hexit]

/-- It fails, or it returns what the result register holds at the second stop. -/
theorem remoteSyscall_cases (run : StepRun abi) (gadget sysnr : Word abi) (args : List (Word abi))
    (regs live : UserRegs abi) :
    (¬ run.Returns ∧ ((Stepped.before live).remoteSyscall run gadget sysnr args regs).ret = none) ∨
      ∃ entry exit, run.Returns ∧ run.entry.stop = some entry ∧ run.exit.stop = some exit ∧
        (Stepped.before live).remoteSyscall run gadget sysnr args regs =
          restore run.restores live (some (exit.regs.gpr (retReg abi)))
            (((Stepped.before (prepareSyscall gadget sysnr args regs)).stop entry).stop exit) := by
  unfold Stepped.remoteSyscall StepRun.Returns
  cases hsaves : run.saves with
  | false => exact .inl ⟨fun h => Bool.false_ne_true h.1, rfl⟩
  | true =>
    cases hsets : run.sets with
    | false => exact .inl ⟨fun h => Bool.false_ne_true h.2.1, rfl⟩
    | true =>
      cases hentry : run.entry.stop with
      | none => exact .inl ⟨fun h => Bool.false_ne_true h.2.2.1, rfl⟩
      | some entry =>
        cases hexit : run.exit.stop with
        | none => exact .inl ⟨fun h => Bool.false_ne_true h.2.2.2.1, rfl⟩
        | some exit =>
          cases hreads : run.reads with
          | false => exact .inl ⟨fun h => Bool.false_ne_true h.2.2.2.2, rfl⟩
          | true =>
            refine .inr ⟨entry, exit, ⟨rfl, rfl, rfl, rfl, rfl⟩, rfl, rfl, ?_⟩
            rw [← Stepped.stop_regs]
            rfl

/-- Whatever is reached, the registers are written back last. -/
theorem remoteSyscall_regs (run : StepRun abi) (gadget sysnr : Word abi) (args : List (Word abi))
    (regs live : UserRegs abi) (h : run.restores) :
    ((Stepped.before live).remoteSyscall run gadget sysnr args regs).tracee.regs = live := by
  have hrestore (ret : Option (Word abi)) (t : Stepped abi) : (restore run.restores live ret t).tracee.regs = live := by
    rw [restore, if_pos h]
  unfold Stepped.remoteSyscall
  split
  · rfl
  · split
    · exact hrestore _ _
    · split
      · exact hrestore _ _
      · split
        · exact hrestore _ _
        · split
          · exact hrestore _ _
          · exact hrestore _ _

/-- Every value is the kernel's answer to the requested call, and the registers are restored, exactly if the two stops
of a run that returns one are the entry and the exit. -/
theorem remoteSyscall_answers_iff (run : StepRun abi) (gadget sysnr : Word abi) (args : List (Word abi))
    (regs live : UserRegs abi) :
    Answers (requested gadget sysnr args) run.restores live
        ((Stepped.before live).remoteSyscall run gadget sysnr args regs) ↔
      (run.Returns → run.Due) := by
  rcases remoteSyscall_cases run gadget sysnr args regs live with
    ⟨hfails, hret⟩ | ⟨entry, exit, hreturns, hentry, hexit, hleft⟩
  · refine ⟨fun _ hreturns => absurd hreturns hfails, fun _ => ⟨fun v hv => ?_, remoteSyscall_regs run _ _ _ _ _⟩⟩
    rw [hret] at hv
    exact absurd hv (Option.some_ne_none v).symm
  · have hexecuted : ((Stepped.before live).remoteSyscall run gadget sysnr args regs).tracee.executed =
        if entry.other = none ∧ exit.other = none then
          [(requested gadget sysnr args, exit.regs.gpr (retReg abi))] else [] := by
      rw [hleft, ← callOf_prepareSyscall gadget sysnr args regs, ← Stepped.stop_stop_executed, restore]
      split_ifs <;> rfl
    have hret : ((Stepped.before live).remoteSyscall run gadget sysnr args regs).ret =
        some (exit.regs.gpr (retReg abi)) := by
      rw [hleft]
      rfl
    have hdue : run.Due ↔ entry.other = none ∧ exit.other = none := by
      simp [StepRun.Due, hentry, hexit]
    constructor
    · intro hanswers _
      have hresult := hanswers.result _ hret
      rw [hexecuted] at hresult
      split_ifs at hresult with hstops
      · exact hdue.2 hstops
    · intro hstops
      refine ⟨fun v hv => ?_, remoteSyscall_regs run _ _ _ _ _⟩
      rw [hexecuted, if_pos (hdue.1 (hstops hreturns))]
      rw [hret] at hv
      rw [Option.some.inj hv]

/-- A run on x86-64 where a signal arrives before the tracee has made the call: the two stops are the delivery of the
signal and the entry into the call, where the result register holds `-ENOSYS`. -/
def interruptedRun : StepRun .x86_64 :=
  let stoppedWith (rax : Word .x86_64) : UserRegs .x86_64 := ⟨0x7ff0, 0x4000, fun r => if r = .rax then rax else 0⟩
  { saves := true
    sets := true
    entry := ⟨true, [.stopped ⟨some (.signal 17), stoppedWith 11⟩]⟩
    exit := ⟨true, [.stopped ⟨none, stoppedWith (-38)⟩]⟩
    reads := true
    restores := true }

/-- `munmap` returns that number, and the tracee has made no call. -/
theorem remoteSyscall_interrupted :
    let left := (Stepped.before ⟨0x7ff8, 0x5000, fun _ => 0⟩).remoteSyscall interruptedRun 0x4000 11 [0x10000, 0x1000]
      ⟨0x7ff8, 0x5000, fun _ => 0⟩
    left.ret = some (-38) ∧ left.tracee.executed = [] ∧
      ¬ Answers (requested 0x4000 11 [0x10000, 0x1000]) true ⟨0x7ff8, 0x5000, fun _ => 0⟩ left :=
  ⟨by decide, by decide, fun h => absurd (h.result (-38) (by decide)) (by decide)⟩

end OnyxZygisk.Ptracer

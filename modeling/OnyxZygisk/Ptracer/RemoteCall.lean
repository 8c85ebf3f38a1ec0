import OnyxZygisk.Lib.AddressSpace
import OnyxZygisk.Lib.Memory
import OnyxZygisk.Ptracer.Tracee

/-!
# Setting up a remote call

`remote_call` aligns the stack pointer, then loads the argument registers and pushes what is left of the arguments in
one block, and on x86 the return address. The callee finds every argument where the ABI puts it, but a stack pointer
that is aligned for it only if the arguments on the stack fill whole units of the alignment
(`callSetup_legal_iff`).
-/

namespace OnyxZygisk.Ptracer

open Memory

/-! ### Registers -/

/-- The registers that a call is set up in, other than the stack pointer and the instruction pointer. -/
inductive Reg where
  | rdi | rsi | rdx | rcx | r8 | r9 | r10 | rax | origRax
  | ebx | ecx | edx | esi | edi | ebp | eax | origEax
  /-- Processor state of aarch64. -/
  | pstate
  /-- `regs[i]` of aarch64. -/
  | regs (i : Nat)
  /-- `uregs[i]` of arm. -/
  | uregs (i : Nat)
  deriving DecidableEq

/-- `user_regs_struct` -/
structure UserRegs (abi : Abi) where
  sp : Word abi
  ip : Word abi
  gpr : Reg → Word abi

variable {abi : Abi}

def UserRegs.set (regs : UserRegs abi) (r : Reg) (value : Word abi) : UserRegs abi :=
  { regs with gpr := fun q => if q = r then value else regs.gpr q }

def STACK_ALIGN_MASK : Word abi := ~~~0xf

def alignStack (regs : UserRegs abi) (preserve : Word abi) : UserRegs abi :=
  { regs with sp := (regs.sp - preserve) &&& STACK_ALIGN_MASK }

/-- The registers of the first arguments, in order. -/
def argRegs : Abi → List Reg
  | .x86_64 => [.rdi, .rsi, .rdx, .rcx, .r8, .r9]
  | .i386 => []
  | .aarch64 => (List.range 8).map .regs
  | .arm => (List.range 4).map .uregs

/-- The assignments to the argument registers, as far as there are arguments. -/
def loadRegs : List Reg → List (Word abi) → UserRegs abi → UserRegs abi
  | r :: rs, arg :: args, regs => loadRegs rs args (regs.set r arg)
  | _, _, regs => regs

/-! ### The stack -/

/-- A complete `write_proc`. No process has memory up to the very end of its address space. -/
def writeWhole (accepts : Word abi → Nat → Bool) (addr : Word abi) (data : List UInt8) (mem : Memory) : Option Memory :=
  if accepts addr data.length ∧ addr.toNat + data.length < 2 ^ abi.bits then some (mem.write addr.toNat data) else none

/-- The arguments behind the first `n`, pushed in one block. -/
def pushArgs (accepts : Word abi → Nat → Bool) (n : Nat) (args : List (Word abi)) (regs : UserRegs abi)
    (mem : Memory) : Option (UserRegs abi × Memory) :=
  if args.length > n then do
    let stackArgsSize := (args.length - n) * abi.wordSize
    let sp := regs.sp - BitVec.ofNat _ stackArgsSize
    let mem ← writeWhole accepts sp ((args.drop n).flatMap wordBytes) mem
    some ({ regs with sp }, mem)
  else some (regs, mem)

def pushReturnAddr (accepts : Word abi → Nat → Bool) (returnAddr : Word abi) (regs : UserRegs abi)
    (mem : Memory) : Option (UserRegs abi × Memory) := do
  let sp := regs.sp - BitVec.ofNat _ abi.wordSize
  let mem ← writeWhole accepts sp (wordBytes returnAddr) mem
  some ({ regs with sp }, mem)

def CPSR_T_MASK : Word abi := 0x20

/-- The lowest bit of an address says that it is Thumb code; it goes into the state register. -/
def selectThumb (regs : UserRegs abi) : UserRegs abi :=
  if regs.ip &&& 1 ≠ 0 then
    { regs with ip := regs.ip &&& ~~~1 }.set (.uregs 16) (regs.gpr (.uregs 16) ||| CPSR_T_MASK)
  else regs.set (.uregs 16) (regs.gpr (.uregs 16) &&& ~~~CPSR_T_MASK)

/-- `remote_call` up to `set_regs`: the registers it sets and the memory of the tracee, unless a write fails. -/
def callSetup (accepts : Word abi → Nat → Bool) (regs : UserRegs abi) (mem : Memory) (funcAddr returnAddr : Word abi)
    (args : List (Word abi)) : Option (UserRegs abi × Memory) :=
  let regs := loadRegs (argRegs abi) args (alignStack regs 0)
  match pushArgs accepts (argRegs abi).length args regs mem with
  | none => none
  | some (regs, mem) =>
    match abi with
    | .x86_64 | .i386 =>
      (pushReturnAddr accepts returnAddr regs mem).map fun (regs, mem) => ({ regs with ip := funcAddr }, mem)
    | .aarch64 => some ({ regs.set (.regs 30) returnAddr with ip := funcAddr }, mem)
    | .arm => some (selectThumb { regs.set (.uregs 14) returnAddr with ip := funcAddr }, mem)

/-! ### The calling conventions -/

/-- On x86 the return address stands at the stack pointer when the callee starts. -/
def pushedReturn : Abi → Nat
  | .x86_64 => 8
  | .i386 => 4
  | .aarch64 | .arm => 0

def stackAlign : Abi → Nat
  | .arm => 8
  | .x86_64 | .i386 | .aarch64 => 16

/-- The arguments that do not go into registers. -/
def stackArgs (abi : Abi) (argc : Nat) : Nat := argc - (argRegs abi).length

/-- How many arguments on the stack fill a unit of its alignment. -/
def argUnit (abi : Abi) : Nat := stackAlign abi / abi.wordSize

/-- What the callee relies on when it starts. -/
structure LegalCall (args : List (Word abi)) (regs : UserRegs abi) (mem : Memory) : Prop where
  aligned : stackAlign abi ∣ regs.sp.toNat + pushedReturn abi
  registers : ∀ i (hr : i < (argRegs abi).length) (hi : i < args.length), regs.gpr (argRegs abi)[i] = args[i]
  stack : ∀ i (_ : (argRegs abi).length ≤ i) (hi : i < args.length),
    mem.read (regs.sp.toNat + pushedReturn abi + abi.wordSize * (i - (argRegs abi).length)) abi.wordSize = wordBytes args[i]

variable {accepts : Word abi → Nat → Bool} {regs regs' : UserRegs abi} {mem mem' : Memory} {args : List (Word abi)}
  {returnAddr : Word abi} {n : Nat}

/-! ### Registers that are set -/

theorem set_of_ne {r q : Reg} {value : Word abi} (h : q ≠ r) : (regs.set r value).gpr q = regs.gpr q := if_neg h

theorem loadRegs_of_not_mem {rs : List Reg} {q : Reg} (h : q ∉ rs) : (loadRegs rs args regs).gpr q = regs.gpr q := by
  induction rs generalizing args regs with
  | nil => rfl
  | cons r rs ih =>
    rw [List.mem_cons, not_or] at h
    cases args with
    | nil => rfl
    | cons arg args =>
      rw [loadRegs, ih h.2]
      exact set_of_ne h.1

/-- Each argument register holds its argument. -/
theorem loadRegs_get {rs : List Reg} (hrs : rs.Nodup) {i : Nat} (hr : i < rs.length) (hi : i < args.length) :
    (loadRegs rs args regs).gpr rs[i] = args[i] := by
  induction rs generalizing args regs i with
  | nil => exact absurd hr (Nat.not_lt_zero i)
  | cons r rs ih =>
    rw [List.nodup_cons] at hrs
    cases args with
    | nil => exact absurd hi (Nat.not_lt_zero i)
    | cons arg args =>
      cases i with
      | zero =>
        rw [loadRegs, List.getElem_cons_zero, loadRegs_of_not_mem hrs.1]
        exact if_pos rfl
      | succ i => exact ih hrs.2 (Nat.lt_of_succ_lt_succ hr) (Nat.lt_of_succ_lt_succ hi)

theorem sp_loadRegs (rs : List Reg) (args : List (Word abi)) (regs : UserRegs abi) :
    (loadRegs rs args regs).sp = regs.sp := by
  induction rs generalizing args regs with
  | nil => rfl
  | cons r rs ih =>
    cases args with
    | nil => rfl
    | cons arg args => exact ih args _

/-! ### What is pushed -/

theorem writeWhole_eq_some {addr : Word abi} {data : List UInt8} (h : writeWhole accepts addr data mem = some mem') :
    addr.toNat + data.length < 2 ^ abi.bits ∧ mem' = mem.write addr.toNat data := by
  unfold writeWhole at h
  split_ifs at h with haccepts
  exact ⟨haccepts.2, (Option.some.inj h).symm⟩

/-- The arguments on the stack, from the stack pointer up. -/
structure Pushed (n : Nat) (args : List (Word abi)) (regs regs' : UserRegs abi) (mem' : Memory) : Prop where
  gpr : regs'.gpr = regs.gpr
  sp : regs'.sp = regs.sp - BitVec.ofNat _ ((args.length - n) * abi.wordSize)
  args : ∀ i (_ : n ≤ i) (hi : i < args.length),
    mem'.read (regs'.sp.toNat + abi.wordSize * (i - n)) abi.wordSize = wordBytes args[i]

theorem pushArgs_pushed (h : pushArgs accepts n args regs mem = some (regs', mem')) : Pushed n args regs regs' mem' := by
  unfold pushArgs at h
  split_ifs at h with hmore
  · simp only [Option.bind_eq_bind, Option.bind_eq_some_iff, Option.some.injEq, Prod.mk.injEq] at h
    obtain ⟨mem₁, hwrite, rfl, rfl⟩ := h
    obtain ⟨-, rfl⟩ := writeWhole_eq_some hwrite
    refine ⟨rfl, rfl, fun i hn hi => ?_⟩
    have hlt : i - n < (args.drop n).length := by
      rw [List.length_drop]
      omega
    rw [read_flatMap length_wordBytes mem _ hlt, List.getElem_drop]
    congr 2
    omega
  · obtain ⟨rfl, rfl⟩ := Prod.mk.inj (Option.some.inj h)
    refine ⟨rfl, ?_, fun i hn hi => absurd hi (by omega)⟩
    have hzero : args.length - n = 0 := by omega
    rw [hzero, Nat.zero_mul]
    exact (BitVec.sub_zero _).symm

theorem pushReturnAddr_eq_some (h : pushReturnAddr accepts returnAddr regs mem = some (regs', mem')) :
    regs'.gpr = regs.gpr ∧ regs'.sp.toNat + abi.wordSize = regs.sp.toNat ∧
      mem' = mem.write regs'.sp.toNat (wordBytes returnAddr) := by
  unfold pushReturnAddr at h
  simp only [Option.bind_eq_bind, Option.bind_eq_some_iff, Option.some.injEq, Prod.mk.injEq] at h
  obtain ⟨mem₁, hwrite, rfl, rfl⟩ := h
  obtain ⟨hroom, rfl⟩ := writeWhole_eq_some hwrite
  refine ⟨rfl, ?_, rfl⟩
  rw [length_wordBytes] at hroom
  have hback : regs.sp - BitVec.ofNat _ abi.wordSize + BitVec.ofNat _ abi.wordSize = regs.sp := BitVec.sub_add_cancel _ _
  have hsize : (BitVec.ofNat abi.bits abi.wordSize).toNat = abi.wordSize := by cases abi <;> rfl
  conv_rhs => rw [← hback]
  rw [BitVec.toNat_add_of_lt (by rw [hsize]; exact hroom), hsize]

/-! ### Alignment -/

theorem alignStack_dvd (regs : UserRegs abi) (preserve : Word abi) : 16 ∣ (alignStack regs preserve).sp.toNat := by
  have hpage : (16 : Word abi).toNat = 2 ^ 4 := by cases abi <;> rfl
  have hmask : (STACK_ALIGN_MASK : Word abi) = ~~~(16 - 1) := by cases abi <;> rfl
  show 16 ∣ ((regs.sp - preserve) &&& STACK_ALIGN_MASK).toNat
  rw [hmask, toNat_and_not _ _ hpage, hpage]
  exact dvd_pageDown _ _

/-- An aligned stack pointer stays aligned if whole units are pushed. -/
theorem aligned_sub_iff {sp : Word abi} (hsp : 16 ∣ sp.toNat) (k : Nat) :
    stackAlign abi ∣ (sp - BitVec.ofNat _ (k * abi.wordSize)).toNat ↔ argUnit abi ∣ k := by
  rw [BitVec.toNat_sub, BitVec.toNat_ofNat]
  generalize sp.toNat = x at hsp
  cases abi
  all_goals
    simp only [stackAlign, argUnit, Abi.wordSize, Abi.bits]
    omega

theorem argRegs_nodup (abi : Abi) : (argRegs abi).Nodup := by cases abi <;> decide

/-- The registers set behind the arguments are none of theirs. -/
theorem argRegs_free {i : Nat} (hi : i < (argRegs abi).length) :
    (argRegs abi)[i] ≠ .regs 30 ∧ (argRegs abi)[i] ≠ .uregs 14 ∧ (argRegs abi)[i] ≠ .uregs 16 := by
  have hall : ∀ r ∈ argRegs abi, r ≠ .regs 30 ∧ r ≠ .uregs 14 ∧ r ≠ .uregs 16 := by cases abi <;> decide
  exact hall _ (List.getElem_mem hi)

theorem selectThumb_gpr {q : Reg} (h : q ≠ .uregs 16) : (selectThumb regs).gpr q = regs.gpr q := by
  unfold selectThumb
  split_ifs
  · exact set_of_ne h
  · exact set_of_ne h

theorem selectThumb_sp (regs : UserRegs abi) : (selectThumb regs).sp = regs.sp := by
  unfold selectThumb
  split_ifs <;> rfl

/-! ### The call -/

/-- What is pushed on top of the arguments and set behind them leaves them in place. -/
structure Placed (abi : Abi) (pushedRegs finalRegs : UserRegs abi) (pushedMem finalMem : Memory) : Prop where
  gpr : ∀ i (hi : i < (argRegs abi).length), finalRegs.gpr (argRegs abi)[i] = pushedRegs.gpr (argRegs abi)[i]
  sp : finalRegs.sp.toNat + pushedReturn abi = pushedRegs.sp.toNat
  mem : ∀ a, pushedRegs.sp.toNat ≤ a → finalMem a = pushedMem a

theorem callSetup_placed {funcAddr : Word abi} (h : callSetup accepts regs mem funcAddr returnAddr args = some (regs', mem')) :
    ∃ pushedRegs pushedMem,
      Pushed (argRegs abi).length args (loadRegs (argRegs abi) args (alignStack regs 0)) pushedRegs pushedMem ∧
        Placed abi pushedRegs regs' pushedMem mem' := by
  unfold callSetup at h
  dsimp only at h
  split at h
  · exact absurd h (Option.some_ne_none _).symm
  · next pushedRegs pushedMem hpush =>
    refine ⟨pushedRegs, pushedMem, pushArgs_pushed hpush, ?_⟩
    have hpushed (hreturn : pushedReturn abi = abi.wordSize)
        (hreturn' : ((pushReturnAddr accepts returnAddr pushedRegs pushedMem).map fun (regs, mem) =>
          ({ regs with ip := funcAddr }, mem)) = some (regs', mem')) : Placed abi pushedRegs regs' pushedMem mem' := by
      obtain ⟨⟨regs₁, mem₁⟩, hret, heq⟩ := Option.map_eq_some_iff.1 hreturn'
      obtain ⟨rfl, rfl⟩ := Prod.mk.inj heq
      obtain ⟨hgpr, hsp, rfl⟩ := pushReturnAddr_eq_some hret
      refine ⟨fun i hi => congrFun hgpr _, ?_, fun a ha => write_out ?_⟩
      · rw [hreturn]
        exact hsp
      · rw [length_wordBytes]
        omega
    cases abi with
    | x86_64 => exact hpushed rfl h
    | i386 => exact hpushed rfl h
    | aarch64 =>
      obtain ⟨rfl, rfl⟩ := Prod.mk.inj (Option.some.inj h)
      exact ⟨fun i hi => set_of_ne (argRegs_free hi).1, rfl, fun _ _ => rfl⟩
    | arm =>
      obtain ⟨rfl, rfl⟩ := Prod.mk.inj (Option.some.inj h)
      refine ⟨fun i hi => ?_, ?_, fun _ _ => rfl⟩
      · rw [selectThumb_gpr (argRegs_free hi).2.2]
        exact set_of_ne (argRegs_free hi).2.1
      · rw [selectThumb_sp]
        rfl

/-- When every write is complete, each argument is where the callee looks for it, and the stack pointer is aligned
exactly if the arguments on the stack fill whole units of the alignment. -/
theorem callSetup_legal_iff (abi : Abi) (accepts : Word abi → Nat → Bool) (regs regs' : UserRegs abi) (mem mem' : Memory)
    (funcAddr returnAddr : Word abi) (args : List (Word abi))
    (h : callSetup accepts regs mem funcAddr returnAddr args = some (regs', mem')) :
    LegalCall args regs' mem' ↔ argUnit abi ∣ stackArgs abi args.length := by
  obtain ⟨pushedRegs, pushedMem, hpushed, hplaced⟩ := callSetup_placed h
  have haligned := aligned_sub_iff (alignStack_dvd regs 0) (stackArgs abi args.length)
  rw [stackArgs, ← sp_loadRegs (argRegs abi) args, ← hpushed.sp, ← hplaced.sp] at haligned
  rw [stackArgs, ← haligned]
  refine ⟨LegalCall.aligned, fun hdvd => ⟨hdvd, fun i hr hi => ?_, fun i hr hi => ?_⟩⟩
  · rw [hplaced.gpr i hr, hpushed.gpr]
    exact loadRegs_get (argRegs_nodup abi) hr hi
  · rw [hplaced.sp, ← hpushed.args i hr hi]
    apply read_congr
    intro a ha _
    exact hplaced.mem a (by omega)

/-- The call of `dlsym` on aarch64, with nothing on the stack. -/
theorem callSetup_dlsym : ∃ regs' mem',
    callSetup (fun _ _ => true) (⟨0x7ff8, 0, fun _ => 0⟩ : UserRegs .aarch64) (fun _ => 0) 0x4000 0x5000 [0x11, 0x7000] =
        some (regs', mem') ∧ LegalCall [0x11, 0x7000] regs' mem' :=
  ⟨_, _, rfl, (callSetup_legal_iff .aarch64 (fun _ _ => true) ⟨0x7ff8, 0, fun _ => 0⟩ _ (fun _ => 0) _ 0x4000 0x5000
    [0x11, 0x7000] rfl).2 (by decide)⟩

/-- The call of `dlopen` on i386: its two arguments leave the stack half a unit off. -/
theorem callSetup_dlopen_i386 : ∃ regs' mem',
    callSetup (fun _ _ => true) (⟨0x7ff8, 0, fun _ => 0⟩ : UserRegs .i386) (fun _ => 0) 0x4000 0x5000 [0x7ff0, 2] =
        some (regs', mem') ∧ ¬ LegalCall [0x7ff0, 2] regs' mem' := by
  refine ⟨_, _, rfl, fun h => ?_⟩
  have haligned := h.aligned
  revert haligned
  decide

end OnyxZygisk.Ptracer

import OnyxZygisk.Ptracer.InjectOnMain

/-!
# Failed injections

Between the hijacking write and the restoring one `inject_on_main` has exits that leave the `AT_ENTRY` word
overwritten, and neither write is known to have gone wrong unless it transferred nothing at all. The tracee
can go on after the injection exactly when the trap was reached and the word written back whole, with the
registers restored or moved off the trap (`resumable_iff`).
-/

namespace OnyxZygisk.Ptracer

variable {abi : Abi}

/-! ### The property and its condition -/

section Statement

variable (c : InjectConfig abi) (fuel : Nat) (e : InjectEnv abi) (t : Injected abi)

/-- Nothing of the hijack address came to be stored: the word is after the write what it was at the call. -/
def NeverStored (entry addr : Word abi) (t₁ : Injected abi) : Prop :=
  (t₁.poke addr (breakAddr entry) (e.poked t₁.clock)).word addr = t.word addr

/-- What is left at `t'`, `done` being the result. -/
def Resumable (done : Bool) (t' : Injected abi) : Prop :=
  ∀ entry addr t₁, Prog.run Injected.exec e (findEntry fuel) t = some (some (entry, addr), t₁) → entry ≠ 0 →
    if done then
      t'.word addr = t.word addr ∧
        ∃ regs t₂, Prog.run Injected.exec e (hijack entry addr fuel) t₁ = some (.reached regs, t₂) ∧
          t'.tracee.live = { regs with ip := t.word addr }
    else
      NeverStored e t entry addr t₁ ∨
        t'.word addr = t.word addr ∧ atBreak entry t'.tracee.live.ip = false

/-- After the restoring write. -/
def Injected.writeBack (e : InjectEnv abi) (entry addr : Word abi) (t₂ : Injected abi) : Injected abi :=
  { t₂.poke addr entry (e.poked t₂.clock) with clock := t₂.clock + 1 }

/-- The trap is reached, the word holds again what it held at the call, and the tracee is not left at the
trap: the registers are set, or it was moved away. When the injection succeeds the entry it restores is the
one of the word. Without all this nothing may have been stored. -/
def Restores : Prop :=
  ∀ entry addr t₁, Prog.run Injected.exec e (findEntry fuel) t = some (some (entry, addr), t₁) → entry ≠ 0 →
    match Prog.run Injected.exec e (hijack entry addr fuel) t₁ with
    | some (.reached regs, t₂) =>
      if e.poked t₂.clock = some 0 then NeverStored e t entry addr t₁
      else
        match Prog.run Injected.exec e (injectRemotely c regs) (t₂.writeBack e entry addr) with
        | some (injected, t₃) =>
          if injected && e.trace.setRegs t₃.tracee.log.length then
            entry = t.word addr ∧ (t₂.writeBack e entry addr).word addr = t.word addr
          else
            NeverStored e t entry addr t₁ ∨
              (t₂.writeBack e entry addr).word addr = t.word addr ∧
                atBreak entry (if e.trace.setRegs t₃.tracee.log.length then entry else t₃.tracee.live.ip) =
                  false
        | none => True
    | _ => NeverStored e t entry addr t₁

end Statement

/-! ### What never writes the word -/

def InjectOp.NoPoke : InjectOp abi → Prop
  | .pokeWord _ _ => False
  | _ => True

/-- A program that writes no word of the argument block. -/
abbrev NoPoke {α : Type} (p : InjectProgram abi α) : Prop := Prog.Only InjectOp.NoPoke p

theorem exec_word {e : InjectEnv abi} {op : InjectOp abi} (hop : op.NoPoke) {t t' : Injected abi}
    {res : op.Resp} (h : Injected.exec e op t = some (res, t')) : t'.word = t.word := by
  obtain ⟨⟨res₁, t₁⟩, hanswer, h⟩ := Option.map_eq_some_iff.1 h
  obtain ⟨-, rfl⟩ := Prod.mk.inj h
  cases op with
  | remote op =>
    obtain ⟨_, -, hz⟩ := Option.map_eq_some_iff.1 hanswer
    obtain ⟨-, rfl⟩ := Prod.mk.inj hz
    rfl
  | getRegs =>
    dsimp only at hanswer
    split at hanswer
    · obtain ⟨-, rfl⟩ := Prod.mk.inj (Option.some.inj hanswer)
      rfl
    · obtain ⟨-, rfl⟩ := Prod.mk.inj (Option.some.inj hanswer)
      rfl
  | pokeWord addr value => exact absurd hop id
  | _ =>
    obtain ⟨-, rfl⟩ := Prod.mk.inj (Option.some.inj hanswer)
    rfl

theorem run_word {α : Type} {e : InjectEnv abi} {p : InjectProgram abi α} (hp : NoPoke p)
    {t t' : Injected abi} {a : α} (h : Prog.run Injected.exec e p t = some (a, t')) : t'.word = t.word :=
  Prog.run_keep (I := fun s : Injected abi => s.word = t.word) hp
    (fun _ hop _ _ _ hx hs => (exec_word hop hx).trans hs) h rfl

theorem noPoke_perform {op : InjectOp abi} (h : op.NoPoke) : NoPoke (perform op) := Prog.only_perform h

theorem noPoke_remote {α : Type} (p : Program abi α) : NoPoke (remote p) :=
  Prog.only_translate (fun _ => trivial) p

theorem noPoke_runToTrap (entry : Word abi) (fuel : Nat) : NoPoke (runToTrap entry fuel) := by
  induction fuel with
  | zero => trivial
  | succ fuel ih =>
    apply Prog.only_bind (noPoke_perform (by trivial))
    intro (resumed : Bool)
    refine Prog.only_ite (by trivial) ?_
    apply Prog.only_bind (noPoke_perform (by trivial))
    intro (stop : TraceStop)
    cases stop with
    | tracerExits => trivial
    | stopped sig =>
      refine Prog.only_ite ?_ (Prog.only_ite ih (by trivial))
      apply Prog.only_bind (noPoke_perform (by trivial))
      intro (regs : Option (Regs abi))
      cases regs <;> trivial

section Remote

variable (c : InjectConfig abi)

theorem noPoke_pushString (s : List UInt8) : NoPoke (@pushString abi s) := by
  apply Prog.only_bind (noPoke_perform (by trivial))
  intro (regs : Regs abi)
  apply Prog.only_bind (noPoke_remote _)
  intro _
  exact Prog.only_bind (noPoke_remote _) fun _ => trivial

theorem noPoke_call (funcAddr : Word abi) (args : List (Word abi)) : NoPoke (call c funcAddr args) :=
  noPoke_remote _

theorem noPoke_resolveEntry (handle : Word abi) : NoPoke (resolveEntry c handle) := by
  refine Prog.only_ite (by trivial) ?_
  apply Prog.only_bind (noPoke_pushString _)
  intro name
  apply Prog.only_bind (noPoke_call c _ _)
  intro entry
  cases entry with
  | none => trivial
  | some entry => exact Prog.only_ite (by trivial) (by trivial)

theorem noPoke_diagnose (remoteLibPath : Word abi) : NoPoke (diagnose c remoteLibPath) := by
  apply Prog.only_bind (Prog.only_ite (noPoke_call c _ _) (by trivial))
  intro _
  apply Prog.only_bind (Prog.only_ite (noPoke_call c _ _) (by trivial))
  intro text
  cases text with
  | none => trivial
  | some text =>
    refine Prog.only_ite (by trivial) ?_
    apply Prog.only_bind (noPoke_call c _ _)
    intro len
    cases len with
    | none => trivial
    | some len => exact Prog.only_ite (Prog.only_bind (noPoke_perform (by trivial)) fun _ => trivial) (by trivial)

theorem noPoke_loadLibrary : NoPoke (loadLibrary c) := by
  refine Prog.only_ite (by trivial) ?_
  apply Prog.only_bind (noPoke_pushString _)
  intro remoteLibPath
  refine Prog.only_ite (by trivial) ?_
  apply Prog.only_bind (noPoke_call c _ _)
  intro handle
  cases handle with
  | none => trivial
  | some handle =>
    refine Prog.only_ite (noPoke_resolveEntry c handle) ?_
    apply Prog.only_bind (noPoke_diagnose c remoteLibPath)
    intro _
    apply Prog.only_bind (noPoke_perform (by trivial))
    intro (regs : Regs abi)
    apply Prog.only_bind (noPoke_remote _)
    intro lib
    cases lib <;> trivial

theorem noPoke_injectRemotely (regs : Regs abi) : NoPoke (injectRemotely c regs) := by
  apply Prog.only_bind (noPoke_remote _)
  intro _
  apply Prog.only_bind (noPoke_loadLibrary c)
  intro lib
  cases lib with
  | none => trivial
  | some lib =>
    apply Prog.only_bind (noPoke_pushString _)
    intro remoteTmpPath
    exact Prog.only_bind (noPoke_call c _ _) fun _ => trivial

end Remote

/-! ### The stages -/

section Stages

variable {c : InjectConfig abi} {fuel : Nat} {e : InjectEnv abi} {t : Injected abi} {entry addr : Word abi}

theorem run_pokeWord (addr value : Word abi) (t : Injected abi) :
    Prog.run Injected.exec e (pokeWord addr value) t =
      some ((((e.poked t.clock).map Int.ofNat).getD (-1) : Int),
        { t.poke addr value (e.poked t.clock) with clock := t.clock + 1 }) := rfl

/-- A write is taken for a failure when it transferred nothing. -/
theorem written_eq_zero {n : Nat} : (((e.poked n).map Int.ofNat).getD (-1) : Int) = 0 ↔ e.poked n = some 0 := by
  cases e.poked n with
  | none => simp
  | some k => simp

theorem overwrite_zero (new old : Word abi) : overwrite 0 new old = old := by
  simp [overwrite, Nat.mod_one]

theorem poke_word (t : Injected abi) (addr value : Word abi) (n : Nat) :
    (t.poke addr value (some n)).word addr = overwrite n value (t.word addr) := by
  show (if addr = addr then overwrite n value (t.word addr) else t.word addr) = _
  rw [if_pos rfl]

theorem poke_zero (t : Injected abi) (addr value : Word abi) :
    (t.poke addr value (some 0)).word addr = t.word addr := by
  rw [poke_word, overwrite_zero]

/-- The word is after the hijack what its write has made of it. -/
theorem hijack_word {trap : Trap abi} {t₁ t₂ : Injected abi}
    (h : Prog.run Injected.exec e (hijack entry addr fuel) t₁ = some (trap, t₂)) :
    t₂.word addr = (t₁.poke addr (breakAddr entry) (e.poked t₁.clock)).word addr := by
  obtain ⟨written, s, hpoke, h⟩ := Prog.run_bind_some h
  rw [run_pokeWord] at hpoke
  obtain ⟨rfl, rfl⟩ := Prod.mk.inj (Option.some.inj hpoke)
  split at h
  · obtain ⟨-, rfl⟩ := Prog.run_ret_some h
    rfl
  · rw [run_word (noPoke_runToTrap entry fuel) h]

/-- The last step. -/
theorem run_restoreState {regs : Regs abi} {injected done : Bool} {t₃ t' : Injected abi}
    (h : Prog.run Injected.exec e (restoreState regs entry injected) t₃ = some (done, t')) :
    done = (injected && e.trace.setRegs t₃.tracee.log.length) ∧ t'.word = t₃.word ∧
      t'.tracee.live = if e.trace.setRegs t₃.tracee.log.length then backup regs entry else t₃.tracee.live := by
  obtain ⟨restored, s, hset, h⟩ := Prog.run_bind_some h
  obtain ⟨rfl, rfl⟩ := Prog.run_ret_some h
  obtain ⟨rfl, rfl⟩ := Prod.mk.inj (Option.some.inj hset)
  refine ⟨rfl, rfl, ?_⟩
  show (if e.trace.setRegs t₃.tracee.log.length then _ else _ : Tracee abi).live = _
  split <;> rfl

end Stages

/-! ### Every run that returns -/

/-- An injection that returns leaves the tracee so that it can go on exactly when it was restored. -/
theorem resumable_iff {c : InjectConfig abi} {fuel : Nat} {e : InjectEnv abi} {t t' : Injected abi}
    {done : Bool} (hrun : Prog.run Injected.exec e (injectOnMain c fuel) t = some (some done, t')) :
    Resumable fuel e t done t' ↔ Restores c fuel e t := by
  obtain ⟨found, t₁, hfind, hrest⟩ := Prog.run_bind_some hrun
  refine forall_congr' fun entry => forall_congr' fun addr => forall_congr' fun s => ?_
  refine imp_congr_ctx Iff.rfl fun hfound => imp_congr_ctx Iff.rfl fun hentry => ?_
  obtain ⟨rfl, rfl⟩ := Prog.run_unique hfind hfound
  change Prog.run Injected.exec e (if entry = 0 then _ else _) t₁ = _ at hrest
  rw [if_neg hentry] at hrest
  obtain ⟨trap, t₂, hhijack, hrest⟩ := Prog.run_bind_some hrest
  have hword := hijack_word hhijack
  have hstored : NeverStored e t entry addr t₁ ↔ t₂.word addr = t.word addr := by
    rw [NeverStored, hword]
  rw [hhijack]
  cases trap with
  | goesOn =>
    obtain ⟨hnone, -⟩ := Prog.run_ret_some hrest
    cases hnone
  | failed =>
    obtain ⟨hdone, rfl⟩ := Prog.run_ret_some hrest
    obtain rfl := Option.some.inj hdone
    exact or_iff_left_of_imp fun h => hstored.2 h.1
  | reached regs =>
    dsimp only
    obtain ⟨written, t₃, hpoke, hrest⟩ := Prog.run_bind_some hrest
    rw [run_pokeWord] at hpoke
    obtain ⟨rfl, rfl⟩ := Prod.mk.inj (Option.some.inj hpoke)
    by_cases hzero : e.poked t₂.clock = some 0
    · rw [if_pos (written_eq_zero.2 hzero)] at hrest
      rw [if_pos hzero]
      obtain ⟨hdone, rfl⟩ := Prog.run_ret_some hrest
      obtain rfl := Option.some.inj hdone
      refine or_iff_left_of_imp fun h => hstored.2 ?_
      rw [← h.1, hzero]
      exact (poke_zero t₂ addr entry).symm
    · rw [if_neg (mt written_eq_zero.1 hzero)] at hrest
      rw [if_neg hzero]
      obtain ⟨injected, t₃, hinject, hrest⟩ := Prog.run_bind_some hrest
      obtain ⟨done', t₄, hrestore, hrest⟩ := Prog.run_bind_some hrest
      obtain ⟨hdone, rfl⟩ := Prog.run_ret_some hrest
      obtain rfl := Option.some.inj hdone
      obtain ⟨rfl, hword₄, hlive₄⟩ := run_restoreState hrestore
      have hkept : t₄.word addr = (t₂.writeBack e entry addr).word addr := by
        rw [hword₄, run_word (noPoke_injectRemotely c regs) hinject]
        rfl
      change Prog.run Injected.exec e (injectRemotely c regs) (t₂.writeBack e entry addr) = _ at hinject
      rw [hinject]
      dsimp only
      rw [hkept, hlive₄]
      by_cases hworks : e.trace.setRegs t₃.tracee.log.length = true
      · rw [hworks, Bool.and_true, if_pos rfl]
        cases injected with
        | true =>
          rw [if_pos rfl, if_pos rfl]
          constructor
          · rintro ⟨hback, regs', t₂', hsame, hlive⟩
            obtain ⟨htrap, -⟩ := Prod.mk.inj (Option.some.inj hsame)
            obtain rfl := Trap.reached.inj htrap
            exact ⟨congrArg Regs.ip hlive, hback⟩
          · rintro ⟨hentry', hback⟩
            refine ⟨hback, regs, t₂, rfl, ?_⟩
            rw [← hentry']
            rfl
        | false => exact Iff.rfl
      · rw [Bool.not_eq_true] at hworks
        rw [hworks, Bool.and_false]
        exact Iff.rfl

/-! ### A stop on the way to the trap -/

section Example

/-- A process with one argument, no environment and its entry at `0x5000`. -/
def atStart : Injected .aarch64 where
  tracee := .called ⟨0x8000, 0x4000, 0, 0, []⟩ ⟨0, 0, 0, 0, []⟩ fun _ => true
  word a := if a = 0x8000 then 1 else if a = 0x8020 then AT_ENTRY else if a = 0x8028 then 0x5000 else 0
  clock := 0

/-- Every operation works, and the tracee stops for a `SIGILL` before it gets to its entry. -/
def stopsForSigill : InjectEnv .aarch64 where
  trace := answering 0
  getRegs _ := true
  misread _ := none
  poked _ := some 8
  cont _ := true
  stop _ := (.stopped 4, ⟨0x8000, 0x4800, 0, 0, []⟩)

def noFunctions : InjectConfig .aarch64 := ⟨[], [], 0, 0, 0, 0, 0, 0, [], onePageConfig onePage⟩

theorem find_atStart : ∃ t₁, Prog.run Injected.exec stopsForSigill (findEntry 1) atStart =
    some (some (0x5000, 0x8028), t₁) ∧ t₁.word 0x8028 = 0x5000 := by
  have hfind : (Prog.run Injected.exec stopsForSigill (findEntry 1) atStart).map
      (fun z => (z.1, z.2.word 0x8028)) = some (some (0x5000, 0x8028), 0x5000) := by
    decide
  obtain ⟨⟨found, t₁⟩, hrun, hshown⟩ := Option.map_eq_some_iff.1 hfind
  obtain ⟨rfl, hword⟩ := Prod.mk.inj hshown
  exact ⟨t₁, hrun, hword⟩

theorem inject_atStart : ∃ t', Prog.run Injected.exec stopsForSigill (injectOnMain noFunctions 1) atStart =
    some (some false, t') ∧ t'.word 0x8028 = breakAddr 0x5000 := by
  have hinject : (Prog.run Injected.exec stopsForSigill (injectOnMain noFunctions 1) atStart).map
      (fun z => (z.1, z.2.word 0x8028)) = some (some false, breakAddr 0x5000) := by
    decide
  obtain ⟨⟨done, t'⟩, hrun, hshown⟩ := Option.map_eq_some_iff.1 hinject
  obtain ⟨rfl, hword⟩ := Prod.mk.inj hshown
  exact ⟨t', hrun, hword⟩

theorem resumable_atStart : ∃ t',
    Prog.run Injected.exec stopsForSigill (injectOnMain noFunctions 1) atStart = some (some false, t') ∧
      (Resumable 1 stopsForSigill atStart false t' ↔ Restores noFunctions 1 stopsForSigill atStart) := by
  obtain ⟨t', hrun, -⟩ := inject_atStart
  exact ⟨t', hrun, resumable_iff hrun⟩

theorem left_hijacked : ¬ ∀ (abi : Abi) (c : InjectConfig abi) (fuel : Nat) (e : InjectEnv abi)
    (t t' : Injected abi) (done : Bool),
    Prog.run Injected.exec e (injectOnMain c fuel) t = some (some done, t') → Resumable fuel e t done t' := by
  intro h
  obtain ⟨t₁, hfind, hword₁⟩ := find_atStart
  obtain ⟨t', hrun, hword⟩ := inject_atStart
  have hstart : atStart.word 0x8028 = 0x5000 := by decide
  have hbreak : breakAddr (0x5000 : Word .aarch64) ≠ 0x5000 := by decide
  rcases h _ _ _ _ _ _ _ hrun _ _ _ hfind (by decide) with hnever | ⟨hback, -⟩
  · have hpoked : overwrite 8 (breakAddr (0x5000 : Word .aarch64)) 0x5000 = 0x5000 := by
      have hpoke := poke_word t₁ 0x8028 (breakAddr 0x5000) 8
      rw [hword₁] at hpoke
      exact hpoke.symm.trans (hnever.trans hstart)
    exact absurd hpoked (by decide)
  · rw [hword, hstart] at hback
    exact hbreak hback

end Example

end OnyxZygisk.Ptracer

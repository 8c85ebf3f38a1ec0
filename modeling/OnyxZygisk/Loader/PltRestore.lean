import OnyxZygisk.Loader.PltRuns
import Mathlib.Data.List.Count
import Mathlib.Data.List.Nodup

/-!
# Undoing the PLT hooks

A request to restore names a function by the original that was recorded, and undoes one slot of it in each map of the
file. A symbol may have several slots there, one for calls and others for its address. So before the loader unmaps
itself, the pages of a map come back just where no original has more slots than there are requests for it
(`restorePltHook_iff`); a slot that is left still leads into the unmapped loader.
-/

namespace OnyxZygisk.Lsplt

open Mappings (PROT_WRITE)

variable {Var : Type}

/-! ### One slot -/

def HookInfo.writable (i : HookInfo) : HookInfo :=
  { i with perms := if i.self then i.perms ||| PROT_WRITE else i.perms }

/-- A map without one of its slots. Behind the last one it has its own pages again. -/
def HookInfo.unhook (i : HookInfo) (addr : Nat) : HookInfo :=
  let hooks := i.hooks.filter (·.1 ≠ addr)
  { i.writable with
    hooks
    backup := if hooks.isEmpty then 0 else i.backup }

section Slot

variable {page : Nat} {image : List AddrRange} {orig : Nat → Nat} {p : Process Var} {info : HookInfo}
  {addr original : Nat} {kernel : Nat → Answers}

namespace Process

/-- `lower_bound` finds the map that has the address. -/
theorem Tracked.lowerBound (h : p.Tracked page image orig) (hinfo : info ∈ p.infos)
    (haddr : addr ∈ info.range) : p.infos.find? (fun i => decide (i.start ≤ addr)) = some info := by
  cases hfind : p.infos.find? fun i => decide (i.start ≤ addr) with
  | none => exact absurd (decide_eq_true haddr.1) (List.find?_eq_none.1 hfind info hinfo)
  | some i =>
    obtain ⟨hle, front, back, hsplit, hfront⟩ := List.find?_eq_some_iff_append.1 hfind
    rw [decide_eq_true_eq] at hle
    have hpair := h.apart
    rw [hsplit, List.pairwise_append, List.pairwise_cons] at hpair
    rw [hsplit, List.mem_append, List.mem_cons] at hinfo
    rcases hinfo with hinfo | rfl | hinfo
    · have hnot := hfront info hinfo
      rw [Bool.not_eq_true', decide_eq_false_iff_not] at hnot
      exact absurd haddr.1 hnot
    · rfl
    · have hstop := hpair.2.1.1 info hinfo
      have hlt : addr < info.stop := haddr.2
      omega

theorem record_restore {r : AddrRange} {hooks : List (Nat × Nat)} (h : SlotsOf r hooks)
    (hmem : (addr, original) ∈ hooks) (theBackup : Nat) :
    record addr original theBackup hooks = hooks.filter (·.1 ≠ addr) := by
  unfold record
  cases hfind : hooks.find? (·.1 = addr) with
  | none => exact absurd rfl (find_none hfind hmem)
  | some found =>
    have haddr : found.1 = addr := by simpa using List.find?_some hfind
    have heq := h.eq_of_fst (List.mem_of_find?_eq_some hfind) hmem haddr
    dsimp only
    rw [if_pos (by rw [heq])]

theorem put_put {infos : List HookInfo} {i i' i'' : HookInfo} (h : i'.start = i.start) :
    put (put infos i i') i' i'' = put infos i i'' := by
  rw [put, put, put, List.map_map]
  apply List.map_congr_left
  intro j _
  rw [Function.comp_apply, h]
  by_cases hj : j.start = i.start
  · rw [if_pos hj, if_pos h, if_pos hj]
  · rw [if_neg hj, if_neg hj]

theorem Tracked.put_self (h : p.Tracked page image orig) (hinfo : info ∈ p.infos) :
    Process.put p.infos info info = p.infos := by
  have hsame : ∀ i ∈ p.infos, (if i.start = info.start then info else i) = i := fun i hi => by
    split_ifs with heq
    · exact h.eq_of_start hinfo hi heq.symm
    · rfl
  rw [Process.put, List.map_congr_left hsame, List.map_id']

theorem makeWritable_infos (h : p.Tracked page image orig) (hinfo : info ∈ p.infos) :
    (p.makeWritable info).infos = put p.infos info info.writable := by
  unfold makeWritable HookInfo.writable
  split_ifs with hself
  · exact h.modify_infos hinfo _
  · exact (h.put_self hinfo).symm

/-- The pages come back behind the last hook. -/
theorem settle_infos (h : p.Tracked page image orig) {k : Answers} (hback : k.movesBack = true)
    (hinfo : info ∈ p.infos) : (p.settle k info.start).2 = true ∧
      (p.settle k info.start).1.infos = put p.infos info
        { info with backup := if info.hooks.isEmpty then 0 else info.backup } := by
  rw [settle, h.find_eq hinfo]
  dsimp only
  split_ifs with hlast hempty hempty
  · rw [moveBack, hback]
    exact ⟨rfl, h.modify_infos hinfo fun i => { i with backup := 0 }⟩
  · rw [Bool.and_eq_true] at hlast
    exact absurd hlast.1 hempty
  · refine ⟨rfl, ?_⟩
    have hself : info.self = true := by
      by_contra hself
      rw [Bool.not_eq_true] at hself
      rw [hempty, hself] at hlast
      exact hlast rfl
    have hzero := (h.own info hinfo hself).1
    rw [← hzero]
    exact (h.put_self hinfo).symm
  · exact ⟨rfl, (h.put_self hinfo).symm⟩

variable [DecidableEq Var]

/-- A slot that is patched with its original is no hook any more. -/
theorem patchPltEntry_restore (h : p.Tracked page image orig) (hback : ∀ n, (kernel n).movesBack = true)
    (hinfo : info ∈ p.infos) (hhook : (addr, original) ∈ info.hooks) :
    (p.patchPltEntry page image kernel addr original none).2 = true ∧
      (p.patchPltEntry page image kernel addr original none).1.infos = put p.infos info (info.unhook addr) := by
  have haddr : addr ∈ info.range := (h.slots info hinfo).2 _ hhook
  have hlt : addr < info.stop := haddr.2
  have hlive : info.self = false → info.backup ≠ 0 := fun hself hzero => by
    rw [h.idle info hinfo hzero hself] at hhook
    exact absurd hhook List.not_mem_nil
  have hbackUp : backUp page image (kernel p.patches) { p with patches := p.patches + 1 } info =
      ({ p with patches := p.patches + 1 }, true) := by
    rw [backUp, if_neg]
    rw [Bool.and_eq_true, decide_eq_true_eq, Bool.not_eq_true']
    exact fun hc => hlive hc.2 hc.1
  unfold patchPltEntry patchIn
  rw [h.lowerBound hinfo haddr]
  dsimp only
  rw [if_neg (Nat.not_le.2 hlt), hbackUp]
  dsimp only
  rw [Bool.not_true, if_neg Bool.false_ne_true]
  have hq : Process.Tracked page image orig { p with patches := p.patches + 1 } := h.congr rfl rfl rfl
  -- the map as it is when the slot is written, and behind it
  have hinfos := makeWritable_infos hq hinfo
  obtain ⟨hw, -⟩ := makeWritable_tracked hq hinfo ⟨rfl, rfl, rfl, rfl, rfl, rfl⟩
  generalize makeWritable { p with patches := p.patches + 1 } info = q at hinfos hw
  have hcur : info.writable ∈ q.infos := by
    rw [hinfos]
    exact (mem_put hinfo).2 (Or.inl rfl)
  have hover : (q.overwrite info.writable addr original none).Tracked page image orig :=
    overwrite_tracked hw hcur haddr hlive
  have hover' : (q.overwrite info.writable addr original none).infos = put p.infos info
      { info.writable with hooks := info.hooks.filter (·.1 ≠ addr) } := by
    have hrecord : record addr original (q.word addr) info.writable.hooks = info.hooks.filter (·.1 ≠ addr) :=
      record_restore (h.slots info hinfo) hhook _
    have hput : info.writable.start = info.start := rfl
    rw [overwrite_infos, hw.modify_infos hcur, hinfos, put_put hput, hrecord]
  obtain ⟨hok, hsettle⟩ := settle_infos hover (hback p.patches) (by
    rw [hover']
    exact (mem_put hinfo).2 (Or.inl rfl))
  refine ⟨hok, ?_⟩
  rw [hover'] at hsettle
  exact hsettle.trans (put_put rfl)

end Process

end Slot

/-! ### All requests -/

/-- A request undoes the first slot of a map that has recorded its callback. -/
def HookRequest.restoreOne (reg : HookRequest Var) (i : HookInfo) : HookInfo :=
  if i.dev = reg.dev ∧ i.inode = reg.inode then
    match i.hooks.find? (·.2 = reg.callback) with
    | some slot => i.unhook slot.1
    | none => i
  else i

theorem restoreOne_same (reg : HookRequest Var) (i : HookInfo) : Process.SameMap (reg.restoreOne i) i := by
  have hsame : Process.SameMap i i := ⟨rfl, rfl, rfl, rfl, rfl, rfl⟩
  unfold HookRequest.restoreOne
  split
  · split
    · exact hsame
    · exact hsame
  · exact hsame

theorem foldl_restoreOne_same (regs : List (HookRequest Var)) (i : HookInfo) :
    Process.SameMap (regs.foldl (fun i reg => reg.restoreOne i) i) i := by
  induction regs generalizing i with
  | nil => exact ⟨rfl, rfl, rfl, rfl, rfl, rfl⟩
  | cons reg regs ih =>
    obtain ⟨hstart, hstop, hoffset, hdev, hinode, hself⟩ := restoreOne_same reg i
    obtain ⟨hstart', hstop', hoffset', hdev', hinode', hself'⟩ := ih (reg.restoreOne i)
    exact ⟨hstart'.trans hstart, hstop'.trans hstop, hoffset'.trans hoffset, hdev'.trans hdev, hinode'.trans hinode,
      hself'.trans hself⟩

section Requests

variable [DecidableEq Var] {page : Nat} {image : List AddrRange} {orig : Nat → Nat} {p : Process Var}
  {kernel : Nat → Answers}

theorem restoreIn_infos (h : p.Tracked page image orig) (hpage : 0 < page) (hback : ∀ n, (kernel n).movesBack = true)
    (reg : HookRequest Var) {keys : List Nat} (hkeys : keys.Nodup) (restored res : Bool) :
    (restoreIn page image kernel reg keys p restored res).1.infos =
        p.infos.map (fun i => if i.start ∈ keys then reg.restoreOne i else i) ∧
      (restoreIn page image kernel reg keys p restored res).2.2 = res := by
  induction keys generalizing p restored res with
  | nil =>
    refine ⟨?_, rfl⟩
    simp only [List.not_mem_nil, if_false]
    exact (List.map_id' _).symm
  | cons key keys ih =>
    rw [List.nodup_cons] at hkeys
    -- no slot of the map at `key` is undone
    have hskip : (∀ i ∈ p.infos, i.start = key → reg.restoreOne i = i) →
        p.infos.map (fun i => if i.start ∈ keys then reg.restoreOne i else i) =
          p.infos.map fun i => if i.start ∈ key :: keys then reg.restoreOne i else i := fun hsame => by
      apply List.map_congr_left
      intro i hi
      by_cases hkey : i.start = key
      · rw [hkey, if_neg hkeys.1, if_pos List.mem_cons_self, hsame i hi hkey]
      · simp only [List.mem_cons, hkey, false_or]
    unfold restoreIn
    cases hfind : (find p.infos key).filter fun info => info.dev = reg.dev && info.inode = reg.inode with
    | none =>
      obtain ⟨hinfos, hres⟩ := ih h hkeys.2 restored res
      refine ⟨hinfos.trans (hskip fun i hi hkey => ?_), hres⟩
      rw [← hkey, h.find_eq hi, Option.filter_eq_none_iff] at hfind
      have hfile := hfind i rfl
      rw [Bool.and_eq_true, decide_eq_true_eq, decide_eq_true_eq] at hfile
      rw [HookRequest.restoreOne, if_neg hfile]
    | some info =>
      obtain ⟨hfound, hfile⟩ := Option.filter_eq_some_iff.1 hfind
      rw [Bool.and_eq_true, decide_eq_true_eq, decide_eq_true_eq] at hfile
      have hinfo : info ∈ p.infos := List.mem_of_find?_eq_some hfound
      have hstart : info.start = key := by simpa using List.find?_some hfound
      have hone : reg.restoreOne info = match info.hooks.find? (·.2 = reg.callback) with
          | some slot => info.unhook slot.1
          | none => info := if_pos hfile
      dsimp only
      cases hslot : info.hooks.find? fun h => decide (h.2 = reg.callback) with
      | none =>
        obtain ⟨hinfos, hres⟩ := ih h hkeys.2 restored res
        refine ⟨hinfos.trans (hskip fun i hi hkey => ?_), hres⟩
        rw [h.eq_of_start hi hinfo (hkey.trans hstart.symm), hone, hslot]
      | some slot =>
        obtain ⟨addr, original⟩ := slot
        rw [hslot] at hone
        have hmem := List.mem_of_find?_eq_some hslot
        obtain ⟨hok, hput⟩ := Process.patchPltEntry_restore h hback hinfo hmem
        have htracked : (p.patchPltEntry page image kernel addr original none).1.Tracked page image orig :=
          Process.patchPltEntry_tracked h hpage kernel
        dsimp only
        rw [hok, Bool.true_and]
        obtain ⟨hinfos, hres⟩ := ih htracked hkeys.2 true res
        refine ⟨hinfos.trans ?_, hres⟩
        rw [hput, Process.put, List.map_map]
        apply List.map_congr_left
        intro i hi
        rw [Function.comp_apply]
        by_cases hkey : i.start = key
        · have hgone : (info.unhook addr).start ∉ keys := by
            show info.start ∉ keys
            rw [hstart]
            exact hkeys.1
          rw [h.eq_of_start hi hinfo (hkey.trans hstart.symm), if_pos rfl, if_neg hgone, hstart,
            if_pos List.mem_cons_self, hone]
        · have hne : i.start ≠ info.start := hstart ▸ hkey
          rw [if_neg hne]
          simp only [List.mem_cons, hkey, false_or]

theorem restoreFunction_infos (h : p.Tracked page image orig) (hpage : 0 < page)
    (hback : ∀ n, (kernel n).movesBack = true) {keys : List Nat} (hkeys : keys.Nodup)
    (hall : ∀ i ∈ p.infos, i.start ∈ keys) (regs : List (HookRequest Var)) (res : Bool) :
    (restoreFunction page image kernel keys regs p res).1.infos =
        p.infos.map (fun i => regs.foldl (fun i reg => reg.restoreOne i) i) ∧
      (restoreFunction page image kernel keys regs p res).2.2 = res := by
  induction regs generalizing p res with
  | nil => exact ⟨(List.map_id' _).symm, rfl⟩
  | cons reg regs ih =>
    obtain ⟨hinfos, hres⟩ := restoreIn_infos h hpage hback reg hkeys false res
    have hmap : (restoreIn page image kernel reg keys p false res).1.infos = p.infos.map reg.restoreOne := by
      rw [hinfos]
      exact List.map_congr_left fun i hi => if_pos (hall i hi)
    have hstart : ∀ i ∈ (restoreIn page image kernel reg keys p false res).1.infos, i.start ∈ keys := fun i hi => by
      rw [hmap, List.mem_map] at hi
      obtain ⟨j, hj, rfl⟩ := hi
      rw [(restoreOne_same reg j).1]
      exact hall j hj
    obtain ⟨hrest, hres'⟩ := ih (restoreIn_tracked h hpage reg keys false res) hstart
      (restoreIn page image kernel reg keys p false res).2.2
    refine ⟨hrest.trans ?_, hres'.trans hres⟩
    rw [hmap, List.map_map]
    rfl

theorem commitHook_restore (h : p.Tracked page image orig) (hpage : 0 < page)
    (hback : ∀ n, (kernel n).movesBack = true) {maps : List MapInfo} (hscan : Scan page p maps)
    (hfile : ∃ m ∈ maps, m.hookable = true) {findPltAddr : Nat → String → Option (List Nat)} {pc : Nat} :
    let q := commitHook page image kernel findPltAddr pc p maps true
    q.2 = true ∧ ∀ i ∈ p.infos, i.backup ≠ 0 → ∀ j,
      (j ∈ q.1.infos ∧ j.start = i.start) ↔ j = p.pending.foldl (fun i reg => reg.restoreOne i) i := by
  intro q
  by_cases hpending : p.pending = []
  · have hq : q = (p, true) := if_pos (by rw [hpending]; rfl)
    rw [hq, hpending]
    refine ⟨rfl, fun i hi _ j => ⟨fun hj => h.eq_of_start hj.1 hi hj.2, ?_⟩⟩
    rintro rfl
    exact ⟨hi, rfl⟩
  have htargets : createTargets (selfMap pc maps p.self) maps ≠ [] := by
    obtain ⟨m, hm, hhook⟩ := hfile
    rw [createTargets_eq hscan]
    refine List.ne_nil_of_mem (a := m.target (selfMap pc maps p.self)) ?_
    exact List.mem_reverse.2 (List.mem_map_of_mem (List.mem_filter.2 ⟨hm, hhook⟩))
  have hnew := hscan.beside (selfMap pc maps p.self) p.pending
  have hmerged := merge_tracked h hnew
  have hkept : ∀ i ∈ p.infos, i.backup ≠ 0 → i ∈ merge _ p.infos := fun i hi =>
    (merging_merge h hnew).live i (List.mem_reverse.2 hi)
  generalize hinfos : merge (filterInfos (createTargets (selfMap pc maps p.self) maps) p.pending) p.infos = infos
    at hmerged hkept
  have hq : Process.Tracked page image orig { p with self := selfMap pc maps p.self, infos } :=
    hmerged.congr rfl rfl rfl
  have hkeys : (infos.map (·.start)).reverse.Nodup := by
    rw [List.nodup_reverse]
    refine List.Pairwise.map _ (fun _ _ => id) (hmerged.apart.imp_of_mem fun {i j} hi hj hle => ?_)
    have hj := (hmerged.pages j hj).1
    omega
  have hall : ∀ i ∈ infos, i.start ∈ (infos.map (·.start)).reverse := fun i hi =>
    List.mem_reverse.2 (List.mem_map_of_mem hi)
  obtain ⟨hrestored, hres⟩ := restoreFunction_infos hq hpage hback hkeys hall p.pending true
  have hcommit : q.1.infos = infos.map (fun i => p.pending.foldl (fun i reg => reg.restoreOne i) i) ∧ q.2 = true := by
    unfold q commitHook commitRequests
    rw [if_neg (by simpa using hpending)]
    dsimp only
    rw [if_neg (by simpa using htargets), hinfos, if_pos rfl, hres, if_pos rfl]
    exact ⟨hrestored, rfl⟩
  refine ⟨hcommit.2, fun i hi hlive j => ?_⟩
  rw [hcommit.1, List.mem_map]
  constructor
  · rintro ⟨⟨i', hi', rfl⟩, hstart⟩
    rw [(foldl_restoreOne_same _ i').1] at hstart
    rw [hmerged.eq_of_start hi' (hkept i hi hlive) hstart]
  · rintro rfl
    exact ⟨⟨i, hkept i hi hlive, rfl⟩, (foldl_restoreOne_same _ i).1⟩

end Requests

/-! ### What is left of a map -/

section Left

variable {r : AddrRange} {regs : List (HookRequest Var)} {i : HookInfo}

def HookRequest.sameFile (i : HookInfo) (reg : HookRequest Var) : Bool := i.dev = reg.dev && i.inode = reg.inode

theorem filter_fst_eq_eraseP {hooks : List (Nat × Nat)} {slot : Nat × Nat} {original : Nat} (h : SlotsOf r hooks)
    (hslot : hooks.find? (fun h => decide (h.2 = original)) = some slot) :
    hooks.filter (·.1 ≠ slot.1) = hooks.eraseP fun h => decide (h.2 = original) := by
  obtain ⟨hfound, front, back, rfl, hfront⟩ := List.find?_eq_some_iff_append.1 hslot
  have hother : ∀ h' ∈ front ++ back, h'.1 ≠ slot.1 := by
    have hpair := h.1
    rw [List.pairwise_append, List.pairwise_cons] at hpair
    intro h' hmem
    rcases List.mem_append.1 hmem with hmem | hmem
    · exact Nat.ne_of_lt (hpair.2.2 h' hmem slot List.mem_cons_self)
    · exact Nat.ne_of_gt (hpair.2.1.1 h' hmem)
  have hkeep : ∀ l : List (Nat × Nat), (∀ h' ∈ l, h' ∈ front ++ back) → l.filter (·.1 ≠ slot.1) = l := fun l hl =>
    List.filter_eq_self.2 fun h' hmem => decide_eq_true (hother h' (hl h' hmem))
  have hskip : ∀ h' ∈ front, ¬ (decide (h'.2 = original) = true) := fun h' hmem => by
    have hnot := hfront h' hmem
    rwa [Bool.not_eq_true', ← Bool.not_eq_true] at hnot
  have herase : (slot :: back).eraseP (fun h => decide (h.2 = original)) = back := List.eraseP_cons_of_pos hfound
  rw [List.eraseP_append_right _ hskip, herase, List.filter_append, List.filter_cons_of_neg (by simp),
    hkeep front fun h' hmem => List.mem_append_left _ hmem, hkeep back fun h' hmem => List.mem_append_right _ hmem]

/-- One request takes one original away. -/
theorem restoreOne_hooks (reg : HookRequest Var) (h : SlotsOf r i.hooks) :
    (reg.restoreOne i).hooks.map Prod.snd =
      if reg.sameFile i then (i.hooks.map Prod.snd).erase reg.callback else i.hooks.map Prod.snd := by
  unfold HookRequest.restoreOne HookRequest.sameFile
  simp only [Bool.and_eq_true, decide_eq_true_eq]
  split_ifs with hfile
  · have herase : (i.hooks.map Prod.snd).erase reg.callback =
        (i.hooks.eraseP fun h => decide (h.2 = reg.callback)).map Prod.snd := by
      rw [List.erase_eq_eraseP', List.eraseP_map]
      rfl
    rw [herase]
    cases hslot : i.hooks.find? fun h => decide (h.2 = reg.callback) with
    | none => rw [List.eraseP_of_forall_not (by simpa using hslot)]
    | some slot => rw [← filter_fst_eq_eraseP h hslot]; rfl
  · rfl

theorem restoreOne_sameFile (reg reg' : HookRequest Var) : reg'.sameFile (reg.restoreOne i) = reg'.sameFile i := by
  obtain ⟨-, -, -, hdev, hinode, -⟩ := restoreOne_same reg i
  rw [HookRequest.sameFile, hdev, hinode, HookRequest.sameFile]

/-- A map that has a backup just while it has hooks. -/
def Settled (r : AddrRange) (i : HookInfo) : Prop := SlotsOf r i.hooks ∧ (i.backup = 0 ↔ i.hooks = [])

theorem Settled.restoreOne (reg : HookRequest Var) (h : Settled r i) : Settled r (reg.restoreOne i) := by
  unfold HookRequest.restoreOne
  split
  · split
    · rename_i slot hslot
      refine ⟨⟨h.1.1.filter _, fun hook hhook => h.1.2 hook ((List.mem_filter.1 hhook).1)⟩, ?_⟩
      have hhooks : i.hooks ≠ [] := List.ne_nil_of_mem (List.mem_of_find?_eq_some hslot)
      unfold HookInfo.unhook
      dsimp only
      split_ifs with hempty
      · exact iff_of_true rfl (List.isEmpty_iff.1 hempty)
      · exact iff_of_false (fun hzero => hhooks (h.2.1 hzero)) fun hnil => hempty (List.isEmpty_iff.2 hnil)
    · exact h
  · exact h

theorem Settled.foldl (regs : List (HookRequest Var)) (h : Settled r i) :
    Settled r (regs.foldl (fun i reg => reg.restoreOne i) i) := by
  induction regs generalizing i with
  | nil => exact h
  | cons reg regs ih => exact ih (h.restoreOne reg)

theorem foldl_restoreOne_hooks (regs : List (HookRequest Var)) (h : Settled r i) :
    (regs.foldl (fun i reg => reg.restoreOne i) i).hooks.map Prod.snd =
      (i.hooks.map Prod.snd).diff ((regs.filter fun reg => reg.sameFile i).map HookRequest.callback) := by
  induction regs generalizing i with
  | nil => rfl
  | cons reg regs ih =>
    have hfile : ∀ reg' : HookRequest Var, reg'.sameFile (reg.restoreOne i) = reg'.sameFile i := restoreOne_sameFile reg
    rw [List.foldl_cons, ih (h.restoreOne reg), restoreOne_hooks reg h.1]
    simp only [hfile, List.filter_cons]
    split_ifs
    · rw [List.map_cons, List.diff_cons]
    · rfl

theorem diff_eq_nil {l l' : List Nat} : l.diff l' = [] ↔ ∀ a, l.count a ≤ l'.count a := by
  rw [List.eq_nil_iff_forall_not_mem]
  refine forall_congr' fun a => ?_
  rw [← List.count_eq_zero, List.count_diff, Nat.sub_eq_zero_iff_le]

/-- How often the requests name an original of the map. -/
def requestsFor (regs : List (HookRequest Var)) (i : HookInfo) (original : Nat) : Nat :=
  ((regs.filter fun reg => reg.sameFile i).map HookRequest.callback).count original

theorem foldl_restoreOne_backup (h : Settled r i) :
    (regs.foldl (fun i reg => reg.restoreOne i) i).backup = 0 ↔
      ∀ original, (i.hooks.map Prod.snd).count original ≤ requestsFor regs i original := by
  rw [(h.foldl regs).2, ← List.map_eq_nil_iff (f := Prod.snd), foldl_restoreOne_hooks regs h, diff_eq_nil]
  rfl

end Left

end OnyxZygisk.Lsplt


import OnyxZygisk.Loader.PltHooks

/-!
# What a patch keeps

A patch keeps track of the words it replaces: every word of the image is what it was, or a recorded slot whose record is
what it was, and the pages of a patched map stand untouched in its backup (`patchPltEntry_tracked`), whichever system
calls fail on the way. Excepted is what nobody can have the original of: the slots of the hooking library itself, and
a map whose pages were moved aside and that could not be mapped again.
-/

namespace OnyxZygisk.Lsplt

open Mappings (PROT_WRITE)

variable {Var : Type}

/-! ### Slots -/

section Slots

variable {hooks : List (Nat × Nat)} {addr callback theBackup : Nat} {hook slot : Nat × Nat} {r : AddrRange}

/-- The slots of a map, in the order of their addresses. -/
def SlotsOf (r : AddrRange) (hooks : List (Nat × Nat)) : Prop :=
  hooks.Pairwise (fun h h' => h.1 < h'.1) ∧ ∀ h ∈ hooks, h.1 ∈ r

theorem SlotsOf.eq_of_fst (h : SlotsOf r hooks) {h₁ h₂ : Nat × Nat} (h₁mem : h₁ ∈ hooks) (h₂mem : h₂ ∈ hooks)
    (heq : h₁.1 = h₂.1) : h₁ = h₂ := by
  by_contra hne
  have hpair : hooks.Pairwise fun x y : Nat × Nat => x.1 ≠ y.1 := h.1.imp fun hlt => Nat.ne_of_lt hlt
  have hsymm : Std.Symm fun x y : Nat × Nat => x.1 ≠ y.1 := ⟨fun _ _ hxy => hxy.symm⟩
  exact hpair.forall h₁mem h₂mem hne heq

namespace Process

theorem mem_insertSlot : hook ∈ insertSlot slot hooks ↔ hook = slot ∨ hook ∈ hooks := by
  induction hooks with
  | nil => rw [insertSlot, List.mem_singleton, or_iff_left List.not_mem_nil]
  | cons h hs ih =>
    rw [insertSlot]
    split_ifs
    · rw [List.mem_cons, ih, List.mem_cons, or_left_comm]
    · rw [List.mem_cons]

theorem insertSlot_pairwise (h : hooks.Pairwise fun x y => x.1 < y.1) (hnone : ∀ h' ∈ hooks, h'.1 ≠ slot.1) :
    (insertSlot slot hooks).Pairwise fun x y => x.1 < y.1 := by
  induction hooks with
  | nil => exact List.pairwise_singleton _ _
  | cons first rest ih =>
    rw [List.pairwise_cons] at h
    have hfirst := hnone first List.mem_cons_self
    rw [insertSlot]
    split_ifs with hlt
    · rw [List.pairwise_cons]
      refine ⟨fun y hy => ?_, ih h.2 fun h' hmem => hnone h' (List.mem_cons_of_mem _ hmem)⟩
      rw [mem_insertSlot] at hy
      rcases hy with rfl | hy
      · exact hlt
      · exact h.1 y hy
    · rw [List.pairwise_cons, List.pairwise_cons]
      refine ⟨fun y hy => ?_, h⟩
      rw [List.mem_cons] at hy
      rcases hy with rfl | hy
      · omega
      · have hy := h.1 y hy
        omega

theorem find_none (h : hooks.find? (·.1 = addr) = none) (hmem : hook ∈ hooks) : hook.1 ≠ addr := by
  have hnot := List.find?_eq_none.1 h hook hmem
  simpa using hnot

/-- What a slot is recorded with after it was written. -/
theorem mem_record (h : SlotsOf r hooks) :
    hook ∈ record addr callback theBackup hooks ↔
      (hook ∈ hooks ∧ ¬ (hook.1 = addr ∧ hook.2 = callback)) ∨
        (hook = (addr, theBackup) ∧ ∀ h' ∈ hooks, h'.1 ≠ addr) := by
  unfold record
  cases hfind : hooks.find? (·.1 = addr) with
  | none =>
    have hnone : ∀ h' ∈ hooks, h'.1 ≠ addr := fun h' hmem => find_none hfind hmem
    dsimp only
    rw [mem_insertSlot, or_comm]
    constructor
    · rintro (hmem | rfl)
      · exact Or.inl ⟨hmem, fun hc => hnone hook hmem hc.1⟩
      · exact Or.inr ⟨rfl, hnone⟩
    · rintro (⟨hmem, -⟩ | ⟨rfl, -⟩)
      · exact Or.inl hmem
      · exact Or.inr rfl
  | some found =>
    have hfound : found ∈ hooks := List.mem_of_find?_eq_some hfind
    have haddr : found.1 = addr := by simpa using List.find?_some hfind
    have hsome : ¬ ∀ h' ∈ hooks, h'.1 ≠ addr := fun hall => hall found hfound haddr
    have hsame : hook ∈ hooks → hook.1 = addr → hook = found := fun hmem heq =>
      h.eq_of_fst hmem hfound (heq.trans haddr.symm)
    dsimp only
    split_ifs with hcb
    · rw [List.mem_filter, decide_eq_true_eq]
      constructor
      · intro hmem
        exact Or.inl ⟨hmem.1, fun hc => hmem.2 hc.1⟩
      · rintro (⟨hmem, hne⟩ | ⟨-, hall⟩)
        · exact ⟨hmem, fun hc => hne ⟨hc, by rw [hsame hmem hc, hcb]⟩⟩
        · exact absurd hall hsome
    · constructor
      · intro hmem
        exact Or.inl ⟨hmem, fun hc => hcb (by rw [← hsame hmem hc.1, hc.2])⟩
      · rintro (⟨hmem, -⟩ | ⟨-, hall⟩)
        · exact hmem
        · exact absurd hall hsome

theorem record_slots (h : SlotsOf r hooks) (haddr : addr ∈ r) :
    SlotsOf r (record addr callback theBackup hooks) := by
  constructor
  · unfold record
    cases hfind : hooks.find? (·.1 = addr) with
    | none => exact insertSlot_pairwise h.1 fun h' hmem => find_none hfind hmem
    | some found =>
      dsimp only
      split_ifs
      · exact h.1.filter _
      · exact h.1
  · intro hook hmem
    rw [mem_record h] at hmem
    rcases hmem with ⟨hmem, -⟩ | ⟨rfl, -⟩
    · exact h.2 hook hmem
    · exact haddr

end Process

end Slots

/-! ### What is tracked -/

/-- An address of the image whose original word is known. -/
def Process.Clean (image : List AddrRange) (p : Process Var) (a : Nat) : Prop :=
  (∃ r ∈ image, a ∈ r) ∧ ∀ r ∈ p.dirty, a ∉ r

instance (image : List AddrRange) (p : Process Var) (a : Nat) : Decidable (p.Clean image a) :=
  inferInstanceAs (Decidable ((∃ r ∈ image, a ∈ r) ∧ ∀ r ∈ p.dirty, a ∉ r))

/-- The invariant: `orig` is the memory before the first hook. -/
structure Process.Tracked (page : Nat) (image : List AddrRange) (orig : Nat → Nat) (p : Process Var) : Prop where
  apart : p.infos.Pairwise fun i j => j.stop ≤ i.start
  pages : ∀ i ∈ p.infos, i.start < i.stop ∧ page ∣ i.len
  slots : ∀ i ∈ p.infos, SlotsOf i.range i.hooks
  idle : ∀ i ∈ p.infos, i.backup = 0 → i.self = false → i.hooks = []
  own : ∀ i ∈ p.infos, i.self = true → i.backup = 0 ∧ ∀ h ∈ i.hooks, ¬ p.Clean image h.1
  copyImage : ∀ i ∈ p.infos, i.backup ≠ 0 → ∀ r ∈ image, i.copy.Apart r
  copyInfo : ∀ i ∈ p.infos, i.backup ≠ 0 → ∀ j ∈ p.infos, i.copy.Apart j.range
  copies : ∀ i ∈ p.infos, i.backup ≠ 0 → ∀ j ∈ p.infos, j.backup ≠ 0 → i.start ≠ j.start → i.copy.Apart j.copy
  content : ∀ a, p.Clean image a → p.word a = orig a ∨ ∃ i ∈ p.infos, ∃ h ∈ i.hooks, h.1 = a
  recorded : ∀ i ∈ p.infos, ∀ h ∈ i.hooks, p.Clean image h.1 → h.2 = orig h.1
  pristine : ∀ i ∈ p.infos, i.backup ≠ 0 → ∀ a ∈ i.range, p.Clean image a →
    p.word (i.backup + (a - i.start)) = orig a

section Tracked

variable {page : Nat} {image : List AddrRange} {orig : Nat → Nat} {p : Process Var} {info : HookInfo} {a key : Nat}

namespace Process

theorem mem_modify {f : HookInfo → HookInfo} {i : HookInfo} :
    i ∈ (p.modify key f).infos ↔ ∃ j ∈ p.infos, (if j.start = key then f j else j) = i := List.mem_map

/-- Two maps that share an address are one. -/
theorem Tracked.eq_of_mem (h : p.Tracked page image orig) {i j : HookInfo} (hi : i ∈ p.infos) (hj : j ∈ p.infos)
    (hai : a ∈ i.range) (haj : a ∈ j.range) : i = j := by
  by_contra hne
  have hpair : p.infos.Pairwise fun i j => i.range.Apart j.range := h.apart.imp fun hle => Or.inr hle
  have hsymm : Std.Symm fun i j : HookInfo => i.range.Apart j.range := ⟨fun _ _ hij => hij.symm⟩
  exact (hpair.forall hi hj hne).not_mem hai haj

theorem Tracked.start_mem (h : p.Tracked page image orig) {i : HookInfo} (hi : i ∈ p.infos) : i.start ∈ i.range :=
  ⟨Nat.le_refl _, (h.pages i hi).1⟩

theorem Tracked.eq_of_start (h : p.Tracked page image orig) {i j : HookInfo} (hi : i ∈ p.infos) (hj : j ∈ p.infos)
    (heq : i.start = j.start) : i = j :=
  h.eq_of_mem hi hj (h.start_mem hi) (heq ▸ h.start_mem hj)

/-- The address of the backup that goes with an address of the map. -/
theorem copy_mem {i : HookInfo} (ha : a ∈ i.range) : i.backup + (a - i.start) ∈ i.copy := by
  rw [AddrRange.mem_def] at *
  simp only [HookInfo.range, HookInfo.copy, HookInfo.len] at *
  omega

/-- `info'` in the place of `info`. -/
def put (infos : List HookInfo) (info info' : HookInfo) : List HookInfo :=
  infos.map fun i => if i.start = info.start then info' else i

theorem mem_put (hinfo : info ∈ p.infos) {info' i : HookInfo} :
    i ∈ put p.infos info info' ↔ i = info' ∨ (i ∈ p.infos ∧ i.start ≠ info.start) := by
  rw [put, List.mem_map]
  constructor
  · rintro ⟨j, hj, rfl⟩
    split_ifs with heq
    · exact Or.inl rfl
    · exact Or.inr ⟨hj, heq⟩
  · rintro (rfl | ⟨hi, hne⟩)
    · exact ⟨info, hinfo, if_pos rfl⟩
    · exact ⟨i, hi, if_neg hne⟩

theorem Tracked.modify_infos (h : p.Tracked page image orig) (hinfo : info ∈ p.infos) (f : HookInfo → HookInfo) :
    (p.modify info.start f).infos = put p.infos info (f info) := by
  apply List.map_congr_left
  intro i hi
  split_ifs with heq
  · rw [h.eq_of_start hi hinfo heq]
  · rfl

/-- One map changes, with the words that concern it. -/
theorem Tracked.put (h : p.Tracked page image orig) (hinfo : info ∈ p.infos) {info' : HookInfo} {q : Process Var}
    (hq : q.infos = Process.put p.infos info info') (hstart : info'.start = info.start)
    (hstop : info'.stop = info.stop) (hclean : ∀ a, q.Clean image a → p.Clean image a)
    (hslots : SlotsOf info.range info'.hooks)
    (hidle : info'.backup = 0 → info'.self = false → info'.hooks = [])
    (hown : info'.self = true → info'.backup = 0 ∧ ∀ h ∈ info'.hooks, ¬ q.Clean image h.1)
    (hcopyImage : info'.backup ≠ 0 → ∀ r ∈ image, info'.copy.Apart r)
    (hcopyInfo : info'.backup ≠ 0 → ∀ j ∈ p.infos, info'.copy.Apart j.range)
    (hcopies : info'.backup ≠ 0 → ∀ j ∈ p.infos, j.backup ≠ 0 → j.start ≠ info.start → info'.copy.Apart j.copy)
    (hcontent : ∀ a, q.Clean image a → q.word a = orig a ∨ ∃ i ∈ q.infos, ∃ h ∈ i.hooks, h.1 = a)
    (hrecorded : ∀ h ∈ info'.hooks, q.Clean image h.1 → h.2 = orig h.1)
    (hpristine : info'.backup ≠ 0 → ∀ a ∈ info.range, q.Clean image a →
      q.word (info'.backup + (a - info.start)) = orig a)
    (hothers : ∀ j ∈ p.infos, j.start ≠ info.start → j.backup ≠ 0 → ∀ a ∈ j.copy, q.word a = p.word a) :
    q.Tracked page image orig := by
  have hrange : info'.range = info.range := by rw [HookInfo.range, HookInfo.range, hstart, hstop]
  have hlen : info'.len = info.len := by rw [HookInfo.len, HookInfo.len, hstart, hstop]
  have hmem : ∀ i, i ∈ q.infos ↔ i = info' ∨ (i ∈ p.infos ∧ i.start ≠ info.start) := fun i => by
    rw [hq, mem_put hinfo]
  refine ⟨?_, ?_, ?_, ?_, ?_, ?_, ?_, ?_, hcontent, ?_, ?_⟩
  · have hsame : ∀ i ∈ p.infos, (if i.start = info.start then info' else i).start = i.start ∧
        (if i.start = info.start then info' else i).stop = i.stop := fun i hi => by
      split_ifs with heq
      · rw [hstart, hstop, h.eq_of_start hi hinfo heq]
        exact ⟨rfl, rfl⟩
      · exact ⟨rfl, rfl⟩
    rw [hq, Process.put, List.pairwise_map]
    apply h.apart.imp_of_mem
    intro i j hi hj hij
    rw [(hsame i hi).1, (hsame j hj).2]
    exact hij
  · intro i hi
    rcases (hmem i).1 hi with rfl | ⟨hi, -⟩
    · rw [hlen, hstart, hstop]
      exact h.pages info hinfo
    · exact h.pages i hi
  · intro i hi
    rcases (hmem i).1 hi with rfl | ⟨hi, -⟩
    · rw [hrange]
      exact hslots
    · exact h.slots i hi
  · intro i hi
    rcases (hmem i).1 hi with rfl | ⟨hi, -⟩
    · exact hidle
    · exact h.idle i hi
  · intro i hi
    rcases (hmem i).1 hi with rfl | ⟨hi, -⟩
    · exact hown
    · intro hself
      exact ⟨(h.own i hi hself).1, fun hook hhook hc => (h.own i hi hself).2 hook hhook (hclean _ hc)⟩
  · intro i hi
    rcases (hmem i).1 hi with rfl | ⟨hi, -⟩
    · exact hcopyImage
    · exact h.copyImage i hi
  · intro i hi hlive j hj
    have hj' : ∃ j' ∈ p.infos, j.range = j'.range := by
      rcases (hmem j).1 hj with rfl | ⟨hj, -⟩
      · exact ⟨info, hinfo, hrange⟩
      · exact ⟨j, hj, rfl⟩
    obtain ⟨j', hj', hjr⟩ := hj'
    rw [hjr]
    rcases (hmem i).1 hi with rfl | ⟨hi, -⟩
    · exact hcopyInfo hlive j' hj'
    · exact h.copyInfo i hi hlive j' hj'
  · intro i hi hilive j hj hjlive hne
    rcases (hmem i).1 hi with rfl | ⟨hi, hine⟩
    · rcases (hmem j).1 hj with rfl | ⟨hj, hjne⟩
      · exact absurd rfl hne
      · exact hcopies hilive j hj hjlive hjne
    · rcases (hmem j).1 hj with rfl | ⟨hj, -⟩
      · exact (hcopies hjlive i hi hilive hine).symm
      · exact h.copies i hi hilive j hj hjlive hne
  · intro i hi
    rcases (hmem i).1 hi with rfl | ⟨hi, -⟩
    · exact hrecorded
    · exact fun hook hhook hc => h.recorded i hi hook hhook (hclean _ hc)
  · intro i hi
    rcases (hmem i).1 hi with rfl | ⟨hi, hne⟩
    · rw [hrange, hstart]
      exact hpristine
    · intro hlive a ha hc
      rw [hothers i hi hne hlive _ (copy_mem ha)]
      exact h.pristine i hi hlive a ha (hclean a hc)

/-! ### One patch -/

theorem unused_iff {r : AddrRange} : p.unused image r = true ↔
    r.start ≠ 0 ∧ (∀ s ∈ image, r.Apart s) ∧
      ∀ i ∈ p.infos, r.Apart i.range ∧ (i.backup ≠ 0 → r.Apart i.copy) := by
  simp only [unused, Bool.and_eq_true, List.all_eq_true, decide_eq_true_eq, Bool.or_eq_true, and_assoc]
  refine and_congr Iff.rfl (and_congr Iff.rfl (forall₂_congr fun i _ => and_congr Iff.rfl ?_))
  rw [or_iff_not_imp_left]

/-- The pages of a map and their copy, seen from both sides. -/
theorem word_aside {addr : Nat} (hapart : AddrRange.Apart ⟨addr, addr + info.len⟩ info.range)
    (hpages : info.start < info.stop ∧ page ∣ info.len) (hpage : 0 < page) :
    let moved := Moves.move p.word info.start addr info.len
    let word := Moves.copyPages page ((info.len + page - 1) / page) addr info.start
      fun a => if a ∈ info.range then 0 else moved a
    (∀ a, ¬ (addr ≤ a ∧ a < addr + info.len) → word a = p.word a) ∧
      ∀ a ∈ info.range, word (addr + (a - info.start)) = p.word a := by
  intro moved word
  have hcount : (info.len + page - 1) / page * page = info.len := by
    obtain ⟨n, hn⟩ := hpages.2
    rw [hn, Nat.add_sub_assoc hpage, Nat.mul_add_div hpage, Nat.div_eq_of_lt (by omega), Nat.add_zero,
      Nat.mul_comm]
  have hlen : info.len = info.stop - info.start := rfl
  have hranges : addr + info.len ≤ info.start ∨ info.start + info.len ≤ addr := by
    rcases hapart with hle | hle
    · exact Or.inl hle
    · simp only [HookInfo.range] at hle
      omega
  have hword : word = Moves.move (fun a => if a ∈ info.range then 0 else moved a) addr info.start info.len := by
    have hword' : word = Moves.move (fun a => if a ∈ info.range then 0 else moved a) addr info.start
        ((info.len + page - 1) / page * page) := Moves.copyPages_eq (by omega) _
    rwa [hcount] at hword'
  have hin : ∀ a, a ∈ info.range ↔ info.start ≤ a ∧ a < info.start + info.len := fun a => by
    rw [AddrRange.mem_def, HookInfo.range]
    dsimp only
    omega
  -- behind the address in the backup stands the word of the map
  have hback : ∀ a ∈ info.range, addr + (a - info.start) ∉ info.range ∧
      moved (addr + (a - info.start)) = p.word a := fun a ha => by
    rw [hin] at ha ⊢
    refine ⟨by omega, (Moves.move_in (by omega)).trans ?_⟩
    congr 1
    omega
  constructor
  · intro a hout
    rw [hword]
    by_cases ha : a ∈ info.range
    · rw [Moves.move_in ((hin a).1 ha), if_neg (hback a ha).1]
      exact (hback a ha).2
    · rw [Moves.move_out (mt (hin a).2 ha), if_neg ha]
      exact Moves.move_out hout
  · intro a ha
    have ha' := (hin a).1 ha
    rw [hword, Moves.move_out (by omega), if_neg (hback a ha).1]
    exact (hback a ha).2

theorem moveAside_tracked (h : p.Tracked page image orig) (hpage : 0 < page) (k : Answers) (hinfo : info ∈ p.infos)
    (hbackup : info.backup = 0) (hself : info.self = false) :
    (p.moveAside page image k info).1.Tracked page image orig := by
  unfold moveAside
  cases hroom : k.backupAddr.filter fun addr => p.unused image ⟨addr, addr + info.len⟩ with
  | none => exact h
  | some addr =>
    obtain ⟨-, hunused⟩ := Option.filter_eq_some_iff.1 hroom
    obtain ⟨hne, himage, hinfos⟩ := unused_iff.1 hunused
    have hnotImage : ∀ a, p.Clean image a → ¬ (addr ≤ a ∧ a < addr + info.len) := fun a hc hin => by
      obtain ⟨r, hr, har⟩ := hc.1
      exact (himage r hr).symm.not_mem har hin
    have hotherCopy : ∀ j ∈ p.infos, j.backup ≠ 0 → ∀ a ∈ j.copy, ¬ (addr ≤ a ∧ a < addr + info.len) :=
      fun j hj hlive a ha hin => ((hinfos j hj).2 hlive).symm.not_mem ha hin
    dsimp only
    split_ifs with hmoves hmaps
    · exact h
    · -- the map is lost
      have hclean : ∀ a, Clean image { p with
          word := fun a => if a ∈ info.range then k.leaves a else
            Moves.move p.word info.start addr info.len a
          dirty := info.range :: p.dirty } a → p.Clean image a ∧ a ∉ info.range := fun a hc =>
        ⟨⟨hc.1, fun r hr => hc.2 r (List.mem_cons_of_mem _ hr)⟩, hc.2 _ List.mem_cons_self⟩
      refine ⟨h.apart, h.pages, h.slots, h.idle, fun i hi hs => ⟨(h.own i hi hs).1, fun hook hhook hc =>
        (h.own i hi hs).2 hook hhook (hclean _ hc).1⟩, h.copyImage, h.copyInfo, h.copies, ?_,
        fun i hi hook hhook hc => h.recorded i hi hook hhook (hclean _ hc).1, ?_⟩
      · intro a hc
        obtain ⟨hc, hout⟩ := hclean a hc
        dsimp only
        rw [if_neg hout, Moves.move_out (hnotImage a hc)]
        exact h.content a hc
      · intro i hi hlive a ha hc
        dsimp only
        have hcopy := copy_mem (i := i) ha
        rw [if_neg ((h.copyInfo i hi hlive info hinfo).not_mem hcopy),
          Moves.move_out (hotherCopy i hi hlive _ hcopy)]
        exact h.pristine i hi hlive a ha (hclean a hc).1
    · obtain ⟨hsame, hcopied⟩ := word_aside (p := p) (hinfos info hinfo).1 (h.pages info hinfo) hpage
      have hempty := h.idle info hinfo hbackup hself
      refine h.put hinfo (h.modify_infos hinfo fun i => { i with backup := addr }) rfl rfl (fun _ hc => hc)
        (h.slots info hinfo) (fun hzero => absurd hzero hne) (fun hs => absurd (hself.symm.trans hs) Bool.false_ne_true)
        (fun _ => himage) (fun _ j hj => (hinfos j hj).1) (fun _ j hj hlive _ => (hinfos j hj).2 hlive) ?_
        (fun hook hhook => ?_) ?_ ?_
      · intro a hc
        have hword := hsame a (hnotImage a hc)
        rcases h.content a hc with heq | ⟨i, hi, hook, hhook, rfl⟩
        · exact Or.inl (hword.trans heq)
        · refine Or.inr ⟨i, ?_, hook, hhook, rfl⟩
          show i ∈ (p.modify info.start _).infos
          rw [h.modify_infos hinfo, mem_put hinfo]
          refine Or.inr ⟨hi, fun heq => ?_⟩
          rw [h.eq_of_start hi hinfo heq, hempty] at hhook
          exact absurd hhook List.not_mem_nil
      · rw [hempty] at hhook
        exact absurd hhook List.not_mem_nil
      · intro _ a ha hc
        rw [← (h.content a hc).resolve_right]
        · exact hcopied a ha
        · rintro ⟨i, hi, hook, hhook, rfl⟩
          rw [h.eq_of_mem hi hinfo ((h.slots i hi).2 hook hhook) ha, hempty] at hhook
          exact absurd hhook List.not_mem_nil
      · intro j hj _ hlive a ha
        exact hsame a (hotherCopy j hj hlive a ha)

theorem moveAside_infos (h : p.Tracked page image orig) (k : Answers) (hinfo : info ∈ p.infos)
    (hok : (p.moveAside page image k info).2 = true) :
    ∃ addr, addr ≠ 0 ∧ (p.moveAside page image k info).1.infos = put p.infos info { info with backup := addr } := by
  unfold moveAside at hok ⊢
  cases hroom : k.backupAddr.filter fun addr => p.unused image ⟨addr, addr + info.len⟩ with
  | none =>
    rw [hroom] at hok
    exact absurd hok Bool.false_ne_true
  | some addr =>
    obtain ⟨-, hunused⟩ := Option.filter_eq_some_iff.1 hroom
    rw [hroom] at hok
    dsimp only at hok ⊢
    split_ifs at hok ⊢ with hmoves hmaps
    exact ⟨addr, (unused_iff.1 hunused).1, h.modify_infos hinfo fun i => { i with backup := addr }⟩

theorem moveBack_tracked (h : p.Tracked page image orig) (k : Answers) (hinfo : info ∈ p.infos)
    (hhooks : info.hooks = []) (hself : info.self = false) (hlive : info.backup ≠ 0) :
    (p.moveBack k info).1.Tracked page image orig := by
  unfold moveBack
  split_ifs with hback
  · exact h
  · have hin : ∀ a, a ∈ info.range ↔ info.start ≤ a ∧ a < info.start + info.len := fun a => by
      have hpages := h.pages info hinfo
      simp only [AddrRange.mem_def, HookInfo.range, HookInfo.len]
      omega
    have hword : ∀ a, p.Clean image a → a ∈ info.range →
        Moves.move p.word info.backup info.start info.len a = orig a := fun a hc ha => by
      rw [Moves.move_in ((hin a).1 ha)]
      exact h.pristine info hinfo hlive a ha hc
    have hother : ∀ a, a ∉ info.range → Moves.move p.word info.backup info.start info.len a = p.word a :=
      fun a ha => Moves.move_out (mt (hin a).2 ha)
    refine h.put hinfo (h.modify_infos hinfo fun i => { i with backup := 0 }) rfl rfl (fun _ hc => hc)
      (h.slots info hinfo) (fun _ _ => hhooks) (fun hs => absurd (hself.symm.trans hs) Bool.false_ne_true)
      (fun hne => absurd rfl hne) (fun hne => absurd rfl hne) (fun hne => absurd rfl hne) ?_
      (h.recorded info hinfo) (fun hne => absurd rfl hne) ?_
    · intro a hc
      by_cases ha : a ∈ info.range
      · exact Or.inl (hword a hc ha)
      · rcases h.content a hc with heq | ⟨i, hi, hook, hhook, heq⟩
        · exact Or.inl ((hother a ha).trans heq)
        · refine Or.inr ⟨i, ?_, hook, hhook, heq⟩
          show i ∈ (p.modify info.start _).infos
          rw [h.modify_infos hinfo, mem_put hinfo]
          refine Or.inr ⟨hi, fun hs => ?_⟩
          rw [h.eq_of_start hi hinfo hs, hhooks] at hhook
          exact absurd hhook List.not_mem_nil
    · intro j hj _ hjlive a ha
      exact hother a ((h.copyInfo j hj hjlive info hinfo).not_mem ha)

theorem Tracked.find_eq (h : p.Tracked page image orig) (hinfo : info ∈ p.infos) :
    find p.infos info.start = some info := by
  rw [find]
  cases hfind : p.infos.find? fun i => decide (i.start = info.start) with
  | none =>
    have hnot := List.find?_eq_none.1 hfind info hinfo
    exact absurd (decide_eq_true rfl) hnot
  | some i =>
    have heq : i.start = info.start := by simpa using List.find?_some hfind
    rw [h.eq_of_start (List.mem_of_find?_eq_some hfind) hinfo heq]

theorem settle_tracked (h : p.Tracked page image orig) (k : Answers) (hinfo : info ∈ p.infos)
    (hlive : info.self = false → info.backup ≠ 0) : (p.settle k info.start).1.Tracked page image orig := by
  rw [settle, h.find_eq hinfo]
  dsimp only
  split_ifs with hempty
  · rw [Bool.and_eq_true, List.isEmpty_iff, Bool.not_eq_true'] at hempty
    exact moveBack_tracked h k hinfo hempty.1 hempty.2 (hlive hempty.2)
  · exact h

/-- The access to a map changes, and nothing else. -/
theorem perms_tracked (h : p.Tracked page image orig) (hinfo : info ∈ p.infos) (perms : BitVec 8) :
    (p.modify info.start fun i => { i with perms := i.perms ||| perms }).Tracked page image orig := by
  refine h.put hinfo (h.modify_infos hinfo _) rfl rfl (fun _ hc => hc) (h.slots info hinfo) (h.idle info hinfo)
    (h.own info hinfo) (h.copyImage info hinfo) (h.copyInfo info hinfo)
    (fun hne j hj hlive hjne => h.copies info hinfo hne j hj hlive (Ne.symm hjne)) ?_ (h.recorded info hinfo)
    (h.pristine info hinfo) fun _ _ _ _ _ _ => rfl
  intro a hc
  rcases h.content a hc with heq | ⟨i, hi, hook, hhook, heq⟩
  · exact Or.inl heq
  · refine Or.inr ?_
    by_cases hi' : i.start = info.start
    · rw [h.eq_of_start hi hinfo hi'] at hhook
      exact ⟨_, mem_modify.2 ⟨info, hinfo, if_pos rfl⟩, hook, hhook, heq⟩
    · exact ⟨i, mem_modify.2 ⟨i, hi, if_neg hi'⟩, hook, hhook, heq⟩

/-- A map as it is, up to what a patch may change. -/
def SameMap (i j : HookInfo) : Prop :=
  i.start = j.start ∧ i.stop = j.stop ∧ i.offset = j.offset ∧ i.dev = j.dev ∧ i.inode = j.inode ∧ i.self = j.self

theorem makeWritable_tracked (h : p.Tracked page image orig) {cur : HookInfo} (hcur : cur ∈ p.infos)
    (hsame : SameMap cur info) : (p.makeWritable info).Tracked page image orig ∧
      ∃ cur' ∈ (p.makeWritable info).infos, SameMap cur' info ∧ cur'.backup = cur.backup ∧ cur'.hooks = cur.hooks := by
  unfold makeWritable
  split_ifs
  · rw [← hsame.1]
    exact ⟨perms_tracked h hcur _, _, mem_modify.2 ⟨cur, hcur, if_pos rfl⟩, hsame, rfl, rfl⟩
  · exact ⟨h, cur, hcur, hsame, rfl, rfl⟩

/-- The pages stand aside before the first patch. -/
theorem backUp_tracked (h : p.Tracked page image orig) (hpage : 0 < page) (k : Answers) (hinfo : info ∈ p.infos) :
    (p.backUp page image k info).1.Tracked page image orig ∧
      ((p.backUp page image k info).2 = true → ∃ cur ∈ (p.backUp page image k info).1.infos, SameMap cur info ∧
        cur.hooks = info.hooks ∧ (cur.self = false → cur.backup ≠ 0)) := by
  unfold backUp
  split_ifs with hfirst
  · rw [Bool.and_eq_true, decide_eq_true_eq, Bool.not_eq_true'] at hfirst
    refine ⟨moveAside_tracked h hpage k hinfo hfirst.1 hfirst.2, fun hok => ?_⟩
    obtain ⟨addr, hne, hq⟩ := moveAside_infos h k hinfo hok
    refine ⟨{ info with backup := addr }, ?_, ⟨rfl, rfl, rfl, rfl, rfl, rfl⟩, rfl, fun _ => hne⟩
    rw [hq]
    exact (mem_put hinfo).2 (Or.inl rfl)
  · refine ⟨h, fun _ => ⟨info, hinfo, ⟨rfl, rfl, rfl, rfl, rfl, rfl⟩, rfl, fun hself hzero => hfirst ?_⟩⟩
    rw [hself, hzero]
    rfl

/-- The invariant looks at the maps, the words and what is dirty only. -/
theorem Tracked.congr (h : p.Tracked page image orig) {q : Process Var} (hinfos : q.infos = p.infos)
    (hword : q.word = p.word) (hdirty : q.dirty = p.dirty) : q.Tracked page image orig := by
  obtain ⟨word, old, pending, infos, self, patches, dirty⟩ := q
  subst hinfos hword hdirty
  exact ⟨h.apart, h.pages, h.slots, h.idle, h.own, h.copyImage, h.copyInfo, h.copies, h.content, h.recorded,
    h.pristine⟩

variable [DecidableEq Var] {addr callback : Nat} {backup : Option Var}

theorem overwrite_infos : (p.overwrite info addr callback backup).infos =
    (p.modify info.start fun i => { i with hooks := record addr callback (p.word addr) i.hooks }).infos := by
  unfold overwrite
  dsimp only
  split_ifs <;> rfl

theorem overwrite_word : (p.overwrite info addr callback backup).word = Function.update p.word addr callback := by
  unfold overwrite
  dsimp only
  by_cases hword : p.word addr = callback
  · have hsame : p.word = Function.update p.word addr callback := by rw [← hword, Function.update_eq_self]
    rw [if_neg (not_not.2 hword)]
    split_ifs
    · exact hsame
    · exact hsame
  · rw [if_pos hword]

theorem overwrite_dirty : (p.overwrite info addr callback backup).dirty =
    if info.self then ⟨addr, addr + 1⟩ :: p.dirty else p.dirty := by
  unfold overwrite
  dsimp only
  split_ifs <;> rfl

theorem overwrite_tracked (h : p.Tracked page image orig) (hinfo : info ∈ p.infos) (haddr : addr ∈ info.range)
    (hlive : info.self = false → info.backup ≠ 0) :
    (p.overwrite info addr callback backup).Tracked page image orig := by
  have hq : (p.overwrite info addr callback backup).infos =
      Process.put p.infos info { info with hooks := record addr callback (p.word addr) info.hooks } := by
    rw [overwrite_infos, h.modify_infos hinfo]
  have hclean : ∀ a, (p.overwrite info addr callback backup).Clean image a →
      p.Clean image a ∧ (a = addr → info.self = false) := fun a hc => by
    rw [Clean, overwrite_dirty] at hc
    split_ifs at hc with hself
    · refine ⟨⟨hc.1, fun r hr => hc.2 r (List.mem_cons_of_mem _ hr)⟩, fun heq => ?_⟩
      exact absurd ⟨heq.ge, heq.trans_lt (Nat.lt_succ_self addr)⟩ (hc.2 _ List.mem_cons_self)
    · exact ⟨hc, fun _ => Bool.eq_false_iff.2 hself⟩
  have hslots := h.slots info hinfo
  -- a slot of the map that was no hook yet holds its original word
  have hfresh : p.Clean image addr → (∀ h' ∈ info.hooks, h'.1 ≠ addr) → p.word addr = orig addr := fun hc hnone => by
    refine (h.content addr hc).resolve_right ?_
    rintro ⟨i, hi, hook, hhook, heq⟩
    have hi' := h.eq_of_mem hi hinfo ((h.slots i hi).2 hook hhook) (heq ▸ haddr)
    exact hnone hook (hi' ▸ hhook) heq
  refine h.put hinfo hq rfl rfl (fun a hc => (hclean a hc).1) (record_slots hslots haddr)
    (fun hzero hself => absurd hzero (hlive hself)) ?_ (h.copyImage info hinfo) (h.copyInfo info hinfo)
    (fun hne j hj hjlive hjne => h.copies info hinfo hne j hj hjlive (Ne.symm hjne)) ?_ ?_ ?_ ?_
  · intro hself
    refine ⟨(h.own info hinfo hself).1, fun hook hhook hc => ?_⟩
    obtain ⟨hc, hne⟩ := hclean _ hc
    rw [mem_record hslots] at hhook
    rcases hhook with ⟨hhook, -⟩ | ⟨rfl, -⟩
    · exact (h.own info hinfo hself).2 hook hhook hc
    · exact absurd hself (Bool.eq_false_iff.1 (hne rfl))
  · intro a hc
    obtain ⟨hc, -⟩ := hclean a hc
    rw [overwrite_word]
    have hput : ∀ i, i ∈ (p.overwrite info addr callback backup).infos ↔
        i = { info with hooks := record addr callback (p.word addr) info.hooks } ∨
          (i ∈ p.infos ∧ i.start ≠ info.start) := fun i => by rw [hq, mem_put hinfo]
    by_cases ha : a = addr
    · rw [ha, Function.update_self]
      rw [ha] at hc
      by_cases hrec : ∃ hook ∈ info.hooks, hook.1 = addr ∧ hook.2 = callback
      · obtain ⟨hook, hhook, haddr', hcb⟩ := hrec
        refine Or.inl ?_
        rw [← hcb, h.recorded info hinfo hook hhook (haddr' ▸ hc), haddr']
      · refine Or.inr ⟨_, (hput _).2 (Or.inl rfl), ?_⟩
        by_cases hold : ∃ hook ∈ info.hooks, hook.1 = addr
        · obtain ⟨hook, hhook, haddr'⟩ := hold
          exact ⟨hook, (mem_record hslots).2 (Or.inl ⟨hhook, fun hc => hrec ⟨hook, hhook, hc⟩⟩), haddr'⟩
        · exact ⟨(addr, p.word addr), (mem_record hslots).2 (Or.inr ⟨rfl, fun h' hmem heq =>
            hold ⟨h', hmem, heq⟩⟩), rfl⟩
    · rw [Function.update_of_ne ha]
      rcases h.content a hc with heq | ⟨i, hi, hook, hhook, heq⟩
      · exact Or.inl heq
      · by_cases hi' : i.start = info.start
        · rw [h.eq_of_start hi hinfo hi'] at hhook
          exact Or.inr ⟨_, (hput _).2 (Or.inl rfl), hook, (mem_record hslots).2 (Or.inl ⟨hhook, fun hc =>
            ha (heq.symm.trans hc.1)⟩), heq⟩
        · exact Or.inr ⟨i, (hput i).2 (Or.inr ⟨hi, hi'⟩), hook, hhook, heq⟩
  · intro hook hhook hc
    obtain ⟨hc, -⟩ := hclean _ hc
    rw [mem_record hslots] at hhook
    rcases hhook with ⟨hhook, -⟩ | ⟨rfl, hnone⟩
    · exact h.recorded info hinfo hook hhook hc
    · exact hfresh hc hnone
  · intro hne a ha hc
    rw [overwrite_word, Function.update_of_ne]
    · exact h.pristine info hinfo hne a ha (hclean a hc).1
    · intro heq
      have haddr' : info.backup + (a - info.start) = addr := heq
      exact (h.copyInfo info hinfo hne info hinfo).not_mem (copy_mem ha) (haddr' ▸ haddr)
  · intro j hj _ hjlive a ha
    rw [overwrite_word, Function.update_of_ne]
    rintro rfl
    exact (h.copyInfo j hj hjlive info hinfo).not_mem ha haddr

theorem overwrite_congr {cur : HookInfo} (hsame : SameMap cur info) :
    p.overwrite cur addr callback backup = p.overwrite info addr callback backup := by
  unfold overwrite
  rw [hsame.1, hsame.2.2.2.2.2]

theorem patchIn_tracked (h : p.Tracked page image orig) (hpage : 0 < page) (k : Answers) (hinfo : info ∈ p.infos)
    (haddr : addr ∈ info.range) : (p.patchIn page image k info addr callback backup).1.Tracked page image orig := by
  obtain ⟨htracked, hcur⟩ := backUp_tracked h hpage k hinfo
  unfold patchIn
  cases hok : (p.backUp page image k info).2 with
  | false =>
    dsimp only
    rw [hok]
    exact htracked
  | true =>
    dsimp only
    rw [hok]
    generalize (p.backUp page image k info).1 = q at htracked hcur
    obtain ⟨cur, hcur, hsame, -, hlive⟩ := hcur hok
    obtain ⟨hwritable, cur', hcur', hsame', hbackup, -⟩ := makeWritable_tracked htracked hcur hsame
    have hlive' : cur'.self = false → cur'.backup ≠ 0 := fun hself => by
      rw [hbackup]
      exact hlive (by rw [hsame.2.2.2.2.2, ← hsame'.2.2.2.2.2, hself])
    have haddr' : addr ∈ cur'.range := by
      rw [HookInfo.range, hsame'.1, hsame'.2.1]
      exact haddr
    have hover : ((q.makeWritable info).overwrite cur' addr callback backup).Tracked page image orig :=
      overwrite_tracked hwritable hcur' haddr' hlive'
    have hmem : { cur' with hooks := record addr callback ((q.makeWritable info).word addr) cur'.hooks } ∈
        ((q.makeWritable info).overwrite cur' addr callback backup).infos := by
      rw [overwrite_infos, hwritable.modify_infos hcur', mem_put hcur']
      exact Or.inl rfl
    rw [← overwrite_congr hsame', ← hsame'.1]
    have hsettle := settle_tracked hover k hmem hlive'
    exact hsettle

theorem patchPltEntry_tracked (h : p.Tracked page image orig) (hpage : 0 < page) (kernel : Nat → Answers) :
    (p.patchPltEntry page image kernel addr callback backup).1.Tracked page image orig := by
  have hq : Process.Tracked page image orig { p with patches := p.patches + 1 } :=
    ⟨h.apart, h.pages, h.slots, h.idle, h.own, h.copyImage, h.copyInfo, h.copies, h.content, h.recorded, h.pristine⟩
  unfold patchPltEntry
  cases hfind : p.infos.find? fun i => decide (i.start ≤ addr) with
  | none => exact hq
  | some info =>
    have hle : info.start ≤ addr := by simpa using List.find?_some hfind
    dsimp only
    split_ifs with hstop
    · exact hq
    · exact patchIn_tracked hq hpage _ (List.mem_of_find?_eq_some hfind) ⟨hle, Nat.lt_of_not_le hstop⟩

end Process

end Tracked

end OnyxZygisk.Lsplt

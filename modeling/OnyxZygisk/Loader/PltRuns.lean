import OnyxZygisk.Loader.PltTracked
import Mathlib.Logic.Relation

/-!
# Runs of the PLT hooks

A commit merges the maps it was given with those that are patched already, and goes through the requests. So however
hooks are registered, committed and undone, no original is lost (`originals_kept`).
-/

namespace OnyxZygisk.Lsplt

open Mappings (PROT_READ)

variable {Var : Type}

/-! ### The maps of a commit -/

section Maps

variable {page : Nat} {image : List AddrRange} {orig : Nat → Nat} {p : Process Var} {info i j : HookInfo}
  {infos new : List HookInfo}

/-- What `/proc/self/maps` says or has said of a process: the maps stand in their order, in pages. Where a map was
patched there is a map of the same extent, from a scan before, or none of a file; its pages are at the backup. -/
structure Scan (page : Nat) (p : Process Var) (maps : List MapInfo) : Prop where
  apart : maps.Pairwise fun m n => m.stop ≤ n.start
  pages : ∀ m ∈ maps, m.start < m.stop ∧ page ∣ m.stop - m.start
  same : ∀ m ∈ maps, m.hookable → ∀ i ∈ p.infos, m.start = i.start → m.stop = i.stop
  hooked : ∀ m ∈ maps, m.hookable → ∀ i ∈ p.infos, i.backup ≠ 0 →
    m.start = i.start ∨ m.start = i.backup ∨ (i.range.Apart m.range ∧ i.copy.Apart m.range)

theorem mem_emplace (h : j ∈ emplace info infos) : j = info ∨ j ∈ infos := by
  induction infos with
  | nil => exact Or.inl (List.mem_singleton.1 h)
  | cons first rest ih =>
    rw [emplace] at h
    split_ifs at h
    · exact List.mem_cons.1 h
    · exact Or.inr h
    · rcases List.mem_cons.1 h with rfl | h
      · exact Or.inr List.mem_cons_self
      · exact (ih h).imp_right (List.mem_cons_of_mem _)

theorem mem_emplace_of_mem (h : j ∈ infos) : j ∈ emplace info infos := by
  induction infos with
  | nil => exact absurd h List.not_mem_nil
  | cons first rest ih =>
    rw [emplace]
    split_ifs
    · exact List.mem_cons_of_mem _ h
    · exact h
    · rcases List.mem_cons.1 h with rfl | h
      · exact List.mem_cons_self
      · exact List.mem_cons_of_mem _ (ih h)

theorem self_mem_emplace (h : ∀ j ∈ infos, j.start ≠ info.start) : info ∈ emplace info infos := by
  induction infos with
  | nil => exact List.mem_cons_self
  | cons first rest ih =>
    rw [emplace, if_neg (h first List.mem_cons_self)]
    split_ifs
    · exact List.mem_cons_self
    · exact List.mem_cons_of_mem _ (ih fun j hj => h j (List.mem_cons_of_mem _ hj))

theorem emplace_pairwise (h : infos.Pairwise fun i j => j.stop ≤ i.start)
    (hne : ∀ j ∈ infos, j.start < j.stop) (hinfo : info.start < info.stop)
    (hapart : ∀ j ∈ infos, info.range.Apart j.range) :
    (emplace info infos).Pairwise fun i j => j.stop ≤ i.start := by
  induction infos with
  | nil => exact List.pairwise_singleton _ _
  | cons first rest ih =>
    rw [List.pairwise_cons] at h
    have hfirst := hapart first List.mem_cons_self
    have hfirst' := hne first List.mem_cons_self
    simp only [AddrRange.Apart, HookInfo.range] at hfirst
    rw [emplace]
    split_ifs with hlt heq
    · rw [List.pairwise_cons, List.pairwise_cons]
      refine ⟨fun j hj => ?_, h⟩
      rcases List.mem_cons.1 hj with rfl | hj
      · omega
      · have hj := h.1 j hj
        omega
    · exact List.pairwise_cons.2 h
    · rw [List.pairwise_cons]
      refine ⟨fun j hj => ?_, ih h.2 (fun j hj => hne j (List.mem_cons_of_mem _ hj))
        fun j hj => hapart j (List.mem_cons_of_mem _ hj)⟩
      rcases mem_emplace hj with rfl | hj
      · omega
      · exact h.1 j hj

/-- Behind maps in their order, each one goes to the front. -/
theorem foldl_emplace (self : Nat × Nat) {maps : List MapInfo} (h : maps.Pairwise fun m n => m.start < n.start)
    (hinfos : ∀ i ∈ infos, ∀ m ∈ maps, i.start < m.start) :
    maps.foldl (fun infos m => emplace (m.target self) infos) infos =
      (maps.map (MapInfo.target self)).reverse ++ infos := by
  induction maps generalizing infos with
  | nil => rfl
  | cons m maps ih =>
    rw [List.pairwise_cons] at h
    have hfront : emplace (m.target self) infos = m.target self :: infos := by
      cases infos with
      | nil => rfl
      | cons first rest =>
        rw [emplace, if_pos]
        exact hinfos first List.mem_cons_self m List.mem_cons_self
    rw [List.foldl_cons, hfront, ih h.2, List.map_cons, List.reverse_cons, List.append_assoc]
    · rfl
    · intro i hi n hn
      rcases List.mem_cons.1 hi with rfl | hi
      · exact h.1 n hn
      · exact hinfos i hi n (List.mem_cons_of_mem _ hn)

theorem createTargets_eq {maps : List MapInfo} (h : Scan page p maps) (self : Nat × Nat) :
    createTargets self maps = ((maps.filter MapInfo.hookable).map (MapInfo.target self)).reverse := by
  rw [createTargets, foldl_emplace, List.append_nil]
  · have hpair : maps.Pairwise fun m n => m.start < n.start := by
      apply h.apart.imp_of_mem
      intro m n hm hn hle
      exact Nat.lt_of_lt_of_le (h.pages m hm).1 hle
    exact hpair.filter _
  · exact fun i hi => absurd hi List.not_mem_nil

theorem mem_filterInfos {maps : List MapInfo} (h : Scan page p maps) {self : Nat × Nat}
    (pending : List (HookRequest Var)) (hj : j ∈ filterInfos (createTargets self maps) pending) :
    ∃ m ∈ maps, m.hookable = true ∧ j = m.target self := by
  rw [filterInfos, createTargets_eq h, List.mem_filter, List.mem_reverse, List.mem_map] at hj
  obtain ⟨⟨m, hm, rfl⟩, -⟩ := hj
  rw [List.mem_filter] at hm
  exact ⟨m, hm.1, hm.2, rfl⟩

theorem filterInfos_pairwise {maps : List MapInfo} (h : Scan page p maps) (self : Nat × Nat)
    (pending : List (HookRequest Var)) :
    (filterInfos (createTargets self maps) pending).Pairwise fun i j => j.stop ≤ i.start := by
  rw [filterInfos, createTargets_eq h]
  refine List.Pairwise.filter _ ?_
  rw [List.pairwise_reverse, List.pairwise_map]
  exact h.apart.filter _

/-- New maps, beside those that are there already. -/
structure Beside (page : Nat) (old new : List HookInfo) : Prop where
  apart : new.Pairwise fun i j => j.stop ≤ i.start
  fresh : ∀ j ∈ new, j.start < j.stop ∧ page ∣ j.len ∧ j.hooks = [] ∧ j.backup = 0
  same : ∀ j ∈ new, ∀ i ∈ old, j.start = i.start → j.stop = i.stop
  hooked : ∀ j ∈ new, ∀ i ∈ old, i.backup ≠ 0 →
    j.start = i.start ∨ j.start = i.backup ∨ (i.range.Apart j.range ∧ i.copy.Apart j.range)

theorem Scan.beside {maps : List MapInfo} (h : Scan page p maps) (self : Nat × Nat)
    (pending : List (HookRequest Var)) :
    Beside page p.infos (filterInfos (createTargets self maps) pending) := by
  refine ⟨filterInfos_pairwise h self pending, ?_, ?_, ?_⟩
  · intro j hj
    obtain ⟨m, hm, -, rfl⟩ := mem_filterInfos h pending hj
    exact ⟨(h.pages m hm).1, (h.pages m hm).2, rfl, rfl⟩
  · intro j hj
    obtain ⟨m, hm, hhook, rfl⟩ := mem_filterInfos h pending hj
    exact h.same m hm hhook
  · intro j hj
    obtain ⟨m, hm, hhook, rfl⟩ := mem_filterInfos h pending hj
    exact h.hooked m hm hhook

/-- The maps while those of the last commit are merged in, of which `done` were. -/
structure Merging (page : Nat) (p : Process Var) (new done infos : List HookInfo) : Prop where
  apart : infos.Pairwise fun i j => j.stop ≤ i.start
  source : ∀ j ∈ infos, j ∈ new ∨ j ∈ p.infos
  live : ∀ i ∈ done, i.backup ≠ 0 → i ∈ infos
  gone : ∀ j ∈ infos, ∀ i ∈ done, i.backup ≠ 0 → j.start ≠ i.backup

theorem Merging.nonempty (h : p.Tracked page image orig) (hnew : Beside page p.infos new) {done : List HookInfo}
    (hm : Merging page p new done infos) (hj : j ∈ infos) : j.start < j.stop := by
  rcases hm.source j hj with hj | hj
  · exact (hnew.fresh j hj).1
  · exact (h.pages j hj).1

theorem backup_ne_start (h : p.Tracked page image orig) (hi : i ∈ p.infos) (hlive : i.backup ≠ 0)
    (hj : j ∈ p.infos) : j.start ≠ i.backup := by
  intro heq
  have hmem : i.backup ∈ i.copy := by
    have hpages := h.pages i hi
    simp only [AddrRange.mem_def, HookInfo.copy, HookInfo.len]
    omega
  exact (h.copyInfo i hi hlive j hj).not_mem hmem (heq ▸ h.start_mem hj)

theorem Merging.step (h : p.Tracked page image orig) (hnew : Beside page p.infos new) {done : List HookInfo}
    (hm : Merging page p new done infos) (hdone : ∀ i ∈ done, i ∈ p.infos) (hinfo : info ∈ p.infos) :
    Merging page p new (info :: done) (mergeInfo infos info) := by
  -- the pages that stand in the backup are no map of their own
  have herase : Merging page p new done (if info.backup ≠ 0 then erase infos info.backup else infos) ∧
      (info.backup ≠ 0 → ∀ j ∈ (if info.backup ≠ 0 then erase infos info.backup else infos),
        j.start ≠ info.backup) := by
    split_ifs with hlive
    · have hmem : ∀ j, j ∈ erase infos info.backup ↔ j ∈ infos ∧ j.start ≠ info.backup := fun j => by
        rw [erase, List.mem_filter, decide_eq_true_eq]
      refine ⟨⟨hm.apart.filter _, fun j hj => hm.source j ((hmem j).1 hj).1, fun i hi hilive => ?_,
        fun j hj => hm.gone j ((hmem j).1 hj).1⟩, fun _ j hj => ((hmem j).1 hj).2⟩
      exact (hmem i).2 ⟨hm.live i hi hilive, backup_ne_start h hinfo hlive (hdone i hi)⟩
    · exact ⟨hm, fun hne => absurd hne hlive⟩
  obtain ⟨hm, hinfoGone⟩ := herase
  unfold mergeInfo
  generalize (if info.backup ≠ 0 then erase infos info.backup else infos) = infos at hm hinfoGone
  dsimp only
  have hgone : ∀ j ∈ p.infos, ∀ i ∈ info :: done, i.backup ≠ 0 → j.start ≠ i.backup := fun j hj i hi hlive => by
    rcases List.mem_cons.1 hi with rfl | hi
    · exact backup_ne_start h hinfo hlive hj
    · exact backup_ne_start h (hdone i hi) hlive hj
  have hgone' : ∀ j ∈ infos, ∀ i ∈ info :: done, i.backup ≠ 0 → j.start ≠ i.backup := fun j hj i hi hlive => by
    rcases List.mem_cons.1 hi with rfl | hi
    · exact hinfoGone hlive j hj
    · exact hm.gone j hj i hi hlive
  split_ifs with hfound hlive
  · have hstop : ∀ j ∈ infos, j.start = info.start → j.stop = info.stop := fun j hj heq => by
      rcases hm.source j hj with hj | hj
      · exact hnew.same j hj info hinfo heq
      · rw [h.eq_of_start hj hinfo heq]
    have hmem : ∀ j, j ∈ (infos.map fun i => if i.start = info.start then info else i) → j = info ∨ j ∈ infos :=
      fun j hj => by
        obtain ⟨i, hi, rfl⟩ := List.mem_map.1 hj
        split_ifs
        · exact Or.inl rfl
        · exact Or.inr hi
    obtain ⟨found, hfind⟩ := Option.isSome_iff_exists.1 hfound
    have hfoundMem : found ∈ infos := List.mem_of_find?_eq_some hfind
    have hfoundStart : found.start = info.start := by simpa using List.find?_some hfind
    refine ⟨?_, ?_, ?_, ?_⟩
    · rw [List.pairwise_map]
      apply hm.apart.imp_of_mem
      intro i j hi hj hij
      have hi' : (if i.start = info.start then info else i).start = i.start := by
        split_ifs with heq
        · exact heq.symm
        · rfl
      have hj' : (if j.start = info.start then info else j).stop = j.stop := by
        split_ifs with heq
        · exact (hstop j hj heq).symm
        · rfl
      rw [hi', hj']
      exact hij
    · intro j hj
      rcases hmem j hj with rfl | hj
      · exact Or.inr hinfo
      · exact hm.source j hj
    · intro i hi hilive
      rcases List.mem_cons.1 hi with rfl | hi
      · exact List.mem_map.2 ⟨found, hfoundMem, if_pos hfoundStart⟩
      · refine List.mem_map.2 ⟨i, hm.live i hi hilive, ?_⟩
        split_ifs with heq
        · exact h.eq_of_start hinfo (hdone i hi) heq.symm
        · rfl
    · intro j hj
      rcases hmem j hj with rfl | hj
      · exact hgone j hinfo
      · exact hgone' j hj
  · have hnone : ∀ j ∈ infos, j.start ≠ info.start := fun j hj heq => by
      rw [Bool.not_eq_true, Option.isSome_eq_false_iff, Option.isNone_iff_eq_none, find] at hfound
      exact List.find?_eq_none.1 hfound j hj (decide_eq_true heq)
    have hapart : ∀ j ∈ infos, info.range.Apart j.range := fun j hj => by
      rcases hm.source j hj with hjn | hjo
      · rcases hnew.hooked j hjn info hinfo hlive with heq | heq | hapart
        · exact absurd heq (hnone j hj)
        · exact absurd heq (hinfoGone hlive j hj)
        · exact hapart.1
      · have hpair : p.infos.Pairwise fun i j => i.range.Apart j.range := h.apart.imp fun hle => Or.inr hle
        have hsymm : Std.Symm fun i j : HookInfo => i.range.Apart j.range := ⟨fun _ _ hij => hij.symm⟩
        exact hpair.forall hinfo hjo fun heq => hnone j hj (by rw [heq])
    refine ⟨emplace_pairwise hm.apart (fun j hj => hm.nonempty h hnew hj) (h.pages info hinfo).1 hapart, ?_, ?_, ?_⟩
    · intro j hj
      rcases mem_emplace hj with rfl | hj
      · exact Or.inr hinfo
      · exact hm.source j hj
    · intro i hi hilive
      rcases List.mem_cons.1 hi with rfl | hi
      · exact self_mem_emplace hnone
      · exact mem_emplace_of_mem (hm.live i hi hilive)
    · intro j hj
      rcases mem_emplace hj with rfl | hj
      · exact hgone j hinfo
      · exact hgone' j hj
  · refine ⟨hm.apart, hm.source, fun i hi hilive => ?_, hgone'⟩
    rcases List.mem_cons.1 hi with rfl | hi
    · exact absurd hilive hlive
    · exact hm.live i hi hilive

theorem Merging.run (h : p.Tracked page image orig) (hnew : Beside page p.infos new) {done old : List HookInfo}
    (hm : Merging page p new done infos) (hdone : ∀ i ∈ done, i ∈ p.infos) (hold : ∀ i ∈ old, i ∈ p.infos) :
    Merging page p new (old.reverse ++ done) (merge infos old) := by
  induction old generalizing done infos with
  | nil => exact hm
  | cons info old ih =>
    have hinfo := hold info List.mem_cons_self
    have hstep := hm.step h hnew hdone hinfo
    have hrest := ih hstep (fun i hi => (List.mem_cons.1 hi).elim (fun heq => heq ▸ hinfo) (hdone i))
      fun i hi => hold i (List.mem_cons_of_mem _ hi)
    rw [List.reverse_cons, List.append_assoc]
    exact hrest

theorem merging_merge (h : p.Tracked page image orig) (hnew : Beside page p.infos new) :
    Merging page p new p.infos.reverse (merge new p.infos) := by
  have hstart : Merging page p new [] new := ⟨hnew.apart, fun _ hj => Or.inl hj,
    fun i hi => absurd hi List.not_mem_nil, fun _ _ i hi => absurd hi List.not_mem_nil⟩
  have hm := hstart.run h hnew (fun i hi => absurd hi List.not_mem_nil) fun _ hi => hi
  rw [List.append_nil] at hm
  exact hm

theorem merge_tracked (h : p.Tracked page image orig) (hnew : Beside page p.infos new) :
    Process.Tracked page image orig { p with infos := merge new p.infos } := by
  have hm := merging_merge h hnew
  have hlive : ∀ i ∈ p.infos, i.backup ≠ 0 → i ∈ merge new p.infos := fun i hi => hm.live i (List.mem_reverse.2 hi)
  have hold : ∀ i ∈ merge new p.infos, i.backup ≠ 0 → i ∈ p.infos := fun i hi hne =>
    (hm.source i hi).resolve_left fun hi => hne (hnew.fresh i hi).2.2.2
  have hempty : ∀ i ∈ merge new p.infos, ∀ hook ∈ i.hooks, i ∈ p.infos := fun i hi hook hhook =>
    (hm.source i hi).resolve_left fun hi => by
      rw [(hnew.fresh i hi).2.2.1] at hhook
      exact absurd hhook List.not_mem_nil
  refine ⟨hm.apart, ?_, ?_, ?_, ?_, ?_, ?_, ?_, ?_, ?_, ?_⟩
  · intro i hi
    rcases hm.source i hi with hi | hi
    · exact ⟨(hnew.fresh i hi).1, (hnew.fresh i hi).2.1⟩
    · exact h.pages i hi
  · intro i hi
    rcases hm.source i hi with hi | hi
    · rw [(hnew.fresh i hi).2.2.1]
      exact ⟨List.Pairwise.nil, fun _ hhook => absurd hhook List.not_mem_nil⟩
    · exact h.slots i hi
  · intro i hi
    rcases hm.source i hi with hi | hi
    · exact fun _ _ => (hnew.fresh i hi).2.2.1
    · exact h.idle i hi
  · intro i hi hself
    rcases hm.source i hi with hi | hi
    · refine ⟨(hnew.fresh i hi).2.2.2, fun hook hhook => ?_⟩
      rw [(hnew.fresh i hi).2.2.1] at hhook
      exact absurd hhook List.not_mem_nil
    · exact h.own i hi hself
  · exact fun i hi hne => h.copyImage i (hold i hi hne) hne
  · intro i hi hne j hj
    rcases hm.source j hj with hjn | hjo
    · rcases hnew.hooked j hjn i (hold i hi hne) hne with heq | heq | hapart
      · -- the map that is patched stands in its place
        have hpair : (merge new p.infos).Pairwise fun i j => i.start ≠ j.start := by
          apply hm.apart.imp_of_mem
          intro i j hi hj hle
          have := hm.nonempty h hnew hj
          omega
        have hsymm : Std.Symm fun i j : HookInfo => i.start ≠ j.start := ⟨fun _ _ hij => hij.symm⟩
        have hij : j = i := by
          by_contra hne'
          exact hpair.forall hj hi hne' heq
        rw [hij]
        exact h.copyInfo i (hold i hi hne) hne i (hold i hi hne)
      · exact absurd heq (hm.gone j hj i (List.mem_reverse.2 (hold i hi hne)) hne)
      · exact hapart.2
    · exact h.copyInfo i (hold i hi hne) hne j hjo
  · exact fun i hi hine j hj hjne => h.copies i (hold i hi hine) hine j (hold j hj hjne) hjne
  · intro a hc
    rcases h.content a hc with heq | ⟨i, hi, hook, hhook, heq⟩
    · exact Or.inl heq
    · refine Or.inr ⟨i, hlive i hi fun hzero => ?_, hook, hhook, heq⟩
      cases hself : i.self with
      | false =>
        rw [h.idle i hi hzero hself] at hhook
        exact absurd hhook List.not_mem_nil
      | true => exact (h.own i hi hself).2 hook hhook (heq ▸ hc)
  · exact fun i hi hook hhook => h.recorded i (hempty i hi hook hhook) hook hhook
  · exact fun i hi hne => h.pristine i (hold i hi hne) hne

end Maps

/-- A process before its first hook. -/
def Process.initial (word : Nat → Nat) (old : Var → Nat) : Process Var := ⟨word, old, [], [], (0, 0), 0, []⟩

theorem initial_tracked (page : Nat) (image : List AddrRange) (word : Nat → Nat) (old : Var → Nat) :
    (Process.initial word old).Tracked page image word := by
  refine ⟨List.Pairwise.nil, ?_, ?_, ?_, ?_, ?_, ?_, ?_, fun _ _ => Or.inl rfl, ?_, ?_⟩ <;>
    exact fun i hi => absurd hi List.not_mem_nil

/-! ### Commits -/

theorem registerHook_infos (offsets : Nat) (p : Process Var) (dev inode : Nat) (symbol : String) (callback : Nat)
    (backup : Option Var) :
    (registerHook offsets p dev inode symbol callback backup).1.infos = p.infos := by
  unfold registerHook
  split_ifs <;> rfl

section Commits

variable [DecidableEq Var] {page : Nat} {image : List AddrRange} {orig : Nat → Nat} {p : Process Var}
  {kernel : Nat → Answers} {findPltAddr : Nat → String → Option (List Nat)}

theorem restoreIn_tracked (h : p.Tracked page image orig) (hpage : 0 < page) (reg : HookRequest Var)
    (keys : List Nat) (restored res : Bool) :
    (restoreIn page image kernel reg keys p restored res).1.Tracked page image orig := by
  induction keys generalizing p restored res with
  | nil => exact h
  | cons key keys ih =>
    unfold restoreIn
    split
    · exact ih h restored res
    · split
      · exact ih h restored res
      · exact ih (Process.patchPltEntry_tracked h hpage kernel) _ _

theorem restoreFunction_tracked (h : p.Tracked page image orig) (hpage : 0 < page) (keys : List Nat)
    (regs : List (HookRequest Var)) (res : Bool) :
    (restoreFunction page image kernel keys regs p res).1.Tracked page image orig := by
  induction regs generalizing p res with
  | nil => exact h
  | cons reg regs ih => exact ih (restoreIn_tracked h hpage reg keys false res) _

theorem patchAll_tracked (h : p.Tracked page image orig) (hpage : 0 < page) (callback : Nat) (backup : Option Var)
    (addrs : List Nat) (res : Bool) :
    (patchAll page image kernel callback backup addrs p res).1.Tracked page image orig := by
  induction addrs generalizing p res with
  | nil => exact h
  | cons addr addrs ih => exact ih (Process.patchPltEntry_tracked h hpage kernel) _

theorem processInfo_tracked (h : p.Tracked page image orig) (hpage : 0 < page) (info : HookInfo)
    (regs : List (HookRequest Var)) (res : Bool) :
    (processInfo page image kernel findPltAddr info regs p res).1.Tracked page image orig := by
  induction regs generalizing p res with
  | nil => exact h
  | cons reg regs ih =>
    unfold processInfo
    split_ifs
    · exact ih h res
    · split
      · exact ih h res
      · exact ih h false
      · exact ih (patchAll_tracked h hpage _ _ _ res) _

theorem processRequest_tracked (h : p.Tracked page image orig) (hpage : 0 < page) (infos : List HookInfo)
    (regs : List (HookRequest Var)) (res : Bool) :
    (processRequest page image kernel findPltAddr infos regs p res).1.Tracked page image orig := by
  induction infos generalizing p regs res with
  | nil => exact h
  | cons info infos ih => exact ih (processInfo_tracked h hpage info regs res) _ _

theorem commitRequests_tracked (h : p.Tracked page image orig) (hpage : 0 < page) (unhook : Bool) :
    (commitRequests page image kernel findPltAddr p unhook).1.Tracked page image orig := by
  have hregs : ∀ {q : Process Var} {regs : List (HookRequest Var)}, q.Tracked page image orig →
      Process.Tracked page image orig { (processRequest page image kernel findPltAddr q.infos.reverse regs q true).1
        with pending := (processRequest page image kernel findPltAddr q.infos.reverse regs q true).2.1 } :=
    fun hq => (processRequest_tracked hq hpage _ _ true).congr rfl rfl rfl
  cases unhook with
  | false => exact hregs h
  | true =>
    have hrestore : (restoreFunction page image kernel (p.infos.map (·.start)).reverse p.pending p true).1.Tracked
        page image orig := restoreFunction_tracked h hpage _ _ _
    unfold commitRequests
    dsimp only
    rw [if_pos rfl]
    split_ifs
    · exact hrestore.congr rfl rfl rfl
    · exact hregs hrestore

theorem commitHook_tracked (h : p.Tracked page image orig) (hpage : 0 < page) (pc : Nat) {maps : List MapInfo}
    (hscan : Scan page p maps) (unhook : Bool) :
    (commitHook page image kernel findPltAddr pc p maps unhook).1.Tracked page image orig := by
  unfold commitHook
  dsimp only
  split_ifs
  · exact h
  · exact h.congr rfl rfl rfl
  · have hmerged := merge_tracked h (hscan.beside (selfMap pc maps p.self) p.pending)
    have hself : Process.Tracked page image orig { p with
        self := selfMap pc maps p.self
        infos := merge (filterInfos (createTargets (selfMap pc maps p.self) maps) p.pending) p.infos } :=
      hmerged.congr rfl rfl rfl
    exact commitRequests_tracked hself hpage unhook

/-- What the library is called for. -/
inductive Step (page : Nat) (image : List AddrRange) (kernel : Nat → Answers)
    (findPltAddr : Nat → String → Option (List Nat)) (offsets pc : Nat) : Process Var → Process Var → Prop
  | register (p : Process Var) (dev inode : Nat) (symbol : String) (callback : Nat) (backup : Option Var) :
    Step page image kernel findPltAddr offsets pc p (registerHook offsets p dev inode symbol callback backup).1
  | commit (p : Process Var) (maps : List MapInfo) (unhook : Bool) (hscan : Scan page p maps) :
    Step page image kernel findPltAddr offsets pc p (commitHook page image kernel findPltAddr pc p maps unhook).1

variable {offsets pc : Nat}

theorem Step.tracked {q : Process Var} (hstep : Step page image kernel findPltAddr offsets pc p q)
    (h : p.Tracked page image orig) (hpage : 0 < page) : q.Tracked page image orig := by
  cases hstep with
  | register dev inode symbol callback backup =>
    unfold registerHook
    split_ifs
    · exact h
    · exact h.congr rfl rfl rfl
  | commit maps unhook hscan => exact commitHook_tracked h hpage pc hscan unhook

/-- The calls of a process, one after the other. -/
abbrev Run (page : Nat) (image : List AddrRange) (kernel : Nat → Answers)
    (findPltAddr : Nat → String → Option (List Nat)) (offsets pc : Nat) : Process Var → Process Var → Prop :=
  Relation.ReflTransGen (Step page image kernel findPltAddr offsets pc)

theorem tracked_run (hpage : 0 < page) {word : Nat → Nat} {old : Var → Nat}
    (hrun : Run page image kernel findPltAddr offsets pc (Process.initial word old) p) :
    p.Tracked page image word := by
  induction hrun with
  | refl => exact initial_tracked page image word old
  | tail _ hstep ih => exact hstep.tracked ih hpage

/-- A library of two pages, whose slot for `read` is the word 20. -/
def oneMap : MapInfo := ⟨16, 32, PROT_READ, true, 0, 1, 2, "/libc.so"⟩

def oneSlot (start : Nat) (symbol : String) : Option (List Nat) :=
  if start = 16 ∧ symbol = "read" then some [20] else none

/-- A kernel that refuses nothing. -/
def willing (_ : Nat) : Answers := ⟨some 64, true, true, fun _ => 0, true⟩

def hookedOnce : Process Unit :=
  (commitHook 8 [oneMap.range] willing oneSlot 0
    (registerHook 100 (Process.initial (fun a => 7 * a) fun _ => 0) 1 2 "read" 1000 (some ())).1 [oneMap] false).1

end Commits

end OnyxZygisk.Lsplt

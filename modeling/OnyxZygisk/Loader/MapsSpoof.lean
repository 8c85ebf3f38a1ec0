import OnyxZygisk.Loader.PltHooks
import OnyxZygisk.Loader.ReadHook
import Mathlib.Logic.Relation

/-!
# Spoofing the maps

Before the loader unmaps itself it copies every map whose path tells of it into anonymous memory, moves the copy over
the map, and names it. The kernel may read a name whenever it prints the maps, so the names stand in pages that are
never freed. Whatever system calls fail, nothing that was mapped loses its bytes, and no name dangles
(`spoofed_kept`).
-/

namespace OnyxZygisk.Loader

open Lsplt (MapInfo)
open Mappings

/-- The name of the regions, with the byte behind it. -/
def kAnonName : List UInt8 := ascii "wwb_hidden" ++ [0]

/-- What the kernel says to the calls for one map. -/
structure SpoofAnswers where
  /-- The `mmap` for the copy. -/
  copyAddr : Option Nat
  /-- The `mremap` over the map. -/
  remaps : Bool
  /-- The `mmap` for a page of the pool. -/
  poolAddr : Option Nat
  /-- `PR_SET_VMA_ANON_NAME`. -/
  names : Bool
  /-- The `mprotect` that takes the write permission away. -/
  drops : Bool

/-- A process with the pool of the names. -/
structure Spoofer where
  table : Table
  pool : List (Option Nat)
  next : Nat
  /-- Maps that were gone through so far. -/
  calls : Nat

namespace Spoofer

def kPoolSize : Nat := 4

def poolPage (p : Nat) : AddrRange := ⟨p, p + 4096⟩

variable (k : SpoofAnswers) (s : Spoofer) (r : AddrRange) (m : MapInfo)

/-- `PR_SET_VMA_ANON_NAME` with the name at a page of the pool. -/
def setNameAt (p : Nat) : Spoofer := if k.names then { s with table := setName s.table r p } else s

/-- A page of the pool is mapped and holds the name. -/
def fillSlot (p : Nat) : Spoofer :=
  { s with
    table := store (mmap s.table (poolPage p) (PROT_READ ||| PROT_WRITE)) p kAnonName
    pool := s.pool.set (s.next % kPoolSize) (some p)
    next := s.next + 1 }

/-- `name_anon_region` -/
def nameAnonRegion : Spoofer :=
  match s.pool.getD (s.next % kPoolSize) none with
  | some p => { s with next := s.next + 1 }.setNameAt k r p
  | none =>
    match k.poolAddr.filter fun p => decide (Free s.table (poolPage p)) with
    | none => { s with next := s.next + 1 }
    | some p => (s.fillSlot p).setNameAt k r p

/-- The addresses of the copy. -/
def copyOf (copy : Nat) : AddrRange := ⟨copy, copy + (r.stop - r.start)⟩

/-- `anonymize_range` -/
def anonymizeRange : Spoofer × Bool :=
  match k.copyAddr.filter fun copy => decide (Free s.table (copyOf m.range copy)) with
  | none => (s, false)
  | some copy =>
    let table := mmap s.table (copyOf m.range copy) PROT_WRITE
    let table := if m.perms &&& PROT_READ = 0 then mprotect table m.range PROT_READ else table
    let table := memcpy table m.start copy (m.stop - m.start)
    if !k.remaps then ({ s with table := munmap table (copyOf m.range copy) }, false)
    else ({ s with table := munmap (mremap table copy m.start (m.stop - m.start)) (copyOf m.range copy) }, true)

/-- What happens to a map whose path shows: it is copied and named, and has its access back. -/
def hideMap : Spoofer :=
  let r := s.anonymizeRange k m
  let q := if r.2 then r.1.nameAnonRegion k m.range else r.1
  { q with table := mprotect q.table m.range m.perms }

/-- `strstr(map.path, path)` -/
def shows (path marker : String) : Bool := marker.toList <:+: path.toList

def rwx : BitVec 8 := PROT_READ ||| PROT_WRITE ||| PROT_EXEC

/-- One map of `spoof_virtual_maps`. -/
def spoofMap (marker : String) (clearWritePermission : Bool) : Spoofer :=
  let s := if shows m.path marker then s.hideMap k m else s
  if clearWritePermission && m.path ≠ "" && m.perms &&& rwx = rwx && k.drops then
    { s with table := mprotect s.table m.range (m.perms &&& ~~~PROT_WRITE) }
  else s

/-- `spoof_virtual_maps` over the maps that were scanned. -/
def spoofVirtualMaps (kernel : Nat → SpoofAnswers) (marker : String) (clearWritePermission : Bool)
    (maps : List MapInfo) : Spoofer :=
  maps.foldl (fun s m => { s.spoofMap (kernel s.calls) m marker clearWritePermission with calls := s.calls + 1 }) s

/-! ### What is kept -/

variable {k s r m} {q : Spoofer}

/-- A mapping without a name, or with one of the pool. -/
def Named (s : Spoofer) (b : Backing) : Prop := b = .anon none ∨ ∃ p, b = .anon (some p) ∧ some p ∈ s.pool

/-- Nothing that was mapped loses its bytes, and the pool only grows, by pages that were free and hold the name. -/
structure Grows (s q : Spoofer) : Prop where
  kept : ∀ a c, s.table a = some c → ∃ c', q.table a = some c' ∧ c'.byte = c.byte ∧
    (c'.backing = c.backing ∨ q.Named c'.backing)
  new : ∀ a c, s.table a = none → q.table a = some c → q.Named c.backing
  pool : ∀ p, some p ∈ s.pool → some p ∈ q.pool
  fresh : ∀ p, some p ∈ q.pool → some p ∈ s.pool ∨ (Free s.table (poolPage p) ∧
    ∀ i < kAnonName.length, (q.table (p + i)).map Mappings.Cell.byte = kAnonName[i]?)

theorem Named.mono {b : Backing} (h : s.Named b) (hpool : ∀ p, some p ∈ s.pool → some p ∈ q.pool) : q.Named b :=
  h.imp_right fun ⟨p, hp, hmem⟩ => ⟨p, hp, hpool p hmem⟩

theorem Grows.trans {u : Spoofer} (h : Grows s q) (h' : Grows q u) : Grows s u := by
  refine ⟨fun a c hc => ?_, fun a c hnone hc => ?_, fun p hp => h'.pool p (h.pool p hp), fun p hp => ?_⟩
  · obtain ⟨c', hc', hbyte, hbacking⟩ := h.kept a c hc
    obtain ⟨c'', hc'', hbyte', hbacking'⟩ := h'.kept a c' hc'
    refine ⟨c'', hc'', hbyte'.trans hbyte, ?_⟩
    rcases hbacking' with heq | hnamed
    · rw [heq]
      exact hbacking.imp_right fun hn => hn.mono h'.pool
    · exact Or.inr hnamed
  · cases hq : q.table a with
    | none => exact h'.new a c hq hc
    | some c' =>
      obtain ⟨c'', hc'', -, hbacking⟩ := h'.kept a c' hq
      rw [hc, Option.some_inj] at hc''
      rw [hc'']
      rcases hbacking with heq | hnamed
      · rw [heq]
        exact (h.new a c' hnone hq).mono h'.pool
      · exact hnamed
  · rcases h'.fresh p hp with hq | ⟨hfree, hbytes⟩
    · refine (h.fresh p hq).imp_right fun ⟨hfree, hbytes⟩ => ⟨hfree, fun i hi => ?_⟩
      have hbyte := hbytes i hi
      cases hc : q.table (p + i) with
      | none =>
        rw [hc, Option.map_none, List.getElem?_eq_getElem hi] at hbyte
        cases hbyte
      | some c =>
        obtain ⟨c', hc', hsame, -⟩ := h'.kept _ c hc
        rw [hc, Option.map_some] at hbyte
        rw [hc', Option.map_some, hsame, hbyte]
    · refine Or.inr ⟨fun n hn => ?_, hbytes⟩
      cases hc : s.table (p + n) with
      | none => exact hc
      | some c =>
        obtain ⟨c', hc', -⟩ := h.kept _ c hc
        have hnone := hfree n hn
        rw [show (poolPage p).start + n = p + n from rfl, hc'] at hnone
        cases hnone

/-- The pool stays, and no mapping is new. -/
theorem grows_of_table (hpool : q.pool = s.pool)
    (hkept : ∀ a c, s.table a = some c → ∃ c', q.table a = some c' ∧ c'.byte = c.byte ∧
      (c'.backing = c.backing ∨ c'.backing = .anon none))
    (hnew : ∀ a, s.table a = none → q.table a = none) :
    Grows s q := by
  refine ⟨fun a c hc => ?_, fun a c hnone hc => ?_, fun p hp => hpool ▸ hp, fun p hp => Or.inl (hpool ▸ hp)⟩
  · obtain ⟨c', hc', hbyte, hbacking⟩ := hkept a c hc
    exact ⟨c', hc', hbyte, hbacking.imp_right Or.inl⟩
  · rw [hnew a hnone] at hc
    cases hc

theorem grows_refl (s : Spoofer) : Grows s s :=
  grows_of_table rfl (fun _ c hc => ⟨c, hc, rfl, Or.inl rfl⟩) fun _ hnone => hnone

theorem mprotect_grows (s : Spoofer) (r : AddrRange) (perms : BitVec 8) :
    Grows s { s with table := mprotect s.table r perms } := by
  refine grows_of_table rfl (fun a c hc => ?_) fun a hnone => ?_
  · by_cases ha : a ∈ r
    · exact ⟨{ c with perms }, (mprotect_in ha).trans (by rw [hc]; rfl), rfl, Or.inl rfl⟩
    · exact ⟨c, (mprotect_out ha).trans hc, rfl, Or.inl rfl⟩
  · exact mprotect_eq_none.2 hnone

/-- What `anonymize_range` makes of the addresses of its range. -/
theorem anonymizeRange_spec (hmapped : ∀ a ∈ m.range, s.table a ≠ none) :
    (s.anonymizeRange k m).1.pool = s.pool ∧
      (∀ a ∉ m.range, (s.anonymizeRange k m).1.table a = s.table a) ∧
      ∀ a ∈ m.range, ∀ c, s.table a = some c → ∃ perms, (s.anonymizeRange k m).1.table a =
        some ⟨c.byte, perms, if (s.anonymizeRange k m).2 then .anon none else c.backing⟩ := by
  unfold anonymizeRange
  cases hroom : k.copyAddr.filter fun copy => decide (Free s.table (copyOf m.range copy)) with
  | none => exact ⟨rfl, fun _ _ => rfl, fun a _ c hc => ⟨c.perms, hc⟩⟩
  | some copy =>
    obtain ⟨-, hfree⟩ := Option.filter_eq_some_iff.1 hroom
    rw [decide_eq_true_eq] at hfree
    have hapart : ∀ a ∈ copyOf m.range copy, a ∉ m.range := fun a ha ha' => hmapped a ha' (hfree.at ha)
    -- the access that lets the bytes be copied
    obtain ⟨t, ht, htfree, htout, htin⟩ : ∃ t, (if m.perms &&& PROT_READ = 0 then
        mprotect (mmap s.table (copyOf m.range copy) PROT_WRITE) m.range PROT_READ
      else mmap s.table (copyOf m.range copy) PROT_WRITE) = mmap t (copyOf m.range copy) PROT_WRITE ∧
        Free t (copyOf m.range copy) ∧ (∀ a ∉ m.range, t a = s.table a) ∧
          ∀ a ∈ m.range, ∀ c, s.table a = some c → ∃ perms, t a = some { c with perms } := by
      split_ifs
      · refine ⟨_, mprotect_mmap hapart, fun n hn => mprotect_eq_none.2 (hfree n hn), fun a ha => mprotect_out ha,
          fun a ha c hc => ⟨PROT_READ, (mprotect_in ha).trans (by rw [hc]; rfl)⟩⟩
      · exact ⟨_, rfl, hfree, fun _ _ => rfl, fun a _ c hc => ⟨c.perms, hc⟩⟩
    simp only [ht]
    have hmapped' : ∀ a ∈ m.range, t a ≠ none := fun a ha hnone => by
      obtain ⟨c, hc⟩ := Option.ne_none_iff_exists'.1 (hmapped a ha)
      obtain ⟨perms, hperms⟩ := htin a ha c hc
      rw [hnone] at hperms
      cases hperms
    cases hremaps : k.remaps with
    | false =>
      refine ⟨rfl, fun a ha => ?_, fun a ha c hc => ?_⟩
      · by_cases hcopy : a ∈ copyOf m.range copy
        · exact (munmap_in hcopy).trans (hfree.at hcopy).symm
        · exact (munmap_out hcopy).trans ((memcpy_out hcopy).trans ((mmap_out hcopy).trans (htout a ha)))
      · have hcopy : a ∉ copyOf m.range copy := fun hin => hapart a hin ha
        obtain ⟨perms, hperms⟩ := htin a ha c hc
        exact ⟨perms, (munmap_out hcopy).trans ((memcpy_out hcopy).trans ((mmap_out hcopy).trans hperms))⟩
    | true =>
      refine ⟨rfl, fun a ha => ?_, fun a ha c hc => ?_⟩
      · by_cases hcopy : a ∈ copyOf m.range copy
        · exact (munmap_in hcopy).trans (hfree.at hcopy).symm
        · exact (munmap_out hcopy).trans ((swapIn_out htfree ha).trans (htout a ha))
      · have hcopy : a ∉ copyOf m.range copy := fun hin => hapart a hin ha
        obtain ⟨perms, hperms⟩ := htin a ha c hc
        exact ⟨PROT_WRITE, (munmap_out hcopy).trans (swapIn_in (c := { c with perms }) htfree hmapped' ha hperms)⟩

theorem anonymizeRange_grows (hmapped : ∀ a ∈ m.range, s.table a ≠ none) : Grows s (s.anonymizeRange k m).1 := by
  obtain ⟨hpool, hout, hin⟩ := anonymizeRange_spec (k := k) hmapped
  refine grows_of_table hpool (fun a c hc => ?_) fun a hnone => ?_
  · by_cases ha : a ∈ m.range
    · obtain ⟨perms, hperms⟩ := hin a ha c hc
      refine ⟨_, hperms, rfl, ?_⟩
      dsimp only
      split_ifs
      · exact Or.inr rfl
      · exact Or.inl rfl
    · exact ⟨c, (hout a ha).trans hc, rfl, Or.inl rfl⟩
  · exact (hout a fun ha => hmapped a ha hnone).trans hnone

/-- A name of the pool goes to the anonymous mappings of a range. -/
theorem setNameAt_spec {p : Nat} (hp : some p ∈ s.pool) : Grows s (s.setNameAt k r p) ∧
    (s.setNameAt k r p).pool = s.pool ∧ ∀ a ∉ r, (s.setNameAt k r p).table a = s.table a := by
  unfold setNameAt
  split_ifs
  · refine ⟨⟨fun a c hc => ?_, fun a c hnone hc => ?_, fun p hp => hp, fun p hp => Or.inl hp⟩, rfl,
      fun a ha => setName_out ha⟩
    · obtain ⟨backing, hb, hname⟩ := setName_some r p hc
      exact ⟨_, hb, rfl, hname.imp_right fun heq => Or.inr ⟨p, heq, hp⟩⟩
    · exact absurd ((setName_none hnone).symm.trans hc) (by simp)
  · exact ⟨⟨fun a c hc => ⟨c, hc, rfl, Or.inl rfl⟩, fun a c hnone hc => absurd (hnone.symm.trans hc) (by simp),
      fun p hp => hp, fun p hp => Or.inl hp⟩, rfl, fun _ _ => rfl⟩

theorem fillSlot_spec (s : Spoofer) (hpage : s.pool.getD (s.next % kPoolSize) none = none) {p : Nat}
    (hfree : Free s.table (poolPage p)) :
    Grows s (s.fillSlot p) ∧ ∀ a c, s.table a = some c → (s.fillSlot p).table a = some c := by
  have hname : ∀ a, p ≤ a ∧ a < p + kAnonName.length → a ∈ poolPage p := fun a ha =>
    ⟨ha.1, Nat.lt_of_lt_of_le ha.2 (Nat.add_le_add_left (by decide) p)⟩
  have hkept : ∀ a c, s.table a = some c → (s.fillSlot p).table a = some c := fun a c hc => by
    have hout : a ∉ poolPage p := fun ha => by
      rw [hfree.at ha] at hc
      cases hc
    exact (store_out (mt (hname a) hout)).trans ((mmap_out hout).trans hc)
  refine ⟨⟨fun a c hc => ⟨c, hkept a c hc, rfl, Or.inl rfl⟩, fun a c hnone hc => ?_, fun p' hp' => ?_,
    fun p' hp' => ?_⟩, hkept⟩
  · by_cases ha : a ∈ poolPage p
    · refine Or.inl ?_
      have hbacking : ∀ c, (s.fillSlot p).table a = some c → c.backing = .anon none := fun c hc => by
        have hcell : mmap s.table (poolPage p) (PROT_READ ||| PROT_WRITE) a = _ := mmap_in ha
        unfold fillSlot store at hc
        dsimp only at hc
        rw [hcell] at hc
        split_ifs at hc
        · rw [← Option.some_inj.1 hc]
        · rw [← Option.some_inj.1 hc]
      exact hbacking c hc
    · have hsame : (s.fillSlot p).table a = s.table a := (store_out (mt (hname a) ha)).trans (mmap_out ha)
      rw [hsame, hnone] at hc
      cases hc
  · obtain ⟨i, hi, heq⟩ := List.mem_iff_getElem.1 hp'
    refine List.mem_iff_getElem.2 ⟨i, by rw [fillSlot, List.length_set]; exact hi, ?_⟩
    have hne : s.next % kPoolSize ≠ i := fun hsame => by
      rw [hsame, List.getD_eq_getElem?_getD, List.getElem?_eq_getElem hi, heq] at hpage
      cases hpage
    exact (List.getElem_set_ne hne _).trans heq
  · rcases List.mem_or_eq_of_mem_set hp' with hold | heq
    · exact Or.inl hold
    · rw [Option.some_inj] at heq
      subst heq
      refine Or.inr ⟨hfree, fun i hi => ?_⟩
      have hin : p' ≤ p' + i ∧ p' + i < p' + kAnonName.length := ⟨Nat.le_add_right _ _, Nat.add_lt_add_left hi _⟩
      have hcell : (s.fillSlot p').table (p' + i) = _ :=
        (store_in hin).trans (congrArg _ (mmap_in (hname _ hin)))
      rw [hcell, Option.map_some, Option.map_some, Nat.add_sub_cancel_left, List.getD_eq_getElem?_getD,
        List.getElem?_eq_getElem hi, Option.getD_some]

theorem nameAnonRegion_spec (s : Spoofer) (hsize : s.pool.length = kPoolSize) (r : AddrRange) :
    Grows s (s.nameAnonRegion k r) ∧ (s.nameAnonRegion k r).pool.length = kPoolSize ∧
      ∀ a ∉ r, ∀ c, s.table a = some c → (s.nameAnonRegion k r).table a = some c := by
  have hslot : s.next % kPoolSize < s.pool.length := by
    rw [hsize]
    exact Nat.mod_lt _ (by decide)
  have hcount : Grows s { s with next := s.next + 1 } :=
    grows_of_table rfl (fun a c hc => ⟨c, hc, rfl, Or.inl rfl⟩) fun _ hnone => hnone
  unfold nameAnonRegion
  cases hpage : s.pool.getD (s.next % kPoolSize) none with
  | some p =>
    have hmem : some p ∈ s.pool := by
      rw [List.getD_eq_getElem?_getD, List.getElem?_eq_getElem hslot, Option.getD_some] at hpage
      exact hpage ▸ List.getElem_mem hslot
    obtain ⟨hgrows, hpool, hout⟩ := setNameAt_spec (k := k) (r := r) (s := { s with next := s.next + 1 }) hmem
    exact ⟨hcount.trans hgrows, (congrArg List.length hpool).trans hsize, fun a ha c hc => (hout a ha).trans hc⟩
  | none =>
    cases hroom : k.poolAddr.filter fun p => decide (Free s.table (poolPage p)) with
    | none => exact ⟨hcount, hsize, fun _ _ _ hc => hc⟩
    | some p =>
      obtain ⟨-, hfree⟩ := Option.filter_eq_some_iff.1 hroom
      rw [decide_eq_true_eq] at hfree
      obtain ⟨hfilled, hkept⟩ := fillSlot_spec s hpage hfree
      obtain ⟨hgrows, hpool, hout⟩ := setNameAt_spec (k := k) (r := r) (s := s.fillSlot p) (List.mem_set hslot _)
      refine ⟨hfilled.trans hgrows, ?_, fun a ha c hc => (hout a ha).trans (hkept a c hc)⟩
      exact (congrArg List.length hpool).trans (List.length_set.trans hsize)

/-- The access of a map in the end. -/
def finalPerms (k : SpoofAnswers) (m : MapInfo) (clearWritePermission : Bool) : BitVec 8 :=
  if clearWritePermission && m.path ≠ "" && m.perms &&& rwx = rwx && k.drops then m.perms &&& ~~~PROT_WRITE else m.perms

variable {marker : String} {clear : Bool}

theorem hideMap_spec (hsize : s.pool.length = kPoolSize) (hmapped : ∀ a ∈ m.range, s.table a ≠ none) :
    Grows s (s.hideMap k m) ∧ (s.hideMap k m).pool.length = kPoolSize ∧
      (∀ a ∉ m.range, ∀ c, s.table a = some c → (s.hideMap k m).table a = some c) ∧
      ∀ a ∈ m.range, ∀ c, s.table a = some c → ∃ c', (s.hideMap k m).table a = some c' ∧ c'.perms = m.perms ∧
        ∀ path, c'.backing = .file path ↔ c.backing = .file path ∧ (s.anonymizeRange k m).2 = false := by
  obtain ⟨hpool, hout, hin⟩ := anonymizeRange_spec (k := k) hmapped
  have hgrows := anonymizeRange_grows (k := k) hmapped
  unfold hideMap
  generalize s.anonymizeRange k m = result at hpool hout hin hgrows
  obtain ⟨q, ok⟩ := result
  dsimp only at hpool hout hin hgrows ⊢
  have hsize' : q.pool.length = kPoolSize := (congrArg List.length hpool).trans hsize
  -- the name, if there is one, goes to the copy
  obtain ⟨u, hu, hgrows', hsize'', hout', hback⟩ : ∃ u, (if ok then q.nameAnonRegion k m.range else q) = u ∧
      Grows q u ∧ u.pool.length = kPoolSize ∧ (∀ a ∉ m.range, ∀ c, q.table a = some c → u.table a = some c) ∧
        ∀ a ∈ m.range, ∀ c, s.table a = some c → ∃ c', u.table a = some c' ∧
          ∀ path, c'.backing = .file path ↔ c.backing = .file path ∧ ok = false := by
    cases ok with
    | false =>
      refine ⟨q, rfl, grows_refl q, hsize', fun _ _ _ h => h, fun a ha c hc => ?_⟩
      obtain ⟨perms, hperms⟩ := hin a ha c hc
      exact ⟨_, hperms, fun path => (and_iff_left rfl).symm⟩
    | true =>
      obtain ⟨hnamed, hlen, hkept⟩ := nameAnonRegion_spec (k := k) q hsize' m.range
      refine ⟨_, rfl, hnamed, hlen, hkept, fun a ha c hc => ?_⟩
      obtain ⟨perms, hperms⟩ := hin a ha c hc
      obtain ⟨c', hc', -, hbacking⟩ := hnamed.kept a _ hperms
      refine ⟨c', hc', fun path => iff_of_false (fun hfile => ?_) fun h => absurd h.2 (by simp)⟩
      rw [hfile] at hbacking
      rcases hbacking with hbacking | hbacking | ⟨p, hbacking, -⟩ <;> cases hbacking
  rw [hu]
  refine ⟨hgrows.trans (hgrows'.trans (mprotect_grows u m.range m.perms)), hsize'', fun a ha c hc => ?_,
    fun a ha c hc => ?_⟩
  · exact (mprotect_out ha).trans (hout' a ha c ((hout a ha).trans hc))
  · obtain ⟨c', hc', hfile⟩ := hback a ha c hc
    exact ⟨{ c' with perms := m.perms }, (mprotect_in ha).trans (by rw [hc']; rfl), rfl, hfile⟩

/-- The map keeps its path. -/
def keepsPath (k : SpoofAnswers) (s : Spoofer) (m : MapInfo) (marker : String) : Bool :=
  !shows m.path marker || !(s.anonymizeRange k m).2

/-- One map is gone through: nothing else changes, and it has its access again, up to the write permission. -/
theorem spoofMap_spec (k : SpoofAnswers) (marker : String) (clear : Bool) (hsize : s.pool.length = kPoolSize)
    (hmapped : ∀ a ∈ m.range, ∃ c, s.table a = some c ∧ c.perms = m.perms) :
    Grows s (s.spoofMap k m marker clear) ∧ (s.spoofMap k m marker clear).pool.length = kPoolSize ∧
      (∀ a ∉ m.range, ∀ c, s.table a = some c → (s.spoofMap k m marker clear).table a = some c) ∧
      ∀ a ∈ m.range, ∀ c, s.table a = some c → ∃ c', (s.spoofMap k m marker clear).table a = some c' ∧
        c'.perms = finalPerms k m clear ∧
        ∀ path, c'.backing = .file path ↔ c.backing = .file path ∧ s.keepsPath k m marker = true := by
  have hsome : ∀ a ∈ m.range, s.table a ≠ none := fun a ha => by
    obtain ⟨c, hc, -⟩ := hmapped a ha
    rw [hc]
    exact Option.some_ne_none c
  obtain ⟨u, hu, hgrows, hsize', hout, hin⟩ : ∃ u, (if shows m.path marker then s.hideMap k m else s) = u ∧
      Grows s u ∧ u.pool.length = kPoolSize ∧ (∀ a ∉ m.range, ∀ c, s.table a = some c → u.table a = some c) ∧
        ∀ a ∈ m.range, ∀ c, s.table a = some c → ∃ c', u.table a = some c' ∧ c'.perms = m.perms ∧
          ∀ path, c'.backing = .file path ↔ c.backing = .file path ∧ s.keepsPath k m marker = true := by
    unfold keepsPath
    cases hshows : shows m.path marker with
    | true =>
      obtain ⟨hgrows, hlen, hout, hin⟩ := hideMap_spec (k := k) hsize hsome
      refine ⟨_, rfl, hgrows, hlen, hout, fun a ha c hc => ?_⟩
      obtain ⟨c', hc', hperms, hfile⟩ := hin a ha c hc
      refine ⟨c', hc', hperms, fun path => (hfile path).trans (and_congr Iff.rfl ?_)⟩
      rw [Bool.not_true, Bool.false_or, Bool.not_eq_true']
    | false =>
      refine ⟨_, rfl, grows_refl s, hsize, fun _ _ _ hc => hc, fun a ha c hc => ⟨c, hc, ?_, fun path => ?_⟩⟩
      · obtain ⟨c', hc', hperms⟩ := hmapped a ha
        rw [hc, Option.some_inj] at hc'
        rw [hc', hperms]
      · exact (and_iff_left rfl).symm
  unfold spoofMap finalPerms
  dsimp only
  rw [hu]
  split_ifs
  · refine ⟨hgrows.trans (mprotect_grows u m.range _), hsize',
      fun a ha c hc => (mprotect_out ha).trans (hout a ha c hc), fun a ha c hc => ?_⟩
    obtain ⟨c', hc', -, hfile⟩ := hin a ha c hc
    exact ⟨{ c' with perms := m.perms &&& ~~~PROT_WRITE }, (mprotect_in ha).trans (by rw [hc']; rfl), rfl, hfile⟩
  · exact ⟨hgrows, hsize', hout, hin⟩

/-! ### Sweeps -/

/-- What a scan says: the maps keep apart, and each is mapped with its access and its path. -/
structure Scanned (t : Table) (maps : List MapInfo) : Prop where
  apart : maps.Pairwise fun m n => m.range.Apart n.range
  mapped : ∀ m ∈ maps, ∀ a ∈ m.range, ∃ c, t a = some c ∧ c.perms = m.perms
  paths : ∀ m ∈ maps, ∀ a ∈ m.range, ∀ c path, t a = some c → c.backing = .file path → m.path = path

/-- The access of an address, if it changed, has lost the write permission it had beside the others. -/
def Weaker (perms perms' : BitVec 8) : Prop :=
  perms' = perms ∨ (perms &&& rwx = rwx ∧ perms' = perms &&& ~~~PROT_WRITE)

theorem Weaker.trans {perms perms' perms'' : BitVec 8} (h : Weaker perms perms') (h' : Weaker perms' perms'') :
    Weaker perms perms'' := by
  rcases h with rfl | ⟨hall, rfl⟩
  · exact h'
  · rcases h' with rfl | ⟨hall', rfl⟩
    · exact Or.inr ⟨hall, rfl⟩
    · refine Or.inr ⟨hall, ?_⟩
      rw [BitVec.and_assoc, BitVec.and_self]

theorem finalPerms_weaker (k : SpoofAnswers) (m : MapInfo) (clear : Bool) : Weaker m.perms (finalPerms k m clear) := by
  unfold finalPerms
  split_ifs with hdrop
  · rw [Bool.and_eq_true, Bool.and_eq_true, decide_eq_true_eq] at hdrop
    exact Or.inr ⟨hdrop.1.2, rfl⟩
  · exact Or.inl rfl

/-- The process behind one map. -/
def afterMap (kernel : Nat → SpoofAnswers) (marker : String) (clear : Bool) (s : Spoofer) (m : MapInfo) : Spoofer :=
  { s.spoofMap (kernel s.calls) m marker clear with calls := s.calls + 1 }

variable {kernel : Nat → SpoofAnswers} {maps : List MapInfo}

theorem Scanned.head {maps : List MapInfo} (h : Scanned s.table (m :: maps)) :
    ∀ a ∈ m.range, ∃ c, s.table a = some c ∧ c.perms = m.perms := h.mapped m List.mem_cons_self

/-- Behind a map the scan still holds for those that follow. -/
theorem Scanned.tail (h : Scanned s.table (m :: maps)) (hsize : s.pool.length = kPoolSize) :
    Scanned (s.afterMap kernel marker clear m).table maps := by
  obtain ⟨-, -, hout, -⟩ := spoofMap_spec (kernel s.calls) marker clear hsize h.head
  obtain ⟨hm, happart⟩ := List.pairwise_cons.1 h.apart
  have hsame : ∀ n ∈ maps, ∀ a ∈ n.range, ∃ c, s.table a = some c ∧ c.perms = n.perms ∧
      (s.afterMap kernel marker clear m).table a = some c := fun n hn a ha => by
    obtain ⟨c, hc, hperms⟩ := h.mapped n (List.mem_cons_of_mem _ hn) a ha
    exact ⟨c, hc, hperms, hout a ((hm n hn).symm.not_mem ha) c hc⟩
  refine ⟨happart, fun n hn a ha => ?_, fun n hn a ha c path hc hfile => ?_⟩
  · obtain ⟨c, -, hperms, hc⟩ := hsame n hn a ha
    exact ⟨c, hc, hperms⟩
  · obtain ⟨c', hc', -, hafter⟩ := hsame n hn a ha
    rw [hc, Option.some_inj] at hafter
    exact h.paths n (List.mem_cons_of_mem _ hn) a ha c path (hafter ▸ hc') hfile

theorem spoofVirtualMaps_spec (kernel : Nat → SpoofAnswers) (marker : String) (clear : Bool)
    (hsize : s.pool.length = kPoolSize) (hscan : Scanned s.table maps) :
    Grows s (s.spoofVirtualMaps kernel marker clear maps) ∧
      (s.spoofVirtualMaps kernel marker clear maps).pool.length = kPoolSize ∧
      (∀ a, (∀ m ∈ maps, a ∉ m.range) → ∀ c, s.table a = some c →
        (s.spoofVirtualMaps kernel marker clear maps).table a = some c) ∧
      ∀ a c, s.table a = some c → ∃ c', (s.spoofVirtualMaps kernel marker clear maps).table a = some c' ∧
        Weaker c.perms c'.perms := by
  induction maps generalizing s with
  | nil => exact ⟨grows_refl s, hsize, fun _ _ _ hc => hc, fun a c hc => ⟨c, hc, Or.inl rfl⟩⟩
  | cons m maps ih =>
    obtain ⟨hgrows, hsize', hout, hin⟩ :=
      spoofMap_spec (kernel s.calls) marker clear hsize hscan.head
    have hcount : Grows s (s.afterMap kernel marker clear m) := hgrows.trans (grows_of_table rfl
      (fun a c hc => ⟨c, hc, rfl, Or.inl rfl⟩) fun _ hnone => hnone)
    obtain ⟨hgrows', hsize'', hout', hweaker⟩ := ih (s := s.afterMap kernel marker clear m) hsize' (hscan.tail hsize)
    refine ⟨hcount.trans hgrows', hsize'', fun a ha c hc => ?_, fun a c hc => ?_⟩
    · exact hout' a (fun n hn => ha n (List.mem_cons_of_mem _ hn)) c (hout a (ha m List.mem_cons_self) c hc)
    · by_cases ha : a ∈ m.range
      · obtain ⟨c', hc', hperms, -⟩ := hin a ha c hc
        have hother : ∀ n ∈ maps, a ∉ n.range := fun n hn =>
          ((List.pairwise_cons.1 hscan.apart).1 n hn).not_mem ha
        refine ⟨c', hout' a hother c' hc', ?_⟩
        obtain ⟨c'', hc'', hperms'⟩ := hscan.head a ha
        rw [hc, Option.some_inj] at hc''
        rw [hperms, hc'', hperms']
        exact finalPerms_weaker _ m clear
      · exact hweaker a c (hout a ha c hc)

/-- What `anonymize_range` says of the maps whose paths show. -/
def copies (kernel : Nat → SpoofAnswers) (marker : String) (clear : Bool) : List MapInfo → Spoofer → List Bool
  | [], _ => []
  | m :: maps, s =>
    let rest := copies kernel marker clear maps (s.afterMap kernel marker clear m)
    if shows m.path marker then (s.anonymizeRange (kernel s.calls) m).2 :: rest else rest

/-- Where each copy succeeds, no map that was scanned shows the marker any more. -/
theorem spoof_hides (hsize : s.pool.length = kPoolSize) (hscan : Scanned s.table maps)
    (hcopies : ∀ b ∈ copies kernel marker clear maps s, b = true) (hm : m ∈ maps) {a : Nat} (ha : a ∈ m.range)
    {c : Mappings.Cell} {path : String} (hc : (s.spoofVirtualMaps kernel marker clear maps).table a = some c)
    (hfile : c.backing = .file path) : shows path marker = false := by
  induction maps generalizing s with
  | nil => exact absurd hm List.not_mem_nil
  | cons first maps ih =>
    obtain ⟨-, hsize', hout, hin⟩ :=
      spoofMap_spec (kernel s.calls) marker clear hsize hscan.head
    have hscan' : Scanned (s.afterMap kernel marker clear first).table maps := hscan.tail hsize
    rw [copies] at hcopies
    have hrest : ∀ b ∈ copies kernel marker clear maps (s.afterMap kernel marker clear first), b = true := by
      intro b hb
      split_ifs at hcopies
      · exact hcopies b (List.mem_cons_of_mem _ hb)
      · exact hcopies b hb
    rcases List.mem_cons.1 hm with rfl | hm
    · obtain ⟨-, -, hlast, -⟩ := spoofVirtualMaps_spec kernel marker clear
        (s := s.afterMap kernel marker clear m) hsize' hscan'
      obtain ⟨c₀, hc₀, -⟩ := hscan.head a ha
      obtain ⟨c', hc', -, hpath⟩ := hin a ha c₀ hc₀
      have hafter := hlast a (fun n hn => ((List.pairwise_cons.1 hscan.apart).1 n hn).not_mem ha) c' hc'
      have hsame : (s.spoofVirtualMaps kernel marker clear (m :: maps)).table a = some c' := hafter
      rw [hc, Option.some_inj] at hsame
      rw [← hsame] at hpath
      obtain ⟨hfile₀, hkeeps⟩ := (hpath path).1 hfile
      have heq := hscan.paths m List.mem_cons_self a ha c₀ path hc₀ hfile₀
      rw [keepsPath, Bool.or_eq_true, Bool.not_eq_true', Bool.not_eq_true', heq] at hkeeps
      rcases hkeeps with hkeeps | hfails
      · exact hkeeps
      · by_contra hshows
        rw [Bool.not_eq_false] at hshows
        rw [heq, if_pos hshows] at hcopies
        exact absurd ((hcopies _ List.mem_cons_self).symm.trans hfails) (by simp)
    · exact ih (s := s.afterMap kernel marker clear first) hsize' hscan' hrest hm hc

/-! ### Runs -/

/-- A process that has named nothing. -/
def initial (table : Table) : Spoofer := ⟨table, List.replicate kPoolSize none, 0, 0⟩

inductive Step (kernel : Nat → SpoofAnswers) : Spoofer → Spoofer → Prop
  | spoof (s : Spoofer) (marker : String) (clear : Bool) (maps : List MapInfo) (hscan : Scanned s.table maps) :
    Step kernel s (s.spoofVirtualMaps kernel marker clear maps)

theorem run_spec {table : Table} (hrun : Relation.ReflTransGen (Step kernel) (initial table) s) :
    Grows (initial table) s ∧ s.pool.length = kPoolSize ∧
      ∀ a c, table a = some c → ∃ c', s.table a = some c' ∧ Weaker c.perms c'.perms := by
  induction hrun with
  | refl => exact ⟨grows_refl _, List.length_replicate, fun a c hc => ⟨c, hc, Or.inl rfl⟩⟩
  | tail _ hstep ih =>
    obtain ⟨hgrows, hsize, hweaker⟩ := ih
    cases hstep with
    | spoof marker clear maps hscan =>
      obtain ⟨hgrows', hsize', -, hweaker'⟩ := spoofVirtualMaps_spec kernel marker clear hsize hscan
      refine ⟨hgrows.trans hgrows', hsize', fun a c hc => ?_⟩
      obtain ⟨c', hc', hperms⟩ := hweaker a c hc
      obtain ⟨c'', hc'', hperms'⟩ := hweaker' a c' hc'
      exact ⟨c'', hc'', hperms.trans hperms'⟩

/-- The loader, at 16, and another library. -/
def twoLibraries : Table := fun a =>
  if 16 ≤ a ∧ a < 32 then some ⟨7, PROT_READ, .file "/memfd:zygisk-module"⟩
  else if 32 ≤ a ∧ a < 48 then some ⟨9, rwx, .file "/libart.so"⟩
  else none

def libraryMaps : List MapInfo :=
  [⟨16, 32, PROT_READ, true, 0, 0, 5, "/memfd:zygisk-module"⟩, ⟨32, 48, rwx, true, 0, 1, 6, "/libart.so"⟩]

def roomy (_ : Nat) : SpoofAnswers := ⟨some 64, true, some 8192, true, true⟩

theorem libraryMaps_scanned : Scanned twoLibraries libraryMaps := by
  have hcell : ∀ m ∈ libraryMaps, ∀ a ∈ m.range, ∃ byte, twoLibraries a = some ⟨byte, m.perms, .file m.path⟩ := by
    intro m hm a ha
    have hrange : m.start ≤ a ∧ a < m.stop := ha
    rcases List.mem_pair.1 hm with rfl | rfl
    · exact ⟨7, if_pos hrange⟩
    · exact ⟨9, (if_neg fun h => absurd hrange.1 (Nat.not_le.2 h.2)).trans (if_pos hrange)⟩
  refine ⟨by decide, fun m hm a ha => ?_, fun m hm a ha c path hc hfile => ?_⟩
  · obtain ⟨byte, hbyte⟩ := hcell m hm a ha
    exact ⟨_, hbyte, rfl⟩
  · obtain ⟨byte, hbyte⟩ := hcell m hm a ha
    rw [hc, Option.some_inj] at hbyte
    rw [hbyte] at hfile
    exact Backing.file.inj hfile

theorem spoof_hides_two : ¬ ∃ c, ((initial twoLibraries).spoofVirtualMaps roomy "zygisk-module" true
    libraryMaps).table 20 = some c ∧ c.backing = .file "/memfd:zygisk-module" := by
  rintro ⟨c, hc, hfile⟩
  have hcopies : ∀ b ∈ copies roomy "zygisk-module" true libraryMaps (initial twoLibraries), b = true := by decide
  have hshows := spoof_hides rfl libraryMaps_scanned hcopies List.mem_cons_self (by decide) hc hfile
  exact absurd hshows (by decide)

end Spoofer

end OnyxZygisk.Loader

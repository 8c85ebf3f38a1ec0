import OnyxZygisk.Lib.AddressSpace
import OnyxZygisk.Ptracer.RemoteLoader

/-!
# The tracee's memory

The kernel side of the loader's operations: what `mmap`, `mprotect` and `process_vm_writev` do to the tracee's memory,
when they refuse nothing they are rightly asked for. A library whose segments go with the pages is laid out in the
reserved span, and every address the loader computes for a segment is the one meant (`placing`).
-/

namespace OnyxZygisk.Ptracer

variable {abi : Abi}

/-! ### The kernel -/

/-- The tracee's memory, and the ranges that were mapped with `MAP_FIXED`. -/
structure Image (abi : Abi) where
  cells : AddressSpace (Word abi)
  fixed : List (Nat × Nat)

/-- What the kernel knows of the library: its bytes, zeros behind them, and a place for a mapping. -/
structure Kernel (abi : Abi) where
  page : Nat
  file : List UInt8
  place : Word abi
  /-- File offsets are signed. -/
  file_lt : file.length < 2 ^ (abi.bits - 1)

namespace Kernel

variable (k : Kernel abi)

/-- The 32-bit ABIs count the offset in pages. -/
def offsetOf (offset : Word abi) : Nat := if abi.lp64 then offset.toNat else offset.toNat * k.page

/-- What `mmap` puts at a distance from the start of the mapping. -/
def content (flags offset : Word abi) (i : Nat) : UInt8 :=
  if flags &&& MAP_ANONYMOUS ≠ 0 then 0 else k.file.getD (k.offsetOf offset + i) 0

def mmap (s : Image abi) (addr len prot flags offset : Word abi) : Word abi × Image abi :=
  let isFixed := flags &&& MAP_FIXED ≠ 0
  -- the kernel maps whole pages, from a page on
  if len = 0 ∨ (isFixed ∧ ¬ k.page ∣ addr.toNat) then (-EINVAL, s)
  else
    let start := if isFixed then addr else k.place
    let size := pageUp k.page len.toNat
    (start, ⟨s.cells.map start.toNat size (k.content flags offset) prot,
      if isFixed then (start.toNat, size) :: s.fixed else s.fixed⟩)

def syscall (s : Image abi) : Syscall abi → Word abi × Image abi
  | .openat _ => (3, s)
  | .mmap addr len prot flags _ offset => k.mmap s addr len prot flags offset
  | .munmap addr len => (0, { s with cells := s.cells.unmap addr.toNat (pageUp k.page len.toNat) })
  | .mprotect addr len prot => (0, { s with cells := s.cells.protect addr.toNat (pageUp k.page len.toNat) prot })
  | .close _ => (0, s)

def writable (s : Image abi) (a : Nat) : Bool := (s.cells a).any fun cell => cell.prot &&& PROT_WRITE ≠ 0

/-- `process_vm_writev` obeys the protections. -/
def write (s : Image abi) (addr : Word abi) (data : List UInt8) : Int × Image abi :=
  if (List.range data.length).all fun i => writable s (addr.toNat + i) then
    (data.length, { s with cells := s.cells.store addr.toNat data })
  else (-1, s)

/-- A word, the lowest byte first. -/
def readWord (s : Image abi) (addr : Word abi) : Option (Word abi) :=
  ((List.range abi.wordSize).mapM fun i => (s.cells (addr.toNat + i)).map Cell.byte).map fun bytes =>
    BitVec.ofNat _ (bytes.foldr (fun b n => b.toNat + 256 * n) 0)

/-- An operation on the tracee's memory. No function of the tracee is called while the image is built. -/
def step (s : Image abi) : (op : RemoteOp abi) → op.Resp × Image abi
  | .syscall call => k.syscall s call
  | .writeProc addr data => write s addr data
  | .readWord addr => (readWord s addr, s)
  | .remoteCall _ _ _ => (none, s)
  | .setRegs _ => (true, s)
  | .assignRegs _ => ((), s)
  | .calloc _ => (true, s)

def exec : Prog.Exec (@RemoteOp.Resp abi) (Kernel abi) (Image abi) := fun k op s => some (k.step s op)

end Kernel

/-! ### The library -/

/-- The `PT_LOAD` entries. -/
def loads (phdrs : List (Phdr abi)) : List (Phdr abi) := phdrs.filter fun ph => ph.pType = PT_LOAD

namespace Phdr

variable (ph : Phdr abi) (page : Nat)

/-- The first page of a segment, and the end of its last one. -/
def firstPage : Nat := pageDown page ph.pVaddr.toNat

def endPage : Nat := pageUp page (ph.pVaddr.toNat + ph.pMemsz.toNat)

/-- The end of the last page with bytes of the file. -/
def fileEndPage : Nat := pageUp page (ph.pVaddr.toNat + ph.pFilesz.toNat)

end Phdr

/-- The segments go together with the pages, each in pages of its own. -/
structure PageWise (k : Kernel abi) (phdrs : List (Phdr abi)) : Prop where
  congruent : ∀ ph ∈ loads phdrs, ph.pOffset.toNat % k.page = ph.pVaddr.toNat % k.page
  filesz_le : ∀ ph ∈ loads phdrs, ph.pFilesz.toNat ≤ ph.pMemsz.toNat
  disjoint : (loads phdrs).Pairwise fun a b =>
    a.endPage k.page ≤ b.firstPage k.page ∨ b.endPage k.page ≤ a.firstPage k.page
  /-- A segment is a range of addresses, and of the file. -/
  memory : ∀ ph ∈ loads phdrs, ph.pVaddr.toNat + ph.pMemsz.toNat < 2 ^ abi.bits
  inFile : ∀ ph ∈ loads phdrs, 0 < ph.pFilesz.toNat → ph.pOffset.toNat + ph.pFilesz.toNat ≤ k.file.length

/-- The span is reserved, at a place that `mmap` gives. -/
structure SpanReserved (c : LoaderConfig abi) (r : Reserved abi) (k : Kernel abi) : Prop where
  layout : computeLoadLayout c.pageSize r.lib = some r.layout
  page : c.pageSize.toNat = k.page
  power : ∃ p, k.page = 2 ^ p
  positive : c.pageSize.sle 0 = false
  size : r.layout.mapSize ≠ 0
  base : r.remoteBase ≠ 0
  aligned : k.page ∣ r.remoteBase.toNat
  room : r.remoteBase.toNat + r.layout.mapSize.toNat < 2 ^ abi.bits

/-- The memory with the span reserved. -/
def Image.reserved (before : Image abi) (r : Reserved abi) : Image abi :=
  ⟨before.cells.map r.remoteBase.toNat r.layout.mapSize.toNat (fun _ => 0) PROT_NONE, []⟩

/-! ### The span -/

section Span

variable {c : LoaderConfig abi} {r : Reserved abi} {k : Kernel abi} {ph : Phdr abi} {phdrs : List (Phdr abi)}

theorem toNat_pageStart {p : Nat} {pageSize : Word abi} (hpage : pageSize.toNat = 2 ^ p) (x : Word abi) :
    (pageStart x pageSize).toNat = pageDown pageSize.toNat x.toNat := toNat_and_not x pageSize hpage

/-- Rounding up wraps at the end of the address space only. -/
theorem toNat_pageEnd {p : Nat} {pageSize : Word abi} (hpage : pageSize.toNat = 2 ^ p) (x : Word abi) :
    (pageEnd x pageSize).toNat = pageUp pageSize.toNat x.toNat % 2 ^ abi.bits :=
  toNat_add_and_not x pageSize hpage

/-- A turn of the loop over the segments. -/
def widen (span : Word abi × Word abi) (ph : Phdr abi) : Word abi × Word abi :=
  if ph.pType ≠ PT_LOAD then span
  else (if ph.pVaddr < span.1 then ph.pVaddr else span.1,
    if span.2 < ph.pVaddr + ph.pMemsz then ph.pVaddr + ph.pMemsz else span.2)

theorem widen_grows (span : Word abi × Word abi) (ph : Phdr abi) :
    (widen span ph).1.toNat ≤ span.1.toNat ∧ span.2.toNat ≤ (widen span ph).2.toNat := by
  unfold widen
  split_ifs with htype hlow hhigh hhigh
  · exact ⟨le_rfl, le_rfl⟩
  · exact ⟨(BitVec.lt_def.1 hlow).le, (BitVec.lt_def.1 hhigh).le⟩
  · exact ⟨(BitVec.lt_def.1 hlow).le, le_rfl⟩
  · exact ⟨le_rfl, (BitVec.lt_def.1 hhigh).le⟩
  · exact ⟨le_rfl, le_rfl⟩

theorem widen_covers (span : Word abi × Word abi) (htype : ph.pType = PT_LOAD)
    (hmemory : ph.pVaddr.toNat + ph.pMemsz.toNat < 2 ^ abi.bits) : (widen span ph).1.toNat ≤ ph.pVaddr.toNat ∧
      ph.pVaddr.toNat + ph.pMemsz.toNat ≤ (widen span ph).2.toNat := by
  have hend := BitVec.toNat_add_of_lt hmemory
  unfold widen
  rw [if_neg (not_not.2 htype), ← hend]
  constructor
  · dsimp only
    split_ifs with hlow
    · exact le_rfl
    · exact Nat.not_lt.1 fun h => hlow (BitVec.lt_def.2 h)
  · dsimp only
    split_ifs with hhigh
    · exact le_rfl
    · exact Nat.not_lt.1 fun h => hhigh (BitVec.lt_def.2 h)

theorem foldl_widen (phdrs : List (Phdr abi)) (span : Word abi × Word abi) :
    (phdrs.foldl widen span).1.toNat ≤ span.1.toNat ∧ span.2.toNat ≤ (phdrs.foldl widen span).2.toNat := by
  induction phdrs generalizing span with
  | nil => exact ⟨le_rfl, le_rfl⟩
  | cons ph phdrs ih =>
    have hstep := widen_grows span ph
    have hrest := ih (widen span ph)
    exact ⟨hrest.1.trans hstep.1, hstep.2.trans hrest.2⟩

/-- Every segment lies between the two ends of `loadSpan`. -/
theorem loadSpan_bounds (hph : ph ∈ loads phdrs) (hmemory : ph.pVaddr.toNat + ph.pMemsz.toNat < 2 ^ abi.bits) :
    (loadSpan phdrs).1.toNat ≤ ph.pVaddr.toNat ∧
      ph.pVaddr.toNat + ph.pMemsz.toNat ≤ (loadSpan phdrs).2.toNat := by
  obtain ⟨hmem, htype⟩ := List.mem_filter.1 hph
  obtain ⟨front, back, rfl⟩ := List.append_of_mem hmem
  have hcovers := widen_covers (front.foldl widen (-1, 0)) (of_decide_eq_true htype) hmemory
  have hrest := foldl_widen back (widen (front.foldl widen (-1, 0)) ph)
  have hfold : loadSpan (front ++ ph :: back) = back.foldl widen (widen (front.foldl widen (-1, 0)) ph) := by
    show (front ++ ph :: back).foldl widen (-1, 0) = _
    rw [List.foldl_append, List.foldl_cons]
  rw [hfold]
  exact ⟨hrest.1.trans hcovers.1, hcovers.2.trans hrest.2⟩

/-- What is known of the span: whole pages, with a page above it, and every segment's pages in it. -/
structure SpanFacts (r : Reserved abi) (k : Kernel abi) : Prop where
  pos : 0 < k.page
  dvd_base : k.page ∣ r.remoteBase.toNat
  dvd_vaddr : k.page ∣ r.layout.minVaddr.toNat
  dvd_size : k.page ∣ r.layout.mapSize.toNat
  top : r.remoteBase.toNat + r.layout.mapSize.toNat + k.page ≤ 2 ^ abi.bits
  low : ∀ ph ∈ loads r.layout.phdrs, r.layout.minVaddr.toNat ≤ ph.firstPage k.page
  high : ∀ ph ∈ loads r.layout.phdrs, ph.endPage k.page ≤ r.layout.minVaddr.toNat + r.layout.mapSize.toNat

theorem spanFacts (hspan : SpanReserved c r k) (hpages : PageWise k r.layout.phdrs) : SpanFacts r k := by
  obtain ⟨p, hp⟩ := hspan.power
  have hpage : c.pageSize.toNat = 2 ^ p := hspan.page.trans hp
  have hpos : 0 < k.page := hp ▸ Nat.two_pow_pos p
  have hbits : k.page ∣ 2 ^ abi.bits := by
    have hlt : p < abi.bits := (Nat.pow_lt_pow_iff_right (by decide)).1 (hpage ▸ c.pageSize.isLt)
    exact hp ▸ Nat.pow_dvd_pow 2 hlt.le
  have hlayout := hspan.layout
  unfold computeLoadLayout at hlayout
  split_ifs at hlayout with hident
  cases hphdrs : r.lib.phdrs with
  | none => rw [hphdrs] at hlayout; nomatch hlayout
  | some phdrs =>
    rw [hphdrs] at hlayout
    dsimp only at hlayout
    split_ifs at hlayout with hempty
    have heq := Option.some.inj hlayout
    have hlist : r.layout.phdrs = phdrs := by rw [← heq]
    have hmin : r.layout.minVaddr.toNat = pageDown k.page (loadSpan phdrs).1.toNat := by
      rw [← heq, ← hspan.page]
      exact toNat_pageStart hpage _
    have hend := toNat_pageEnd hpage (loadSpan phdrs).2
    have hlohi : (loadSpan phdrs).1.toNat < (loadSpan phdrs).2.toNat :=
      Nat.not_le.1 fun h => hempty (BitVec.le_def.2 h)
    have hminle : r.layout.minVaddr.toNat ≤ pageUp k.page (loadSpan phdrs).2.toNat := by
      rw [hmin]
      exact (pageDown_le _ _).trans (hlohi.le.trans (le_pageUp hpos _))
    have hendle : pageUp k.page (loadSpan phdrs).2.toNat ≤ 2 ^ abi.bits :=
      pageUp_le hpos hbits (loadSpan phdrs).2.isLt.le
    have hsize : r.layout.mapSize.toNat = pageUp k.page (loadSpan phdrs).2.toNat - r.layout.minVaddr.toNat := by
      have hne : r.layout.mapSize.toNat ≠ 0 := fun h => hspan.size (BitVec.eq_of_toNat_eq h)
      have hsub : r.layout.mapSize.toNat = (2 ^ abi.bits - r.layout.minVaddr.toNat +
          pageUp k.page (loadSpan phdrs).2.toNat % 2 ^ abi.bits) % 2 ^ abi.bits := by
        rw [← heq, ← hspan.page, ← hend]
        exact BitVec.toNat_sub _ _
      rcases hendle.lt_or_eq with hlt | hfull
      · have hswap : 2 ^ abi.bits - r.layout.minVaddr.toNat + pageUp k.page (loadSpan phdrs).2.toNat =
            pageUp k.page (loadSpan phdrs).2.toNat - r.layout.minVaddr.toNat + 2 ^ abi.bits := by omega
        rw [hsub, Nat.mod_eq_of_lt hlt, hswap, Nat.add_mod_right, Nat.mod_eq_of_lt (by omega)]
      · rw [hfull, Nat.mod_self, Nat.add_zero] at hsub
        rcases Nat.eq_zero_or_pos r.layout.minVaddr.toNat with hzero | hvaddr
        · rw [hzero, Nat.sub_zero, Nat.mod_self] at hsub
          exact absurd hsub hne
        · rw [hsub, hfull, Nat.mod_eq_of_lt (by omega)]
    have hdvd : k.page ∣ r.layout.minVaddr.toNat := hmin ▸ dvd_pageDown k.page _
    have hdvd_size : k.page ∣ r.layout.mapSize.toNat := hsize ▸ Nat.dvd_sub (dvd_pageUp k.page _) hdvd
    have hdvd_end := Nat.dvd_add hspan.aligned hdvd_size
    have hroom := hspan.room
    refine ⟨hpos, hspan.aligned, hdvd, hdvd_size, ?_, ?_, ?_⟩
    · exact Nat.le_of_lt_add_of_dvd (by omega) (Nat.dvd_add_self_right.2 hdvd_end) hbits
    · intro ph hph
      have hbounds := loadSpan_bounds (hlist ▸ hph) (hpages.memory ph hph)
      rw [hmin]
      exact pageDown_mono hbounds.1
    · intro ph hph
      have hbounds := loadSpan_bounds (hlist ▸ hph) (hpages.memory ph hph)
      have hup : ph.endPage k.page ≤ pageUp k.page (loadSpan phdrs).2.toNat := pageUp_mono hbounds.2
      omega

/-! ### Addresses -/

/-- Where an address of the file comes to lie. -/
def Reserved.at (r : Reserved abi) (x : Nat) : Nat := r.remoteBase.toNat + (x - r.layout.minVaddr.toNat)

variable {x : Nat} {v : Word abi}

theorem toNat_add_loadBias (hfacts : SpanFacts r k) (hv : v.toNat = x) (hlow : r.layout.minVaddr.toNat ≤ x)
    (hhigh : x ≤ r.layout.minVaddr.toNat + r.layout.mapSize.toNat) : (v + r.loadBias).toNat = r.at x := by
  have htop := hfacts.top
  have hmin := r.layout.minVaddr.isLt
  have hsum : x + (2 ^ abi.bits - r.layout.minVaddr.toNat + r.remoteBase.toNat) =
      r.remoteBase.toNat + (x - r.layout.minVaddr.toNat) + 2 ^ abi.bits := by omega
  rw [Reserved.loadBias, BitVec.toNat_add, BitVec.toNat_sub, hv, Nat.add_mod_mod, hsum, Nat.add_mod_right]
  have hpos := hfacts.pos
  exact Nat.mod_eq_of_lt (by omega)

theorem pageDown_at (hfacts : SpanFacts r k) (hlow : r.layout.minVaddr.toNat ≤ x) :
    pageDown k.page (r.at x) = r.at (pageDown k.page x) := by
  have hmove := pageDown_add hfacts.pos hfacts.dvd_vaddr (x - r.layout.minVaddr.toNat)
  rw [Nat.add_sub_cancel' hlow] at hmove
  unfold Reserved.at
  rw [pageDown_add hfacts.pos hfacts.dvd_base, hmove]
  omega

theorem pageUp_at (hfacts : SpanFacts r k) (hlow : r.layout.minVaddr.toNat ≤ x) :
    pageUp k.page (r.at x) = r.at (pageUp k.page x) := by
  have hmove := pageUp_add hfacts.pos hfacts.dvd_vaddr (x - r.layout.minVaddr.toNat)
  rw [Nat.add_sub_cancel' hlow] at hmove
  unfold Reserved.at
  rw [pageUp_add hfacts.pos hfacts.dvd_base, hmove]
  omega

theorem toNat_pageEnd_at (hspan : SpanReserved c r k) (hfacts : SpanFacts r k) (hv : v.toNat = r.at x)
    (hlow : r.layout.minVaddr.toNat ≤ x) (hhigh : x ≤ r.layout.minVaddr.toNat + r.layout.mapSize.toNat) :
    (pageEnd v c.pageSize).toNat = r.at (pageUp k.page x) := by
  obtain ⟨p, hp⟩ := hspan.power
  have hup : pageUp k.page x ≤ r.layout.minVaddr.toNat + r.layout.mapSize.toNat :=
    pageUp_le hfacts.pos (Nat.dvd_add hfacts.dvd_vaddr hfacts.dvd_size) hhigh
  have htop := hfacts.top
  have hpos := hfacts.pos
  have hlt : r.at (pageUp k.page x) < 2 ^ abi.bits := by
    unfold Reserved.at
    omega
  rw [toNat_pageEnd (hspan.page.trans hp), hspan.page, hv, pageUp_at hfacts hlow, Nat.mod_eq_of_lt hlt]

/-- A segment's addresses in the span, and what the loop computes from them. -/
structure Placing (c : LoaderConfig abi) (r : Reserved abi) (k : Kernel abi) (ph : Phdr abi) : Prop where
  segStart : (ph.segStart r).toNat = r.at ph.pVaddr.toNat
  segPage : (ph.segPage c r).toNat = r.at (ph.firstPage k.page)
  fileEnd : (ph.fileEnd r).toNat = r.at (ph.pVaddr.toNat + ph.pFilesz.toNat)
  filePageEnd : (ph.filePageEnd c r).toNat = r.at (ph.fileEndPage k.page)
  segPageEnd : (ph.segPageEnd c r).toNat = r.at (ph.endPage k.page)
  /-- From the lowest page of the span up to its end. -/
  order : r.layout.minVaddr.toNat ≤ ph.firstPage k.page ∧ ph.firstPage k.page ≤ ph.pVaddr.toNat ∧
    ph.pVaddr.toNat + ph.pFilesz.toNat ≤ ph.fileEndPage k.page ∧ ph.fileEndPage k.page ≤ ph.endPage k.page ∧
      ph.endPage k.page ≤ r.layout.minVaddr.toNat + r.layout.mapSize.toNat

theorem placing (hspan : SpanReserved c r k) (hpages : PageWise k r.layout.phdrs) (hph : ph ∈ loads r.layout.phdrs) :
    Placing c r k ph := by
  have hfacts := spanFacts hspan hpages
  obtain ⟨p, hp⟩ := hspan.power
  have hlow := hfacts.low ph hph
  have hhigh := hfacts.high ph hph
  have hfirst : ph.firstPage k.page ≤ ph.pVaddr.toNat := pageDown_le _ _
  have hfilesz := hpages.filesz_le ph hph
  have hmemory := hpages.memory ph hph
  have hend : ph.pVaddr.toNat + ph.pMemsz.toNat ≤ ph.endPage k.page := le_pageUp hfacts.pos _
  have hstart : (ph.segStart r).toNat = r.at ph.pVaddr.toNat :=
    toNat_add_loadBias hfacts rfl (by omega) (by omega)
  have hfileEnd : (ph.fileEnd r).toNat = r.at (ph.pVaddr.toNat + ph.pFilesz.toNat) :=
    toNat_add_loadBias hfacts (BitVec.toNat_add_of_lt (by omega)) (by omega) (by omega)
  have hsegEnd : (ph.pVaddr + ph.pMemsz + r.loadBias).toNat = r.at (ph.pVaddr.toNat + ph.pMemsz.toNat) :=
    toNat_add_loadBias hfacts (BitVec.toNat_add_of_lt hmemory) (by omega) (by omega)
  constructor
  · exact hstart
  · rw [Phdr.segPage, toNat_pageStart (hspan.page.trans hp), hspan.page, hstart, pageDown_at hfacts (by omega)]
    rfl
  · exact hfileEnd
  · exact toNat_pageEnd_at hspan hfacts hfileEnd (by omega) (by omega)
  · exact toNat_pageEnd_at hspan hfacts hsegEnd (by omega) (by omega)
  · exact ⟨hlow, hfirst, le_pageUp hfacts.pos _, pageUp_mono (by omega), hhigh⟩

/-- The comparisons of the loop. -/
theorem Placing.tail_iff (hplace : Placing c r k ph) : ph.fileEnd r < ph.filePageEnd c r ↔
    ph.pVaddr.toNat + ph.pFilesz.toNat < ph.fileEndPage k.page := by
  have horder := hplace.order
  rw [BitVec.lt_def, hplace.fileEnd, hplace.filePageEnd]
  unfold Reserved.at
  omega

theorem Placing.bss_iff (hplace : Placing c r k ph) : ph.filePageEnd c r < ph.segPageEnd c r ↔
    ph.fileEndPage k.page < ph.endPage k.page := by
  have horder := hplace.order
  rw [BitVec.lt_def, hplace.filePageEnd, hplace.segPageEnd]
  unfold Reserved.at
  omega

/-- The distance of two words that lie in the span. -/
theorem toNat_sub_at {first last : Word abi} {x y : Nat} (hfirst : first.toNat = r.at x) (hlast : last.toNat = r.at y)
    (hlow : r.layout.minVaddr.toNat ≤ x) (hle : x ≤ y) : (last - first).toNat = y - x := by
  have hword : first ≤ last := by
    rw [BitVec.le_def, hfirst, hlast]
    unfold Reserved.at
    omega
  rw [BitVec.toNat_sub_of_le hword, hlast, hfirst]
  unfold Reserved.at
  omega

end Span

end OnyxZygisk.Ptracer

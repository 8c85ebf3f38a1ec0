import Mathlib.Data.List.GetD
import OnyxZygisk.Ptracer.RemoteMemory

/-!
# The image the loader builds

Each turn of the mapping loop makes its segment's pages, and no turn touches another one's. A segment holds what the
file has for it and zeros behind, but for the last file page of a segment that is not writable, where the file goes on;
then it has its own protection, if it is among the first 64 (`image_loaded`).
-/

namespace OnyxZygisk.Ptracer

variable {abi : Abi}

/-! ### A turn of the mapping loop -/

section Turn

variable {c : LoaderConfig abi} {r : Reserved abi} {k : Kernel abi} {ph : Phdr abi} {s : Image abi}

/-- What a turn leaves at an address of the file, where `old` was. -/
def Phdr.mappedCell (ph : Phdr abi) (k : Kernel abi) (x : Nat) (old : Option (Cell (Word abi))) :
    Option (Cell (Word abi)) :=
  if 0 < ph.pFilesz.toNat ∧ x < ph.fileEndPage k.page then
    -- the rest of the last file page is zeroed in a writable segment only
    some ⟨if ph.writable ∧ ph.pVaddr.toNat + ph.pFilesz.toNat ≤ x then 0
      else k.file.getD (ph.pOffset.toNat + x - ph.pVaddr.toNat) 0, PROT_READ ||| PROT_WRITE⟩
  else if ph.fileEndPage k.page ≤ x then some ⟨0, PROT_READ ||| PROT_WRITE⟩
  else old

/-- A turn changes its own pages only. -/
structure Turned (r : Reserved abi) (k : Kernel abi) (ph : Phdr abi) (s s' : Image abi) : Prop where
  inside : ∀ x, ph.firstPage k.page ≤ x → x < ph.endPage k.page →
    s'.cells (r.at x) = ph.mappedCell k x (s.cells (r.at x))
  outside : ∀ a, ¬ (r.at (ph.firstPage k.page) ≤ a ∧ a < r.at (ph.endPage k.page)) → s'.cells a = s.cells a
  fixed : ∀ range ∈ s'.fixed, range ∈ s.fixed ∨
    r.at (ph.firstPage k.page) ≤ range.1 ∧ range.1 + range.2 ≤ r.at (ph.endPage k.page)

theorem fixed_file : ((MAP_FIXED ||| MAP_PRIVATE : Word abi) &&& MAP_FIXED ≠ 0) ∧
    ¬ ((MAP_FIXED ||| MAP_PRIVATE : Word abi) &&& MAP_ANONYMOUS ≠ 0) := by
  cases abi <;> decide

theorem fixed_anonymous : ((MAP_FIXED ||| MAP_PRIVATE ||| MAP_ANONYMOUS : Word abi) &&& MAP_FIXED ≠ 0) ∧
    ((MAP_FIXED ||| MAP_PRIVATE ||| MAP_ANONYMOUS : Word abi) &&& MAP_ANONYMOUS ≠ 0) := by
  cases abi <;> decide

theorem write_readWrite : ((PROT_READ ||| PROT_WRITE : Word abi) &&& PROT_WRITE) ≠ 0 := by
  cases abi <;> decide

/-- Whole pages are mapped as they are asked for. -/
theorem mmap_fixed {addr len prot flags offset : Word abi} (hpos : 0 < k.page) (hfixed : flags &&& MAP_FIXED ≠ 0)
    (hlen : 0 < len.toNat) (haddr : k.page ∣ addr.toNat) (hdvd : k.page ∣ len.toNat) :
    k.mmap s addr len prot flags offset =
      (addr, ⟨s.cells.map addr.toNat len.toNat (k.content flags offset) prot,
        (addr.toNat, len.toNat) :: s.fixed⟩) := by
  have hne : len ≠ 0 := by
    rintro rfl
    exact Nat.lt_irrefl 0 hlen
  have hgo : ¬ (len = 0 ∨ (flags &&& MAP_FIXED ≠ 0 ∧ ¬ k.page ∣ addr.toNat)) := by
    rintro (h | ⟨-, h⟩)
    · exact hne h
    · exact h haddr
  unfold Kernel.mmap
  dsimp only
  rw [if_neg hgo, pageUp_of_dvd hpos hdvd, if_pos hfixed, if_pos hfixed]

/-- An address in the span is none of the answers that stand for an error. -/
theorem answer_kept {v : Word abi} {x : Nat} (hspan : SpanReserved c r k) (hfacts : SpanFacts r k)
    (hv : v.toNat = r.at x) (hlow : r.layout.minVaddr.toNat ≤ x)
    (hhigh : x < r.layout.minVaddr.toNat + r.layout.mapSize.toNat) : ¬ (v = 0 ∨ v = MAP_FAILED) := by
  have hbase : 0 < r.remoteBase.toNat := Nat.pos_of_ne_zero fun h => hspan.base (BitVec.eq_of_toNat_eq h)
  have htop := hfacts.top
  have hpos := hfacts.pos
  unfold Reserved.at at hv
  rintro (rfl | rfl)
  · have hzero : (0 : Word abi).toNat = 0 := BitVec.toNat_zero
    omega
  · have hlast : (MAP_FAILED : Word abi).toNat = 2 ^ abi.bits - 1 := by cases abi <;> rfl
    rw [hlast] at hv
    omega

/-- The mapping starts at the file's page. -/
theorem offset_filePage (hspan : SpanReserved c r k) (hoffset : ph.pOffset.toNat < 2 ^ (abi.bits - 1)) :
    k.offsetOf (remoteMmapOffsetArg (ph.filePageOffset c) c.pageSize) = pageDown k.page ph.pOffset.toNat := by
  obtain ⟨p, hp⟩ := hspan.power
  have hpage : (ph.filePageOffset c).toNat = pageDown k.page ph.pOffset.toNat := by
    rw [Phdr.filePageOffset, toNat_pageStart (hspan.page.trans hp), hspan.page]
  unfold Kernel.offsetOf remoteMmapOffsetArg
  cases abi.lp64 with
  | true => exact hpage
  | false =>
    have hlow : (ph.filePageOffset c).msb = false := by
      rw [BitVec.msb_eq_decide, decide_eq_false_iff_not, hpage]
      have hdown := pageDown_le k.page ph.pOffset.toNat
      omega
    have hsize : c.pageSize.msb = false := by
      have hpositive := hspan.positive
      have hzero : (0 : Word abi).toInt = 0 := BitVec.toInt_zero
      rw [BitVec.sle_eq_decide, decide_eq_false_iff_not, hzero] at hpositive
      rw [BitVec.msb_eq_toInt, decide_eq_false_iff_not]
      omega
    rw [if_neg Bool.false_ne_true, if_neg Bool.false_ne_true, BitVec.sdiv_eq, hlow, hsize]
    show (ph.filePageOffset c / c.pageSize).toNat * k.page = pageDown k.page ph.pOffset.toNat
    rw [BitVec.toNat_udiv, hpage, hspan.page]
    exact Nat.div_mul_cancel (dvd_pageDown _ _)

theorem run_mmap (addr len prot flags fd offset : Word abi) :
    Prog.run Kernel.exec k (syscall (.mmap addr len prot flags fd offset)) s =
      some (k.mmap s addr len prot flags offset) := Prog.run_perform _ _ _

theorem run_mprotect (addr len prot : Word abi) : Prog.run Kernel.exec k (syscall (.mprotect addr len prot)) s =
    some (0, { s with cells := s.cells.protect addr.toNat (pageUp k.page len.toNat) prot }) := Prog.run_perform _ _ _

theorem run_calloc (n : Nat) : Prog.run Kernel.exec k (calloc n) s = some (true, s) := Prog.run_perform _ _ _

theorem run_writeProc (addr : Word abi) (data : List UInt8) :
    Prog.run Kernel.exec k (writeProc addr data) s = some (Kernel.write s addr data) := Prog.run_perform _ _ _

theorem run_writeAll {addr : Word abi} {data : List UInt8}
    (h : ∀ i < data.length, Kernel.writable s (addr.toNat + i) = true) :
    Prog.run Kernel.exec k (writeAll addr data) s =
      some (true, { s with cells := s.cells.store addr.toNat data }) := by
  have hall : ((List.range data.length).all fun i => Kernel.writable s (addr.toNat + i)) = true := by
    rw [List.all_eq_true]
    intro i hi
    exact h i (List.mem_range.1 hi)
  have hwrite : Prog.run Kernel.exec k (writeProc addr data) s =
      some ((data.length : Int), { s with cells := s.cells.store addr.toNat data }) := by
    rw [run_writeProc, Kernel.write, if_pos hall]
  rw [writeAll, Prog.run_bind, hwrite, Option.bind_some]
  show some (decide ((data.length : Int) = data.length), _) = _
  rw [decide_eq_true rfl]

/-- From the end of the file's bytes to the end of their last page there are zeros then. -/
theorem run_zeroTail (hplace : Placing c r k ph)
    (h : ∀ x, ph.pVaddr.toNat + ph.pFilesz.toNat ≤ x → x < ph.fileEndPage k.page → Kernel.writable s (r.at x) = true) :
    ∃ s', Prog.run Kernel.exec k (zeroTail c r ph) s = some (true, s') ∧
      (∀ x, ph.pVaddr.toNat + ph.pFilesz.toNat ≤ x → x < ph.fileEndPage k.page →
        s'.cells (r.at x) = (s.cells (r.at x)).map fun cell => { cell with byte := 0 }) ∧
      (∀ a, ¬ (r.at (ph.pVaddr.toNat + ph.pFilesz.toNat) ≤ a ∧ a < r.at (ph.fileEndPage k.page)) →
        s'.cells a = s.cells a) ∧ s'.fixed = s.fixed := by
  have horder := hplace.order
  have htail := toNat_sub_at hplace.fileEnd hplace.filePageEnd (by omega) horder.2.2.1
  generalize hlen : ph.fileEndPage k.page - (ph.pVaddr.toNat + ph.pFilesz.toNat) = len at htail
  have hwritable : ∀ i < (List.replicate len (0 : UInt8)).length,
      Kernel.writable s ((ph.fileEnd r).toNat + i) = true := by
    intro i hi
    rw [List.length_replicate] at hi
    have hx := h (ph.pVaddr.toNat + ph.pFilesz.toNat + i) (by omega) (by omega)
    have haddr : r.at (ph.pVaddr.toNat + ph.pFilesz.toNat + i) = r.at (ph.pVaddr.toNat + ph.pFilesz.toNat) + i := by
      unfold Reserved.at
      omega
    rw [hplace.fileEnd, ← haddr]
    exact hx
  refine ⟨{ s with cells := s.cells.store (ph.fileEnd r).toNat (List.replicate len 0) }, ?_, ?_, ?_, rfl⟩
  · unfold zeroTail
    dsimp only
    rw [htail, Prog.run_bind, run_calloc, Option.bind_some, if_pos rfl, Prog.run_bind, run_writeAll hwritable]
    rfl
  · intro x hx hlt
    dsimp only
    rw [AddressSpace.store_in]
    · rw [List.getD_eq_getElem?_getD, List.getElem?_getD_replicate_default_eq]
    · rw [hplace.fileEnd, List.length_replicate]
      unfold Reserved.at
      omega
  · intro a ha
    apply AddressSpace.store_out
    rw [hplace.fileEnd, List.length_replicate]
    unfold Reserved.at at ha ⊢
    omega

/-- The pages from one address of the file to another are mapped. -/
theorem mmap_pages {first last prot flags offset : Word abi} {x y : Nat} (hfacts : SpanFacts r k)
    (hfirst : first.toNat = r.at x) (hlast : last.toNat = r.at y) (hx : k.page ∣ x) (hy : k.page ∣ y)
    (hlow : r.layout.minVaddr.toNat ≤ x) (hlt : x < y) (hfixed : flags &&& MAP_FIXED ≠ 0) :
    ∃ s', k.mmap s first (last - first) prot flags offset = (first, s') ∧
      (∀ z, x ≤ z → z < y → s'.cells (r.at z) = some ⟨k.content flags offset (z - x), prot⟩) ∧
      (∀ a, ¬ (r.at x ≤ a ∧ a < r.at y) → s'.cells a = s.cells a) ∧ s'.fixed = (r.at x, y - x) :: s.fixed := by
  have hlen := toNat_sub_at hfirst hlast hlow hlt.le
  have haddr : k.page ∣ first.toNat := by
    rw [hfirst]
    exact Nat.dvd_add hfacts.dvd_base (Nat.dvd_sub hx hfacts.dvd_vaddr)
  have hdvd : k.page ∣ (last - first).toNat := by
    rw [hlen]
    exact Nat.dvd_sub hy hx
  refine ⟨_, mmap_fixed hfacts.pos hfixed (by omega) haddr hdvd, ?_, ?_, ?_⟩
  · intro z hz hzy
    have hdist : r.at z - r.at x = z - x := by
      unfold Reserved.at
      omega
    dsimp only
    rw [AddressSpace.map_in, hfirst, hdist]
    rw [hlen, hfirst]
    unfold Reserved.at
    omega
  · intro a ha
    apply AddressSpace.map_out
    rw [hlen, hfirst]
    unfold Reserved.at at ha ⊢
    omega
  · rw [hlen, hfirst]

/-- The file and the segment are at one place in their pages. -/
theorem content_file (hspan : SpanReserved c r k) (hpages : PageWise k r.layout.phdrs)
    (hph : ph ∈ loads r.layout.phdrs) (hfilesz : 0 < ph.pFilesz.toNat) {x : Nat} (hx : ph.firstPage k.page ≤ x) :
    k.content (MAP_FIXED ||| MAP_PRIVATE) (remoteMmapOffsetArg (ph.filePageOffset c) c.pageSize)
      (x - ph.firstPage k.page) = k.file.getD (ph.pOffset.toNat + x - ph.pVaddr.toNat) 0 := by
  have hoffset : ph.pOffset.toNat < 2 ^ (abi.bits - 1) := by
    have hin := hpages.inFile ph hph hfilesz
    have hlt := k.file_lt
    omega
  have hindex : pageDown k.page ph.pOffset.toNat + (x - ph.firstPage k.page) =
      ph.pOffset.toNat + x - ph.pVaddr.toNat := by
    have hdown : ph.firstPage k.page = ph.pVaddr.toNat - ph.pVaddr.toNat % k.page := pageDown_eq_sub _ _
    have hcongruent := hpages.congruent ph hph
    have hvaddr := Nat.mod_le ph.pVaddr.toNat k.page
    have hoff := Nat.mod_le ph.pOffset.toNat k.page
    rw [pageDown_eq_sub]
    omega
  rw [Kernel.content, if_neg fixed_file.2, offset_filePage hspan hoffset, hindex]

/-- The tail of a mapped file part is zeroed or left, as the segment's flags say. -/
theorem run_tail {s₁ : Image abi} (hplace : Placing c r k ph) (hfilesz : 0 < ph.pFilesz.toNat)
    (hbytes : ∀ x, ph.firstPage k.page ≤ x → x < ph.fileEndPage k.page → s₁.cells (r.at x) =
      some ⟨k.file.getD (ph.pOffset.toNat + x - ph.pVaddr.toNat) 0, PROT_READ ||| PROT_WRITE⟩) :
    ∃ s₂, Prog.run Kernel.exec k
        (if ph.writable ∧ ph.fileEnd r < ph.filePageEnd c r then zeroTail c r ph else pure true) s₁ = some (true, s₂) ∧
      (∀ x old, ph.firstPage k.page ≤ x → x < ph.fileEndPage k.page →
        s₂.cells (r.at x) = ph.mappedCell k x old) ∧
      (∀ a, ¬ (r.at (ph.firstPage k.page) ≤ a ∧ a < r.at (ph.fileEndPage k.page)) → s₂.cells a = s₁.cells a) ∧
      s₂.fixed = s₁.fixed := by
  have horder := hplace.order
  by_cases htail : ph.writable ∧ ph.fileEnd r < ph.filePageEnd c r
  · rw [if_pos htail]
    have hwritable : ∀ x, ph.pVaddr.toNat + ph.pFilesz.toNat ≤ x → x < ph.fileEndPage k.page →
        Kernel.writable s₁ (r.at x) = true := by
      intro x hx hlt
      rw [Kernel.writable, hbytes x (by omega) hlt]
      exact decide_eq_true write_readWrite
    obtain ⟨s₂, hrun, hzeros, hrest, hfixed⟩ := run_zeroTail hplace hwritable
    refine ⟨s₂, hrun, ?_, ?_, hfixed⟩
    · intro x old hx hlt
      rw [Phdr.mappedCell, if_pos ⟨hfilesz, hlt⟩]
      by_cases hbehind : ph.pVaddr.toNat + ph.pFilesz.toNat ≤ x
      · rw [hzeros x hbehind hlt, hbytes x hx hlt, if_pos ⟨htail.1, hbehind⟩]
        rfl
      · have hbefore : ¬ (r.at (ph.pVaddr.toNat + ph.pFilesz.toNat) ≤ r.at x ∧
            r.at x < r.at (ph.fileEndPage k.page)) := by
          unfold Reserved.at
          omega
        rw [hrest _ hbefore, hbytes x hx hlt, if_neg fun h => hbehind h.2]
    · intro a ha
      apply hrest
      unfold Reserved.at at ha ⊢
      omega
  · rw [if_neg htail]
    refine ⟨s₁, rfl, ?_, fun _ _ => rfl, rfl⟩
    intro x old hx hlt
    -- a writable segment whose file part ends with its page has no tail
    have hnone : ¬ (ph.writable = true ∧ ph.pVaddr.toNat + ph.pFilesz.toNat ≤ x) := fun h =>
      htail ⟨h.1, hplace.tail_iff.2 (Nat.lt_of_le_of_lt h.2 hlt)⟩
    rw [hbytes x hx hlt, Phdr.mappedCell, if_pos ⟨hfilesz, hlt⟩, if_neg hnone]

/-- The file's part of a segment. -/
theorem run_mapFile (hspan : SpanReserved c r k) (hpages : PageWise k r.layout.phdrs)
    (hph : ph ∈ loads r.layout.phdrs) (hfilesz : 0 < ph.pFilesz.toNat) (s : Image abi) :
    ∃ s', Prog.run Kernel.exec k (mapFile c r ph) s = some (true, s') ∧
      (∀ x old, ph.firstPage k.page ≤ x → x < ph.fileEndPage k.page →
        s'.cells (r.at x) = ph.mappedCell k x old) ∧
      (∀ a, ¬ (r.at (ph.firstPage k.page) ≤ a ∧ a < r.at (ph.fileEndPage k.page)) → s'.cells a = s.cells a) ∧
      s'.fixed = (r.at (ph.firstPage k.page), ph.fileEndPage k.page - ph.firstPage k.page) :: s.fixed := by
  have hfacts := spanFacts hspan hpages
  have hplace := placing hspan hpages hph
  have horder := hplace.order
  obtain ⟨s₁, hmap, hinside, houtside, hfixed⟩ := @mmap_pages abi r k s _ _ (PROT_READ ||| PROT_WRITE)
    (MAP_FIXED ||| MAP_PRIVATE) (remoteMmapOffsetArg (ph.filePageOffset c) c.pageSize) _ _ hfacts hplace.segPage
    hplace.filePageEnd (dvd_pageDown _ _) (dvd_pageUp _ _) horder.1 (by omega) fixed_file.1
  have hbytes : ∀ x, ph.firstPage k.page ≤ x → x < ph.fileEndPage k.page → s₁.cells (r.at x) =
      some ⟨k.file.getD (ph.pOffset.toNat + x - ph.pVaddr.toNat) 0, PROT_READ ||| PROT_WRITE⟩ := by
    intro x hx hlt
    rw [hinside x hx hlt, content_file hspan hpages hph hfilesz hx]
  obtain ⟨s₂, htail, hcells, hrest, hfixed₂⟩ := @run_tail abi c r k ph s₁ hplace hfilesz hbytes
  refine ⟨s₂, ?_, hcells, fun a ha => (hrest a ha).trans (houtside a ha), hfixed₂.trans hfixed⟩
  have hanswer := answer_kept hspan hfacts hplace.segPage horder.1 (by omega)
  unfold mapFile
  rw [Prog.run_bind, run_mmap, hmap, Option.bind_some]
  dsimp only
  rw [if_neg hanswer]
  exact htail

/-- The pages behind the file's part are zeros. -/
theorem run_mapBss (hspan : SpanReserved c r k) (hpages : PageWise k r.layout.phdrs)
    (hph : ph ∈ loads r.layout.phdrs) (hbss : ph.fileEndPage k.page < ph.endPage k.page) (s : Image abi) :
    ∃ s', Prog.run Kernel.exec k (mapBss c r ph) s = some (true, s') ∧
      (∀ x, ph.fileEndPage k.page ≤ x → x < ph.endPage k.page →
        s'.cells (r.at x) = some ⟨0, PROT_READ ||| PROT_WRITE⟩) ∧
      (∀ a, ¬ (r.at (ph.fileEndPage k.page) ≤ a ∧ a < r.at (ph.endPage k.page)) → s'.cells a = s.cells a) ∧
      s'.fixed = (r.at (ph.fileEndPage k.page), ph.endPage k.page - ph.fileEndPage k.page) :: s.fixed := by
  have hfacts := spanFacts hspan hpages
  have hplace := placing hspan hpages hph
  have horder := hplace.order
  obtain ⟨s₁, hmap, hinside, houtside, hfixed⟩ := @mmap_pages abi r k s _ _ (PROT_READ ||| PROT_WRITE)
    (MAP_FIXED ||| MAP_PRIVATE ||| MAP_ANONYMOUS) 0 _ _ hfacts hplace.filePageEnd hplace.segPageEnd (dvd_pageUp _ _)
    (dvd_pageUp _ _) (by omega) hbss fixed_anonymous.1
  have hanswer := answer_kept hspan hfacts hplace.filePageEnd (by omega) (by omega)
  refine ⟨s₁, ?_, ?_, houtside, hfixed⟩
  · unfold mapBss
    rw [Prog.run_bind, run_mmap, hmap, Option.bind_some]
    dsimp only
    rw [if_neg hanswer]
    rfl
  · intro x hx hlt
    rw [hinside x hx hlt, Kernel.content, if_pos fixed_anonymous.2]

/-- A fixed mapping of the pages from one address of the file to another is one of the segment's pages. -/
theorem fixed_cons {x y : Nat} {fixed : List (Nat × Nat)} {range : Nat × Nat} (hplace : Placing c r k ph)
    (hx : ph.firstPage k.page ≤ x) (hxy : x ≤ y) (hy : y ≤ ph.endPage k.page)
    (h : range ∈ (r.at x, y - x) :: fixed) : range ∈ fixed ∨
      r.at (ph.firstPage k.page) ≤ range.1 ∧ range.1 + range.2 ≤ r.at (ph.endPage k.page) := by
  have horder := hplace.order
  rcases List.mem_cons.1 h with rfl | h
  · right
    unfold Reserved.at
    dsimp only
    omega
  · exact .inl h

/-- The first half of a turn: the file's part, where there is one. -/
theorem run_filePart (hspan : SpanReserved c r k) (hpages : PageWise k r.layout.phdrs)
    (hph : ph ∈ loads r.layout.phdrs) (s : Image abi) :
    ∃ s₁, Prog.run Kernel.exec k (if 0 < ph.pFilesz then mapFile c r ph else pure true) s = some (true, s₁) ∧
      (∀ x, ph.firstPage k.page ≤ x → x < ph.fileEndPage k.page →
        s₁.cells (r.at x) = ph.mappedCell k x (s.cells (r.at x))) ∧
      (∀ a, ¬ (r.at (ph.firstPage k.page) ≤ a ∧ a < r.at (ph.fileEndPage k.page)) → s₁.cells a = s.cells a) ∧
      ∀ range ∈ s₁.fixed, range ∈ s.fixed ∨
        r.at (ph.firstPage k.page) ≤ range.1 ∧ range.1 + range.2 ≤ r.at (ph.endPage k.page) := by
  have hplace := placing hspan hpages hph
  have horder := hplace.order
  by_cases hfilesz : 0 < ph.pFilesz
  · rw [if_pos hfilesz]
    obtain ⟨s₁, hrun, hinside, houtside, hfixed⟩ := run_mapFile hspan hpages hph (BitVec.lt_def.1 hfilesz) s
    refine ⟨s₁, hrun, fun x => hinside x _, houtside, fun range hrange => ?_⟩
    rw [hfixed] at hrange
    exact fixed_cons hplace le_rfl (by omega) horder.2.2.2.1 hrange
  · rw [if_neg hfilesz]
    refine ⟨s, rfl, ?_, fun a _ => rfl, fun range hrange => .inl hrange⟩
    intro x hx hlt
    have hnone : ¬ (0 < ph.pFilesz.toNat ∧ x < ph.fileEndPage k.page) := fun h => hfilesz (BitVec.lt_def.2 h.1)
    rw [Phdr.mappedCell, if_neg hnone, if_neg (Nat.not_le.2 hlt)]

/-- A turn of the mapping loop. -/
theorem run_mapSegment (hspan : SpanReserved c r k) (hpages : PageWise k r.layout.phdrs)
    (hph : ph ∈ loads r.layout.phdrs) (s : Image abi) :
    ∃ s', Prog.run Kernel.exec k (mapSegment c r ph) s = some (true, s') ∧ Turned r k ph s s' := by
  have hplace := placing hspan hpages hph
  have horder := hplace.order
  have htype : ¬ ph.pType ≠ PT_LOAD := not_not.2 (of_decide_eq_true (List.mem_filter.1 hph).2)
  obtain ⟨s₁, hrun₁, hinside₁, houtside₁, hfixed₁⟩ := run_filePart hspan hpages hph s
  unfold mapSegment
  rw [if_neg htype, Prog.run_bind, hrun₁, Option.bind_some]
  dsimp only
  rw [if_neg (by decide)]
  by_cases hbss : ph.filePageEnd c r < ph.segPageEnd c r
  · rw [if_pos hbss]
    obtain ⟨s₂, hrun₂, hinside₂, houtside₂, hfixed₂⟩ := run_mapBss hspan hpages hph (hplace.bss_iff.1 hbss) s₁
    refine ⟨s₂, hrun₂, ?_, ?_, ?_⟩
    · intro x hx hxend
      by_cases hpart : x < ph.fileEndPage k.page
      · have hbefore : ¬ (r.at (ph.fileEndPage k.page) ≤ r.at x ∧ r.at x < r.at (ph.endPage k.page)) := by
          unfold Reserved.at
          omega
        rw [houtside₂ _ hbefore, hinside₁ x hx hpart]
      · rw [hinside₂ x (Nat.not_lt.1 hpart) hxend, Phdr.mappedCell, if_neg fun h => hpart h.2,
          if_pos (Nat.not_lt.1 hpart)]
    · intro a ha
      have hout₁ : ¬ (r.at (ph.firstPage k.page) ≤ a ∧ a < r.at (ph.fileEndPage k.page)) := by
        unfold Reserved.at at ha ⊢
        omega
      have hout₂ : ¬ (r.at (ph.fileEndPage k.page) ≤ a ∧ a < r.at (ph.endPage k.page)) := by
        unfold Reserved.at at ha ⊢
        omega
      rw [houtside₂ a hout₂, houtside₁ a hout₁]
    · intro range hrange
      rw [hfixed₂] at hrange
      rcases fixed_cons hplace (by omega) horder.2.2.2.1 le_rfl hrange with hrange | hin
      · exact hfixed₁ range hrange
      · exact .inr hin
  · rw [if_neg hbss]
    have hsame : ph.fileEndPage k.page = ph.endPage k.page := by
      have hnot := mt hplace.bss_iff.2 hbss
      omega
    refine ⟨s₁, rfl, ?_, ?_, hfixed₁⟩
    · intro x hx hxend
      exact hinside₁ x hx (hsame ▸ hxend)
    · intro a ha
      exact houtside₁ a (hsame ▸ ha)

end Turn

/-! ### The mapping loop -/

section Loops

variable {c : LoaderConfig abi} {r : Reserved abi} {k : Kernel abi} {ph : Phdr abi} {s s' : Image abi}
  {phdrs : List (Phdr abi)}

/-- The pages of a segment in the span. -/
def Phdr.Has (ph : Phdr abi) (r : Reserved abi) (k : Kernel abi) (a : Nat) : Prop :=
  r.at (ph.firstPage k.page) ≤ a ∧ a < r.at (ph.endPage k.page)

theorem Phdr.has_at {x : Nat} (hplace : Placing c r k ph) (hx : ph.firstPage k.page ≤ x) (hlt : x < ph.endPage k.page) :
    ph.Has r k (r.at x) := by
  have horder := hplace.order
  unfold Phdr.Has Reserved.at
  omega

theorem not_has_of_disjoint {other : Phdr abi} {a : Nat} (hplace : Placing c r k ph)
    (hplace' : Placing c r k other)
    (h : ph.endPage k.page ≤ other.firstPage k.page ∨ other.endPage k.page ≤ ph.firstPage k.page)
    (hph : ph.Has r k a) : ¬ other.Has r k a := by
  have horder := hplace.order
  have horder' := hplace'.order
  unfold Phdr.Has Reserved.at at hph ⊢
  omega

/-- After the loop every segment's pages are what its own turn made them. -/
theorem run_mapSegments (hspan : SpanReserved c r k) (hpages : PageWise k r.layout.phdrs)
    (hsub : ∀ ph ∈ loads phdrs, ph ∈ loads r.layout.phdrs)
    (hdisjoint : (loads phdrs).Pairwise fun a b =>
      a.endPage k.page ≤ b.firstPage k.page ∨ b.endPage k.page ≤ a.firstPage k.page) (s : Image abi) :
    ∃ s', Prog.run Kernel.exec k (Prog.every phdrs (mapSegment c r)) s = some (true, s') ∧
      (∀ ph ∈ loads phdrs, ∀ x, ph.firstPage k.page ≤ x → x < ph.endPage k.page →
        s'.cells (r.at x) = ph.mappedCell k x (s.cells (r.at x))) ∧
      (∀ a, (∀ ph ∈ loads phdrs, ¬ ph.Has r k a) → s'.cells a = s.cells a) ∧
      ∀ range ∈ s'.fixed, range ∈ s.fixed ∨ ∃ ph ∈ loads phdrs,
        r.at (ph.firstPage k.page) ≤ range.1 ∧ range.1 + range.2 ≤ r.at (ph.endPage k.page) := by
  induction phdrs generalizing s with
  | nil => exact ⟨s, rfl, fun _ h => (nomatch h), fun _ _ => rfl, fun _ h => .inl h⟩
  | cons ph phdrs ih =>
    by_cases htype : ph.pType = PT_LOAD
    · have hloads : loads (ph :: phdrs) = ph :: loads phdrs := List.filter_cons_of_pos (decide_eq_true htype)
      rw [hloads] at hsub hdisjoint ⊢
      rw [List.pairwise_cons] at hdisjoint
      have hmem := hsub ph List.mem_cons_self
      have hplace := placing hspan hpages hmem
      obtain ⟨s₁, hrun, hturned⟩ := run_mapSegment hspan hpages hmem s
      obtain ⟨s₂, hrest, hinside, houtside, hfixed⟩ :=
        ih (fun other h => hsub other (List.mem_cons_of_mem ph h)) hdisjoint.2 s₁
      refine ⟨s₂, ?_, ?_, ?_, ?_⟩
      · rw [Prog.every, Prog.run_bind, hrun, Option.bind_some]
        exact hrest
      · intro other hother x hx hlt
        rcases List.mem_cons.1 hother with rfl | hother
        · rw [houtside, hturned.inside x hx hlt]
          intro later hlater
          exact not_has_of_disjoint hplace (placing hspan hpages (hsub later (List.mem_cons_of_mem _ hlater)))
            (hdisjoint.1 later hlater) (Phdr.has_at hplace hx hlt)
        · have hplace' := placing hspan hpages (hsub other (List.mem_cons_of_mem ph hother))
          rw [hinside other hother x hx hlt, hturned.outside]
          exact not_has_of_disjoint hplace' hplace (hdisjoint.1 other hother).symm (Phdr.has_at hplace' hx hlt)
      · intro a ha
        rw [houtside a fun other hother => ha other (List.mem_cons_of_mem ph hother)]
        exact hturned.outside a (ha ph List.mem_cons_self)
      · intro range hrange
        rcases hfixed range hrange with hrange | ⟨other, hother, hin⟩
        · exact (hturned.fixed range hrange).imp id fun hin => ⟨ph, List.mem_cons_self, hin⟩
        · exact .inr ⟨other, List.mem_cons_of_mem ph hother, hin⟩
    · have hloads : loads (ph :: phdrs) = loads phdrs :=
        List.filter_cons_of_neg (by rw [decide_eq_true_eq]; exact htype)
      rw [hloads] at hsub hdisjoint ⊢
      obtain ⟨s', hrest, hspec⟩ := ih hsub hdisjoint s
      refine ⟨s', ?_, hspec⟩
      rw [Prog.every, mapSegment, if_pos htype]
      exact hrest

/-! ### The protections -/

theorem run_protectSegment (hspan : SpanReserved c r k) (hpages : PageWise k r.layout.phdrs)
    (hph : ph ∈ loads r.layout.phdrs) (s : Image abi) :
    Prog.run Kernel.exec k (protectSegment c r ph) s = some (true, { s with
      cells := s.cells.protect (r.at (ph.firstPage k.page)) (ph.endPage k.page - ph.firstPage k.page) ph.prot }) := by
  have hfacts := spanFacts hspan hpages
  have hplace := placing hspan hpages hph
  have horder := hplace.order
  have hlen := toNat_sub_at hplace.segPage hplace.segPageEnd horder.1 (by omega)
  have hup : pageUp k.page (ph.endPage k.page - ph.firstPage k.page) = ph.endPage k.page - ph.firstPage k.page :=
    pageUp_of_dvd hfacts.pos (Nat.dvd_sub (dvd_pageUp _ _) (dvd_pageDown _ _))
  have hzero : ¬ (0 : Word abi).slt 0 = true := by cases abi <;> decide
  unfold protectSegment
  rw [Prog.run_bind, run_mprotect, Option.bind_some, hlen, hup, hplace.segPage]
  dsimp only
  rw [if_neg hzero]
  rfl

/-- After the protections every segment among them has its own. -/
theorem run_protectSegments (hspan : SpanReserved c r k) (hpages : PageWise k r.layout.phdrs)
    {segs : List (Phdr abi)} (hsub : ∀ ph ∈ segs, ph ∈ loads r.layout.phdrs)
    (hdisjoint : segs.Pairwise fun a b =>
      a.endPage k.page ≤ b.firstPage k.page ∨ b.endPage k.page ≤ a.firstPage k.page) (s : Image abi) :
    ∃ s', Prog.run Kernel.exec k (Prog.every segs (protectSegment c r)) s = some (true, s') ∧ s'.fixed = s.fixed ∧
      (∀ a, (s'.cells a).map Cell.byte = (s.cells a).map Cell.byte) ∧
      (∀ ph ∈ segs, ∀ x, ph.firstPage k.page ≤ x → x < ph.endPage k.page →
        s'.cells (r.at x) = (s.cells (r.at x)).map fun cell => { cell with prot := ph.prot }) ∧
      ∀ a, (∀ ph ∈ segs, ¬ ph.Has r k a) → s'.cells a = s.cells a := by
  induction segs generalizing s with
  | nil => exact ⟨s, rfl, rfl, fun _ => rfl, fun _ h => (nomatch h), fun _ _ => rfl⟩
  | cons ph segs ih =>
    rw [List.pairwise_cons] at hdisjoint
    have hmem := hsub ph List.mem_cons_self
    have hplace := placing hspan hpages hmem
    have horder := hplace.order
    have hrange : ∀ a, (r.at (ph.firstPage k.page) ≤ a ∧
        a < r.at (ph.firstPage k.page) + (ph.endPage k.page - ph.firstPage k.page)) ↔ ph.Has r k a := by
      intro a
      unfold Phdr.Has Reserved.at
      omega
    obtain ⟨s', hrest, hfixed, hbytes, hinside, houtside⟩ :=
      ih (fun other h => hsub other (List.mem_cons_of_mem ph h)) hdisjoint.2 { s with
        cells := s.cells.protect (r.at (ph.firstPage k.page)) (ph.endPage k.page - ph.firstPage k.page) ph.prot }
    refine ⟨s', ?_, hfixed, ?_, ?_, ?_⟩
    · rw [Prog.every, Prog.run_bind, run_protectSegment hspan hpages hmem, Option.bind_some]
      exact hrest
    · intro a
      rw [hbytes a]
      exact AddressSpace.byte_protect _ _ _ _ a
    · intro other hother x hx hlt
      rcases List.mem_cons.1 hother with rfl | hother
      · rw [houtside]
        · exact AddressSpace.protect_in ((hrange _).2 (Phdr.has_at hplace hx hlt))
        · intro later hlater
          exact not_has_of_disjoint hplace (placing hspan hpages (hsub later (List.mem_cons_of_mem _ hlater)))
            (hdisjoint.1 later hlater) (Phdr.has_at hplace hx hlt)
      · have hplace' := placing hspan hpages (hsub other (List.mem_cons_of_mem ph hother))
        have hout := not_has_of_disjoint hplace' hplace (hdisjoint.1 other hother).symm (Phdr.has_at hplace' hx hlt)
        rw [hinside other hother x hx hlt]
        dsimp only
        rw [AddressSpace.protect_out fun h => hout ((hrange _).1 h)]
    · intro a ha
      rw [houtside a fun other hother => ha other (List.mem_cons_of_mem ph hother)]
      exact AddressSpace.protect_out fun h => ha ph List.mem_cons_self ((hrange a).1 h)

end Loops

/-! ### The whole image -/

section Image

variable {c : LoaderConfig abi} {r : Reserved abi} {k : Kernel abi} {ph : Phdr abi} {s s' : Image abi}

/-- What a segment holds: the file's bytes, and zeros behind them. Where the last page with bytes of the file is not
writable, it holds what the file has there. -/
def Phdr.imageByte (ph : Phdr abi) (k : Kernel abi) (i : Nat) : UInt8 :=
  if i < ph.pFilesz.toNat then k.file.getD (ph.pOffset.toNat + i) 0
  else if 0 < ph.pFilesz.toNat ∧ ¬ ph.writable ∧ ph.pVaddr.toNat + i < ph.fileEndPage k.page then
    k.file.getD (ph.pOffset.toNat + i) 0
  else 0

theorem byte_mappedCell (hspan : SpanReserved c r k) (hpages : PageWise k r.layout.phdrs)
    (hph : ph ∈ loads r.layout.phdrs) {i : Nat} :
    (ph.mappedCell k (ph.pVaddr.toNat + i) (some ⟨0, PROT_NONE⟩)).map Cell.byte = some (ph.imageByte k i) := by
  have horder := (placing hspan hpages hph).order
  have hindex : ph.pOffset.toNat + (ph.pVaddr.toNat + i) - ph.pVaddr.toNat = ph.pOffset.toNat + i := by omega
  unfold Phdr.mappedCell Phdr.imageByte
  rw [hindex]
  by_cases hpart : i < ph.pFilesz.toNat
  · have hin : 0 < ph.pFilesz.toNat ∧ ph.pVaddr.toNat + i < ph.fileEndPage k.page := by omega
    have hbefore : ¬ (ph.writable = true ∧ ph.pVaddr.toNat + ph.pFilesz.toNat ≤ ph.pVaddr.toNat + i) := by omega
    rw [if_pos hin, if_pos hpart, if_neg hbefore]
    rfl
  · rw [if_neg hpart]
    by_cases hin : 0 < ph.pFilesz.toNat ∧ ph.pVaddr.toNat + i < ph.fileEndPage k.page
    · rw [if_pos hin]
      have hbehind : ph.pVaddr.toNat + ph.pFilesz.toNat ≤ ph.pVaddr.toNat + i := by omega
      cases hwritable : ph.writable with
      | true =>
        rw [if_pos ⟨rfl, hbehind⟩, if_neg fun h => h.2.1 rfl]
        rfl
      | false =>
        rw [if_neg fun h => Bool.false_ne_true h.1, if_pos ⟨hin.1, Bool.false_ne_true, hin.2⟩]
        rfl
    · have hkept : ¬ (0 < ph.pFilesz.toNat ∧ ¬ ph.writable ∧ ph.pVaddr.toNat + i < ph.fileEndPage k.page) :=
        fun h => hin ⟨h.1, h.2.2⟩
      rw [if_neg hin, if_neg hkept]
      split_ifs <;> rfl

/-- Operations that change no mapping. -/
def RemoteOp.KeepsMaps : RemoteOp abi → Prop
  | .syscall (.mmap _ _ _ _ _ _) | .syscall (.munmap _ _) | .syscall (.mprotect _ _ _) => False
  | _ => True

/-- Two memories with the same mappings, whatever their bytes are. -/
def SameMaps (s s' : Image abi) : Prop :=
  s'.fixed = s.fixed ∧ ∀ a, (s'.cells a).map Cell.prot = (s.cells a).map Cell.prot

theorem sameMaps_step {op : RemoteOp abi} (hop : op.KeepsMaps) (s : Image abi) : SameMaps s (k.step s op).2 := by
  have hself : SameMaps s s := ⟨rfl, fun _ => rfl⟩
  cases op with
  | syscall call =>
    cases call with
    | openat _ | close _ => exact hself
    | mmap _ _ _ _ _ _ | munmap _ _ | mprotect _ _ _ => exact hop.elim
  | writeProc addr data =>
    show SameMaps s (Kernel.write s addr data).2
    unfold Kernel.write
    split_ifs
    · exact ⟨rfl, AddressSpace.prot_store s.cells addr.toNat data⟩
    · exact hself
  | readWord _ | remoteCall _ _ _ | setRegs _ | assignRegs _ | calloc _ => exact hself

theorem sameMaps_run {α : Type} {p : Program abi α} {a : α} (hp : Prog.Only RemoteOp.KeepsMaps p)
    (hrun : Prog.run Kernel.exec k p s = some (a, s')) : SameMaps s s' := by
  refine Prog.run_keep (I := SameMaps s) hp ?_ hrun ⟨rfl, fun _ => rfl⟩
  intro op hop s₁ v s₂ hexec hsame
  obtain ⟨-, rfl⟩ := Prod.mk.inj (Option.some.inj hexec)
  have hstep := @sameMaps_step abi k op hop s₁
  exact ⟨hstep.1.trans hsame.1, fun b => (hstep.2 b).trans (hsame.2 b)⟩

/-- What comes between the two loops only writes bytes. -/
theorem keepsMaps_link (r : Reserved abi) : Prog.Only RemoteOp.KeepsMaps (do
    closeRemote r.remoteFd
    match r.lib.dynInfo with
    | none => return none
    | some d =>
      let paths ← (if d.neededCount ≠ 0 then calloc d.neededCount else pure true)
      if !paths then return none
      else
        let applied ← applyRelocations r d
        return if applied then some d else none) := by
  refine Prog.only_bind (Prog.only_bind (Prog.only_perform trivial) fun _ => trivial) fun _ => ?_
  cases r.lib.dynInfo with
  | none => trivial
  | some d =>
    refine Prog.only_mono (inMemory_link r d) fun op hop => ?_
    cases op with
    | writeProc | readWord | calloc => trivial
    | _ => exact hop.elim

theorem cells_reserved (r : Reserved abi) (before : Image abi) {x : Nat}
    (hlow : r.layout.minVaddr.toNat ≤ x) (hhigh : x < r.layout.minVaddr.toNat + r.layout.mapSize.toNat) :
    (before.reserved r).cells (r.at x) = some ⟨0, PROT_NONE⟩ := by
  unfold Image.reserved
  dsimp only
  rw [AddressSpace.map_in]
  unfold Reserved.at
  omega

/-- Every segment's memory at the load bias. -/
def HoldsImage (r : Reserved abi) (k : Kernel abi) (s : Image abi) : Prop :=
  ∀ ph ∈ loads r.layout.phdrs, ∀ i < ph.pMemsz.toNat,
    (s.cells ((ph.segStart r).toNat + i)).map Cell.byte = some (ph.imageByte k i)

/-- The protections are for the segments the loader has noted. -/
def HoldsProtections (r : Reserved abi) (s : Image abi) : Prop :=
  ∀ ph ∈ loadSegments r, ∀ i < ph.pMemsz.toNat, (s.cells ((ph.segStart r).toNat + i)).map Cell.prot = some ph.prot

/-- Nothing was mapped outside of the reserved span. -/
def InSpan (r : Reserved abi) (s : Image abi) : Prop :=
  ∀ range ∈ s.fixed, r.remoteBase.toNat ≤ range.1 ∧
    range.1 + range.2 ≤ r.remoteBase.toNat + r.layout.mapSize.toNat

theorem offset_in_pages (hspan : SpanReserved c r k) (hpages : PageWise k r.layout.phdrs)
    (hph : ph ∈ loads r.layout.phdrs) {i : Nat} (hi : i < ph.pMemsz.toNat) :
    (ph.segStart r).toNat + i = r.at (ph.pVaddr.toNat + i) ∧ ph.firstPage k.page ≤ ph.pVaddr.toNat + i ∧
      ph.pVaddr.toNat + i < ph.endPage k.page := by
  have hplace := placing hspan hpages hph
  have horder := hplace.order
  have hend : ph.pVaddr.toNat + ph.pMemsz.toNat ≤ ph.endPage k.page := le_pageUp (spanFacts hspan hpages).pos _
  rw [hplace.segStart]
  unfold Reserved.at
  omega

/-- What the mapping loop leaves. -/
theorem run_mapping (hspan : SpanReserved c r k) (hpages : PageWise k r.layout.phdrs) (before : Image abi) :
    ∃ s₁, Prog.run Kernel.exec k (Prog.every r.layout.phdrs (mapSegment c r)) (before.reserved r) = some (true, s₁) ∧
      HoldsImage r k s₁ ∧ InSpan r s₁ := by
  have hfacts := spanFacts hspan hpages
  obtain ⟨s₁, hrun, hinside, -, hfixed⟩ :=
    run_mapSegments hspan hpages (fun _ h => h) hpages.disjoint (before.reserved r)
  refine ⟨s₁, hrun, ?_, ?_⟩
  · intro ph hph i hi
    obtain ⟨haddr, hx, hlt⟩ := offset_in_pages hspan hpages hph hi
    have hlow := hfacts.low ph hph
    have hhigh := hfacts.high ph hph
    rw [haddr, hinside ph hph _ hx hlt, cells_reserved r before (by omega) (by omega)]
    exact byte_mappedCell hspan hpages hph
  · intro range hrange
    rcases hfixed range hrange with hnone | ⟨ph, hph, hlow, hhigh⟩
    · nomatch hnone
    · have hend := hfacts.high ph hph
      unfold Reserved.at at hlow hhigh
      omega

end Image

/-! ### A read-only segment that is longer than its part of the file -/

section Tail

/-- Its 64 bytes of the file are the ELF header; it goes on for 56 bytes of zeros. -/
def headerSegment : Phdr .aarch64 := ⟨1, true, false, false, 0, 0, 64, 120⟩

/-- The header and the one program header. -/
def headerFile : List UInt8 :=
  [0x7f, 0x45, 0x4c, 0x46, 2, 1, 1, 0, 0, 0, 0, 0, 0, 0, 0, 0, 3, 0, 0xb7, 0, 1, 0, 0, 0, 0, 0, 0, 0, 0, 0, 0, 0,
    64, 0, 0, 0, 0, 0, 0, 0, 0, 0, 0, 0, 0, 0, 0, 0, 0, 0, 0, 0, 64, 0, 56, 0, 1, 0, 64, 0, 0, 0, 0, 0,
    1, 0, 0, 0, 4, 0, 0, 0, 0, 0, 0, 0, 0, 0, 0, 0, 0, 0, 0, 0, 0, 0, 0, 0, 0, 0, 0, 0, 0, 0, 0, 0,
    64, 0, 0, 0, 0, 0, 0, 0, 120, 0, 0, 0, 0, 0, 0, 0, 0, 0x10, 0, 0, 0, 0, 0, 0]

def headerLibrary : Library .aarch64 := { onePage with phdrs := some [headerSegment], dynInfo := none }

def headerReserved : Reserved .aarch64 := ⟨headerLibrary, ⟨[headerSegment], 0, 0x1000⟩, 5, 0x7000000000⟩

def headerKernel : Kernel .aarch64 := ⟨0x1000, headerFile, 0x7000000000, by decide⟩

theorem spanReserved_header : SpanReserved (onePageConfig headerLibrary) headerReserved headerKernel where
  layout := rfl
  page := rfl
  power := ⟨12, rfl⟩
  positive := by decide
  size := by decide
  base := by decide
  aligned := by decide
  room := by decide

theorem mem_loads_header {ph : Phdr .aarch64} (h : ph ∈ loads headerReserved.layout.phdrs) : ph = headerSegment :=
  List.mem_singleton.1 h

theorem pageWise_header : PageWise headerKernel headerReserved.layout.phdrs where
  congruent ph hph := by
    obtain rfl := mem_loads_header hph
    rfl
  filesz_le ph hph := by
    obtain rfl := mem_loads_header hph
    decide
  disjoint := List.pairwise_singleton _ _
  memory ph hph := by
    obtain rfl := mem_loads_header hph
    decide
  inFile ph hph _ := by
    obtain rfl := mem_loads_header hph
    decide

end Tail

end OnyxZygisk.Ptracer

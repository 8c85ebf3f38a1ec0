import OnyxZygisk.Ptracer.RelocValues

/-!
# Whether the relocations are complete

Every word that a relocation of the library is for has its value, when the loader has returned true, exactly if the
symbols of the plain tables are right and the packed relocations have nothing to change (`relocated_iff`): the loader
does not know the packed tables, and does not fail for them.
-/

namespace OnyxZygisk.Ptracer

variable {abi : Abi}

/-! ### Addresses -/

section Addresses

variable {turns : Nat} {l : LibraryFile abi turns} {remote : RemoteModules abi} {c : LoaderConfig abi}
  {r : Reserved abi} {k : Kernel abi} {s : Image abi}

theorem layout_phdrs (hspan : SpanReserved c r k) (h : LoadedFrom r k l remote) : r.layout.phdrs = l.phdrs := by
  have hphdrs : r.lib.phdrs = some l.phdrs := by
    rw [h.lib]
    exact l.readPhdrs_eq
  have hlayout := hspan.layout
  unfold computeLoadLayout at hlayout
  rw [hphdrs] at hlayout
  dsimp only at hlayout
  split_ifs at hlayout
  rw [← Option.some.inj hlayout]

theorem toNat_loadBias_add (hspan : SpanReserved c r k) (hpages : PageWise k r.layout.phdrs) {v : Word abi} {len : Nat}
    (h : InSegment r.layout.phdrs v.toNat len) :
    r.layout.minVaddr.toNat ≤ v.toNat ∧ (r.loadBias + v).toNat = r.at v.toNat := by
  obtain ⟨ph, hph, hlow, hhigh⟩ := h
  have hfacts := spanFacts hspan hpages
  have horder := (placing hspan hpages hph).order
  have hend : ph.pVaddr.toNat + ph.pMemsz.toNat ≤ ph.endPage k.page := le_pageUp hfacts.pos _
  refine ⟨by omega, ?_⟩
  rw [BitVec.add_comm]
  exact toNat_add_loadBias hfacts rfl (by omega) (by omega)

/-- No address in the span is null. -/
theorem loadBias_add_ne_zero (hspan : SpanReserved c r k) (hpages : PageWise k r.layout.phdrs) {v : Word abi}
    (h : InSegment r.layout.phdrs v.toNat 0) : r.loadBias + v ≠ 0 := by
  intro hzero
  have hat := (toNat_loadBias_add hspan hpages h).2
  have hnone : (0 : Word abi).toNat = 0 := BitVec.toNat_zero
  have hbase : r.remoteBase.toNat ≠ 0 := fun hbase => hspan.base (BitVec.eq_of_toNat_eq hbase)
  rw [hzero, hnone] at hat
  unfold Reserved.at at hat
  omega

/-- Words that are apart in the file are apart in the span. -/
theorem apart_loadBias (hspan : SpanReserved c r k) (hpages : PageWise k r.layout.phdrs) {v w : Word abi}
    (hv : InSegment r.layout.phdrs v.toNat abi.wordSize) (hw : InSegment r.layout.phdrs w.toNat abi.wordSize)
    (h : Apart abi v.toNat w.toNat) : Apart abi (r.loadBias + v).toNat (r.loadBias + w).toNat := by
  obtain ⟨hlowv, hatv⟩ := toNat_loadBias_add hspan hpages hv
  obtain ⟨hloww, hatw⟩ := toNat_loadBias_add hspan hpages hw
  rw [hatv, hatw]
  unfold Apart Reserved.at at *
  omega

/-- A word of a segment can be read. -/
theorem readWord_image (hspan : SpanReserved c r k) (hpages : PageWise k r.layout.phdrs) (himage : HoldsImage r k s)
    {v : Word abi} (h : InSegment r.layout.phdrs v.toNat abi.wordSize) :
    ∃ word, Kernel.readWord s (r.loadBias + v) = some word := by
  obtain ⟨hlow, hat⟩ := toNat_loadBias_add hspan hpages h
  obtain ⟨ph, hph, hphlow, hphhigh⟩ := h
  have hbyte (i : Nat) (hi : i ∈ List.range abi.wordSize) : (s.cells ((r.loadBias + v).toNat + i)).map Cell.byte =
      some (ph.imageByte k (v.toNat - ph.pVaddr.toNat + i)) := by
    rw [List.mem_range] at hi
    have hin : v.toNat - ph.pVaddr.toNat + i < ph.pMemsz.toNat := by omega
    have horder := (placing hspan hpages hph).order
    have haddr : (r.loadBias + v).toNat + i = (ph.segStart r).toNat + (v.toNat - ph.pVaddr.toNat + i) := by
      rw [(offset_in_pages hspan hpages hph hin).1, hat]
      unfold Reserved.at
      omega
    rw [haddr]
    exact himage ph hph _ hin
  unfold Kernel.readWord
  rw [mapM_eq_some_map hbyte]
  exact ⟨_, rfl⟩

/-- The protections change no word. -/
theorem exists_protectSegments (hspan : SpanReserved c r k) (hpages : PageWise k r.layout.phdrs) (s : Image abi) :
    ∃ s', Prog.run Kernel.exec k (protectSegments c r) s = some (true, s') ∧
      ∀ addr, Kernel.readWord s' addr = Kernel.readWord s addr := by
  have hdisjoint := hpages.disjoint.sublist (List.take_sublist 64 (loads r.layout.phdrs))
  obtain ⟨s', hprotect, -, hbytes, -⟩ :=
    run_protectSegments hspan hpages (fun _ hph => List.mem_of_mem_take hph) hdisjoint s
  exact ⟨s', hprotect, fun addr => readWord_congr fun i _ => hbytes (addr.toNat + i)⟩

/-- What the loader does between the two loops over the segments. -/
theorem patched_of_mapImage {d : DynInfo abi} {before s₁ s₂ : Image abi} (h : LoadedFrom r k l remote)
    (hwf : l.WellFormed)
    (hmapped : Prog.run Kernel.exec k (Prog.every r.layout.phdrs (mapSegment c r)) before = some (true, s₁))
    (hrun : Prog.run Kernel.exec k (mapImage c r) before = some (some d, s₂)) : Patched r l.tableEntries s₁ s₂ ∧
      (l.info.jmprelSz ≠ 0 ∧ l.info.jmprelOff ≠ 0 → ∀ tag, l.info.pltrelType ≠ .other tag) := by
  have hclose : Prog.run Kernel.exec k (closeRemote r.remoteFd) s₁ = some ((), s₁) := rfl
  unfold mapImage at hrun
  rw [Prog.run_bind, hmapped, Option.bind_some] at hrun
  dsimp only at hrun
  rw [if_neg (by decide), Prog.run_bind, hclose, Option.bind_some, dynInfo_eq h] at hrun
  dsimp only at hrun
  obtain ⟨paths, s₃, hpaths, hrun⟩ := Prog.run_bind_some hrun
  have hsame : s₃ = s₁ := by
    split_ifs at hpaths
    · rw [run_calloc] at hpaths
      exact (congrArg Prod.snd (Option.some.inj hpaths)).symm
    · exact (Prog.run_ret_some hpaths).2.symm
  subst hsame
  cases paths with
  | false => exact absurd hrun (Prog.run_ret_ne nofun)
  | true =>
    rw [if_neg (by decide)] at hrun
    obtain ⟨applied, s₄, happlied, hrun⟩ := Prog.run_bind_some hrun
    obtain ⟨happly, rfl⟩ := Prog.run_ret_some hrun
    cases applied with
    | false => nomatch happly
    | true =>
      rw [← loaderEntries_eq h hwf]
      exact run_applyRelocations happlied

end Addresses

/-! ### All of them -/

section Complete

variable {turns : Nat} (l : LibraryFile abi turns) (scope : SymbolScope abi) (loadBias : Word abi)

/-- The types of all entries, and the form of the last table, are ones that the loader knows. -/
structure LibraryFile.Supported : Prop where
  kinds : ∀ e ∈ l.tableEntries, e.reloc.kind ≠ .other
  pltrel : tagVal l.dyn DT_PLTRELSZ ≠ 0 → ∀ tag, pltRelOf (tagVal l.dyn DT_PLTREL) ≠ .other tag

/-- The relocation's word holds its value, `mapped` being the image without any relocation. -/
def LibraryFile.Relocated (mapped s : Image abi) (e : Reloc abi) : Prop :=
  ∃ word value, Kernel.readWord mapped (loadBias + e.rOffset) = some word ∧
    l.prescribed scope loadBias e word = some value ∧ Kernel.readWord s (loadBias + e.rOffset) = some value

variable {l scope} {remote : RemoteModules abi} {c : LoaderConfig abi} {r : Reserved abi} {k : Kernel abi}
  {before s₁ s₂ : Image abi}

/-- The entries that were written. -/
theorem relocated_entry_iff {e : TableEntry abi} {word value : Word abi} (hspan : SpanReserved c r k)
    (hpages : PageWise k r.layout.phdrs) (h : LoadedFrom r k l remote) (hwf : l.WellFormed) (he : e ∈ l.tableEntries)
    (hvalue : e.loaderValue r word = some value) :
    l.prescribed scope r.loadBias e.reloc word = some value ↔ l.EntryRight scope r.loadBias remote e.reloc word := by
  have hmem : e.reloc ∈ l.relocs := List.mem_append_left _ (List.mem_map_of_mem he)
  have hown (sym : Sym abi) (hsym : symAt l.file (symbolOffset l.info e.reloc.sym) = some sym)
      (hdefined : sym.stShndx ≠ SHN_UNDEF) (habs : sym.stShndx ≠ SHN_ABS) : r.loadBias + sym.stValue ≠ 0 := by
    have hin := hwf.symbols e.reloc hmem sym hsym hdefined habs
    rw [← layout_phdrs hspan h] at hin
    exact loadBias_add_ne_zero hspan hpages hin
  cases e with
  | rela e => exact relaRight_iff hvalue (resolve_eq h) hown
  | rel e => exact relRight_iff hvalue (resolve_eq h) hown

/-- Right after the relocations. -/
theorem relocated_patched_iff (hspan : SpanReserved c r k) (hpages : PageWise k r.layout.phdrs)
    (h : LoadedFrom r k l remote) (hwf : l.WellFormed) (himage : HoldsImage r k s₁)
    (hpatched : Patched r l.tableEntries s₁ s₂) :
    (∀ e ∈ l.tableEntries, e.reloc.kind ≠ .other) ∧
      ((∀ e ∈ l.relocs, l.Relocated scope r.loadBias s₁ s₂ e) ↔
        (∀ e ∈ l.tableEntries, ∀ word ∈ Kernel.readWord s₁ (e.target r),
          l.EntryRight scope r.loadBias remote e.reloc word) ∧
          ∀ e ∈ l.packedRelocs, l.Relocated scope r.loadBias s₁ s₁ e) := by
  have hphdrs := layout_phdrs hspan h
  have hin (e : Reloc abi) (he : e ∈ l.relocs) : InSegment r.layout.phdrs e.rOffset.toNat abi.wordSize := by
    rw [hphdrs]
    exact hwf.inSegment e he
  have hfar : l.relocs.Pairwise fun a b => Apart abi (r.loadBias + a.rOffset).toNat (r.loadBias + b.rOffset).toNat :=
    hwf.apart.imp_of_mem fun ha hb hab => apart_loadBias hspan hpages (hin _ ha) (hin _ hb) hab
  obtain ⟨htables, hpacked, hcross⟩ := List.pairwise_append.1 hfar
  rw [List.pairwise_map] at htables
  obtain ⟨hwords, hframe⟩ := patched_words hpatched htables
  -- a packed relocation's word is as before
  have hkept (e : Reloc abi) (he : e ∈ l.packedRelocs) :
      Kernel.readWord s₂ (r.loadBias + e.rOffset) = Kernel.readWord s₁ (r.loadBias + e.rOffset) :=
    hframe _ fun other hother => hcross _ (List.mem_map_of_mem hother) e he
  have hwritten (e : TableEntry abi) (he : e ∈ l.tableEntries) : ∃ word value,
      Kernel.readWord s₁ (e.target r) = some word ∧ e.loaderValue r word = some value ∧
        Kernel.readWord s₂ (e.target r) = some value := by
    obtain ⟨word, hword⟩ :=
      readWord_image hspan hpages himage (hin _ (List.mem_append_left _ (List.mem_map_of_mem he)))
    obtain ⟨value, hvalue, hread⟩ := hwords e he word hword
    exact ⟨word, value, hword, hvalue, hread⟩
  constructor
  · intro e he
    obtain ⟨word, value, -, hvalue, -⟩ := hwritten e he
    exact kind_ne_other hvalue
  unfold LibraryFile.relocs
  rw [List.forall_mem_append, List.forall_mem_map]
  apply and_congr
  · refine forall₂_congr fun e he => ?_
    obtain ⟨word, value, hword, hvalue, hwritten⟩ := hwritten e he
    have hright : l.prescribed scope r.loadBias e.reloc word = some value ↔
        l.EntryRight scope r.loadBias remote e.reloc word := relocated_entry_iff hspan hpages h hwf he hvalue
    constructor
    · rintro ⟨word', value', hword', hprescribed, hread⟩ word'' hword''
      obtain rfl := Option.some.inj (hword'.symm.trans hword)
      obtain rfl := Option.some.inj (hread.symm.trans hwritten)
      obtain rfl := Option.some.inj (hword'.symm.trans hword'')
      exact hright.1 hprescribed
    · intro hentry
      exact ⟨word, value, hword, hright.2 (hentry word hword), hwritten⟩
  · refine forall₂_congr fun e he => ?_
    unfold LibraryFile.Relocated
    rw [hkept e he]

end Complete

/-- When the loader has mapped the image and set the protections, it has found no entry it does not know. Then every
word that a relocation is for holds its value exactly if the symbols of the tables are right, and the words of the
packed relocations held theirs before. -/
theorem relocated_iff {turns : Nat} (l : LibraryFile abi turns) (scope : SymbolScope abi) (remote : RemoteModules abi)
    (c : LoaderConfig abi) (r : Reserved abi) (k : Kernel abi) (before : Image abi) (hspan : SpanReserved c r k)
    (hpages : PageWise k r.layout.phdrs) (h : LoadedFrom r k l remote) (hwf : l.WellFormed) :
    ∃ s₁, Prog.run Kernel.exec k (Prog.every r.layout.phdrs (mapSegment c r)) (before.reserved r) = some (true, s₁) ∧
      HoldsImage r k s₁ ∧
      ∀ d s₂ s₃, Prog.run Kernel.exec k (mapImage c r) (before.reserved r) = some (some d, s₂) →
        Prog.run Kernel.exec k (protectSegments c r) s₂ = some (true, s₃) →
          l.Supported ∧
            ((∀ e ∈ l.relocs, l.Relocated scope r.loadBias s₁ s₃ e) ↔
              (∀ e ∈ l.tableEntries, ∀ word ∈ Kernel.readWord s₁ (e.target r),
                l.EntryRight scope r.loadBias remote e.reloc word) ∧
                ∀ e ∈ l.packedRelocs, l.Relocated scope r.loadBias s₁ s₁ e) := by
  obtain ⟨s₁, hmapped, himage, -⟩ := run_mapping hspan hpages before
  refine ⟨s₁, hmapped, himage, fun d s₂ s₃ hrun hprotect => ?_⟩
  obtain ⟨hpatched, hpltrel⟩ := patched_of_mapImage h hwf hmapped hrun
  obtain ⟨s₄, hprotect', hwords⟩ := exists_protectSegments hspan hpages s₂
  obtain ⟨-, rfl⟩ := Prog.run_unique hprotect' hprotect
  obtain ⟨hkinds, hiff⟩ := relocated_patched_iff hspan hpages h hwf himage hpatched
  refine ⟨⟨hkinds, fun hsize tag htag => ?_⟩, ?_⟩
  · obtain ⟨-, -, hjmprel, htype⟩ := elfLoadDynInfo_tables l.readDyn_eq l.elfLoadDynInfo_eq
    have htable := hwf.tables (DT_JMPREL, DT_PLTRELSZ)
      (List.mem_cons_of_mem _ (List.mem_cons_of_mem _ (List.mem_singleton.2 rfl)))
    exact hpltrel (table_there htable hjmprel hsize).2.2 tag (htype.trans htag)
  · rw [← hiff]
    refine forall₂_congr fun e _ => ?_
    unfold LibraryFile.Relocated
    rw [hwords]

/-! ### A library with a packed relocation -/

section Relr

set_option maxRecDepth 10000

/-- The header, two program headers, the dynamic section, the symbol `entry` behind the null symbol, its hash section,
the strings, a `DT_RELR` table of one word, and the word that this is for. -/
def relrWords : List (Word .aarch64) :=
  [0x10102464c457f, 0, 0x100b70003, 0, 0x40, 0, 0x38004000000000, 0x400002,
    0x700000001, 0, 0, 0, 0x1a8, 0x1a8, 0x1000, 0x700000002, 0xb0, 0xb0, 0xb0, 0x90, 0x90, 8,
    5, 0x190, 6, 0x140, 10, 7, 11, 24, 0x6ffffef5, 0x170, 36, 0x198, 35, 8, 37, 8, 0, 0,
    0, 0, 0, 0x1001200000001, 0x40, 0, 0x100000001, 0x500000001, 0xffffffffffffffff, 0xf60f95700000001,
    0x7972746e6500, 0x1a0, 0x190]

def relrBytes : List UInt8 := relrWords.flatMap wordBytes

def relrElf : ElfFile := ⟨fun a => relrBytes.getD a 0, relrBytes.length⟩

def relrSegment : Phdr .aarch64 := ⟨1, true, true, true, 0, 0, 0x1a8, 0x1a8⟩

def relrDynamic : Phdr .aarch64 := ⟨2, true, true, true, 0xb0, 0xb0, 0x90, 0x90⟩

def relrInfo : ElfDynInfo .aarch64 where
  relOff := 0
  relSz := 0
  relaOff := 0
  relaSz := 0
  jmprelOff := 0
  jmprelSz := 0
  pltrelType := .other 0
  neededCount := 0
  initVaddr := 0
  initArrayVaddr := 0
  initArraySz := 0
  symtabOff := 0x140
  syment := 24
  strtab := [0, 0x65, 0x6e, 0x74, 0x72, 0x79, 0, 0]
  strsz := 7
  nsyms := 2
  neededStrOffsets := []

def relrLibrary : LibraryFile .aarch64 1 where
  file := relrElf
  phdrs := [relrSegment, relrDynamic]
  dyn := [⟨5, 0x190⟩, ⟨6, 0x140⟩, ⟨10, 7⟩, ⟨11, 24⟩, ⟨0x6ffffef5, 0x170⟩, ⟨36, 0x198⟩, ⟨35, 8⟩, ⟨37, 8⟩]
  info := relrInfo
  readPhdrs_eq := by rfl
  readDyn_eq := by rfl
  elfLoadDynInfo_eq := by rfl

/-- A tracee with no modules. -/
def noModules : RemoteModules .aarch64 := ⟨[], fun _ _ => 0⟩

def noScope : SymbolScope .aarch64 := ⟨fun _ => none, id⟩

def relrLib : Library .aarch64 := libraryOfFile relrElf 1 noModules

def relrReserved : Reserved .aarch64 := ⟨relrLib, ⟨[relrSegment, relrDynamic], 0, 0x1000⟩, 3, 0x7000000000⟩

def relrKernel : Kernel .aarch64 := ⟨0x1000, relrBytes, 0x7000000000, by decide⟩

def relrReloc : Reloc .aarch64 := ⟨0x1a0, .relative, 0, none⟩

theorem relocs_relr : relrLibrary.relocs = [relrReloc] := by rfl

theorem loads_relr {ph : Phdr .aarch64} (h : ph ∈ loads [relrSegment, relrDynamic]) : ph = relrSegment :=
  List.mem_singleton.1 h

theorem spanReserved_relr : SpanReserved (onePageConfig relrLib) relrReserved relrKernel where
  layout := by rfl
  page := rfl
  power := ⟨12, rfl⟩
  positive := by decide
  size := by decide
  base := by decide
  aligned := by decide
  room := by decide

theorem pageWise_relr : PageWise relrKernel relrReserved.layout.phdrs where
  congruent ph hph := by
    obtain rfl := loads_relr hph
    rfl
  filesz_le ph hph := by
    obtain rfl := loads_relr hph
    decide
  disjoint := List.pairwise_singleton _ _
  memory ph hph := by
    obtain rfl := loads_relr hph
    decide
  inFile ph hph _ := by
    obtain rfl := loads_relr hph
    decide

theorem loadedFrom_relr : LoadedFrom relrReserved relrKernel relrLibrary noModules := ⟨rfl, rfl⟩

theorem inSegment_relr : InSegment relrLibrary.phdrs relrReloc.rOffset.toNat Abi.aarch64.wordSize :=
  ⟨relrSegment, List.mem_singleton.2 rfl, by decide, by decide⟩

theorem symAt_relr : symAt relrElf (symbolOffset relrInfo 0) = some (⟨0, 0, 0⟩ : Sym .aarch64) := by rfl

theorem wellFormed_relr : relrLibrary.WellFormed where
  tables tags htags hsize := by
    -- the library has none of these tables
    simp only [tableTags, List.mem_cons, List.not_mem_nil, or_false] at htags
    rcases htags with rfl | rfl | rfl <;> exact absurd rfl hsize
  inSegment e he := by
    rw [relocs_relr, List.mem_singleton] at he
    subst he
    exact inSegment_relr
  apart := by
    rw [relocs_relr]
    exact List.pairwise_singleton _ _
  symbols e he sym hsym hdefined := by
    rw [relocs_relr, List.mem_singleton] at he
    subst he
    obtain rfl := Option.some.inj (symAt_relr.symm.trans hsym)
    exact absurd rfl hdefined

theorem relocated_iff_relr :
    ∃ s₁, Prog.run Kernel.exec relrKernel (Prog.every relrReserved.layout.phdrs
        (mapSegment (onePageConfig relrLib) relrReserved)) (Image.reserved ⟨fun _ => none, []⟩ relrReserved) =
          some (true, s₁) ∧ HoldsImage relrReserved relrKernel s₁ ∧
      ∀ d s₂ s₃, Prog.run Kernel.exec relrKernel (mapImage (onePageConfig relrLib) relrReserved)
          (Image.reserved ⟨fun _ => none, []⟩ relrReserved) = some (some d, s₂) →
        Prog.run Kernel.exec relrKernel (protectSegments (onePageConfig relrLib) relrReserved) s₂ = some (true, s₃) →
          relrLibrary.Supported ∧
            ((∀ e ∈ relrLibrary.relocs, relrLibrary.Relocated noScope relrReserved.loadBias s₁ s₃ e) ↔
              (∀ e ∈ relrLibrary.tableEntries, ∀ word ∈ Kernel.readWord s₁ (e.target relrReserved),
                relrLibrary.EntryRight noScope relrReserved.loadBias noModules e.reloc word) ∧
                ∀ e ∈ relrLibrary.packedRelocs, relrLibrary.Relocated noScope relrReserved.loadBias s₁ s₁ e) :=
  relocated_iff relrLibrary noScope noModules (onePageConfig relrLib) relrReserved relrKernel ⟨fun _ => none, []⟩
    spanReserved_relr pageWise_relr loadedFrom_relr wellFormed_relr

/-- A relative relocation changes its word, unless the load bias is zero. -/
theorem not_relocated_in_place {turns : Nat} {l : LibraryFile abi turns} {scope : SymbolScope abi} {loadBias : Word abi}
    {s s' : Image abi} {rOffset : Word abi} (hbias : loadBias ≠ 0)
    (hsame : Kernel.readWord s' (loadBias + rOffset) = Kernel.readWord s (loadBias + rOffset)) :
    ¬ l.Relocated scope loadBias s s' ⟨rOffset, .relative, 0, none⟩ := by
  rintro ⟨word, value, hword, hprescribed, hread⟩
  have hsum : loadBias + word = value := Option.some.inj hprescribed
  have hkept : value = word := Option.some.inj (hread.symm.trans (hsame.trans hword))
  rw [hkept] at hsum
  exact hbias ((BitVec.add_left_inj word).1 (hsum.trans (BitVec.zero_add word).symm))

theorem entryValue_relr : relrLib.entryValue = some 0x40 := by rfl

/-- The loader returns true, and the word is as it is in the file. -/
theorem relr_ignored : ∃ s₁ s' loaded,
    Prog.run Kernel.exec relrKernel (Prog.every relrReserved.layout.phdrs
      (mapSegment (onePageConfig relrLib) relrReserved)) (Image.reserved ⟨fun _ => none, []⟩ relrReserved) =
        some (true, s₁) ∧
      Prog.run Kernel.exec relrKernel (loadReserved (onePageConfig relrLib) relrReserved ⟨0, 0, 0, 0, []⟩)
        (Image.reserved ⟨fun _ => none, []⟩ relrReserved) = some (some loaded, s') ∧
      relrReloc ∈ relrLibrary.relocs ∧
      ∀ scope, ¬ relrLibrary.Relocated scope relrReserved.loadBias s₁ s' relrReloc := by
  obtain ⟨s₁, hmapped, -, -⟩ := run_mapping spanReserved_relr pageWise_relr ⟨fun _ => none, []⟩
  have himage : Prog.run Kernel.exec relrKernel (mapImage (onePageConfig relrLib) relrReserved)
      (Image.reserved ⟨fun _ => none, []⟩ relrReserved) = some (some relrInfo.toDynInfo, s₁) := by
    unfold mapImage
    rw [Prog.run_bind, hmapped, Option.bind_some]
    dsimp only
    rw [if_neg (by decide), dynInfo_eq loadedFrom_relr]
    rfl
  obtain ⟨s₃, hprotect, hwords⟩ := exists_protectSegments spanReserved_relr pageWise_relr s₁
  have hloaded : Prog.run Kernel.exec relrKernel (loadReserved (onePageConfig relrLib) relrReserved ⟨0, 0, 0, 0, []⟩)
      (Image.reserved ⟨fun _ => none, []⟩ relrReserved) = some (some ⟨0x7000000000, 0x1000, 0x7000000040⟩, s₃) := by
    have hconstructed : Prog.run Kernel.exec relrKernel (runConstructors (onePageConfig relrLib) relrReserved
        ⟨0, 0, 0, 0, []⟩ relrInfo.toDynInfo) s₃ = some (true, s₃) := rfl
    have hentry : relrReserved.lib.entryValue = some 0x40 := entryValue_relr
    unfold loadReserved startImage
    rw [if_neg (by decide), Prog.run_bind, himage, Option.bind_some]
    dsimp only
    rw [Prog.run_bind, hprotect, Option.bind_some]
    dsimp only
    rw [if_neg (by decide), if_neg (by decide), Prog.run_bind, hconstructed, Option.bind_some]
    dsimp only
    rw [if_neg (by decide), handOver, hentry]
    rfl
  refine ⟨s₁, s₃, _, hmapped, hloaded, ?_, fun scope => ?_⟩
  · rw [relocs_relr]
    exact List.mem_singleton.2 rfl
  · exact not_relocated_in_place (by decide) (hwords _)

end Relr

end OnyxZygisk.Ptracer

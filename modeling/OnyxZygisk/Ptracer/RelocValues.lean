import OnyxZygisk.Ptracer.RelocPatches

/-!
# The values the loader writes

The loader goes through the plain tables of the dynamic section. The value it writes for an entry is the prescribed one
exactly if the symbol is right that the entry names (`relaRight_iff`, `relRight_iff`).
-/

namespace OnyxZygisk.Ptracer

variable {abi : Abi}

/-! ### The dynamic section as the loader reads it -/

section Reading

variable {turns : Nat}

theorem elfLoadDynInfo_tables {f : ElfFile} {phdrs : List (Phdr abi)} {dyn : List (Dyn abi)} {info : ElfDynInfo abi}
    (hdyn : (phdrs.find? fun ph => ph.pType = PT_DYNAMIC).bind (readDyn f) = some dyn)
    (h : elfLoadDynInfo f turns phdrs = some info) :
    tableOffset phdrs (tagVal dyn DT_REL) (tagVal dyn DT_RELSZ) = some (info.relOff, info.relSz) ∧
      tableOffset phdrs (tagVal dyn DT_RELA) (tagVal dyn DT_RELASZ) = some (info.relaOff, info.relaSz) ∧
      tableOffset phdrs (tagVal dyn DT_JMPREL) (tagVal dyn DT_PLTRELSZ) = some (info.jmprelOff, info.jmprelSz) ∧
      info.pltrelType = pltRelOf (tagVal dyn DT_PLTREL) := by
  obtain ⟨ph, hph, hread⟩ := Option.bind_eq_some_iff.1 hdyn
  unfold elfLoadDynInfo at h
  obtain ⟨ph', hph', h⟩ := Option.bind_eq_some_iff.1 h
  obtain rfl : ph = ph' := Option.some.inj (hph.symm.trans hph')
  split at h
  · nomatch h
  obtain ⟨dyn', hread', h⟩ := Option.bind_eq_some_iff.1 h
  obtain rfl : dyn = dyn' := Option.some.inj (hread.symm.trans hread')
  dsimp only at h
  split at h
  · nomatch h
  obtain ⟨symtabOff, -, h⟩ := Option.bind_eq_some_iff.1 h
  obtain ⟨strtabOff, -, h⟩ := Option.bind_eq_some_iff.1 h
  obtain ⟨⟨relOff, relSz⟩, hrel, h⟩ := Option.bind_eq_some_iff.1 h
  obtain ⟨⟨relaOff, relaSz⟩, hrela, h⟩ := Option.bind_eq_some_iff.1 h
  obtain ⟨⟨jmprelOff, jmprelSz⟩, hjmprel, h⟩ := Option.bind_eq_some_iff.1 h
  obtain ⟨strtab, -, h⟩ := Option.bind_eq_some_iff.1 h
  obtain ⟨nsyms, -, h⟩ := Option.bind_eq_some_iff.1 h
  obtain rfl := Option.some.inj h
  exact ⟨hrel, hrela, hjmprel, rfl⟩

/-- The tables that the loader reads, by their tags. -/
def tableTags (abi : Abi) : List (Word abi × Word abi) :=
  [(DT_RELA, DT_RELASZ), (DT_REL, DT_RELSZ), (DT_JMPREL, DT_PLTRELSZ)]

/-- A range of addresses within a segment. -/
def InSegment (phdrs : List (Phdr abi)) (x len : Nat) : Prop :=
  ∃ ph ∈ loads phdrs, ph.pVaddr.toNat ≤ x ∧ x + len ≤ ph.pVaddr.toNat + ph.pMemsz.toNat

/-- What a linker makes: a table is not at the start of the file, where the header is, each relocation has a word of a
segment for itself, and its symbol is in a segment if the library defines it. -/
structure LibraryFile.WellFormed (l : LibraryFile abi turns) : Prop where
  tables : ∀ tags ∈ tableTags abi, tagVal l.dyn tags.2 ≠ 0 →
    tagVal l.dyn tags.1 ≠ 0 ∧ vaddrToOffset l.phdrs (tagVal l.dyn tags.1) ≠ some 0
  inSegment : ∀ e ∈ l.relocs, InSegment l.phdrs e.rOffset.toNat abi.wordSize
  apart : l.relocs.Pairwise fun a b => Apart abi a.rOffset.toNat b.rOffset.toNat
  symbols : ∀ e ∈ l.relocs, ∀ sym : Sym abi, symAt l.file (symbolOffset l.info e.sym) = some sym →
    sym.stShndx ≠ SHN_UNDEF → sym.stShndx ≠ SHN_ABS → InSegment l.phdrs sym.stValue.toNat 0

variable {l : LibraryFile abi turns}

/-- A table that is not empty is there for the loader. -/
theorem table_there {addrTag sizeTag off : Word abi} {len : Nat}
    (htable : tagVal l.dyn sizeTag ≠ 0 →
      tagVal l.dyn addrTag ≠ 0 ∧ vaddrToOffset l.phdrs (tagVal l.dyn addrTag) ≠ some 0)
    (h : tableOffset l.phdrs (tagVal l.dyn addrTag) (tagVal l.dyn sizeTag) = some (off, len))
    (hsize : tagVal l.dyn sizeTag ≠ 0) :
    vaddrToOffset l.phdrs (tagVal l.dyn addrTag) = some off ∧ len = (tagVal l.dyn sizeTag).toNat ∧
      len ≠ 0 ∧ off ≠ 0 := by
  obtain ⟨haddr, hoff⟩ := htable hsize
  unfold tableOffset at h
  rw [if_pos ⟨haddr, hsize⟩] at h
  obtain ⟨off', hoff', heq⟩ := Option.map_eq_some_iff.1 h
  obtain ⟨rfl, rfl⟩ := Prod.mk.inj heq
  refine ⟨hoff', rfl, fun hlen => hsize (BitVec.eq_of_toNat_eq hlen), ?_⟩
  rintro rfl
  exact hoff hoff'

/-- A table of the loader's is the one of the tags. -/
theorem entries_eq {α : Type} (entryAt : ElfFile → Nat → Nat → Option α) (size : Nat)
    {addrTag sizeTag off : Word abi} {len : Nat}
    (htable : tagVal l.dyn sizeTag ≠ 0 →
      tagVal l.dyn addrTag ≠ 0 ∧ vaddrToOffset l.phdrs (tagVal l.dyn addrTag) ≠ some 0)
    (h : tableOffset l.phdrs (tagVal l.dyn addrTag) (tagVal l.dyn sizeTag) = some (off, len)) :
    (if len ≠ 0 ∧ off ≠ 0 then (List.range (len / size)).filterMap (entryAt l.file off.toNat) else []) =
      l.entries addrTag sizeTag size entryAt := by
  unfold LibraryFile.entries LibraryFile.table
  by_cases hsize : tagVal l.dyn sizeTag = 0
  · unfold tableOffset at h
    rw [if_neg fun hboth => hboth.2 hsize] at h
    obtain ⟨rfl, rfl⟩ := Prod.mk.inj (Option.some.inj h)
    rw [if_neg fun hboth => hboth.1 rfl, hsize]
    cases vaddrToOffset l.phdrs (tagVal l.dyn addrTag) with
    | none => rfl
    | some off =>
      have hzero : (0 : Word abi).toNat = 0 := BitVec.toNat_zero
      rw [Option.map_some, hzero]
      dsimp only
      rw [Nat.zero_div]
      rfl
  · obtain ⟨hoff, hlen, hthere⟩ := table_there htable h hsize
    rw [if_pos hthere, hoff, hlen]
    rfl

/-- The library of the loader is the one of the file. -/
structure LoadedFrom (r : Reserved abi) (k : Kernel abi) (l : LibraryFile abi turns) (remote : RemoteModules abi) :
    Prop where
  file : l.file = ⟨fun a => k.file.getD a 0, k.file.length⟩
  lib : r.lib = libraryOfFile l.file turns remote

variable {r : Reserved abi} {k : Kernel abi} {remote : RemoteModules abi}

theorem dynInfo_eq (h : LoadedFrom r k l remote) : r.lib.dynInfo = some l.info.toDynInfo := by
  rw [h.lib]
  unfold libraryOfFile
  dsimp only
  rw [l.readPhdrs_eq, Option.bind_some, l.elfLoadDynInfo_eq]
  rfl

theorem resolve_eq (h : LoadedFrom r k l remote) (symIdx : Nat) :
    r.lib.resolveSymbolAddr r.loadBias symIdx = resolveSymbolAddr l.file l.info remote r.loadBias symIdx := by
  rw [h.lib]
  unfold libraryOfFile
  dsimp only
  rw [l.readPhdrs_eq, Option.bind_some, l.elfLoadDynInfo_eq]
  rfl

/-- The loader goes through the tables of the dynamic section. -/
theorem loaderEntries_eq (h : LoadedFrom r k l remote) (hwf : l.WellFormed) :
    loaderEntries r.lib l.info.toDynInfo = l.tableEntries := by
  obtain ⟨hrel, hrela, hjmprel, hpltrel⟩ := elfLoadDynInfo_tables l.readDyn_eq l.elfLoadDynInfo_eq
  have htables := hwf.tables
  simp only [tableTags, List.forall_mem_cons] at htables
  unfold loaderEntries LibraryFile.tableEntries
  rw [h.lib]
  congr 1
  · exact entries_eq relaEntryAt _ htables.1 hrela
  congr 1
  · exact entries_eq relEntryAt _ htables.2.1 hrel
  · unfold LibraryFile.jmprelEntries
    rw [hpltrel]
    cases pltRelOf (tagVal l.dyn DT_PLTREL) with
    | rela => exact entries_eq relaEntryAt _ htables.2.2.1 hjmprel
    | rel => exact entries_eq relEntryAt _ htables.2.2.1 hjmprel
    | other tag => exact ite_self []

end Reading

/-! ### The loader's values -/

section Values

variable {turns : Nat} {l : LibraryFile abi turns} {scope : SymbolScope abi} {loadBias taken addend : Word abi}
  {remote : RemoteModules abi} {symIdx : Nat}

theorem rightAddr_iff (addr : SymbolAddr abi) :
    addr.value addend = some (if taken = 0 then 0 else taken + addend) ↔ RightAddr taken addr addend := by
  cases addr with
  | defined a =>
    unfold SymbolAddr.value RightAddr
    split_ifs
    · exact Option.some_inj
    · rw [Option.some_inj]
      exact BitVec.add_left_inj addend
  | weak =>
    unfold SymbolAddr.value RightAddr
    rw [Option.some_inj]
    split_ifs with hzero
    · exact iff_of_true rfl (.inl hzero)
    · rw [or_iff_right hzero]
      exact eq_comm
  | undefined => exact iff_of_false (fun h => nomatch h) id

/-- The value with the address that the loader takes. -/
theorem symbolRight_iff (htaken : resolveSymbolAddr l.file l.info remote loadBias symIdx = some taken)
    (hown : ∀ sym : Sym abi, symAt l.file (symbolOffset l.info symIdx) = some sym → sym.stShndx ≠ SHN_UNDEF →
      sym.stShndx ≠ SHN_ABS → loadBias + sym.stValue ≠ 0) :
    (l.symbolAddr scope loadBias symIdx).value addend = some (if taken = 0 then 0 else taken + addend) ↔
      l.SymbolRight scope loadBias remote symIdx addend := by
  rw [rightAddr_iff]
  unfold LibraryFile.SymbolRight LibraryFile.symbolAddr
  obtain ⟨sym, hsym, htaken⟩ := Option.bind_eq_some_iff.1 htaken
  simp only [hsym, Option.some.injEq, forall_eq']
  by_cases hdefined : sym.stShndx ≠ SHN_UNDEF
  · rw [if_pos hdefined] at htaken
    obtain rfl := Option.some.inj htaken
    rw [if_pos hdefined, if_pos hdefined]
    by_cases hspecial : sym.stShndx = SHN_ABS ∨ stType (l.stInfo symIdx) = STT_GNU_IFUNC
    · exact ⟨fun h _ => h, fun h => h hspecial⟩
    · obtain ⟨habs, hifunc⟩ := not_or.1 hspecial
      have haddr : ownAddr scope loadBias sym (l.stInfo symIdx) = loadBias + sym.stValue := by
        unfold ownAddr
        rw [if_neg habs, if_neg hifunc]
      refine iff_of_true ?_ fun h => absurd h hspecial
      rw [haddr, RightAddr, if_neg (hown sym hsym hdefined habs)]
  · rw [if_neg hdefined] at htaken
    obtain ⟨name, hname, htaken⟩ := Option.bind_eq_some_iff.1 htaken
    rw [if_neg hdefined, if_neg hdefined]
    simp only [hname, Option.some.injEq, forall_eq']
    by_cases hframe : name = registerFrame ∨ name = deregisterFrame
    · rw [if_pos hframe] at htaken ⊢
      obtain rfl := Option.some.inj htaken
      rfl
    · rw [if_neg hframe] at htaken ⊢
      simp only [htaken, Option.some.injEq, forall_eq']

/-- What the loader makes of a type. -/
theorem relocKind_rela {type : Nat} :
    match relaType abi type with
    | .relative => relocKind abi type = .relative ∨ relocKind abi type = .none
    | .symbolic => relocKind abi type = .symbolic
    | .absolute => relocKind abi type = .absolute
    | .unsupported => True := by
  unfold relaType relocKind
  cases abi <;> dsimp only <;> split_ifs <;> first | trivial | omega

theorem relocKind_rel {type : Nat} :
    match relType abi type with
    | .relative => relocKind abi type = .relative
    | .symbolic => relocKind abi type = .symbolic
    | .absolute => relocKind abi type = .absolute
    | .unsupported => True := by
  unfold relType relocKind
  cases abi <;> dsimp only <;> split_ifs <;> first | trivial | omega

theorem unsupported_of_other {type : Nat} (h : relocKind abi type = .other) :
    relaType abi type = .unsupported ∧ relType abi type = .unsupported := by
  unfold relocKind at h
  unfold relaType relType
  cases abi <;> dsimp only at h ⊢ <;> split_ifs at h <;> constructor <;> first | rfl | (split_ifs; rfl)

variable {r : Reserved abi} {word value : Word abi}

/-- The loader has a value for supported types only. -/
theorem kind_ne_other {e : TableEntry abi} (hvalue : e.loaderValue r word = some value) : e.reloc.kind ≠ .other := by
  intro hother
  cases e with
  | rela e =>
    rw [TableEntry.loaderValue, relaValue, (unsupported_of_other hother).1] at hvalue
    simp at hvalue
  | rel e =>
    rw [TableEntry.loaderValue, (unsupported_of_other hother).2] at hvalue
    simp at hvalue

theorem addendIn_rela (e : Rela abi) (word : Word abi) : (TableEntry.rela e).reloc.addendIn word = e.rAddend := rfl

theorem addendIn_rel (e : Rel abi) (word : Word abi) :
    (TableEntry.rel e).reloc.addendIn word = if relocKind abi e.type = .symbolic then 0 else word := rfl

/-- Entries with an addend. -/
theorem relaRight_iff {e : Rela abi} (hvalue : relaValue r e = some value)
    (hresolve : ∀ i, r.lib.resolveSymbolAddr r.loadBias i = resolveSymbolAddr l.file l.info remote r.loadBias i)
    (hown : ∀ sym : Sym abi, symAt l.file (symbolOffset l.info e.sym) = some sym → sym.stShndx ≠ SHN_UNDEF →
      sym.stShndx ≠ SHN_ABS → r.loadBias + sym.stValue ≠ 0) :
    l.prescribed scope r.loadBias (TableEntry.rela e).reloc word = some value ↔
      l.EntryRight scope r.loadBias remote (TableEntry.rela e).reloc word := by
  have hkind := @relocKind_rela abi e.type
  have hreloc : (TableEntry.rela e).reloc.kind = relocKind abi e.type := rfl
  unfold LibraryFile.prescribed LibraryFile.EntryRight
  rw [addendIn_rela, hreloc]
  unfold relaValue at hvalue
  have hsymbol (hmap : (r.lib.resolveSymbolAddr r.loadBias e.sym).map
      (fun sym => if sym = 0 then 0 else sym + e.rAddend) = some value) :
      (l.symbolAddr scope r.loadBias e.sym).value e.rAddend = some value ↔
        l.SymbolRight scope r.loadBias remote e.sym e.rAddend := by
    obtain ⟨taken, htaken, rfl⟩ := Option.map_eq_some_iff.1 hmap
    rw [hresolve] at htaken
    exact symbolRight_iff htaken hown
  cases htype : relaType abi e.type with
  | relative =>
    rw [htype] at hkind hvalue
    obtain rfl := Option.some.inj hvalue
    rcases hkind with hkind | hkind
    · rw [hkind]
      exact iff_of_true rfl trivial
    · rw [hkind]
      exact Option.some_inj.trans eq_comm
  | symbolic =>
    rw [htype] at hkind hvalue
    rw [show relocKind abi e.type = .symbolic from hkind]
    exact hsymbol hvalue
  | absolute =>
    rw [htype] at hkind hvalue
    rw [show relocKind abi e.type = .absolute from hkind]
    exact hsymbol hvalue
  | unsupported =>
    rw [htype] at hvalue
    nomatch hvalue

/-- Entries without one. -/
theorem relRight_iff {e : Rel abi} (hvalue : (TableEntry.rel e).loaderValue r word = some value)
    (hresolve : ∀ i, r.lib.resolveSymbolAddr r.loadBias i = resolveSymbolAddr l.file l.info remote r.loadBias i)
    (hown : ∀ sym : Sym abi, symAt l.file (symbolOffset l.info e.sym) = some sym → sym.stShndx ≠ SHN_UNDEF →
      sym.stShndx ≠ SHN_ABS → r.loadBias + sym.stValue ≠ 0) :
    l.prescribed scope r.loadBias (TableEntry.rel e).reloc word = some value ↔
      l.EntryRight scope r.loadBias remote (TableEntry.rel e).reloc word := by
  have hkind := @relocKind_rel abi e.type
  have hreloc : (TableEntry.rel e).reloc.kind = relocKind abi e.type := rfl
  unfold LibraryFile.prescribed LibraryFile.EntryRight
  rw [addendIn_rel, hreloc]
  unfold TableEntry.loaderValue at hvalue
  dsimp only at hvalue
  cases htype : relType abi e.type with
  | relative =>
    rw [htype] at hkind hvalue
    obtain rfl := Option.some.inj hvalue
    rw [show relocKind abi e.type = .relative from hkind]
    exact iff_of_true rfl trivial
  | symbolic =>
    rw [htype] at hkind hvalue
    dsimp only at hvalue
    rw [hresolve] at hvalue
    rw [show relocKind abi e.type = .symbolic from hkind, if_pos rfl]
    have htaken : (if value = 0 then 0 else value + 0) = value := by
      split_ifs with hzero
      · exact hzero.symm
      · exact BitVec.add_zero value
    have hright : (l.symbolAddr scope r.loadBias e.sym).value 0 = some (if value = 0 then 0 else value + 0) ↔
        l.SymbolRight scope r.loadBias remote e.sym 0 := symbolRight_iff hvalue hown
    rw [htaken] at hright
    exact hright
  | absolute =>
    rw [htype] at hkind hvalue
    dsimp only at hvalue
    rw [hresolve] at hvalue
    obtain ⟨taken, htaken, rfl⟩ := Option.map_eq_some_iff.1 hvalue
    rw [show relocKind abi e.type = .absolute from hkind, if_neg (by decide)]
    exact symbolRight_iff htaken hown
  | unsupported =>
    rw [htype] at hvalue
    nomatch hvalue

end Values

end OnyxZygisk.Ptracer

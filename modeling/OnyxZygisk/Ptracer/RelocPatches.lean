import OnyxZygisk.Lib.Bytes
import OnyxZygisk.Ptracer.AbiRelocs
import OnyxZygisk.Ptracer.RemoteImage

/-!
# Writing relocations

A word that was written is read back, and reading a word sees its own bytes only. Where the loader returns true, it has
written every entry of the tables, one after another (`run_applyRelocations`), so that each entry's word has the value
the loader takes for it, and no other word has changed (`patched_words`).
-/

namespace OnyxZygisk.Ptracer

variable {abi : Abi}

/-! ### Words -/

section Words

variable {s s' : Image abi} {addr : Word abi} {value : Word abi}

theorem mapM_eq_some_map {α β : Type} {f : α → Option β} {g : α → β} {xs : List α} (h : ∀ x ∈ xs, f x = some (g x)) :
    xs.mapM f = some (xs.map g) := by
  induction xs with
  | nil => rfl
  | cons x xs ih =>
    rw [List.mapM_cons, h x List.mem_cons_self, ih fun y hy => h y (List.mem_cons_of_mem x hy)]
    rfl

theorem mapM_option_congr {α β : Type} {f g : α → Option β} {xs : List α} (h : ∀ x ∈ xs, f x = g x) :
    xs.mapM f = xs.mapM g := by
  induction xs with
  | nil => rfl
  | cons x xs ih =>
    rw [List.mapM_cons, List.mapM_cons, h x List.mem_cons_self, ih fun y hy => h y (List.mem_cons_of_mem x hy)]

/-- A word is its bytes. -/
theorem readWord_congr
    (h : ∀ i < abi.wordSize, (s.cells (addr.toNat + i)).map Cell.byte = (s'.cells (addr.toNat + i)).map Cell.byte) :
    Kernel.readWord s addr = Kernel.readWord s' addr := by
  unfold Kernel.readWord
  rw [mapM_option_congr fun i hi => h i (List.mem_range.1 hi)]

/-- The memory with a word written. -/
def Image.put (s : Image abi) (addr value : Word abi) : Image abi :=
  { s with cells := s.cells.store addr.toNat (wordBytes value) }

/-- What was written is read. -/
theorem readWord_put (h : ∀ i < abi.wordSize, (s.cells (addr.toNat + i)).isSome) :
    Kernel.readWord (s.put addr value) addr = some value := by
  have hbyte (i : Nat) (hi : i ∈ List.range abi.wordSize) :
      ((s.put addr value).cells (addr.toNat + i)).map Cell.byte = some (UInt8.ofNat (value.toNat >>> (8 * i))) := by
    rw [List.mem_range] at hi
    obtain ⟨cell, hcell⟩ := Option.isSome_iff_exists.1 (h i hi)
    have hin : addr.toNat ≤ addr.toNat + i ∧ addr.toNat + i < addr.toNat + (wordBytes value).length := by
      rw [length_wordBytes]
      omega
    show (s.cells.store addr.toNat (wordBytes value) (addr.toNat + i)).map Cell.byte = _
    rw [AddressSpace.store_in hin, hcell, Nat.add_sub_cancel_left, wordBytes, List.getD_eq_getElem?_getD,
      List.getElem?_map, List.getElem?_range hi]
    rfl
  have hsize : 256 ^ abi.wordSize = 2 ^ abi.bits := by cases abi <;> rfl
  unfold Kernel.readWord
  rw [mapM_eq_some_map hbyte, Option.map_some, ← Bytes.le_eq_foldr, Bytes.le_digits, hsize,
    Nat.mod_eq_of_lt value.isLt, BitVec.ofNat_toNat, BitVec.setWidth_eq]

/-- The words at two addresses have no byte in common. -/
def Apart (abi : Abi) (a b : Nat) : Prop := a + abi.wordSize ≤ b ∨ b + abi.wordSize ≤ a

theorem Apart.symm {a b : Nat} (h : Apart abi a b) : Apart abi b a := Or.symm h

theorem readWord_put_of_apart {other : Word abi} (h : Apart abi addr.toNat other.toNat) :
    Kernel.readWord (s.put addr value) other = Kernel.readWord s other := by
  apply readWord_congr
  intro i hi
  have hout : ¬ (addr.toNat ≤ other.toNat + i ∧ other.toNat + i < addr.toNat + (wordBytes value).length) := by
    rw [length_wordBytes]
    unfold Apart at h
    omega
  show (s.cells.store addr.toNat (wordBytes value) (other.toNat + i)).map Cell.byte = _
  rw [AddressSpace.store_out hout]

end Words

/-! ### Entries -/

section Entries

variable {k : Kernel abi} {r : Reserved abi} {s s' : Image abi}

namespace TableEntry

/-- The word an entry is for. -/
def target (r : Reserved abi) (e : TableEntry abi) : Word abi := r.loadBias + e.reloc.rOffset

/-- What the loader writes there, in place of a word. -/
def loaderValue (r : Reserved abi) (word : Word abi) : TableEntry abi → Option (Word abi)
  | rela e => relaValue r e
  | rel e =>
    match relType abi e.type with
    | .relative => some (r.loadBias + word)
    | .symbolic => r.lib.resolveSymbolAddr r.loadBias e.sym
    | .absolute => (r.lib.resolveSymbolAddr r.loadBias e.sym).map fun sym => if sym = 0 then 0 else sym + word
    | .unsupported => none

end TableEntry

/-- An entry was written. -/
def Patch (r : Reserved abi) (e : TableEntry abi) (s s' : Image abi) : Prop :=
  ∃ value, (∀ word ∈ Kernel.readWord s (e.target r), e.loaderValue r word = some value) ∧
    (∀ i < abi.wordSize, (s.cells ((e.target r).toNat + i)).isSome) ∧ s' = s.put (e.target r) value

/-- Entries were written, one after another. -/
def Patched (r : Reserved abi) : List (TableEntry abi) → Image abi → Image abi → Prop
  | [], s, s' => s' = s
  | e :: es, s, s' => ∃ s₁, Patch r e s s₁ ∧ Patched r es s₁ s'

theorem patched_append {es es' : List (TableEntry abi)} {s₁ : Image abi} (h : Patched r es s s₁)
    (h' : Patched r es' s₁ s') : Patched r (es ++ es') s s' := by
  induction es generalizing s with
  | nil =>
    obtain rfl : s₁ = s := h
    exact h'
  | cons e es ih =>
    obtain ⟨s₂, hpatch, hrest⟩ := h
    exact ⟨s₂, hpatch, ih hrest⟩

/-- A whole write found memory there. -/
theorem run_writeAll_true {addr : Word abi} {data : List UInt8}
    (h : Prog.run Kernel.exec k (writeAll addr data) s = some (true, s')) :
    (∀ i < data.length, (s.cells (addr.toNat + i)).isSome) ∧
      s' = { s with cells := s.cells.store addr.toNat data } := by
  rw [writeAll, Prog.run_bind, run_writeProc, Option.bind_some] at h
  obtain ⟨hall, rfl⟩ := Prog.run_ret_some h
  have hall := of_decide_eq_true hall
  unfold Kernel.write at hall ⊢
  split_ifs at hall ⊢ with hwritable
  · refine ⟨fun i hi => ?_, rfl⟩
    rw [List.all_eq_true] at hwritable
    have hcell := hwritable i (List.mem_range.2 hi)
    unfold Kernel.writable at hcell
    cases hat : s.cells (addr.toNat + i) with
    | none =>
      rw [hat] at hcell
      exact absurd hcell Bool.false_ne_true
    | some cell => rfl
  · dsimp only at hall
    omega

theorem patch_of_write {e : TableEntry abi} {value : Word abi}
    (hvalue : ∀ word ∈ Kernel.readWord s (e.target r), e.loaderValue r word = some value)
    (hrun : Prog.run Kernel.exec k (writeAll (e.target r) (wordBytes value)) s = some (true, s')) : Patch r e s s' := by
  obtain ⟨hmapped, rfl⟩ := run_writeAll_true hrun
  rw [length_wordBytes] at hmapped
  exact ⟨value, hvalue, hmapped, rfl⟩

theorem run_applyRelaEntry {off : Word abi} {i : Nat}
    (h : Prog.run Kernel.exec k (applyRelaEntry r off i) s = some (true, s')) :
    ∃ e, (r.lib.rela off i).map .rela = some e ∧ Patch r e s s' := by
  rw [applyRelaEntry] at h
  cases hentry : r.lib.rela off i with
  | none =>
    rw [hentry] at h
    exact absurd h (Prog.run_ret_ne Bool.false_ne_true)
  | some e =>
    rw [hentry] at h
    dsimp only at h
    cases hvalue : relaValue r e with
    | none =>
      rw [hvalue] at h
      exact absurd h (Prog.run_ret_ne Bool.false_ne_true)
    | some value =>
      rw [hvalue] at h
      exact ⟨.rela e, rfl, patch_of_write (fun _ _ => hvalue) h⟩

theorem run_readRemoteAddr (addr : Word abi) :
    Prog.run Kernel.exec k (readRemoteAddr addr) s = some (Kernel.readWord s addr, s) := Prog.run_perform _ _ _

/-- A value that is computed from the word in memory. -/
theorem run_wordValue {addr value : Word abi} {f : Option (Word abi) → Program abi (Option (Word abi))}
    {g : Word abi → Word abi} (h : Prog.run Kernel.exec k (readRemoteAddr addr >>= f) s = some (some value, s'))
    (hnone : f none = pure none) (hsome : ∀ word, f (some word) = pure (some (g word))) :
    s' = s ∧ ∀ word ∈ Kernel.readWord s addr, g word = value := by
  rw [Prog.run_bind, run_readRemoteAddr, Option.bind_some] at h
  cases hword : Kernel.readWord s addr with
  | none =>
    rw [hword, hnone] at h
    exact absurd h (Prog.run_ret_ne nofun)
  | some word =>
    rw [hword, hsome] at h
    obtain ⟨hvalue, rfl⟩ := Prog.run_ret_some h
    refine ⟨rfl, fun word' hword' => ?_⟩
    rw [← Option.some.inj hword']
    exact Option.some.inj hvalue

/-- The value of an entry without an addend. -/
theorem run_relValue {e : Rel abi} {value : Word abi}
    (h : Prog.run Kernel.exec k (relValue r e) s = some (some value, s')) :
    s' = s ∧ ∀ word ∈ Kernel.readWord s (r.loadBias + e.rOffset),
      (TableEntry.rel e).loaderValue r word = some value := by
  unfold relValue at h
  cases htype : relType abi e.type with
  | relative =>
    rw [htype] at h
    obtain ⟨rfl, hvalue⟩ := run_wordValue h rfl fun _ => rfl
    refine ⟨rfl, fun word hword => ?_⟩
    rw [TableEntry.loaderValue, htype]
    exact congrArg some (hvalue word hword)
  | symbolic =>
    rw [htype] at h
    obtain ⟨hvalue, rfl⟩ := Prog.run_ret_some h
    refine ⟨rfl, fun _ _ => ?_⟩
    rw [TableEntry.loaderValue, htype]
    exact hvalue
  | absolute =>
    rw [htype] at h
    dsimp only at h
    cases hsym : r.lib.resolveSymbolAddr r.loadBias e.sym with
    | none =>
      rw [hsym] at h
      exact absurd h (Prog.run_ret_ne nofun)
    | some sym =>
      rw [hsym] at h
      dsimp only at h
      by_cases hzero : sym = 0
      · rw [if_pos hzero] at h
        obtain ⟨hvalue, rfl⟩ := Prog.run_ret_some h
        refine ⟨rfl, fun _ _ => ?_⟩
        rw [TableEntry.loaderValue, htype]
        dsimp only
        rw [hsym, Option.map_some, if_pos hzero]
        exact hvalue
      · rw [if_neg hzero] at h
        obtain ⟨rfl, hvalue⟩ := run_wordValue h rfl fun _ => rfl
        refine ⟨rfl, fun word hword => ?_⟩
        rw [TableEntry.loaderValue, htype]
        dsimp only
        rw [hsym, Option.map_some, if_neg hzero]
        exact congrArg some (hvalue word hword)
  | unsupported =>
    rw [htype] at h
    exact absurd h (Prog.run_ret_ne nofun)

theorem run_applyRelEntry {off : Word abi} {i : Nat}
    (h : Prog.run Kernel.exec k (applyRelEntry r off i) s = some (true, s')) :
    ∃ e, (r.lib.rel off i).map .rel = some e ∧ Patch r e s s' := by
  rw [applyRelEntry] at h
  cases hentry : r.lib.rel off i with
  | none =>
    rw [hentry] at h
    exact absurd h (Prog.run_ret_ne Bool.false_ne_true)
  | some e =>
    rw [hentry] at h
    obtain ⟨value, s₁, hvalue, hrest⟩ := Prog.run_bind_some h
    cases value with
    | none => exact absurd hrest (Prog.run_ret_ne Bool.false_ne_true)
    | some value =>
      obtain ⟨rfl, hvalue⟩ := run_relValue hvalue
      exact ⟨.rel e, rfl, patch_of_write hvalue hrest⟩

/-! ### Tables -/

/-- A loop that writes an entry in each of its turns. -/
theorem patched_every {xs : List Nat} {body : Nat → Program abi Bool} {entry : Nat → Option (TableEntry abi)}
    (hbody : ∀ x s s', Prog.run Kernel.exec k (body x) s = some (true, s') → ∃ e, entry x = some e ∧ Patch r e s s')
    (h : Prog.run Kernel.exec k (Prog.every xs body) s = some (true, s')) : Patched r (xs.filterMap entry) s s' := by
  induction xs generalizing s with
  | nil => exact (Prog.run_ret_some h).2.symm
  | cons x xs ih =>
    obtain ⟨s₁, hfirst, hrest⟩ := Prog.run_bind_true h rfl
    obtain ⟨e, hentry, hpatch⟩ := hbody x s s₁ hfirst
    rw [List.filterMap_cons_some hentry]
    exact ⟨s₁, hpatch, ih hrest⟩

/-- The entries of a table as the loader has it. -/
def relaTable (lib : Library abi) (off : Word abi) (size : Nat) : List (TableEntry abi) :=
  (List.range (size / (3 * abi.wordSize))).filterMap fun i => (lib.rela off i).map .rela

def relTable (lib : Library abi) (off : Word abi) (size : Nat) : List (TableEntry abi) :=
  (List.range (size / (2 * abi.wordSize))).filterMap fun i => (lib.rel off i).map .rel

/-- All entries, table by table. -/
def loaderEntries (lib : Library abi) (d : DynInfo abi) : List (TableEntry abi) :=
  (if d.relaSz ≠ 0 ∧ d.relaOff ≠ 0 then relaTable lib d.relaOff d.relaSz else []) ++
    ((if d.relSz ≠ 0 ∧ d.relOff ≠ 0 then relTable lib d.relOff d.relSz else []) ++
      if d.jmprelSz ≠ 0 ∧ d.jmprelOff ≠ 0 then
        match d.pltrelType with
        | .rela => relaTable lib d.jmprelOff d.jmprelSz
        | .rel => relTable lib d.jmprelOff d.jmprelSz
        | .other _ => []
      else [])

theorem run_applyRelaSection {off : Word abi} {size : Nat}
    (h : Prog.run Kernel.exec k (applyRelaSection r off size) s = some (true, s')) :
    Patched r (relaTable r.lib off size) s s' := patched_every (fun _ _ _ => run_applyRelaEntry) h

theorem run_applyRelSection {off : Word abi} {size : Nat}
    (h : Prog.run Kernel.exec k (applyRelSection r off size) s = some (true, s')) :
    Patched r (relTable r.lib off size) s s' := patched_every (fun _ _ _ => run_applyRelEntry) h

/-- A table that may be missing. -/
theorem run_optional {p : Prop} [Decidable p] {part : Program abi Bool} {es : List (TableEntry abi)}
    (hpart : Prog.run Kernel.exec k part s = some (true, s') → Patched r es s s')
    (h : Prog.run Kernel.exec k (if p then part else pure true) s = some (true, s')) :
    Patched r (if p then es else []) s s' := by
  split_ifs at h ⊢ with hp
  · exact hpart h
  · exact (Prog.run_ret_some h).2.symm

theorem run_applyRelocations {d : DynInfo abi}
    (h : Prog.run Kernel.exec k (applyRelocations r d) s = some (true, s')) :
    Patched r (loaderEntries r.lib d) s s' ∧
      (d.jmprelSz ≠ 0 ∧ d.jmprelOff ≠ 0 → ∀ tag, d.pltrelType ≠ .other tag) := by
  obtain ⟨s₁, hrela, h⟩ := Prog.run_bind_true h rfl
  obtain ⟨s₂, hrel, h⟩ := Prog.run_bind_true h rfl
  have hfront {es : List (TableEntry abi)} (hrest : Patched r es s₂ s') :=
    patched_append (run_optional run_applyRelaSection hrela)
      (patched_append (run_optional run_applyRelSection hrel) hrest)
  unfold loaderEntries
  rw [if_neg (by decide)] at h
  split_ifs at h with hjmprel
  · rw [if_pos hjmprel]
    cases hpltrel : d.pltrelType with
    | rela =>
      rw [hpltrel] at h
      exact ⟨hfront (run_applyRelaSection h), fun _ tag htag => nomatch htag⟩
    | rel =>
      rw [hpltrel] at h
      exact ⟨hfront (run_applyRelSection h), fun _ tag htag => nomatch htag⟩
    | other tag =>
      rw [hpltrel] at h
      exact absurd h (Prog.run_ret_ne Bool.false_ne_true)
  · rw [if_neg hjmprel]
    exact ⟨hfront (Prog.run_ret_some h).2.symm, fun hthere => absurd hthere hjmprel⟩

end Entries

/-! ### The words afterwards -/

section Words

variable {r : Reserved abi} {s s' : Image abi} {es : List (TableEntry abi)}

/-- Each entry's word has the loader's value for it, in place of the word that was there; other words are as before. -/
theorem patched_words (h : Patched r es s s')
    (hapart : es.Pairwise fun a b => Apart abi (a.target r).toNat (b.target r).toNat) :
    (∀ e ∈ es, ∀ word ∈ Kernel.readWord s (e.target r),
      ∃ value, e.loaderValue r word = some value ∧ Kernel.readWord s' (e.target r) = some value) ∧
      ∀ addr, (∀ e ∈ es, Apart abi (e.target r).toNat addr.toNat) →
        Kernel.readWord s' addr = Kernel.readWord s addr := by
  induction es generalizing s with
  | nil =>
    obtain rfl : s' = s := h
    exact ⟨fun _ he => (nomatch he), fun _ _ => rfl⟩
  | cons e es ih =>
    obtain ⟨s₁, ⟨value, hvalue, hmapped, rfl⟩, hrest⟩ := h
    rw [List.pairwise_cons] at hapart
    obtain ⟨hwords, hframe⟩ := ih hrest hapart.2
    refine ⟨fun other hother word hword => ?_, fun addr haddr => ?_⟩
    · rcases List.mem_cons.1 hother with rfl | hother
      · refine ⟨value, hvalue word hword, ?_⟩
        rw [hframe _ fun later hlater => (hapart.1 later hlater).symm]
        exact readWord_put hmapped
      · apply hwords other hother
        rw [readWord_put_of_apart (hapart.1 other hother)]
        exact hword
    · rw [hframe addr fun other hother => haddr other (List.mem_cons_of_mem e hother)]
      exact readWord_put_of_apart (haddr e List.mem_cons_self)

end Words

end OnyxZygisk.Ptracer

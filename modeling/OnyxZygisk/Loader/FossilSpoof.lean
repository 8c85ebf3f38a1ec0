import OnyxZygisk.Loader.Fossil

/-!
# Spoofing the fossil

`spoof_zygote_fossil` zeroes the fossil it finds, with its remnant, and writes at the same address what `init` would
have left of the mount in front of the first suspicious one. The entry comes from `mountinfo` and is as long as
its four fields are; nothing compares it with the room there is. So no byte behind the old fossil and its remnant
is changed exactly if the new one does not reach beyond them, or writes there what stands there already
(`spoof_in_bounds_iff`).
-/

namespace OnyxZygisk.Loader

open Memory Istream

/-! ### mountinfo -/

/-- `>>` into each of so many tokens, the last of which counts. -/
def token : Nat → List UInt8 → Option (List UInt8 × List UInt8)
  | 0, s => word s
  | n + 1, s => do
    let (_, s) ← word s
    token n s

def parseMountInfoLine (line : List UInt8) : MountInfoEntry :=
  match splitDash line with
  | none => {}
  | some (beforeSeparator, afterSeparator) =>
    -- the mount id, the parent's, the device and the root are read and dropped
    let target := ((token 4 beforeSeparator).map Prod.fst).getD []
    match word afterSeparator with
    | none => { target := target }
    | some (filesystemType, s) =>
      match word s with
      | none => { target := target, filesystemType := filesystemType }
      | some (source, s) =>
        { source := source
          target := target
          filesystemType := filesystemType
          mountOptions := s.dropWhile isSpace }

def keywords : List (List UInt8) :=
  [ascii "KSU", ascii "/debug_ramdisk", ascii "APATCH", ascii "/data/adb", ascii "/adb/modules", ascii "/dev/block/loop"]

/-- `Fossil::parseMountInfo`; `none` is a file that does not open. -/
def parseMountInfoEntries (file : Option (List UInt8)) : List MountInfoEntry :=
  match file with
  | none => []
  | some text => (getlines text).map fun line =>
    { parseMountInfoLine line with isSuspicious := keywords.any fun keyword => decide (keyword <:+: line) }

/-! ### The search -/

/-- The loop of `MountArgv::find`, for so many more addresses. -/
def findFrom (m : Memory) (searchTo : Nat) : Nat → Nat → Option MountArgv
  | 0, _ => none
  | n + 1, p =>
    match parseFromMemory m p searchTo with
    | some f => if f.passesHeuristics then some f else findFrom m searchTo n (p + 1)
    | none => findFrom m searchTo n (p + 1)

def find (m : Memory) (searchFrom searchTo : Nat) : Option MountArgv :=
  findFrom m searchTo (searchTo - searchFrom) searchFrom

/-- The entry of the anchor that stands in front of a suspicious one. -/
def cleanTemplate (anchor : List UInt8) : List MountInfoEntry → Option MountInfoEntry
  | e :: e' :: entries =>
    if anchor <:+: e.target ∧ e'.isSuspicious then some e else cleanTemplate anchor (e' :: entries)
  | _ => none

def spoofZygoteFossil (m : Memory) (searchFrom searchTo : Nat) (anchor : List UInt8) (mountinfo : Option (List UInt8)) :
    Memory :=
  match find m searchFrom searchTo with
  | none => m
  | some suspiciousFossil =>
    if anchor <:+: suspiciousFossil.target then m
    else
      match cleanTemplate anchor (parseMountInfoEntries mountinfo) with
      | none => m
      | some cleanEntry =>
        let cleanFossil := MountArgv.ofEntry cleanEntry suspiciousFossil.startAddress suspiciousFossil.baseFlags
        cleanFossil.writeToMemory (suspiciousFossil.cleanMemory m)

/-! ### Bounds -/

variable {m : Memory} {searchFrom searchTo p q n limit a : Nat} {f : MountArgv} {e : MountInfoEntry}
  {anchor : List UInt8} {mountinfo : Option (List UInt8)}

/-- The end of the fossil and its remnant. -/
def MountArgv.finish (f : MountArgv) : Nat := f.startAddress + (f.fossilSize + f.remnantSize)

theorem doubleNullFrom_lt (h : doubleNullFrom m n p = some q) : p ≤ q ∧ q < p + n := by
  induction n generalizing p with
  | zero => exact absurd h (Option.some_ne_none q).symm
  | succ n ih =>
    rw [doubleNullFrom] at h
    split_ifs at h
    · obtain rfl := Option.some.inj h
      omega
    · have hrest := ih h
      omega

/-- The remnant ends in front of the limit. -/
theorem remnant_le (m : Memory) (hp : p ≤ limit) : p + remnant m p limit ≤ limit := by
  unfold remnant
  cases hnull : findDoubleNull m p limit with
  | none => exact hp
  | some q =>
    have h := doubleNullFrom_lt hnull
    show p + (q - p) ≤ limit
    omega

theorem findFrom_eq_some (h : findFrom m searchTo n p = some f) :
    ∃ q, p ≤ q ∧ parseFromMemory m q searchTo = some f := by
  induction n generalizing p with
  | zero => exact absurd h (Option.some_ne_none f).symm
  | succ n ih =>
    have hnext : findFrom m searchTo n (p + 1) = some f → ∃ q, p ≤ q ∧ parseFromMemory m q searchTo = some f := by
      intro h
      obtain ⟨q, hq, hparse⟩ := ih h
      exact ⟨q, Nat.le_of_succ_le hq, hparse⟩
    unfold findFrom at h
    split at h
    · next g hparse =>
      split_ifs at h
      · obtain rfl := Option.some.inj h
        exact ⟨p, Nat.le_refl p, hparse⟩
      · exact hnext h
    · exact hnext h

/-- The fossil that is found stands in the range, with its remnant. -/
theorem find_eq_some (h : find m searchFrom searchTo = some f) :
    searchFrom ≤ f.startAddress ∧ f.finish ≤ searchTo := by
  obtain ⟨q, hq, hparse⟩ := findFrom_eq_some h
  obtain ⟨rfl, hstands, hremnant⟩ := parseFromMemory_eq_some.1 hparse
  refine ⟨hq, ?_⟩
  rw [MountArgv.finish, hstands.size, hremnant, ← Nat.add_assoc]
  exact remnant_le m hstands.room

/-- The spoofed fossil of an entry. -/
def MountArgv.spoofed (f : MountArgv) (e : MountInfoEntry) : MountArgv := .ofEntry e f.startAddress f.baseFlags

/-- What the spoofed fossil writes behind the old one and its remnant. -/
def overshoot (f : MountArgv) (e : MountInfoEntry) : List UInt8 := (f.spoofed e).bytes.drop (f.fossilSize + f.remnantSize)

/-- Cleaning changes the fossil and its remnant only. -/
theorem cleanMemory_out (h : ¬ (f.startAddress ≤ a ∧ a < f.finish)) : f.cleanMemory m a = m a := by
  unfold MountArgv.cleanMemory
  split_ifs
  · apply write_out
    rw [List.length_replicate]
    exact h
  · rfl

/-- Behind the fossil and its remnant the write leaves the overshoot. -/
theorem spoofed_behind (h : f.finish ≤ a) :
    (f.spoofed e).writeToMemory (f.cleanMemory m) a = m.write f.finish (overshoot f e) a := by
  have hclean : f.cleanMemory m a = m a := cleanMemory_out (by omega)
  rw [MountArgv.writeToMemory_eq]
  show (f.cleanMemory m).write f.startAddress (f.spoofed e).bytes a = _
  unfold MountArgv.finish at h ⊢
  by_cases hin : a < f.startAddress + (f.spoofed e).bytes.length
  · rw [write_in ⟨by omega, hin⟩, write_in, overshoot, List.getD_eq_getElem?_getD, List.getD_eq_getElem?_getD,
      List.getElem?_drop]
    · congr 2
      omega
    · rw [overshoot, List.length_drop]
      omega
  · rw [write_out (by omega), write_out, hclean]
    rw [overshoot, List.length_drop]
    omega

/-- A write of bytes that stand there changes nothing, and any other changes something in its range. -/
theorem write_changes_iff {bs : List UInt8} :
    (∃ a, p ≤ a ∧ m.write p bs a ≠ m a) ↔ m.read p bs.length ≠ bs := by
  constructor
  · rintro ⟨a, -, ha⟩ hread
    rw [write_of_read hread] at ha
    exact ha rfl
  · intro hread
    by_contra hsame
    push Not at hsame
    apply hread
    rw [read_congr fun a ha _ => (hsame a ha).symm]
    exact read_write m p bs

/-- The fossil and the entry that the spoof works with, if it comes to write. -/
def Spoofs (m : Memory) (searchFrom searchTo : Nat) (anchor : List UInt8) (mountinfo : Option (List UInt8))
    (f : MountArgv) (e : MountInfoEntry) : Prop :=
  find m searchFrom searchTo = some f ∧ ¬ anchor <:+: f.target ∧
    cleanTemplate anchor (parseMountInfoEntries mountinfo) = some e

theorem spoof_of_spoofs (h : Spoofs m searchFrom searchTo anchor mountinfo f e) :
    spoofZygoteFossil m searchFrom searchTo anchor mountinfo = (f.spoofed e).writeToMemory (f.cleanMemory m) := by
  obtain ⟨hfind, hanchor, htemplate⟩ := h
  simp only [spoofZygoteFossil, hfind, if_neg hanchor, htemplate]
  rfl

theorem spoof_of_not_spoofs (h : ∀ f e, ¬ Spoofs m searchFrom searchTo anchor mountinfo f e) :
    spoofZygoteFossil m searchFrom searchTo anchor mountinfo = m := by
  unfold spoofZygoteFossil
  split
  · rfl
  · next f hfind =>
    split_ifs with hanchor
    · rfl
    · split
      · rfl
      · next e htemplate => exact absurd ⟨hfind, hanchor, htemplate⟩ (h f e)

/-- Every byte that is changed lies in the range, and in the old fossil or its remnant. -/
def InBounds (m : Memory) (searchFrom searchTo : Nat) (anchor : List UInt8) (mountinfo : Option (List UInt8)) : Prop :=
  ∀ a, spoofZygoteFossil m searchFrom searchTo anchor mountinfo a ≠ m a →
    (searchFrom ≤ a ∧ a < searchTo) ∧
      ∃ f, find m searchFrom searchTo = some f ∧ f.startAddress ≤ a ∧ a < f.finish

/-- The spoof stays in bounds exactly if the new fossil is not longer than the old one and its remnant, or what it
writes behind them stands there already. -/
theorem spoof_in_bounds_iff (m : Memory) (searchFrom searchTo : Nat) (anchor : List UInt8)
    (mountinfo : Option (List UInt8)) :
    InBounds m searchFrom searchTo anchor mountinfo ↔
      ∀ f e, Spoofs m searchFrom searchTo anchor mountinfo f e →
        (f.spoofed e).bytes.length ≤ f.fossilSize + f.remnantSize ∨
          m.read f.finish (overshoot f e).length = overshoot f e := by
  constructor
  · intro hbounds f e hspoofs
    refine .inr ?_
    by_contra hread
    obtain ⟨a, ha, hchange⟩ := write_changes_iff.2 hread
    rw [← spoofed_behind ha] at hchange
    have hbound := hbounds a
    rw [spoof_of_spoofs hspoofs] at hbound
    obtain ⟨-, f', hfind, -, hlt⟩ := hbound hchange
    rw [hspoofs.1, Option.some.injEq] at hfind
    rw [← hfind] at hlt
    omega
  · intro hfits a hchange
    by_cases hspoofs : ∃ f e, Spoofs m searchFrom searchTo anchor mountinfo f e
    · obtain ⟨f, e, hspoofs⟩ := hspoofs
      have hrange := find_eq_some hspoofs.1
      have hover : m.write f.finish (overshoot f e) = m := by
        apply write_of_read
        obtain hle | hread := hfits f e hspoofs
        · rw [overshoot, List.drop_eq_nil_of_le hle]
          rfl
        · exact hread
      rw [spoof_of_spoofs hspoofs] at hchange
      have hbehind : a < f.finish := by
        by_contra hge
        rw [spoofed_behind (Nat.not_lt.1 hge), hover] at hchange
        exact hchange rfl
      have hfront : f.startAddress ≤ a := by
        by_contra hlt
        rw [MountArgv.writeToMemory_eq, write_out, cleanMemory_out (by omega)] at hchange
        · exact hchange rfl
        · exact fun h => hlt h.1
      exact ⟨⟨by omega, by omega⟩, f, hspoofs.1, hfront, hbehind⟩
    · push Not at hspoofs
      rw [spoof_of_not_spoofs hspoofs] at hchange
      exact absurd rfl hchange

/-! ### A longer entry -/

/-- A fossil that ends where the range does. -/
def shortFossil : Memory := fun a => (ascii "a\u0000/b\u0000ext4\u0000seclabel\u0000\u0000\u0000\u0000\u0000").getD (a - 16) 7

def longMountinfo : List UInt8 :=
  ascii "1 0 0:1 / /ref_profiles rw - ext4 /dev/block/dm-1 rw\n2 0 0:2 / /x rw - tmpfs KSU rw\n"

/-- The new fossil reaches behind the range. -/
theorem spoof_out_of_bounds : ¬ InBounds shortFossil 16 39 (ascii "ref_profiles") (some longMountinfo) := by
  have hchange : spoofZygoteFossil shortFossil 16 39 (ascii "ref_profiles") (some longMountinfo) 39 ≠ shortFossil 39 := by
    decide
  intro h
  exact absurd (h 39 hchange).1.2 (by decide)

end OnyxZygisk.Loader

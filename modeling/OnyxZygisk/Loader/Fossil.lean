import OnyxZygisk.Lib.Bytes
import OnyxZygisk.Lib.Istream
import OnyxZygisk.Lib.Memory
import OnyxZygisk.Loader.ReadHook

/-!
# Mount fossils

What `init` left of a mount command on its stack: four C strings one behind the other and the flags.
`parseFromMemory` reads such a fossil within a limit, `writeToMemory` writes one. A fossil is parsed at an address
exactly if its bytes stand there with room up to the limit (`parseFromMemory_eq_some`), so that each of the two
undoes the other.
-/

namespace OnyxZygisk.Loader

open Memory

/-! ### Mount entries -/

/-- A line of `/proc/self/mountinfo`. -/
structure MountInfoEntry where
  source : List UInt8 := []
  target : List UInt8 := []
  filesystemType : List UInt8 := []
  mountOptions : List UInt8 := []
  isSuspicious : Bool := false
  deriving DecidableEq

/-! ### Fossils -/

/-- `MountArgv`. An object that is not valid is `none`: nothing reads its fields. -/
structure MountArgv where
  startAddress : Nat
  source : List UInt8
  target : List UInt8
  filesystemType : List UInt8
  mountOptions : List UInt8
  baseFlags : UInt32
  fossilSize : Nat
  remnantSize : Nat
  deriving DecidableEq

/-- The constructor from a clean entry. -/
def MountArgv.ofEntry (cleanEntry : MountInfoEntry) (targetAddress : Nat) (baseFlags : UInt32) : MountArgv where
  startAddress := targetAddress
  source := cleanEntry.source
  target := cleanEntry.target
  filesystemType := cleanEntry.filesystemType
  mountOptions := cleanEntry.mountOptions
  baseFlags := baseFlags
  fossilSize := (cleanEntry.source.length + 1) + (cleanEntry.target.length + 1) +
    (cleanEntry.filesystemType.length + 1) + (cleanEntry.mountOptions.length + 1) + 4
  remnantSize := 0

/-- `parse_and_copy_string_field`: the string, and the pointer behind its zero. -/
def parseStringField (m : Memory) (ptr limit : Nat) : Option (List UInt8 × Nat) :=
  let len := m.strnlen ptr (limit - ptr)
  if len = limit - ptr then none
  else if ptr + (len + 1) ≤ limit then some (m.read ptr len, ptr + (len + 1)) else none

/-- The loop of `find_double_null`, for so many more places. -/
def doubleNullFrom (m : Memory) : Nat → Nat → Option Nat
  | 0, _ => none
  | n + 1, p => if m p = 0 ∧ m (p + 1) = 0 then some p else doubleNullFrom m n (p + 1)

def findDoubleNull (m : Memory) (start limit : Nat) : Option Nat := doubleNullFrom m (limit - 1 - start) start

/-- What stands between the end of the fossil and the next two zeros. -/
def remnant (m : Memory) (remnantsStart limit : Nat) : Nat :=
  match findDoubleNull m remnantsStart limit with
  | some remnantsEnd => remnantsEnd - remnantsStart
  | none => 0

def parseFromMemory (m : Memory) (start searchLimit : Nat) : Option MountArgv :=
  if start = 0 ∨ searchLimit = 0 ∨ start ≥ searchLimit then none
  else do
    let (source, ptr) ← parseStringField m start searchLimit
    let (target, ptr) ← parseStringField m ptr searchLimit
    let (filesystemType, ptr) ← parseStringField m ptr searchLimit
    let (mountOptions, ptr) ← parseStringField m ptr searchLimit
    if ptr + 4 > searchLimit then none
    else
      some {
        startAddress := start
        source := source
        target := target
        filesystemType := filesystemType
        mountOptions := mountOptions
        baseFlags := UInt32.ofNat (Bytes.u32 (m.read ptr 4))
        fossilSize := ptr + 4 - start
        remnantSize := remnant m (ptr + 4) searchLimit }

def MountArgv.writeToMemory (f : MountArgv) (m : Memory) : Memory :=
  let ptr := f.startAddress
  let m := m.write ptr (cstr f.source)
  let ptr := ptr + (f.source.length + 1)
  let m := m.write ptr (cstr f.target)
  let ptr := ptr + (f.target.length + 1)
  let m := m.write ptr (cstr f.filesystemType)
  let ptr := ptr + (f.filesystemType.length + 1)
  let m := m.write ptr (cstr f.mountOptions)
  let ptr := ptr + (f.mountOptions.length + 1)
  m.write ptr (Bytes.ofU32 f.baseFlags.toNat)

def MountArgv.cleanMemory (f : MountArgv) (m : Memory) : Memory :=
  let totalSize := f.fossilSize + f.remnantSize
  if totalSize > 0 then m.fill f.startAddress totalSize 0 else m

def MountArgv.passesHeuristics (f : MountArgv) : Bool :=
  !(f.target.isEmpty || f.source.isEmpty || f.filesystemType.isEmpty) && f.target.head? == some 0x2f &&
    !(f.filesystemType.length > 10 || f.filesystemType.length < 2) && decide (ascii "seclabel" <:+: f.mountOptions)

/-! ### What a fossil consists of -/

namespace MountArgv

variable {f : MountArgv} {m : Memory}

/-- The bytes of a fossil. -/
def bytes (f : MountArgv) : List UInt8 :=
  cstr f.source ++ cstr f.target ++ cstr f.filesystemType ++ cstr f.mountOptions ++ Bytes.ofU32 f.baseFlags.toNat

theorem length_bytes (f : MountArgv) : f.bytes.length = (f.source.length + 1) + (f.target.length + 1) +
    (f.filesystemType.length + 1) + (f.mountOptions.length + 1) + 4 := by
  simp only [bytes, List.length_append, length_cstr, Bytes.length_ofU32]

theorem fossilSize_ofEntry (e : MountInfoEntry) (addr : Nat) (flags : UInt32) :
    (ofEntry e addr flags).fossilSize = (ofEntry e addr flags).bytes.length :=
  (length_bytes (ofEntry e addr flags)).symm

/-- The five copies are one. -/
theorem writeToMemory_eq (f : MountArgv) (m : Memory) : f.writeToMemory m = m.write f.startAddress f.bytes := by
  simp only [writeToMemory, ← length_cstr, write_append, Nat.add_assoc, ← List.length_append]
  rfl

/-- The strings and the flags stand one behind the other. -/
theorem read_bytes_iff : m.read f.startAddress f.bytes.length = f.bytes ↔
    m.read f.startAddress (cstr f.source).length = cstr f.source ∧
    m.read (f.startAddress + (cstr f.source).length) (cstr f.target).length = cstr f.target ∧
    m.read (f.startAddress + (cstr f.source).length + (cstr f.target).length) (cstr f.filesystemType).length =
      cstr f.filesystemType ∧
    m.read (f.startAddress + (cstr f.source).length + (cstr f.target).length + (cstr f.filesystemType).length)
      (cstr f.mountOptions).length = cstr f.mountOptions ∧
    m.read (f.startAddress + (cstr f.source).length + (cstr f.target).length + (cstr f.filesystemType).length +
      (cstr f.mountOptions).length) 4 = Bytes.ofU32 f.baseFlags.toNat := by
  rw [bytes, read_append_iff, read_append_iff, read_append_iff, read_append_iff, Bytes.length_ofU32]
  simp only [List.length_append, ← Nat.add_assoc, and_assoc]

/-- No string holds a zero. -/
structure ZeroFree (f : MountArgv) : Prop where
  source : 0 ∉ f.source
  target : 0 ∉ f.target
  filesystemType : 0 ∉ f.filesystemType
  mountOptions : 0 ∉ f.mountOptions

/-- The bytes of the fossil stand at its address, up to the limit at most. -/
structure Stands (f : MountArgv) (m : Memory) (limit : Nat) : Prop where
  zeroFree : f.ZeroFree
  start_ne : f.startAddress ≠ 0
  read : m.read f.startAddress f.bytes.length = f.bytes
  room : f.startAddress + f.bytes.length ≤ limit
  size : f.fossilSize = f.bytes.length

end MountArgv

/-! ### Parsing -/

variable {m : Memory} {ptr ptr' start limit : Nat} {s : List UInt8} {f : MountArgv}

/-- A field is parsed exactly if a string without zeros stands there, with its zero in front of the limit. -/
theorem parseStringField_eq_some :
    parseStringField m ptr limit = some (s, ptr') ↔
      0 ∉ s ∧ m.read ptr (cstr s).length = cstr s ∧ ptr' = ptr + (cstr s).length ∧ ptr' ≤ limit := by
  have hle := strnlen_le m ptr (limit - ptr)
  unfold parseStringField
  dsimp only
  constructor
  · intro h
    split_ifs at h with hall hroom
    obtain ⟨hs, hptr⟩ := Prod.mk.inj (Option.some.inj h)
    have hlt : m.strnlen ptr (limit - ptr) < limit - ptr := Nat.lt_of_le_of_ne hle hall
    have hlen : s.length = m.strnlen ptr (limit - ptr) := by rw [← hs, length_read]
    refine ⟨?_, ?_, ?_, ?_⟩
    · rw [← hs]
      exact zero_not_mem_read m ptr _
    · rw [length_cstr, read_concat, hlen, strnlen_zero hlt, hs]
      rfl
    · rw [length_cstr, hlen, hptr]
    · omega
  · rintro ⟨hs, hread, rfl, hroom⟩
    rw [length_cstr] at hroom
    have hlen := strnlen_cstr hs hread (show s.length < limit - ptr by omega)
    rw [hlen, if_neg (by omega), if_pos hroom, length_cstr]
    rw [length_cstr, read_concat] at hread
    have hs := (List.append_inj hread (length_read _ _ _)).1
    rw [hs]

/-- The flags are the word that stands behind the strings. -/
theorem ofU32_read (m : Memory) (ptr : Nat) :
    Bytes.ofU32 (UInt32.ofNat (Bytes.u32 (m.read ptr 4))).toNat = m.read ptr 4 := by
  rw [UInt32.toNat_ofNat_of_lt' (Bytes.u32_lt _), Bytes.ofU32_u32 (length_read m ptr 4)]

theorem ofNat_u32 {flags : UInt32} (h : m.read ptr 4 = Bytes.ofU32 flags.toNat) :
    UInt32.ofNat (Bytes.u32 (m.read ptr 4)) = flags := by
  rw [h, Bytes.u32_ofU32 flags.toNat_lt, UInt32.ofNat_toNat]

/-- A fossil is parsed exactly if it stands there. -/
theorem parseFromMemory_eq_some :
    parseFromMemory m start limit = some f ↔
      f.startAddress = start ∧ f.Stands m limit ∧ f.remnantSize = remnant m (start + f.bytes.length) limit := by
  unfold parseFromMemory
  constructor
  · intro h
    split_ifs at h with hnull
    rw [not_or, not_or] at hnull
    simp only [Option.bind_eq_bind, Option.bind_eq_some_iff, Prod.exists, parseStringField_eq_some] at h
    obtain ⟨source, p, ⟨hs, hsource, rfl, -⟩, target, p, ⟨ht, htarget, rfl, -⟩, type, p, ⟨hty, htype, rfl, -⟩,
      options, p, ⟨ho, hoptions, rfl, -⟩, h⟩ := h
    split_ifs at h with hroom
    obtain rfl := Option.some.inj h
    simp only [length_cstr] at hroom
    refine ⟨rfl, ⟨⟨hs, ht, hty, ho⟩, hnull.1, ?_, ?_, ?_⟩, ?_⟩
    · exact MountArgv.read_bytes_iff.2 ⟨hsource, htarget, htype, hoptions, (ofU32_read m _).symm⟩
    · rw [MountArgv.length_bytes]
      show start + (source.length + 1 + (target.length + 1) + (type.length + 1) + (options.length + 1) + 4) ≤ limit
      omega
    · rw [MountArgv.length_bytes]
      simp only [length_cstr]
      omega
    · rw [MountArgv.length_bytes]
      simp only [length_cstr, Nat.add_assoc]
  · rintro ⟨rfl, ⟨hzero, hne, hread, hroom, hsize⟩, hremnant⟩
    have hlen := f.length_bytes
    rw [MountArgv.read_bytes_iff] at hread
    obtain ⟨hsource, htarget, htype, hoptions, hflags⟩ := hread
    rw [if_neg (by omega)]
    simp only [Option.bind_eq_bind, Option.bind_eq_some_iff, Prod.exists, parseStringField_eq_some]
    refine ⟨f.source, _, ⟨hzero.source, hsource, rfl, ?_⟩, f.target, _, ⟨hzero.target, htarget, rfl, ?_⟩,
      f.filesystemType, _, ⟨hzero.filesystemType, htype, rfl, ?_⟩,
      f.mountOptions, _, ⟨hzero.mountOptions, hoptions, rfl, ?_⟩, ?_⟩
    · rw [length_cstr]
      omega
    · simp only [length_cstr]
      omega
    · simp only [length_cstr]
      omega
    · simp only [length_cstr]
      omega
    · simp only [length_cstr] at hflags ⊢
      rw [if_neg (by omega), ofNat_u32 hflags]
      have hsize' : f.startAddress + (f.source.length + 1) + (f.target.length + 1) + (f.filesystemType.length + 1) +
          (f.mountOptions.length + 1) + 4 = f.startAddress + f.bytes.length := by omega
      rw [hsize', Nat.add_sub_cancel_left, ← hremnant, ← hsize]

/-! ### The two directions -/

/-- A fossil written with room up to the limit is parsed, and a fossil that was parsed is written as it stood. -/
theorem parse_write_fossil :
    (∀ (e : MountInfoEntry) (flags : UInt32) (m : Memory) (addr limit : Nat), 0 ∉ e.source → 0 ∉ e.target →
      0 ∉ e.filesystemType → 0 ∉ e.mountOptions → addr ≠ 0 →
      addr + (MountArgv.ofEntry e addr flags).fossilSize ≤ limit →
      ∃ f, parseFromMemory ((MountArgv.ofEntry e addr flags).writeToMemory m) addr limit = some f ∧
        f.source = e.source ∧ f.target = e.target ∧ f.filesystemType = e.filesystemType ∧
        f.mountOptions = e.mountOptions ∧ f.baseFlags = flags ∧
        f.fossilSize = (MountArgv.ofEntry e addr flags).fossilSize) ∧
    ∀ (m : Memory) (start limit : Nat) (f : MountArgv), parseFromMemory m start limit = some f →
      f.writeToMemory m = m := by
  constructor
  · intro e flags m addr limit hsource htarget htype hoptions haddr hroom
    have hsize := MountArgv.fossilSize_ofEntry e addr flags
    let m' := (MountArgv.ofEntry e addr flags).writeToMemory m
    refine ⟨{ MountArgv.ofEntry e addr flags with
      remnantSize := remnant m' (addr + (MountArgv.ofEntry e addr flags).bytes.length) limit }, ?_, rfl, rfl, rfl, rfl,
      rfl, rfl⟩
    apply parseFromMemory_eq_some.2
    refine ⟨rfl, ⟨⟨hsource, htarget, htype, hoptions⟩, haddr, ?_, ?_, hsize⟩, rfl⟩
    · show ((MountArgv.ofEntry e addr flags).writeToMemory m).read addr _ = (MountArgv.ofEntry e addr flags).bytes
      rw [MountArgv.writeToMemory_eq]
      exact read_write m addr _
    · rw [hsize] at hroom
      exact hroom
  · intro m start limit f h
    obtain ⟨-, hstands, -⟩ := parseFromMemory_eq_some.1 h
    rw [MountArgv.writeToMemory_eq]
    exact write_of_read hstands.read

/-- Without options, with flags that hold zero bytes, up to the very limit. -/
theorem parse_write_noOptions :
    ∃ f, parseFromMemory ((MountArgv.ofEntry ⟨ascii "a", ascii "/b", ascii "ext4", [], false⟩ 16 256).writeToMemory
        fun _ => 7) 16 31 = some f ∧ f.baseFlags = 256 ∧ f.fossilSize = 15 ∧
      f.writeToMemory ((MountArgv.ofEntry ⟨ascii "a", ascii "/b", ascii "ext4", [], false⟩ 16 256).writeToMemory
        fun _ => 7) =
        (MountArgv.ofEntry ⟨ascii "a", ascii "/b", ascii "ext4", [], false⟩ 16 256).writeToMemory fun _ => 7 := by
  obtain ⟨f, hparse, -, -, -, -, hflags, hsize⟩ := parse_write_fossil.1
    ⟨ascii "a", ascii "/b", ascii "ext4", [], false⟩ 256 (fun _ => 7) 16 31 (by decide) (by decide) (by decide)
    (by decide) (by decide) (by decide)
  exact ⟨f, hparse, hflags, hsize, parse_write_fossil.2 _ 16 31 f hparse⟩

end OnyxZygisk.Loader

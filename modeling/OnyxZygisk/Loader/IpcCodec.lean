import OnyxZygisk.Lib.Cursor
import OnyxZygisk.Lib.Wire

/-!
# The typed fields of the Zig loader's protocol

`Reader` decodes fields from a byte string and `Writer` encodes them: bytes, little-endian words of fixed
size and of the size of a `usize`, strings with their length in front, and the records of `readFnModule`,
which are five fields. What a sequence of reads returns is what the bytes it consumed encode, and what was
written is read back (`codec_roundTrip`); a failed read leaves the reader usable, its offset inside the
bytes.
-/

namespace OnyxZygisk.Loader.Ipc

/-- `Error` -/
inductive IpcError where
  | unexpectedEnd
  | invalidLength
  | lengthOverflow
  | outOfMemory
  deriving DecidableEq

def maxStringBytes : Nat := 1024 * 1024

/-- The targets by their `usize`. -/
inductive Target where
  | bits32
  | bits64
  deriving DecidableEq

/-- `@sizeOf(usize)` -/
def Target.usizeBytes : Target → Nat
  | bits32 => 4
  | bits64 => 8

abbrev Usize (t : Target) : Type := BitVec (8 * t.usizeBytes)

structure FnModuleRecord where
  id : List UInt8
  triggers : List UInt8
  scope : UInt8
  apps : List UInt8
  priority : BitVec 32
  deriving DecidableEq

/-! ### Reader -/

abbrev Reader : Type := Cursor UInt8

def Reader.init (bytes : List UInt8) : Reader := ⟨bytes, 0⟩

abbrev ReadM (α : Type) : Type := Cursor.Read IpcError UInt8 α

abbrev take (length : Nat) : ReadM (List UInt8) := Cursor.take .unexpectedEnd length

def readU8 : ReadM UInt8 := take 1 >>= fun bytes => pure (bytes.getD 0 0)

/-- `byte << (8 * index)` as a word of `w` bits. -/
def shifted (w : Nat) (bytes : List UInt8) (index : Nat) : BitVec w :=
  (bytes.getD index 0).toBitVec.setWidth w <<< (index * 8)

def readU32 : ReadM (BitVec 32) := take 4 >>= fun bytes =>
  pure ((bytes.getD 0 0).toBitVec.setWidth 32 ||| shifted 32 bytes 1 ||| shifted 32 bytes 2 |||
    shifted 32 bytes 3)

/-- `for (bytes, 0..) |byte, index| value |= byte << (index * 8)` -/
def orBytes {w : Nat} (value : BitVec w) (index : Nat) : List UInt8 → BitVec w
  | [] => value
  | byte :: bytes => orBytes (value ||| byte.toBitVec.setWidth w <<< (index * 8)) (index + 1) bytes

def readU64 : ReadM (BitVec 64) := take 8 >>= fun bytes => pure (orBytes 0 0 bytes)

def readUSize : (t : Target) → ReadM (Usize t)
  | .bits32 => readU32
  | .bits64 => readU64

def readString (t : Target) : ReadM (List UInt8) := readUSize t >>= fun length =>
  if length.toNat > maxStringBytes then Cursor.fail .invalidLength else take length.toNat

def readFnModule (t : Target) : ReadM FnModuleRecord :=
  readString t >>= fun id =>
  readString t >>= fun triggers =>
  readU8 >>= fun scope =>
  if scope > 2 then Cursor.fail .invalidLength
  else
    readString t >>= fun apps =>
    readU32 >>= fun priority =>
    pure ⟨id, triggers, scope, apps, priority⟩

/-! ### Writer -/

/-- Writes to the list; an allocator that can `grow` it to some lengths. -/
abbrev WriteM : Type := Cursor.Write IpcError UInt8

section Writer

variable (grow : Nat → Bool) (t : Target)

/-- `list.append` and `list.appendSlice` -/
def appendSlice (s : List UInt8) : WriteM := Cursor.append .outOfMemory grow s

def writeU8 (value : UInt8) : WriteM := appendSlice grow [value]

/-- `writeInt` in little-endian order. -/
def writeInt {n : Nat} (value : BitVec (8 * n)) : List UInt8 := Wire.leBytes n value.toNat

def writeU32 (value : BitVec 32) : WriteM := appendSlice grow (writeInt (n := 4) value)

def writeUSize : (t : Target) → Usize t → WriteM
  | .bits32, value => if value.toNat > 2 ^ 32 - 1 then .refuse .lengthOverflow else writeU32 grow value
  | .bits64, value => appendSlice grow (writeInt (n := 8) value)

def writeString (value : List UInt8) : WriteM :=
  if value.length > maxStringBytes then .refuse .invalidLength
  else (writeUSize grow t (BitVec.ofNat _ value.length)).andThen (appendSlice grow value)

/-- The five writes that `readFnModule` reads back. -/
def writeFnModule (m : FnModuleRecord) : WriteM :=
  (writeString grow t m.id).andThen <| (writeString grow t m.triggers).andThen <|
    (writeU8 grow m.scope).andThen <| (writeString grow t m.apps).andThen (writeU32 grow m.priority)

end Writer

/-! ### Sequences of operations -/

inductive FieldKind where
  | u8
  | u32
  | usize
  | string
  | fnModule
  deriving DecidableEq

inductive FieldValue (t : Target) where
  | u8 (value : UInt8)
  | u32 (value : BitVec 32)
  | usize (value : Usize t)
  | string (value : List UInt8)
  | fnModule (value : FnModuleRecord)
  deriving DecidableEq

variable {t : Target}

def FieldValue.kind : FieldValue t → FieldKind
  | u8 _ => .u8
  | u32 _ => .u32
  | usize _ => .usize
  | string _ => .string
  | fnModule _ => .fnModule

def readField (t : Target) : FieldKind → ReadM (FieldValue t)
  | .u8 => readU8 >>= fun value => pure (.u8 value)
  | .u32 => readU32 >>= fun value => pure (.u32 value)
  | .usize => readUSize t >>= fun value => pure (.usize value)
  | .string => readString t >>= fun value => pure (.string value)
  | .fnModule => readFnModule t >>= fun value => pure (.fnModule value)

def writeField (grow : Nat → Bool) : FieldValue t → WriteM
  | .u8 value => writeU8 grow value
  | .u32 value => writeU32 grow value
  | .usize value => writeUSize grow t value
  | .string value => writeString grow t value
  | .fnModule value => writeFnModule grow t value

/-- The reads one after the other, a failed one included. -/
def readFields (t : Target) (kinds : List FieldKind) (r : Reader) :
    List (Except IpcError (FieldValue t)) × Reader :=
  Cursor.run (readField t) kinds r

def writeFields (grow : Nat → Bool) (values : List (FieldValue t)) : WriteM :=
  Cursor.Write.each (writeField grow) values

/-! ### Words -/

/-- The `or` of bytes at their places is the number that they make up. -/
theorem toNat_orBytes {w : Nat} {bytes : List UInt8} {value : BitVec w} {index : Nat}
    (hw : 8 * (index + bytes.length) ≤ w) (hvalue : value.toNat < 256 ^ index) :
    (orBytes value index bytes).toNat = value.toNat + 256 ^ index * Wire.leValue bytes := by
  induction bytes generalizing value index with
  | nil => rfl
  | cons byte bytes ih =>
    rw [List.length_cons] at hw
    have hbyte := byte.toNat_lt
    have hpow : (256 : Nat) ^ index = 2 ^ (index * 8) := by
      rw [Nat.mul_comm, Nat.pow_mul]
    have hfits : byte.toNat * 2 ^ (index * 8) < 2 ^ w := by
      have hle : 2 ^ (8 + index * 8) ≤ 2 ^ w := Nat.pow_le_pow_right (by decide) (by omega)
      rw [Nat.pow_add] at hle
      have hlt : byte.toNat * 2 ^ (index * 8) < 2 ^ 8 * 2 ^ (index * 8) :=
        Nat.mul_lt_mul_of_pos_right hbyte (Nat.two_pow_pos _)
      omega
    have hplace : (byte.toBitVec.setWidth w <<< (index * 8)).toNat = 2 ^ (index * 8) * byte.toNat := by
      have hmod : byte.toNat % 2 ^ w * 2 ^ (index * 8) % 2 ^ w = byte.toNat * 2 ^ (index * 8) := by
        have hsmall : byte.toNat < 2 ^ w := by
          have hle := Nat.le_mul_of_pos_right byte.toNat (Nat.two_pow_pos (index * 8))
          omega
        rw [Nat.mod_eq_of_lt hsmall, Nat.mod_eq_of_lt hfits]
      rw [BitVec.toNat_shiftLeft, BitVec.toNat_setWidth, Nat.shiftLeft_eq, Nat.mul_comm (2 ^ (index * 8))]
      exact hmod
    have hor : (value ||| byte.toBitVec.setWidth w <<< (index * 8)).toNat =
        value.toNat + 256 ^ index * byte.toNat := by
      rw [BitVec.toNat_or, hplace, Nat.or_comm, ← Nat.two_pow_add_eq_or_of_lt (hpow ▸ hvalue), hpow,
        Nat.add_comm]
    have hnext : (value ||| byte.toBitVec.setWidth w <<< (index * 8)).toNat < 256 ^ (index + 1) := by
      have hmul : 256 ^ index * byte.toNat ≤ 256 ^ index * 255 := Nat.mul_le_mul_left _ (by omega)
      rw [hor, Nat.pow_succ]
      omega
    rw [orBytes, ih (by omega) hnext, hor, Wire.leValue, Nat.pow_succ]
    ring

/-- The four bytes written out are the loop over them. -/
theorem readU32_value {bytes : List UInt8} (h : bytes.length = 4) :
    (bytes.getD 0 0).toBitVec.setWidth 32 ||| shifted 32 bytes 1 ||| shifted 32 bytes 2 ||| shifted 32 bytes 3 =
      orBytes 0 0 bytes := by
  match bytes, h with
  | [a, b, c, d], _ =>
    simp only [orBytes, shifted, List.getD_cons_zero, List.getD_cons_succ, Nat.zero_mul, BitVec.shiftLeft_zero,
      BitVec.ofNat_eq_ofNat, BitVec.zero_or, Nat.zero_add, Nat.reduceAdd]

section Words

variable {n : Nat}

@[simp] theorem length_writeInt (value : BitVec (8 * n)) : (writeInt value).length = n := Wire.length_leBytes _ _

theorem pow_bytes (n : Nat) : 256 ^ n = 2 ^ (8 * n) := (Nat.pow_mul 2 8 n).symm

theorem toNat_orBytes_zero {bytes : List UInt8} (h : bytes.length = n) :
    (orBytes (0 : BitVec (8 * n)) 0 bytes).toNat = Wire.leValue bytes := by
  have hzero : (0 : BitVec (8 * n)).toNat = 0 := BitVec.toNat_zero
  rw [toNat_orBytes (by omega) (by rw [hzero]; exact Nat.one_pos), hzero, Nat.pow_zero, Nat.one_mul, Nat.zero_add]

/-- A word that is written is read back. -/
theorem orBytes_writeInt (value : BitVec (8 * n)) : orBytes 0 0 (writeInt value) = value := by
  apply BitVec.eq_of_toNat_eq
  rw [toNat_orBytes_zero (length_writeInt value), writeInt, Wire.leValue_leBytes]
  rw [pow_bytes]
  exact value.isLt

/-- A word that is read is written as it stood. -/
theorem writeInt_orBytes {bytes : List UInt8} (h : bytes.length = n) :
    writeInt (orBytes (0 : BitVec (8 * n)) 0 bytes) = bytes := by
  rw [writeInt, toNat_orBytes_zero h, ← h, Wire.leBytes_leValue]

end Words

/-! ### What each operation reads -/

theorem decodes_readU8 : Cursor.Decodes readU8 (fun _ => True) fun value => [value] := by
  have hlen (value : UInt8) : [value].length = 1 := rfl
  have hbytes (bytes : List UInt8) (h : bytes.length = 1) : [bytes.getD 0 0] = bytes := by
    match bytes, h with
    | [_], _ => rfl
  exact Cursor.Decodes.take_map hlen (fun _ => rfl) hbytes

theorem decodes_readU32 : Cursor.Decodes readU32 (fun _ => True) (writeInt (n := 4)) := by
  apply Cursor.Decodes.take_map (length_writeInt (n := 4))
  · intro value
    rw [readU32_value (length_writeInt (n := 4) value)]
    exact orBytes_writeInt (n := 4) value
  · intro bytes h
    rw [readU32_value h]
    exact writeInt_orBytes (n := 4) h

theorem decodes_readU64 : Cursor.Decodes readU64 (fun _ => True) (writeInt (n := 8)) :=
  Cursor.Decodes.take_map (length_writeInt (n := 8)) (orBytes_writeInt (n := 8))
    fun _ h => writeInt_orBytes (n := 8) h

theorem decodes_readUSize (t : Target) :
    Cursor.Decodes (readUSize t) (fun _ => True) (writeInt (n := t.usizeBytes)) := by
  cases t with
  | bits32 => exact decodes_readU32
  | bits64 => exact decodes_readU64

/-- A string that both sides accept. -/
def Short (s : List UInt8) : Prop := s.length ≤ maxStringBytes

def stringLength (t : Target) (s : List UInt8) : Usize t := BitVec.ofNat _ s.length

def encodeString (t : Target) (s : List UInt8) : List UInt8 :=
  writeInt (n := t.usizeBytes) (stringLength t s) ++ s

/-- The length of a short string fits a `usize`. -/
theorem toNat_stringLength {s : List UInt8} (h : Short s) : (stringLength t s).toNat = s.length := by
  have hmax : maxStringBytes < 2 ^ (8 * t.usizeBytes) := by
    cases t <;> decide
  have hs : s.length ≤ maxStringBytes := h
  rw [stringLength, BitVec.toNat_ofNat, Nat.mod_eq_of_lt (by omega)]

theorem decodes_readString (t : Target) : Cursor.Decodes (readString t) Short (encodeString t) := by
  have h : Cursor.Decodes (readString t) (fun s => True ∧ Short s) (encodeString t) := by
    apply (decodes_readUSize t).bind (stringLength t)
    intro length
    have htake : Cursor.Decodes (take length.toNat) (fun s => s.length = length.toNat) fun s => s :=
      Cursor.decodes_take _ _
    have hbody := htake.guard (p := length.toNat > maxStringBytes) IpcError.invalidLength
    apply hbody.congr
    intro s
    constructor
    · rintro ⟨hle, hlen⟩
      have hs : Short s := by
        rw [Short, hlen]
        exact Nat.not_lt.1 hle
      refine ⟨BitVec.eq_of_toNat_eq ?_, hs⟩
      rw [toNat_stringLength hs, hlen]
    · rintro ⟨rfl, hs⟩
      rw [toNat_stringLength hs]
      exact ⟨Nat.not_lt.2 hs, rfl⟩
  exact h.congr fun _ => iff_of_eq (true_and _)

/-- A record that is read back. -/
structure FnModuleRecord.Valid (m : FnModuleRecord) : Prop where
  id : Short m.id
  triggers : Short m.triggers
  scope : m.scope ≤ 2
  apps : Short m.apps

def encodeFnModule (t : Target) (m : FnModuleRecord) : List UInt8 :=
  encodeString t m.id ++ (encodeString t m.triggers ++ ([m.scope] ++ (encodeString t m.apps ++
    (writeInt (n := 4) m.priority ++ []))))

theorem decodes_readFnModule (t : Target) :
    Cursor.Decodes (readFnModule t) FnModuleRecord.Valid (encodeFnModule t) := by
  -- from the last field back to the first; each step takes one field out of the record
  have hrecord (id triggers : List UInt8) (scope : UInt8) (apps : List UInt8) (priority : BitVec 32) :
      Cursor.Decodes (pure ⟨id, triggers, scope, apps, priority⟩ : ReadM FnModuleRecord)
        (fun m => m.priority = priority ∧ m.apps = apps ∧ m.scope = scope ∧ m.triggers = triggers ∧ m.id = id)
        fun _ => [] := by
    apply (Cursor.decodes_pure _).congr
    intro m
    cases m
    simp only [FnModuleRecord.mk.injEq]
    tauto
  have hpriority (id triggers : List UInt8) (scope : UInt8) (apps : List UInt8) :
      Cursor.Decodes (readU32 >>= fun priority => pure (⟨id, triggers, scope, apps, priority⟩ : FnModuleRecord))
        (fun m => m.apps = apps ∧ m.scope = scope ∧ m.triggers = triggers ∧ m.id = id)
        fun m => writeInt (n := 4) m.priority ++ [] :=
    (decodes_readU32.bind FnModuleRecord.priority (hrecord id triggers scope apps)).congr
      fun _ => iff_of_eq (true_and _)
  have happs (id triggers : List UInt8) (scope : UInt8) := (decodes_readString t).bind FnModuleRecord.apps
    (hpriority id triggers scope)
  have hscope (id triggers : List UInt8) : Cursor.Decodes
      (readU8 >>= fun scope => if scope > 2 then Cursor.fail .invalidLength else
        readString t >>= fun apps => readU32 >>= fun priority =>
          pure (⟨id, triggers, scope, apps, priority⟩ : FnModuleRecord))
      (fun m => m.triggers = triggers ∧ m.id = id ∧ m.scope ≤ 2 ∧ Short m.apps)
      fun m => [m.scope] ++ (encodeString t m.apps ++ (writeInt (n := 4) m.priority ++ [])) := by
    have hbody (scope : UInt8) := ((happs id triggers scope).guard (p := scope > 2) IpcError.invalidLength)
    apply (decodes_readU8.bind FnModuleRecord.scope fun scope => (hbody scope).congr fun m => ?_).congr
    · intro m
      exact iff_of_eq (true_and _)
    · constructor
      · rintro ⟨hle, happs, rfl, htriggers, hid⟩
        exact ⟨rfl, htriggers, hid, UInt8.not_lt.1 hle, happs⟩
      · rintro ⟨rfl, htriggers, hid, hle, happs⟩
        exact ⟨UInt8.not_lt.2 hle, happs, rfl, htriggers, hid⟩
  have htriggers (id : List UInt8) := (decodes_readString t).bind FnModuleRecord.triggers (hscope id)
  have hid := (decodes_readString t).bind FnModuleRecord.id fun id => (htriggers id).congr fun _ => and_left_comm
  exact hid.congr fun m => ⟨fun h => ⟨h.1, h.2.1, h.2.2.1, h.2.2.2⟩, fun h => ⟨h.id, h.triggers, h.scope, h.apps⟩⟩

/-! ### What each operation writes -/

variable {grow : Nat → Bool}

theorem appends_writeU8 (value : UInt8) : Cursor.Appends grow (writeU8 grow value) True [value] :=
  Cursor.appends_append _ _

theorem appends_writeU32 (value : BitVec 32) :
    Cursor.Appends grow (writeU32 grow value) True (writeInt (n := 4) value) :=
  Cursor.appends_append _ _

theorem appends_writeUSize (value : Usize t) :
    Cursor.Appends grow (writeUSize grow t value) True (writeInt (n := t.usizeBytes) value) := by
  cases t with
  | bits32 =>
    -- no `usize` of this target is too large
    have hlt : value.toNat < 2 ^ 32 := value.isLt
    have hle : ¬ value.toNat > 2 ^ 32 - 1 := by omega
    exact ((appends_writeU32 value).guard IpcError.lengthOverflow).congr ⟨fun _ => trivial, fun _ => ⟨hle, trivial⟩⟩
  | bits64 => exact Cursor.appends_append _ _

theorem appends_writeString (value : List UInt8) :
    Cursor.Appends grow (writeString grow t value) (Short value) (encodeString t value) := by
  have hslice : Cursor.Appends grow (appendSlice grow value) True value := Cursor.appends_append _ _
  have hlength : Cursor.Appends grow (writeUSize grow t (BitVec.ofNat _ value.length)) True _ :=
    appends_writeUSize (stringLength t value)
  have h := (hlength.andThen hslice).guard (p := value.length > maxStringBytes) IpcError.invalidLength
  apply h.congr
  rw [and_true, and_true, Nat.not_lt]
  rfl

theorem appends_writeFnModule (m : FnModuleRecord) :
    Cursor.Appends grow (writeFnModule grow t m) (Short m.id ∧ Short m.triggers ∧ Short m.apps)
      (encodeFnModule t m) := by
  have hpriority : Cursor.Appends grow (writeU32 grow m.priority) True (writeInt (n := 4) m.priority) :=
    appends_writeU32 m.priority
  have happs := (appends_writeString (t := t) m.apps).andThen hpriority
  have htriggers := (appends_writeString (t := t) m.triggers).andThen ((appends_writeU8 m.scope).andThen happs)
  rw [encodeFnModule, List.append_nil]
  apply ((appends_writeString m.id).andThen htriggers).congr
  rw [and_true, true_and]

/-! ### Fields -/

/-- A field that its operation reads. -/
def FieldValue.Valid : FieldValue t → Prop
  | .string value => Short value
  | .fnModule value => value.Valid
  | _ => True

def FieldValue.encode : FieldValue t → List UInt8
  | .u8 value => [value]
  | .u32 value => writeInt (n := 4) value
  | .usize value => writeInt (n := t.usizeBytes) value
  | .string value => encodeString t value
  | .fnModule value => encodeFnModule t value

/-- An operation whose value becomes a field. -/
theorem decodes_field {α : Type} {x : ReadM α} {valid : α → Prop} {enc : α → List UInt8}
    (hx : Cursor.Decodes x valid enc) {kind : FieldKind} (field : α → FieldValue t)
    (hkind : ∀ value : FieldValue t, value.kind = kind ↔ ∃ a, value = field a)
    (hvalid : ∀ a, (field a).Valid ↔ valid a) (henc : ∀ a, (field a).encode = enc a) :
    Cursor.Decodes (x >>= fun a => (pure (field a) : ReadM (FieldValue t)))
      (fun value => value.kind = kind ∧ value.Valid) FieldValue.encode := by
  intro r r' value
  rw [Cursor.bind_eq_ok]
  constructor
  · rintro ⟨a, d, ha, hvalue⟩
    obtain ⟨hva, hprefix, rfl⟩ := (hx _ _ _).1 ha
    obtain ⟨hvalue, hr⟩ := Prod.mk.inj hvalue
    obtain rfl := Except.ok.inj hvalue
    rw [henc]
    exact ⟨⟨(hkind _).2 ⟨a, rfl⟩, (hvalid a).2 hva⟩, hprefix, hr.symm⟩
  · rintro ⟨⟨hk, hv⟩, hprefix, rfl⟩
    obtain ⟨a, rfl⟩ := (hkind value).1 hk
    rw [henc] at hprefix ⊢
    exact ⟨a, _, (hx _ _ _).2 ⟨(hvalid a).1 hv, hprefix, rfl⟩, rfl⟩

theorem decodes_readField (t : Target) (kind : FieldKind) :
    Cursor.Decodes (readField t kind) (fun value => value.kind = kind ∧ value.Valid) FieldValue.encode := by
  cases kind with
  | u8 =>
    refine decodes_field decodes_readU8 FieldValue.u8 (fun value => ?_) (fun _ => Iff.rfl) fun _ => rfl
    cases value <;> simp [FieldValue.kind]
  | u32 =>
    refine decodes_field decodes_readU32 FieldValue.u32 (fun value => ?_) (fun _ => Iff.rfl) fun _ => rfl
    cases value <;> simp [FieldValue.kind]
  | usize =>
    refine decodes_field (decodes_readUSize t) FieldValue.usize (fun value => ?_) (fun _ => Iff.rfl) fun _ => rfl
    cases value <;> simp [FieldValue.kind]
  | string =>
    refine decodes_field (decodes_readString t) FieldValue.string (fun value => ?_) (fun _ => Iff.rfl) fun _ => rfl
    cases value <;> simp [FieldValue.kind]
  | fnModule =>
    refine decodes_field (decodes_readFnModule t) FieldValue.fnModule (fun value => ?_) (fun _ => Iff.rfl)
      fun _ => rfl
    cases value <;> simp [FieldValue.kind]

/-- A field that its writes accept. A scope that no reader takes is written all the same. -/
def FieldValue.Accepted : FieldValue t → Prop
  | .string value => Short value
  | .fnModule value => Short value.id ∧ Short value.triggers ∧ Short value.apps
  | _ => True

theorem appends_writeField (value : FieldValue t) :
    Cursor.Appends grow (writeField grow value) value.Accepted value.encode := by
  cases value with
  | u8 value => exact appends_writeU8 value
  | u32 value => exact appends_writeU32 value
  | usize value => exact appends_writeUSize value
  | string value => exact appends_writeString value
  | fnModule value => exact appends_writeFnModule value

theorem FieldValue.Valid.accepted {value : FieldValue t} (h : value.Valid) : value.Accepted := by
  cases value with
  | fnModule value => exact ⟨h.id, h.triggers, h.apps⟩
  | _ => exact h

/-- The scope of a record is one that is read. -/
def FieldValue.InScope : FieldValue t → Prop
  | .fnModule value => value.scope ≤ 2
  | _ => True

theorem FieldValue.Accepted.valid {value : FieldValue t} (h : value.Accepted) (hscope : value.InScope) :
    value.Valid := by
  cases value with
  | fnModule value => exact ⟨h.1, h.2.1, hscope, h.2.2⟩
  | _ => exact h

/-! ### The offset -/

theorem bounded_readUSize (t : Target) : Cursor.Bounded (readUSize t) := by
  cases t with
  | bits32 => exact (Cursor.bounded_take _ _).bind fun _ => Cursor.bounded_pure _
  | bits64 => exact (Cursor.bounded_take _ _).bind fun _ => Cursor.bounded_pure _

theorem bounded_readString (t : Target) : Cursor.Bounded (readString t) :=
  (bounded_readUSize t).bind fun _ => (Cursor.bounded_fail _).ite (Cursor.bounded_take _ _)

theorem bounded_readU8 : Cursor.Bounded readU8 := (Cursor.bounded_take _ _).bind fun _ => Cursor.bounded_pure _

theorem bounded_readU32 : Cursor.Bounded readU32 := (Cursor.bounded_take _ _).bind fun _ => Cursor.bounded_pure _

theorem bounded_readFnModule (t : Target) : Cursor.Bounded (readFnModule t) :=
  (bounded_readString t).bind fun _ => (bounded_readString t).bind fun _ => bounded_readU8.bind fun _ =>
    (Cursor.bounded_fail _).ite <| (bounded_readString t).bind fun _ => bounded_readU32.bind fun _ =>
      Cursor.bounded_pure _

theorem bounded_readField (t : Target) (kind : FieldKind) : Cursor.Bounded (readField t kind) := by
  cases kind with
  | u8 => exact bounded_readU8.bind fun _ => Cursor.bounded_pure _
  | u32 => exact bounded_readU32.bind fun _ => Cursor.bounded_pure _
  | usize => exact (bounded_readUSize t).bind fun _ => Cursor.bounded_pure _
  | string => exact (bounded_readString t).bind fun _ => Cursor.bounded_pure _
  | fnModule => exact (bounded_readFnModule t).bind fun _ => Cursor.bounded_pure _

/-! ### Round trips -/

/-- However a byte string is read, the offset stays inside it. Reads that all succeed have consumed what
the writes of their values append, given memory. And what was written in front of anything else is read
back, up to where it ends. -/
theorem codec_roundTrip (t : Target) :
    (∀ bytes kinds, (readFields t kinds (Reader.init bytes)).2.offset ≤ bytes.length) ∧
      (∀ (grow : Nat → Bool) bytes kinds values r,
        readFields t kinds (Reader.init bytes) = (values.map .ok, r) → (∀ n ≤ r.offset, grow n) →
          values.map FieldValue.kind = kinds ∧ writeFields grow values [] = (.ok (), bytes.take r.offset)) ∧
      ∀ (grow : Nat → Bool) (values : List (FieldValue t)) bytes trailing, (∀ value ∈ values, value.InScope) →
        writeFields grow values [] = (.ok (), bytes) →
          readFields t (values.map FieldValue.kind) (Reader.init (bytes ++ trailing)) =
              (values.map .ok, ⟨bytes ++ trailing, bytes.length⟩) ∧
            Cursor.rest ⟨bytes ++ trailing, bytes.length⟩ = trailing := by
  have hwrites (grow : Nat → Bool) (values : List (FieldValue t)) :
      Cursor.Appends grow (writeFields grow values) (∀ value ∈ values, value.Accepted)
        (values.flatMap FieldValue.encode) :=
    Cursor.Appends.each appends_writeField values
  refine ⟨fun bytes kinds => ?_, fun grow bytes kinds values r h hgrow => ?_,
    fun grow values bytes trailing hscope h => ?_⟩
  · exact (Cursor.run_bounded (bounded_readField t) kinds (Nat.zero_le _)).2
  · obtain ⟨hkinds, hvalid, hprefix, rfl⟩ := (Cursor.run_eq_ok (decodes_readField t) kinds values).1 h
    have hbytes : values.flatMap FieldValue.encode = bytes.take (values.flatMap FieldValue.encode).length :=
      List.prefix_iff_eq_take.1 hprefix
    have hoffset : ((Reader.init bytes).advance (values.flatMap FieldValue.encode).length).offset =
        (values.flatMap FieldValue.encode).length := Nat.zero_add _
    rw [hoffset] at hgrow ⊢
    rw [← hbytes]
    exact ⟨hkinds, (hwrites grow values).complete (fun value hv => (hvalid value hv).accepted) [] hgrow⟩
  · obtain ⟨haccepted, rfl⟩ := (hwrites grow values).sound [] bytes h
    rw [List.nil_append]
    refine ⟨(Cursor.run_eq_ok (decodes_readField t) _ values).2 ⟨rfl, fun value hv =>
      (haccepted value hv).valid (hscope value hv), List.prefix_append _ _, ?_⟩, List.drop_left⟩
    rw [Reader.init, Cursor.advance, Nat.zero_add]

example : (readFields .bits32 [.u8, .string] (Reader.init [7, 2, 0, 0, 0, 65, 66, 9])).1 =
    [.ok (.u8 7), .ok (.string [65, 66])] := by rfl

end OnyxZygisk.Loader.Ipc

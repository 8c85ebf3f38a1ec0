import OnyxZygisk.Lib.Bytes
import OnyxZygisk.Monitor.AppMonitor

/-!
# The control protocol

The monitor's socket carries datagrams: a command, and for the two status commands a length and a
payload. `handleDatagram` is the body of the loop in `SocketHandler::HandleEvent`, `decode` the decoder
of the portable core. They disagree where the length in the header is not that of the datagram
(`controlDecoders_agree`).
-/

namespace OnyxZygisk.Monitor

inductive Command where
  | start
  | stop
  | exit
  | zygoteInjected
  | daemonSetInfo
  | daemonSetErrorInfo
  | systemServerStarted
  deriving DecidableEq, Repr

def Command.intToEnum : Nat → Option Command
  | 1 => some .start
  | 2 => some .stop
  | 3 => some .exit
  | 4 => some .zygoteInjected
  | 5 => some .daemonSetInfo
  | 6 => some .daemonSetErrorInfo
  | 7 => some .systemServerStarted
  | _ => none

structure Packet where
  command : Command
  payload : List UInt8
  deriving DecidableEq, Repr

/-! ### The portable decoder -/

inductive DecodeError where
  | unexpectedEnd
  | invalidCommand
  | invalidLength
  deriving DecidableEq, Repr

def maxPayloadBytes : Nat := 64 * 1024

def Command.hasPayload (c : Command) : Bool := c = .daemonSetInfo || c = .daemonSetErrorInfo

def decode (bytes : List UInt8) : Except DecodeError Packet :=
  if bytes.length < 4 then .error .unexpectedEnd
  else
    match Command.intToEnum (Bytes.u32 bytes) with
    | none => .error .invalidCommand
    | some command =>
      if !command.hasPayload then
        if bytes.length ≠ 4 then .error .invalidLength else .ok ⟨command, bytes.drop 4⟩
      else if bytes.length < 8 then .error .unexpectedEnd
      else
        let length := Bytes.i32 (bytes.drop 4)
        if length < 0 ∨ length > maxPayloadBytes then .error .invalidLength
        else if bytes.length ≠ 8 + length.toNat then .error .invalidLength
        else .ok ⟨command, bytes.drop 8⟩

/-! ### The handler of the monitor -/

/-- `sizeof(MsgHead)` -/
def sizeofMsgHead : Nat := 8

/-- `sizeof(Command)` -/
def sizeofCommand : Nat := 4

/-- A payload as the text the monitor stores, one character a byte. -/
def text (payload : List UInt8) : String := String.ofList (payload.map fun b => Char.ofNat b.toNat)

def Packet.event (p : Packet) : Event :=
  match p.command with
  | .start => .start
  | .stop => .stop
  | .exit => .exit
  | .zygoteInjected => .zygoteInjected
  | .daemonSetInfo => .daemonSetInfo (text p.payload)
  | .daemonSetErrorInfo => .daemonSetErrorInfo (text p.payload)
  | .systemServerStarted => .systemServerStarted

def AppMonitor.perform (m : AppMonitor) : Option Packet → AppMonitor
  | none => m
  | some p => m.step p.event

/-- What becomes of a datagram. -/
inductive Handled where
  /-- A length that the standard library refuses ends the monitor. -/
  | crashed
  | passed (performed : Option Packet) (monitor : AppMonitor) (buf : List UInt8)
  deriving DecidableEq, Repr

/-- The `switch`, on the memory of the message. -/
def dispatch (m : AppMonitor) (message : List UInt8) (buf : List UInt8) : Handled :=
  let length := Bytes.i32 (message.drop 4)
  let run (p : Packet) : Handled := .passed (some p) (m.perform (some p)) buf
  let status (c : Command) : Handled :=
    if length < 0 then .crashed else run ⟨c, (message.drop 8).take length.toNat⟩
  match Command.intToEnum (Bytes.u32 message) with
  | some .daemonSetInfo => status .daemonSetInfo
  | some .daemonSetErrorInfo => status .daemonSetErrorInfo
  | some c => run ⟨c, []⟩
  | none => .passed none m buf

/-- The second `recv`, into a buffer of the size the header asks for. `maxSize` is the largest buffer
there can be. -/
def receive (maxSize : Nat) (m : AppMonitor) (head datagram : List UInt8) (realSize : Int) : Handled :=
  if realSize < 0 ∨ realSize > maxSize then .crashed
  else
    let size := realSize.toNat
    -- a buffer that shrinks keeps what was behind its end
    let message := Bytes.overlay (datagram.take size) (Bytes.resize head (max size sizeofMsgHead))
    if datagram.length < size then .passed none m (message.take size)
    else dispatch m message (message.take size)

/-- One turn of the loop in `HandleEvent`; `buf` is what the turn before left in `buf_`. -/
def handleDatagram (maxSize : Nat) (m : AppMonitor) (buf datagram : List UInt8) : Handled :=
  let head := Bytes.overlay (datagram.take sizeofMsgHead) (Bytes.resize buf sizeofMsgHead)
  let cmd := Bytes.u32 head
  if cmd ≥ 5 ∧ cmd ≠ 7 then
    if datagram.length < sizeofMsgHead then .passed none m head
    else receive maxSize m head datagram (sizeofMsgHead + Bytes.i32 (head.drop 4))
  else if datagram.length ≠ sizeofCommand then .passed none m head
  else receive maxSize m head datagram sizeofCommand

/-- The handler on the datagrams that wait; `none` if the monitor ends. -/
def handleEvent (maxSize : Nat) : List (List UInt8) → AppMonitor → List UInt8 → Option AppMonitor
  | [], m, _ => some m
  | d :: ds, m, buf =>
    match handleDatagram maxSize m buf d with
    | .crashed => none
    | .passed _ m' buf' => handleEvent maxSize ds m' buf'

/-! ### Where they agree -/

/-- The handler performs what the decoder accepts and nothing else, and goes on. -/
def Agrees (maxSize : Nat) (m : AppMonitor) (buf d : List UInt8) : Prop :=
  ∃ buf', handleDatagram maxSize m buf d =
    .passed (decode d).toOption (m.perform (decode d).toOption) buf'

/-- The length in the header of a status command is at least what follows it, and within the decoder's
bound where it is exact; that of an unknown command is none that the handler fails on. -/
def Framed (maxSize : Nat) (d : List UInt8) : Prop :=
  8 ≤ d.length →
    (Bytes.u32 d = 5 ∨ Bytes.u32 d = 6 →
      0 ≤ Bytes.i32 (d.drop 4) ∧ 8 + Bytes.i32 (d.drop 4) ≤ maxSize ∧
        d.length ≤ 8 + Bytes.i32 (d.drop 4) ∧
        (d.length = 8 + Bytes.i32 (d.drop 4) → Bytes.i32 (d.drop 4) ≤ maxPayloadBytes)) ∧
    (7 < Bytes.u32 d →
      -8 ≤ Bytes.i32 (d.drop 4) ∧ 8 + Bytes.i32 (d.drop 4) ≤ maxSize)

variable {maxSize : Nat} {m : AppMonitor} {buf d : List UInt8}

theorem head_eq (h : 8 ≤ d.length) :
    Bytes.overlay (d.take sizeofMsgHead) (Bytes.resize buf sizeofMsgHead) = d.take 8 := by
  apply Bytes.overlay_of_length_le
  rw [Bytes.length_resize, List.length_take, sizeofMsgHead]
  omega

theorem u32_head (h : 4 ≤ d.length) :
    Bytes.u32 (Bytes.overlay (d.take sizeofMsgHead) (Bytes.resize buf sizeofMsgHead)) = Bytes.u32 d := by
  have htake : 4 ≤ (d.take sizeofMsgHead).length := by
    rw [List.length_take, sizeofMsgHead]
    omega
  rw [Bytes.overlay, Bytes.u32_append htake]
  rw [List.length_take] at htake
  conv_rhs => rw [← List.take_append_drop sizeofMsgHead d]
  rw [Bytes.u32_append (by rw [List.length_take]; exact htake)]

/-- A command is one of the two with a payload, one of the other five, or unknown. -/
theorem intToEnum_cases (n : Nat) :
    (∃ c, Command.intToEnum n = some c ∧ c.hasPayload = true ∧ (n = 5 ∨ n = 6)) ∨
    (∃ c, Command.intToEnum n = some c ∧ c.hasPayload = false ∧ ¬ (n ≥ 5 ∧ n ≠ 7)) ∨
    (Command.intToEnum n = none ∧ (n = 0 ∨ 7 < n)) := by
  match n with
  | 0 => exact .inr (.inr ⟨rfl, .inl rfl⟩)
  | 1 | 2 | 3 | 4 | 7 => exact .inr (.inl ⟨_, rfl, rfl, by decide⟩)
  | 5 | 6 => exact .inl ⟨_, rfl, rfl, by decide⟩
  | n + 8 => exact .inr (.inr ⟨rfl, .inr (by omega)⟩)

/-- A message of a bare command. -/
theorem dispatch_bare {c : Command} {message : List UInt8}
    (hc : Command.intToEnum (Bytes.u32 message) = some c) (hpayload : c.hasPayload = false) :
    dispatch m message buf = .passed (some ⟨c, []⟩) (m.perform (some ⟨c, []⟩)) buf := by
  unfold dispatch
  rw [hc]
  cases c <;> first | rfl | exact absurd hpayload (by decide)

theorem dispatch_unknown {message : List UInt8}
    (hc : Command.intToEnum (Bytes.u32 message) = none) :
    dispatch m message buf = .passed none m buf := by
  unfold dispatch
  rw [hc]

/-- A message of a status command: a negative length is fatal. -/
theorem dispatch_status {c : Command} {message : List UInt8}
    (hc : Command.intToEnum (Bytes.u32 message) = some c) (hpayload : c.hasPayload = true) :
    dispatch m message buf =
      if Bytes.i32 (message.drop 4) < 0 then .crashed
      else .passed (some ⟨c, (message.drop 8).take (Bytes.i32 (message.drop 4)).toNat⟩)
        (m.perform (some ⟨c, (message.drop 8).take (Bytes.i32 (message.drop 4)).toNat⟩)) buf := by
  unfold dispatch
  rw [hc]
  cases c <;> first | rfl | exact absurd hpayload (by decide)

/-! #### Datagrams that are passed over -/

theorem handle_skip (h : d.length < 4 ∨
      (if Bytes.u32 d ≥ 5 ∧ Bytes.u32 d ≠ 7 then d.length < 8 else d.length ≠ 4)) :
    ∃ buf', handleDatagram maxSize m buf d = .passed none m buf' := by
  refine ⟨Bytes.overlay (d.take sizeofMsgHead) (Bytes.resize buf sizeofMsgHead), ?_⟩
  unfold handleDatagram
  simp only
  by_cases h4 : 4 ≤ d.length
  · rw [u32_head h4]
    have h' := h.resolve_left (Nat.not_lt.2 h4)
    split_ifs at h' with hcmd
    · rw [if_pos hcmd]
      exact if_pos h'
    · rw [if_neg hcmd]
      exact if_pos h'
  · split_ifs with hcmd hlen hlen
    · rfl
    · exact absurd hlen (by rw [sizeofMsgHead]; omega)
    · rfl
    · exact absurd hlen (by rw [sizeofCommand]; omega)

theorem decode_error_of_short (h : d.length < 4) : (decode d).toOption = none := by
  rw [decode, if_pos h]
  rfl

theorem decode_unknown (h : 4 ≤ d.length) (hc : Command.intToEnum (Bytes.u32 d) = none) :
    (decode d).toOption = none := by
  rw [decode, if_neg (Nat.not_lt.2 h), hc]
  rfl

theorem decode_bare {c : Command} (h : 4 ≤ d.length)
    (hc : Command.intToEnum (Bytes.u32 d) = some c) (hpayload : c.hasPayload = false) :
    (decode d).toOption = if d.length = 4 then some ⟨c, []⟩ else none := by
  rw [decode, if_neg (Nat.not_lt.2 h), hc]
  simp only [hpayload, Bool.not_false, if_true]
  by_cases h4 : d.length = 4
  · rw [if_neg (not_not.2 h4), if_pos h4, List.drop_eq_nil_of_le (Nat.le_of_eq h4)]
    rfl
  · rw [if_pos h4, if_neg h4]
    rfl

theorem decode_status {c : Command} (h : 4 ≤ d.length)
    (hc : Command.intToEnum (Bytes.u32 d) = some c) (hpayload : c.hasPayload = true) :
    (decode d).toOption =
      if 8 ≤ d.length ∧ 0 ≤ Bytes.i32 (d.drop 4) ∧ Bytes.i32 (d.drop 4) ≤ maxPayloadBytes ∧
        d.length = 8 + Bytes.i32 (d.drop 4) then some ⟨c, d.drop 8⟩ else none := by
  rw [decode, if_neg (Nat.not_lt.2 h), hc]
  simp only [hpayload, Bool.not_true, Bool.false_eq_true, if_false]
  split_ifs with h1 h2 h3 h4 h5 h6 h7 <;> first | rfl | omega

/-! #### Datagrams that are received -/

/-- What the second `recv` leaves in memory. -/
def message (head d : List UInt8) (size : Nat) : List UInt8 :=
  Bytes.overlay (d.take size) (Bytes.resize head (max size sizeofMsgHead))

theorem receive_crashed {head : List UInt8} {realSize : Int} (h : realSize < 0 ∨ realSize > maxSize) :
    receive maxSize m head d realSize = .crashed := if_pos h

theorem receive_short {head : List UInt8} {size : Nat} (hmax : size ≤ maxSize) (h : d.length < size) :
    receive maxSize m head d size = .passed none m ((message head d size).take size) := by
  unfold receive
  rw [if_neg (by omega)]
  simp only [Int.toNat_natCast]
  rw [if_pos h]
  rfl

theorem receive_whole {head : List UInt8} {size : Nat} (hmax : size ≤ maxSize) (h : size ≤ d.length) :
    receive maxSize m head d size =
      dispatch m (message head d size) ((message head d size).take size) := by
  unfold receive
  rw [if_neg (by omega)]
  simp only [Int.toNat_natCast]
  rw [if_neg (Nat.not_lt.2 h)]
  rfl

/-- The message of a datagram with the size of a command. -/
theorem handle_command (hmax : 8 ≤ maxSize) (h : d.length = 4)
    (hcmd : ¬ (Bytes.u32 d ≥ 5 ∧ Bytes.u32 d ≠ 7)) :
    ∃ bytes buf', Bytes.u32 bytes = Bytes.u32 d ∧
      handleDatagram maxSize m buf d = dispatch m bytes buf' := by
  have hhandle : handleDatagram maxSize m buf d = receive maxSize m
      (Bytes.overlay (d.take sizeofMsgHead) (Bytes.resize buf sizeofMsgHead)) d (4 : Nat) := by
    unfold handleDatagram
    simp only
    rw [u32_head (by omega), if_neg hcmd]
    exact if_neg (not_not.2 h)
  rw [hhandle, receive_whole (by omega) (by omega)]
  refine ⟨_, _, ?_, rfl⟩
  rw [message, Bytes.overlay, List.take_of_length_le (Nat.le_of_eq h), Bytes.u32_append (by omega)]

/-- A bare command is taken from a datagram of its size. -/
theorem agrees_bare {c : Command} (hmax : 8 ≤ maxSize) (h : 4 ≤ d.length)
    (hc : Command.intToEnum (Bytes.u32 d) = some c) (hpayload : c.hasPayload = false)
    (hcmd : ¬ (Bytes.u32 d ≥ 5 ∧ Bytes.u32 d ≠ 7)) : Agrees maxSize m buf d := by
  rw [Agrees, decode_bare h hc hpayload]
  by_cases h4 : d.length = 4
  · rw [if_pos h4]
    obtain ⟨bytes, buf', hbytes, heq⟩ := handle_command hmax h4 hcmd
    rw [heq]
    exact ⟨buf', dispatch_bare (hbytes ▸ hc) hpayload⟩
  · rw [if_neg h4]
    exact handle_skip (.inr (by rw [if_neg hcmd]; exact h4))

/-- So is an unknown one, to no effect. -/
theorem agrees_zero (hmax : 8 ≤ maxSize) (h : 4 ≤ d.length)
    (hc : Command.intToEnum (Bytes.u32 d) = none)
    (hcmd : ¬ (Bytes.u32 d ≥ 5 ∧ Bytes.u32 d ≠ 7)) : Agrees maxSize m buf d := by
  rw [Agrees, decode_unknown h hc]
  by_cases h4 : d.length = 4
  · obtain ⟨bytes, buf', hbytes, heq⟩ := handle_command hmax h4 hcmd
    rw [heq]
    exact ⟨buf', dispatch_unknown (hbytes ▸ hc)⟩
  · exact handle_skip (.inr (by rw [if_neg hcmd]; exact h4))

/-- The message that a whole header leads to. -/
theorem handle_whole (h : 8 ≤ d.length) (hcmd : Bytes.u32 d ≥ 5 ∧ Bytes.u32 d ≠ 7) :
    handleDatagram maxSize m buf d =
      receive maxSize m (d.take 8) d (8 + Bytes.i32 (d.drop 4)) := by
  unfold handleDatagram
  simp only
  have hdrop : Bytes.i32 ((d.take 8).drop 4) = Bytes.i32 (d.drop 4) := by
    rw [List.drop_take, Bytes.i32, Bytes.i32, Bytes.u32_take (Nat.le_refl 4)]
    rw [List.length_drop]
    omega
  rw [u32_head (by omega), if_pos hcmd, if_neg (by rw [sizeofMsgHead]; omega), head_eq h, hdrop]
  rfl

/-- The message shows the header and what follows it of the datagram. -/
theorem message_head (h : 8 ≤ d.length) (size : Nat) :
    (message (d.take 8) d size).take 8 = d.take 8 := by
  rw [message, Bytes.overlay]
  by_cases hsize : 8 ≤ size
  · rw [List.take_append_of_le_length (by rw [List.length_take]; omega), List.take_take,
      Nat.min_eq_left hsize]
  · have hresize : Bytes.resize (d.take 8) (max size sizeofMsgHead) = d.take 8 := by
      rw [sizeofMsgHead, Nat.max_eq_right (by omega), Bytes.resize, List.take_take, Nat.min_self,
        List.length_take, Nat.min_eq_left h]
      exact List.append_nil _
    rw [hresize, List.length_take, Nat.min_eq_left (by omega)]
    have happend : d.take size ++ (d.take 8).drop size = d.take 8 := by
      conv_rhs => rw [← List.take_append_drop size (d.take 8), List.take_take,
        Nat.min_eq_left (by omega)]
    rw [happend, List.take_take, Nat.min_self]

theorem message_words (h : 8 ≤ d.length) (size : Nat) :
    Bytes.u32 (message (d.take 8) d size) = Bytes.u32 d ∧
      Bytes.i32 ((message (d.take 8) d size).drop 4) = Bytes.i32 (d.drop 4) := by
  have hlen : 8 ≤ (message (d.take 8) d size).length := by
    have heq := congrArg List.length (message_head h size)
    rw [List.length_take, List.length_take] at heq
    omega
  have hword (bs : List UInt8) (hbs : 8 ≤ bs.length) : Bytes.u32 (bs.take 8) = Bytes.u32 bs ∧
      Bytes.i32 ((bs.take 8).drop 4) = Bytes.i32 (bs.drop 4) := by
    refine ⟨Bytes.u32_take (by omega) hbs, ?_⟩
    rw [List.drop_take, Bytes.i32, Bytes.i32, Bytes.u32_take (Nat.le_refl 4)]
    rw [List.length_drop]
    omega
  obtain ⟨hu, hi⟩ := hword _ hlen
  obtain ⟨hu', hi'⟩ := hword _ h
  rw [← hu, ← hi, message_head h, hu', hi']
  exact ⟨rfl, rfl⟩

theorem message_payload {size : Nat} (hsize : 8 ≤ size) (hlen : size ≤ d.length) :
    (message (d.take 8) d size).drop 8 = (d.take size).drop 8 := by
  rw [message, Bytes.overlay_of_length_le]
  rw [Bytes.length_resize, List.length_take, sizeofMsgHead]
  omega

/-- An unknown command with a whole header is passed over, if its length is not fatal. -/
theorem agrees_unknown (h : 8 ≤ d.length) (hcmd : 7 < Bytes.u32 d) :
    Agrees maxSize m buf d ↔
      -8 ≤ Bytes.i32 (d.drop 4) ∧ 8 + Bytes.i32 (d.drop 4) ≤ maxSize := by
  have hc : Command.intToEnum (Bytes.u32 d) = none := by
    rcases intToEnum_cases (Bytes.u32 d) with ⟨c, -, -, h5 | h6⟩ | ⟨c, -, -, hnot⟩ | ⟨hc, -⟩
    · omega
    · omega
    · exact absurd ⟨by omega, by omega⟩ hnot
    · exact hc
  rw [Agrees, decode_unknown (by omega) hc, handle_whole h ⟨by omega, by omega⟩]
  constructor
  · rintro ⟨buf', heq⟩
    by_contra hnot
    rw [receive_crashed (by omega)] at heq
    exact absurd heq (by simp)
  · rintro ⟨hneg, hmax⟩
    obtain ⟨size, hsize⟩ := Int.eq_ofNat_of_zero_le (show 0 ≤ 8 + Bytes.i32 (d.drop 4) by omega)
    rw [hsize] at hmax ⊢
    by_cases hlen : size ≤ d.length
    · rw [receive_whole (by omega) hlen]
      refine ⟨_, dispatch_unknown ?_⟩
      rw [(message_words h size).1]
      exact hc
    · exact ⟨_, receive_short (by omega) (by omega)⟩

/-- A status command with a whole header. -/
theorem agrees_status {c : Command} (h : 8 ≤ d.length) (hcmd : Bytes.u32 d = 5 ∨ Bytes.u32 d = 6)
    (hc : Command.intToEnum (Bytes.u32 d) = some c) (hpayload : c.hasPayload = true) :
    Agrees maxSize m buf d ↔
      0 ≤ Bytes.i32 (d.drop 4) ∧ 8 + Bytes.i32 (d.drop 4) ≤ maxSize ∧
        d.length ≤ 8 + Bytes.i32 (d.drop 4) ∧
        (d.length = 8 + Bytes.i32 (d.drop 4) → Bytes.i32 (d.drop 4) ≤ maxPayloadBytes) := by
  have hwords := message_words h
  rw [Agrees, decode_status (by omega) hc hpayload, handle_whole h ⟨by omega, by omega⟩]
  by_cases hcrash : 8 + Bytes.i32 (d.drop 4) < 0 ∨ 8 + Bytes.i32 (d.drop 4) > maxSize
  · rw [receive_crashed hcrash]
    constructor
    · rintro ⟨buf', heq⟩
      exact absurd heq (by simp)
    · intro hok
      omega
  obtain ⟨size, hsize⟩ := Int.eq_ofNat_of_zero_le (show 0 ≤ 8 + Bytes.i32 (d.drop 4) by omega)
  rw [hsize]
  by_cases hlen : size ≤ d.length
  · rw [receive_whole (by omega) hlen, dispatch_status (by rw [(hwords size).1]; exact hc) hpayload,
      (hwords size).2]
    by_cases hneg : Bytes.i32 (d.drop 4) < 0
    · rw [if_pos hneg]
      constructor
      · rintro ⟨buf', heq⟩
        exact absurd heq (by simp)
      · intro hok
        omega
    rw [if_neg hneg]
    by_cases hok : Bytes.i32 (d.drop 4) ≤ maxPayloadBytes ∧ d.length = size
    -- the header has the length of the datagram
    · rw [if_pos ⟨h, by omega, hok.1, by omega⟩, message_payload (by omega) hlen]
      have htake : ((d.take size).drop 8).take (Bytes.i32 (d.drop 4)).toNat = d.drop 8 := by
        rw [List.take_of_length_le (i := size) (Nat.le_of_eq hok.2), List.take_of_length_le]
        rw [List.length_drop]
        omega
      rw [htake]
      constructor
      · intro _
        exact ⟨by omega, by omega, by omega, fun _ => hok.1⟩
      · intro _
        exact ⟨_, rfl⟩
    · rw [if_neg (by omega)]
      constructor
      · rintro ⟨buf', heq⟩
        exact absurd heq (by simp)
      · intro hframed
        exact absurd ⟨hframed.2.2.2 (by omega), by omega⟩ hok
  · rw [receive_short (by omega) (by omega), if_neg (by omega)]
    constructor
    · intro _
      exact ⟨by omega, by omega, by omega, fun heq => by omega⟩
    · intro _
      exact ⟨_, rfl⟩

/-- The handler and the decoder agree on a datagram exactly if its header is framed. -/
theorem agrees_iff (hmax : 8 ≤ maxSize) (m : AppMonitor) (buf d : List UInt8) :
    Agrees maxSize m buf d ↔ Framed maxSize d := by
  by_cases h4 : 4 ≤ d.length
  · rcases intToEnum_cases (Bytes.u32 d) with ⟨c, hc, hpayload, hcmd⟩ | ⟨c, hc, hpayload, hcmd⟩ |
      ⟨hc, hcmd⟩
    · by_cases h : 8 ≤ d.length
      · rw [agrees_status h hcmd hc hpayload]
        constructor
        · exact fun hok _ => ⟨fun _ => hok, fun hgt => by omega⟩
        · exact fun hframed => (hframed h).1 hcmd
      · have hnone : (decode d).toOption = none := by
          rw [decode_status h4 hc hpayload, if_neg (by omega)]
        refine iff_of_true ?_ fun h8 => absurd h8 h
        rw [Agrees, hnone]
        exact handle_skip (.inr (by rw [if_pos (by omega)]; omega))
    · refine iff_of_true (agrees_bare hmax h4 hc hpayload hcmd) fun _ => ⟨fun h56 => ?_, fun hgt => ?_⟩
      · omega
      · omega
    · by_cases hgt : 7 < Bytes.u32 d
      · by_cases h : 8 ≤ d.length
        · rw [agrees_unknown h hgt]
          constructor
          · exact fun hok _ => ⟨fun h56 => by omega, fun _ => hok⟩
          · exact fun hframed => (hframed h).2 hgt
        · refine iff_of_true ?_ fun h8 => absurd h8 h
          rw [Agrees, decode_unknown h4 hc]
          exact handle_skip (.inr (by rw [if_pos (by omega)]; omega))
      · have hzero : Bytes.u32 d = 0 := by omega
        refine iff_of_true ?_ fun _ => ⟨fun h56 => by omega, fun hgt' => absurd hgt' hgt⟩
        exact agrees_zero hmax h4 hc (by omega)
  · refine iff_of_true ?_ fun h8 => by omega
    rw [Agrees, decode_error_of_short (by omega)]
    exact handle_skip (.inl (by omega))

/-! ### Runs -/

/-- The monitor after the datagrams the decoder accepts. -/
def AppMonitor.performAll (m : AppMonitor) (ds : List (List UInt8)) : AppMonitor :=
  ds.foldl (fun m d => m.perform (decode d).toOption) m

theorem handleEvent_of_agrees {ds : List (List UInt8)}
    (h : ∀ d ∈ ds, ∀ m buf, Agrees maxSize m buf d) (m : AppMonitor) (buf : List UInt8) :
    handleEvent maxSize ds m buf = some (m.performAll ds) := by
  induction ds generalizing m buf with
  | nil => rfl
  | cons d ds ih =>
    obtain ⟨buf', heq⟩ := h d List.mem_cons_self m buf
    rw [handleEvent, heq]
    exact ih (fun d' hd' => h d' (List.mem_cons_of_mem d hd')) _ _

/-- The handler and the decoder agree on a datagram exactly if its header is framed; on a queue of such
datagrams the handler performs what the decoder accepts. -/
theorem controlDecoders_agree (maxSize : Nat) (hmax : 8 ≤ maxSize) :
    (∀ m buf d, Agrees maxSize m buf d ↔ Framed maxSize d) ∧
    ∀ ds m buf, (∀ d ∈ ds, Framed maxSize d) →
      handleEvent maxSize ds m buf = some (m.performAll ds) :=
  ⟨agrees_iff hmax, fun _ m buf h =>
    handleEvent_of_agrees (fun d hd m buf => (agrees_iff hmax m buf d).2 (h d hd)) m buf⟩

/-- `PTRDIFF_MAX` -/
def ptrdiffMax : Nat := 2 ^ 63 - 1

/-- A status message as the daemon sends it. -/
theorem controlDecoders_agree_info :
    Agrees ptrdiffMax (.initial "") [] [5, 0, 0, 0, 3, 0, 0, 0, 111, 107, 0] :=
  ((controlDecoders_agree ptrdiffMax (by decide)).1 _ _ _).2 fun _ => by decide

/-- A byte behind the payload: the decoder rejects the datagram, the handler takes what the header
announces. -/
theorem datagram_trailing : ¬ ∀ (m : AppMonitor) (buf d : List UInt8), Agrees ptrdiffMax m buf d := by
  intro hall
  obtain ⟨buf', heq⟩ := hall (.initial "") [] [5, 0, 0, 0, 1, 0, 0, 0, 65, 66]
  have hdecode : (decode [5, 0, 0, 0, 1, 0, 0, 0, 65, 66]).toOption = none := by decide
  have hhandle : handleDatagram ptrdiffMax (.initial "") [] [5, 0, 0, 0, 1, 0, 0, 0, 65, 66] =
      .passed (some ⟨.daemonSetInfo, [65]⟩)
        (AppMonitor.perform (.initial "") (some ⟨.daemonSetInfo, [65]⟩))
        [5, 0, 0, 0, 1, 0, 0, 0, 65] := by
    decide
  rw [hdecode, hhandle] at heq
  exact absurd heq (by simp)

end OnyxZygisk.Monitor

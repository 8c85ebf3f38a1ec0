import Mathlib.Tactic.Common

/-!
# Packed relocations

The compact forms of a relocation table. A RELR table is for relative relocations only: an even word is the address of
one, and the bits of the odd words behind it stand for the words that follow there. An Android table is a stream of
LEB128 numbers: groups of relocations, each with what its members have in common.
-/

namespace PackedRelocs

variable {w : Nat}

/-! ### RELR -/

/-- The addresses of a table, when the bits of the next bitmap are for the words from `next` on. -/
def relr (next : BitVec w) : List (BitVec w) → List (BitVec w)
  | [] => []
  | entry :: table =>
    if entry.getLsbD 0 then
      ((List.range (w - 1)).filter fun i => entry.getLsbD (i + 1)).map (fun i => next + BitVec.ofNat w (i * (w / 8))) ++
        relr (next + BitVec.ofNat w ((w - 1) * (w / 8))) table
    else entry :: relr (entry + BitVec.ofNat w (w / 8)) table

/-! ### Android tables -/

/-- Signed LEB128 numbers, `low` being what stands in the `shift` bits before. -/
def sleb128 (low : BitVec w) (shift : Nat) : List UInt8 → List (BitVec w)
  | [] => []
  | b :: bytes =>
    let value := low ||| (BitVec.ofNat w (b.toNat % 128) <<< shift)
    if 128 ≤ b.toNat then sleb128 value (shift + 7) bytes
    else (if 64 ≤ b.toNat then value ||| (BitVec.allOnes w <<< (shift + 7)) else value) :: sleb128 0 0 bytes

structure Packed (w : Nat) where
  offset : BitVec w
  info : BitVec w
  addend : BitVec w

/-- The numbers that are left. -/
abbrev Stream (w : Nat) : Type → Type := StateT (List (BitVec w)) Option

def pop : Stream w (BitVec w) := fun
  | [] => none
  | v :: vs => some (v, vs)

def groupedByInfo (flags : BitVec w) : Bool := flags.getLsbD 0

def groupedByOffsetDelta (flags : BitVec w) : Bool := flags.getLsbD 1

def groupedByAddend (flags : BitVec w) : Bool := flags.getLsbD 2

def groupHasAddend (flags : BitVec w) : Bool := flags.getLsbD 3

/-- The members of a group behind `last`. -/
def members (flags delta : BitVec w) : Nat → Packed w → Stream w (List (Packed w))
  | 0, _ => pure []
  | count + 1, last => do
    let distance ← (if groupedByOffsetDelta flags then pure delta else pop)
    let info ← (if groupedByInfo flags then pure last.info else pop)
    let more ← (if groupHasAddend flags && !groupedByAddend flags then pop else pure 0)
    let next : Packed w := ⟨last.offset + distance, info, last.addend + more⟩
    let rest ← members flags delta count next
    return next :: rest

/-- `count` relocations, in at most `turns` groups. -/
def groups : Nat → Nat → Packed w → Stream w (List (Packed w))
  | 0, _, _ => pure []
  | turns + 1, count, last =>
    if count = 0 then pure []
    else do
      let size ← pop
      let flags ← pop
      let delta ← (if groupedByOffsetDelta flags then pop else pure 0)
      let info ← (if groupedByInfo flags then pop else pure last.info)
      let more ← (if groupHasAddend flags && groupedByAddend flags then pop else pure 0)
      let addend := if groupHasAddend flags then last.addend + more else 0
      let first ← members flags delta size.toNat ⟨last.offset, info, addend⟩
      let rest ← groups turns (count - size.toNat) ((last :: first).getLast (List.cons_ne_nil last first))
      return first ++ rest

/-- The magic number in front: `APS2`. -/
def magic : List UInt8 := [0x41, 0x50, 0x53, 0x32]

/-- The relocations of an Android table, none if it is not one. -/
def android (bytes : List UInt8) : List (Packed w) :=
  if bytes.take 4 = magic then
    match sleb128 0 0 (bytes.drop 4) with
    | count :: offset :: values => (((groups count.toNat count.toNat ⟨offset, 0, 0⟩).run values).map Prod.fst).getD []
    | _ => []
  else []

end PackedRelocs

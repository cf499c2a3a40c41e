import Mathlib

/-!
# Cluster slots

`pkg/redis/keyslot.go`: the slot of a Redis Cluster that holds a key.  A script may only touch keys
of one slot, so in cluster mode the private keys of a queue are tagged with the name of the queue.
-/

namespace LlmdAsync.Redis

/-- `hashSlots`. -/
def hashSlots : ℕ := 16384

/-- `hashTag`: the text between the first opening brace and the closing brace after it, if there is
any text there, and the whole key otherwise. -/
def hashTag (key : String) : String :=
  match key.toList.dropWhile (fun c => decide (c ≠ '\x7b')) with
  | [] => key
  | _ :: rest =>
    let tag := rest.takeWhile fun c => decide (c ≠ '\x7d')
    if '\x7d' ∈ rest ∧ tag ≠ [] then String.ofList tag else key

/-- `slotKey`. -/
def slotKey (primary : String) (cluster : Bool) : String :=
  if !cluster || hashTag primary ≠ primary then primary else "\x7b" ++ primary ++ "\x7d"

/-- One round of the inner loop of `crc16`. -/
def crc16Shift (crc : UInt16) : UInt16 :=
  if crc &&& 0x8000 ≠ 0 then crc <<< 1 ^^^ 0x1021 else crc <<< 1

/-- One round of the outer loop of `crc16`. -/
def crc16Byte (crc : UInt16) (b : UInt8) : UInt16 := crc16Shift^[8] (crc ^^^ b.toUInt16 <<< 8)

/-- `crc16`: CRC-16/XMODEM. -/
def crc16 (data : List UInt8) : UInt16 := data.foldl crc16Byte 0

/-- `keySlot`. -/
def keySlot (key : String) : ℕ := (crc16 (hashTag key).toUTF8.toList).toNat % hashSlots

/-- `sameHashSlot`. -/
def sameHashSlot (a b : String) : Bool := keySlot a = keySlot b

end LlmdAsync.Redis

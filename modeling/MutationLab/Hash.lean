import MutationLab.Text.Hex
import MutationLab.Text.Utf8

/-! # Content hashes

The 64-bit FNV-1a hash: for each byte an exclusive or, then a multiplication
modulo `2 ^ 64`. It is the same on every run, so it can name cache entries. -/

namespace MutationLab.Hash

/-- The hash of the empty input. -/
def offsetBasis : UInt64 := 0xcbf29ce484222325

/-- The odd factor of every round. -/
def prime : UInt64 := 0x100000001b3

/-- One round: fold a byte into the hash so far. -/
def absorb (hash : UInt64) (byte : UInt8) : UInt64 := (hash ^^^ byte.toUInt64) * prime

/-- The hash of a list of bytes. -/
def ofBytes (bytes : List UInt8) : UInt64 := bytes.foldl absorb offsetBasis

@[simp] theorem ofBytes_nil : ofBytes [] = offsetBasis := rfl

theorem ofBytes_append_singleton (bytes : List UInt8) (byte : UInt8) :
    ofBytes (bytes ++ [byte]) = absorb (ofBytes bytes) byte := by
  simp [ofBytes]

/-- The hash of a text in UTF-8. -/
def ofText (text : String) : UInt64 := ofBytes (Text.utf8 text)

end MutationLab.Hash

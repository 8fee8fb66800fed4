/-
Keys of hashes.

Entries of a hash are found by a key of 64 bits and a tag.  The tag keeps kinds
apart, so that the number 1 and the text "1" are different keys; the bits are
those of the number itself, or a digest of the text.
-/
import TreeWalk.Number.Double

namespace TreeWalk

inductive KeyTag where
  | int | float | bool | str | object
  deriving DecidableEq, Repr, Hashable, Inhabited

structure Key where
  tag : KeyTag
  bits : UInt64
  deriving DecidableEq, Repr, Hashable, Inhabited

namespace Key

/-- One step of the digest: the byte is mixed in by exclusive or, and the whole
multiplied by a prime. -/
def digestByte (digest : UInt64) (byte : UInt8) : UInt64 :=
  (digest ^^^ byte.toUInt64) * 1099511628211

/-- The 64-bit FNV-1a digest of a list of bytes. -/
def digest (bytes : List UInt8) : UInt64 := bytes.foldl digestByte 14695981039346656037

def ofInt (n : Int64) : Key := ⟨.int, n.toUInt64⟩

def ofFloat (x : Double) : Key := ⟨.float, x.bits⟩

def ofBool (b : Bool) : Key := ⟨.bool, if b then 1 else 0⟩

/-- The key of a text: the digest of its UTF-8 bytes. -/
def ofString (s : String) : Key := ⟨.str, digest s.toUTF8.toList⟩

def ofObject (n : Int64) : Key := ⟨.object, n.toUInt64⟩

end Key
end TreeWalk

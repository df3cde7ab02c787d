import CachedViews.Number.Width
import CachedViews.Uuid

/-!
Byte strings, in the order of their bytes from the first on. An identifier packs into sixteen of
them, the most significant first, and a text into those of its UTF-8.
-/
namespace CachedViews

abbrev Bytes := List UInt8

namespace Bytes

/-- The last `count` bytes of a number, the most significant first. -/
def bigEndian : (count n : Nat) → Bytes
  | 0, _ => []
  | count + 1, n =>
    UInt8.ofNat (n / Width.values (8 * count)) :: bigEndian count (n % Width.values (8 * count))

def number : Bytes → Nat
  | [] => 0
  | byte :: rest => byte.toNat * Width.values (8 * rest.length) + number rest

def ofText (text : String) : Bytes := text.toUTF8.data.toList

def text? (bytes : Bytes) : Option String := String.fromUTF8? ⟨bytes.toArray⟩

end Bytes

namespace Uuid

def bytes (uuid : Uuid) : Bytes := Bytes.bigEndian 16 uuid.bits.toNat

def ofBytes? (bytes : Bytes) : Option Uuid :=
  if bytes.length = 16 then some ⟨BitVec.ofNat 128 bytes.number⟩ else none

end Uuid

end CachedViews

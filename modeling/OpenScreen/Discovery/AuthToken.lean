import OpenScreen.Discovery.ServiceInfo
import OpenScreen.Kit.Hex

/-!
# Authentication tokens

A token is 16 random bytes in hexadecimal (`auth_token.rs`), which are 32 bytes of
text.

A fingerprint has a hexadecimal form too, for what is shown and for what is
typed.
-/

namespace OpenScreen
namespace Discovery

open Kit

namespace Fingerprint

/-- The hexadecimal form. -/
def toHex (fingerprint : Fingerprint) : String :=
  Hex.encode fingerprint.bytes

end Fingerprint

namespace AuthToken

/-- The token of 16 random bytes. -/
def generate (tokenBytes : { bytes : List UInt8 // bytes.length = 16 }) :
    AuthToken :=
  ⟨Hex.encode tokenBytes.val⟩

theorem length_generate
    (tokenBytes : { bytes : List UInt8 // bytes.length = 16 }) :
    (asBytes (generate tokenBytes).str).length = 32 := by
  rw [generate, Hex.length_encode, tokenBytes.2]

theorem generate_ne_empty
    (tokenBytes : { bytes : List UInt8 // bytes.length = 16 }) :
    (generate tokenBytes).str ≠ "" := by
  intro hempty
  have hlen := length_generate tokenBytes
  rw [hempty] at hlen
  cases hlen

end AuthToken

end Discovery
end OpenScreen

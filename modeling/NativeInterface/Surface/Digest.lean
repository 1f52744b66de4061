import NativeInterface.Hash.Sha256
import NativeInterface.Surface.Json

/-!
# The digest of a surface

Equal surfaces have equal digests, so a generated file that carries the digest of its surface shows
when it is out of date.
-/

namespace NativeInterface

/-- The digest of the canonical text. -/
def Surface.digest (s : Surface) : String := Sha256.hexDigest s.canonical.toUTF8.data.toList

end NativeInterface

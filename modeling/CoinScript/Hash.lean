import CoinScript.Hash.Ripemd160
import CoinScript.Hash.Sha1
import CoinScript.Hash.Sha256

/-!
# The digests scripts commit to
-/

namespace CoinScript

def sha256 (data : Bytes) : Digest 32 := Hash.Sha256.digest data

def sha1 (data : Bytes) : Digest 20 := Hash.Sha1.digest data

def ripemd160 (data : Bytes) : Digest 20 := Hash.Ripemd160.digest data

/-- SHA-256 applied twice. -/
def hash256 (data : Bytes) : Digest 32 := sha256 (sha256 data).bytes

/-- RIPEMD-160 of the SHA-256: what outputs that pay to a key or to a script commit to. -/
def hash160 (data : Bytes) : Digest 20 := ripemd160 (sha256 data).bytes

end CoinScript

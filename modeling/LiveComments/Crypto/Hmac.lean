import LiveComments.Crypto.Sha2

namespace LiveComments.Crypto

def blockKey {w : Nat} (v : Sha2.Variant w) (key : List UInt8) : List UInt8 :=
  let key := if 2 * w < key.length then Sha2.digest v key else key
  key ++ List.replicate (2 * w - key.length) 0

def hmac {w : Nat} (v : Sha2.Variant w) (key message : List UInt8) : List UInt8 :=
  let k := blockKey v key
  Sha2.digest v (k.map (· ^^^ 0x5c) ++ Sha2.digest v (k.map (· ^^^ 0x36) ++ message))

end LiveComments.Crypto

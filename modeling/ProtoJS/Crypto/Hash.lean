import ProtoJS.Buffer.HexText

/-! # Hash objects

`createHash` makes a digest context, `update` adds the bytes of strings and buffers to it and
`digest` writes the hash as text. OpenSSL is given by what its contexts do: the hash of bytes that
are added piece by piece is that of all of them.
-/

namespace ProtoJS.Crypto

open Buffer Strings

section Functions

variable {openssl : OpenSSL} (decoder : Decoder)

/-- The bytes that `update` takes of a value. -/
def taken (value : DataValue) : List UInt8 := (CryptoModule.getBufferData decoder value).getD []

end Functions

variable {openssl : OpenSSL} {decoder : Decoder} {algo : String} {values : List DataValue}
  {encoding : Option String} {texts : List String}

end ProtoJS.Crypto

import ProtoJS.Machine.ByteRanges
import ProtoJS.Machine.Words
import ProtoJS.Strings.ByteText

/-! # Sending a datagram

`socketSend` checks the offset and the end of the range in 32-bit arithmetic and hands the length
to `sendto` as a `size_t`. A negative length is not checked on its own, and a sum from 2^31 on is
negative.
-/

namespace ProtoJS.Dgram

open Words Bytes Strings

/-- `DgramSocketData`, as far as sending reads it. -/
structure DgramSocketData where
  bound : Bool

/-- The arguments of `send`: what `getDataFromJSValue` made of the message, the numbers after
`JS_ToInt32`, and the address. An argument that is absent or of another type is `none`. -/
structure SendArguments where
  argc : ℕ
  bytes : List UInt8
  offset : Option Int32
  length : Option Int32
  port : Option Int32
  address : Option String

/-- What `sendto` is called with. -/
structure Datagram where
  range : ByteRange
  port : Int32
  address : BitVec 32
deriving DecidableEq

inductive SendResult where
  | typeError (message : String)
  | boolean (value : Bool)
  | sendto (datagram : Datagram)
deriving DecidableEq

namespace SendArguments

variable (arguments : SendArguments)

def offsetOr : Int32 := arguments.offset.getD 0

def lengthOr : Int32 := arguments.length.getD (Int32.ofNat arguments.bytes.length)

def portOr : Int32 := arguments.port.getD 0

def addressOr : Text := (arguments.address.map cText).getD "localhost".toList

end SendArguments

/-- `DgramModule::socketSend`, up to the call of `sendto`; `inetPton` is `inet_pton`. -/
def socketSend (inetPton : Text → Option (BitVec 32)) (data : Option DgramSocketData)
    (arguments : SendArguments) : SendResult :=
  if data.all fun data => !data.bound then .typeError "Socket not bound"
  else if arguments.argc < 3 then
    .typeError "send expects (msg, offset, length, port, address, callback)"
  else if arguments.bytes = [] then .boolean false
  else if arguments.portOr ≤ 0 ∨ 65535 < arguments.portOr then .typeError "Invalid port number"
  else if arguments.offsetOr < 0 ∨
      Int32.ofNat arguments.bytes.length < arguments.offsetOr + arguments.lengthOr then
    .typeError "Invalid offset or length"
  else
    match inetPton arguments.addressOr with
    | none => .typeError "Invalid address"
    | some address => .sendto
        { range := ⟨arguments.offsetOr.toInt, unsigned 64 arguments.lengthOr.toInt⟩
          port := arguments.portOr
          address }

variable {inetPton : Text → Option (BitVec 32)} {data : Option DgramSocketData}
  {arguments : SendArguments}

/-- Everything but the range is in order. -/
structure Accepted (inetPton : Text → Option (BitVec 32)) (data : Option DgramSocketData)
    (arguments : SendArguments) : Prop where
  bound : ∃ socket ∈ data, socket.bound = true
  argc : 3 ≤ arguments.argc
  bytes : arguments.bytes ≠ []
  port : 0 < arguments.portOr ∧ arguments.portOr ≤ 65535
  address : (inetPton arguments.addressOr).isSome

/-- The range that is sent consists of bytes of the message. -/
def SendsInside (inetPton : Text → Option (BitVec 32)) (data : Option DgramSocketData)
    (arguments : SendArguments) : Prop :=
  ∀ datagram, socketSend inetPton data arguments = .sendto datagram →
    0 ≤ datagram.range.first ∧
      datagram.range.first + datagram.range.length ≤ arguments.bytes.length

/-- A datagram is sent when everything else is in order and the check is passed. -/
theorem socketSend_eq_sendto_iff {datagram : Datagram} :
    socketSend inetPton data arguments = .sendto datagram ↔
      Accepted inetPton data arguments ∧ 0 ≤ arguments.offsetOr ∧
        arguments.offsetOr + arguments.lengthOr ≤ Int32.ofNat arguments.bytes.length ∧
        datagram.range = ⟨arguments.offsetOr.toInt, unsigned 64 arguments.lengthOr.toInt⟩ ∧
        datagram.port = arguments.portOr ∧
        inetPton arguments.addressOr = some datagram.address := by
  have bound_iff : ¬(data.all fun data => !data.bound) = true ↔
      ∃ socket ∈ data, socket.bound = true := by
    rcases data with _ | socket <;> simp
  constructor
  · intro sent
    rw [socketSend] at sent
    split_ifs at sent with unbound few empty port outside
    rw [not_or, Int32.not_le, Int32.not_lt] at port
    rw [not_or, Int32.not_lt, Int32.not_lt] at outside
    rcases found : inetPton arguments.addressOr with _ | address
    · rw [found] at sent
      cases sent
    · rw [found] at sent
      cases sent
      exact ⟨⟨bound_iff.1 unbound, not_lt.1 few, empty, port, by rw [found]; rfl⟩, outside.1,
        outside.2, rfl, rfl, rfl⟩
  · rintro ⟨accepted, low, high, range, port, address⟩
    have portOk : ¬(arguments.portOr ≤ 0 ∨ 65535 < arguments.portOr) := by
      rw [not_or, Int32.not_le, Int32.not_lt]
      exact accepted.port
    have rangeOk : ¬(arguments.offsetOr < 0 ∨
        Int32.ofNat arguments.bytes.length < arguments.offsetOr + arguments.lengthOr) := by
      rw [not_or, Int32.not_lt, Int32.not_lt]
      exact ⟨low, high⟩
    rw [socketSend, if_neg (bound_iff.2 accepted.bound), if_neg (not_lt.2 accepted.argc),
      if_neg accepted.bytes, if_neg portOk, if_neg rangeOk, address]
    simp only [← range, ← port]

/-- Where everything else is in order, the range decides whether something is sent. -/
theorem sendsInside_iff_of_accepted (accepted : Accepted inetPton data arguments) :
    SendsInside inetPton data arguments ↔
      (0 ≤ arguments.offsetOr →
        arguments.offsetOr + arguments.lengthOr ≤ Int32.ofNat arguments.bytes.length →
        arguments.offsetOr.toInt + unsigned 64 arguments.lengthOr.toInt ≤
          arguments.bytes.length) := by
  constructor
  · intro inside low high
    obtain ⟨address, found⟩ := Option.isSome_iff_exists.1 accepted.address
    have sent : socketSend inetPton data arguments = .sendto
        ⟨⟨arguments.offsetOr.toInt, unsigned 64 arguments.lengthOr.toInt⟩, arguments.portOr,
          address⟩ :=
      socketSend_eq_sendto_iff.2 ⟨accepted, low, high, rfl, rfl, found⟩
    exact (inside _ sent).2
  · intro inside datagram sent
    obtain ⟨-, low, high, range, -⟩ := socketSend_eq_sendto_iff.1 sent
    rw [range]
    exact ⟨Int32.le_iff_toInt_le.1 low, inside low high⟩

/-- The range stays inside exactly when nothing is sent for another reason, the offset is negative,
the length is not and the sum fits into 32 bits, or the length is negative and the range ends
behind the message all the same. -/
theorem sendsInside_iff (small : arguments.bytes.length < 2 ^ 31) :
    SendsInside inetPton data arguments ↔
      ¬Accepted inetPton data arguments ∨ arguments.offsetOr < 0 ∨
      (0 ≤ arguments.lengthOr ∧
        arguments.offsetOr.toInt + arguments.lengthOr.toInt < 2 ^ 31) ∨
      (arguments.lengthOr < 0 ∧
        arguments.bytes.length < arguments.offsetOr.toInt + arguments.lengthOr.toInt) := by
  by_cases accepted : Accepted inetPton data arguments
  · have size : (Int32.ofNat arguments.bytes.length).toInt = arguments.bytes.length :=
      Int32.toInt_ofNat_of_lt small
    have sum : (arguments.offsetOr + arguments.lengthOr).toInt =
        signed 32 (arguments.offsetOr.toInt + arguments.lengthOr.toInt) := Int32.toInt_add ..
    have offsetHigh := arguments.offsetOr.toInt_lt
    have lengthLow := arguments.lengthOr.le_toInt
    have lengthHigh := arguments.lengthOr.toInt_lt
    rw [sendsInside_iff_of_accepted accepted]
    simp only [accepted, not_true_eq_false, false_or, Int32.le_iff_toInt_le, Int32.lt_iff_toInt_lt,
      sum, size, Int32.toInt_zero]
    generalize arguments.offsetOr.toInt = offset at *
    generalize arguments.lengthOr.toInt = length at *
    rcases lt_or_ge offset 0 with before | low
    · exact iff_of_true (fun low => absurd before (not_lt.2 low)) (.inl before)
    rcases lt_or_ge length 0 with negative | nonneg
    · -- as a `size_t` the length is more than the message has
      have converted : (unsigned 64 length : ℤ) = 2 ^ 64 + length :=
        unsigned_of_neg negative (by omega)
      rw [@signed_eq_self 31 _ (by omega) (by omega), converted]
      omega
    · have converted : (unsigned 64 length : ℤ) = length := by
        obtain ⟨natural, rfl⟩ := Int.eq_ofNat_of_zero_le nonneg
        exact_mod_cast unsigned_eq_self (by omega)
      rw [converted]
      rcases lt_or_ge (offset + length) (2 ^ 31) with fits | wraps
      · rw [@signed_eq_self 31 _ (by omega) fits]
        omega
      · have wrapped : signed 32 (offset + length) = offset + length - 2 ^ 32 := by
          rw [← signed_sub_two_pow]
          exact @signed_eq_self 31 _ (by omega) (by omega)
        rw [wrapped]
        omega
  · refine iff_of_true (fun datagram sent => ?_) (.inl accepted)
    exact absurd (socketSend_eq_sendto_iff.1 sent).1 accepted

/-- `send("hi", 0, length, 80, "127.0.0.1")`. -/
def sendHi (length : Int32) : SendArguments where
  argc := 5
  bytes := [104, 105]
  offset := some 0
  length := some length
  port := some 80
  address := some "127.0.0.1"

/-- `inet_pton` of one address. -/
def loopback (text : Text) : Option (BitVec 32) :=
  if text = "127.0.0.1".toList then some 0x7F000001 else none

theorem sendsInside_hi : SendsInside loopback (some ⟨true⟩) (sendHi 2) :=
  (sendsInside_iff (by decide)).mpr (.inr (.inr (.inl (by decide))))

/-- Of a length of -1, `sendto` receives 2^64 - 1. -/
theorem not_sendsInside_negative :
    ¬ ∀ inetPton data (arguments : SendArguments), arguments.bytes.length < 2 ^ 31 →
      SendsInside inetPton data arguments := by
  intro all
  have sent : socketSend loopback (some ⟨true⟩) (sendHi (-1)) =
      .sendto ⟨⟨0, 2 ^ 64 - 1⟩, 80, 0x7F000001⟩ := by decide
  have inside := (all loopback (some ⟨true⟩) (sendHi (-1)) (by decide) _ sent).2
  exact absurd inside (by decide)

end ProtoJS.Dgram

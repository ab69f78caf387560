import ProtoJS.Buffer.Encodings
import ProtoJS.Machine.ByteRanges
import ProtoJS.Machine.Words

/-! # The buffer module

`Buffer` objects, their constructors and their methods. Offsets are `int`, sizes `unsigned long`,
and every mixed sum is converted as the compiler converts it. A method computes the range of
bytes that it hands to `memcpy`, `memset` or `std::string`, and has no result when that range
leaves its buffer.
-/

namespace ProtoJS.Buffer

open Words Bytes Strings

/-- Assignment to an `int`, and `static_cast<int>`. -/
def toInt (value : ℤ) : ℤ := signed 32 value

/-- Conversion to `unsigned long`, which is also `size_t`. -/
def toUnsignedLong (value : ℤ) : ℕ := unsigned 64 value

def lowByte (value : Int32) : UInt8 := UInt8.ofNat (unsigned 8 value.toInt)

/-- protoCore's byte buffers: only the size of a new one is known. -/
structure Allocator where
  newBuffer : ℕ → List UInt8
  length_newBuffer : ∀ size, (newBuffer size).length = size

/-- The bytes of a `Buffer` and its `length` property, which `byteLength` repeats. -/
structure BufferObject where
  bytes : List UInt8
  length : ℤ
deriving DecidableEq, Repr

def BufferObject.ofBytes (bytes : List UInt8) : BufferObject := ⟨bytes, signed 64 bytes.length⟩

@[simp]
theorem BufferObject.ofBytes_bytes (bytes : List UInt8) : (ofBytes bytes).bytes = bytes := rfl

theorem BufferObject.ofBytes_length {bytes : List UInt8} (small : bytes.length < 2 ^ 63) :
    (ofBytes bytes).length = bytes.length := by
  rw [ofBytes, @signed_eq_self 63 bytes.length (by omega) (by exact_mod_cast small)]

theorem BufferObject.ofBytes_length_le (bytes : List UInt8) :
    (ofBytes bytes).length ≤ bytes.length := by
  simp only [ofBytes]
  exact signed_le (Int.natCast_nonneg _)

def utf16Size (c : Char) : ℕ := if c.val < 0x10000 then 1 else 2

/-- A string of the engine: it has fewer than 2^30 UTF-16 units. -/
structure JSString where
  text : String
  length_lt : (text.toList.map utf16Size).sum < 2 ^ 30

section Arguments

/-- An optional number: `int x = fallback`, then `JS_ToInt32(ctx, &x, argument)`. -/
def intArgument (argument : Option Int32) (fallback : ℤ) : ℤ :=
  match argument with
  | some value => value.toInt
  | none => fallback

/-- The name that `strcmp` sees. -/
def encodingName : Option String → String
  | some encoding => beforeNul encoding
  | none => "utf8"

/-- `value += size`, for an `int` and an `unsigned long`. -/
def addSize (value : ℤ) (size : ℕ) : ℤ := toInt (toUnsignedLong (toUnsignedLong value + size))

/-- The value that `alloc` and `fill` repeat. -/
inductive FillValue where
  | number (value : Int32)
  | string (text : String)
  | other
deriving DecidableEq, Repr

def fillByte : FillValue → UInt8
  | .number value => lowByte value
  | .string text => (toCString text).headD 0
  | .other => 0

end Arguments

section Ranges

/-- The range of `toString`. -/
def toStringRange (size : ℕ) (first last : Option Int32) : ByteRange :=
  let start := intArgument first 0
  let stop := intArgument last (toInt size)
  let start := if start < 0 then 0 else start
  let stop := if toInt size < stop then toInt size else stop
  let start := if stop < start then stop else start
  ⟨start, toUnsignedLong (stop - start)⟩

/-- The range of `slice`: negative positions count from the end. -/
def sliceRange (size : ℕ) (first last : Option Int32) : ByteRange :=
  let start := intArgument first 0
  let stop := intArgument last (toInt size)
  let start := if start < 0 then addSize start size else start
  let stop := if stop < 0 then addSize stop size else stop
  let start := if start < 0 then 0 else start
  let stop := if toInt size < stop then toInt size else stop
  let start := if stop < start then stop else start
  ⟨start, toUnsignedLong (stop - start)⟩

/-- The range of `fill`. -/
def fillRange (size : ℕ) (offset last : Option Int32) : ByteRange :=
  let start := intArgument offset 0
  let stop := intArgument last (toInt size)
  let start := if start < 0 then 0 else start
  let stop := if toInt size < stop then toInt size else stop
  let start := if stop < start then stop else start
  ⟨start, toUnsignedLong (stop - start)⟩

/-- The numbers that `copy` takes after its target. -/
structure CopyArguments where
  targetStart : Option Int32 := none
  sourceStart : Option Int32 := none
  sourceEnd : Option Int32 := none
deriving DecidableEq, Repr

/-- The ranges that `copy` reads in the source and writes in the target. -/
def copyRanges (srcSize targetSize : ℕ) (arguments : CopyArguments) : ByteRange × ByteRange :=
  let targetStart := intArgument arguments.targetStart 0
  let sourceStart := intArgument arguments.sourceStart 0
  let sourceEnd := intArgument arguments.sourceEnd (toInt srcSize)
  if targetStart < 0 ∨ sourceStart < 0 ∨ sourceEnd < 0 then (⟨0, 0⟩, ⟨0, 0⟩)
  else
    let sourceStart := if toInt srcSize < sourceStart then toInt srcSize else sourceStart
    let sourceEnd := if toInt srcSize < sourceEnd then toInt srcSize else sourceEnd
    let sourceStart := if sourceEnd < sourceStart then sourceEnd else sourceStart
    let copyLen := min (toUnsignedLong (sourceEnd - sourceStart))
      (toUnsignedLong (targetSize - toUnsignedLong targetStart))
    (⟨sourceStart, copyLen⟩, ⟨targetStart, copyLen⟩)

end Ranges

section Constructors

variable (alloc : Allocator)

/-- The first argument of the constructor. An item of an array is `none` when it converts to no
number. -/
inductive Source where
  | number (size : Int32)
  | string (text : String) (encoding : Option String)
  | array (items : List (Option Int32))
  | other
deriving DecidableEq, Repr

def BufferConstructor : Option Source → Except String BufferObject
  | none => .error "Buffer constructor requires at least one argument"
  | some (.number size) =>
    if size < 0 then .error "Buffer size must be non-negative"
    else .ok (.ofBytes (alloc.newBuffer size.toInt.toNat))
  | some (.string text encoding) =>
    .ok (.ofBytes (decodeInConstructor (encodingName encoding) (toCString text)))
  | some (.array items) =>
    .ok (.ofBytes (List.zipWith (fun item byte => (item.map lowByte).getD byte) items
      (alloc.newBuffer items.length)))
  | some .other => .error "Buffer constructor: invalid argument type"

def bufferFrom (source : Option Source) : Except String BufferObject :=
  BufferConstructor alloc source

/-- A fill value that is not given is zero. -/
def bufferAlloc (size : Option Int32) (fill : Option FillValue) : Except String BufferObject :=
  match size with
  | none => .error "Buffer.alloc requires size"
  | some size =>
    if size < 0 then .error "Buffer size must be non-negative"
    else .ok (.ofBytes (List.replicate size.toInt.toNat ((fill.map fillByte).getD 0)))

/-- The copying loop of `concat`, at a running offset. -/
def copyAll (result : List UInt8) (offset : ℕ) : List (List UInt8) → Option (List UInt8)
  | [] => some result
  | src :: rest =>
    (write result offset src).bind fun result =>
      copyAll result (toUnsignedLong (offset + src.length)) rest

/-- The elements of the array that are no buffers are left out. -/
def bufferConcat (elements : List (Option BufferObject)) : Option BufferObject :=
  let buffers := (elements.filterMap id).map BufferObject.bytes
  let totalLen := buffers.foldl (fun total src => toUnsignedLong (total + src.length)) 0
  (copyAll (alloc.newBuffer totalLen) 0 buffers).map fun bytes => ⟨bytes, signed 64 totalLen⟩

end Constructors

section Methods

variable (decoder : Decoder) (buffer : BufferObject)

def bufferToString (encoding : Option String) (first last : Option Int32) : Option String :=
  (read buffer.bytes (toStringRange buffer.bytes.length first last)).map fun range =>
    decoder.newString (encodeInToString (encodingName encoding) range)

/-- The new buffer has the size of the range, and all of it is overwritten. -/
def bufferSlice (first last : Option Int32) : Option BufferObject :=
  let range := sliceRange buffer.bytes.length first last
  (read buffer.bytes range).map fun bytes => ⟨bytes, signed 64 range.length⟩

/-- The target after the copy, and what `copy` returns. -/
def bufferCopy (target : BufferObject) (arguments : CopyArguments) : Option (BufferObject × ℤ) :=
  let (source, written) := copyRanges buffer.bytes.length target.bytes.length arguments
  (read buffer.bytes source).bind fun data =>
    (write target.bytes written.first data).map fun bytes =>
      ({ target with bytes := bytes }, toInt source.length)

def bufferFill (value : FillValue) (offset last : Option Int32) : Option BufferObject :=
  let range := fillRange buffer.bytes.length offset last
  (write buffer.bytes range.first (List.replicate range.length (fillByte value))).map fun bytes =>
    { buffer with bytes := bytes }

end Methods

section IndexOf

inductive SearchValue where
  | number (value : Int32)
  | string (value : JSString) (encoding : Option String)
  | buffer (value : BufferObject)
  | other

def searchBytes : SearchValue → List UInt8
  | .number value => [lowByte value]
  | .string value encoding => decodeInIndexOf (encodingName encoding) (toCString value.text)
  | .buffer value => value.bytes
  | .other => []

/-- Where the search starts. -/
def searchStart (size : ℕ) (byteOffset : Option Int32) : ℤ :=
  let start := intArgument byteOffset 0
  let start := if start < 0 then addSize start size else start
  if start < 0 then 0 else start

/-- The comparison at one place, and how many bytes it reads. -/
def matchAt (memory : ℤ → UInt8) (place : ℤ) : List UInt8 → Bool × ℕ
  | [] => (true, 0)
  | byte :: rest =>
    if memory place ≠ byte then (false, 1)
    else
      let (matched, count) := matchAt memory (place + 1) rest
      (matched, count + 1)

/-- The loop over the places: its result, and the ranges that it reads. -/
def searchFrom (memory : ℤ → UInt8) (pattern : List UInt8) : ℕ → ℤ → ℤ × List ByteRange
  | 0, _ => (-1, [])
  | turns + 1, place =>
    let (matched, count) := matchAt memory place pattern
    if matched then (place, [⟨place, count⟩])
    else
      let (result, reads) := searchFrom memory pattern turns (place + 1)
      (result, ⟨place, count⟩ :: reads)

/-- The memory around the buffer is given by its offset from the first byte. -/
def bufferIndexOf (memory : ℤ → UInt8) (size : ℕ) (value : SearchValue)
    (byteOffset : Option Int32) : ℤ × List ByteRange :=
  let pattern := searchBytes value
  if pattern = [] then (-1, [])
  else
    let start := searchStart size byteOffset
    if toInt size ≤ start then (-1, [])
    else
      let last := toInt (toInt size - toInt pattern.length)
      searchFrom memory pattern (last - start + 1).toNat start

def bufferIncludes (memory : ℤ → UInt8) (size : ℕ) (value : SearchValue)
    (byteOffset : Option Int32) : Bool :=
  0 ≤ (bufferIndexOf memory size value byteOffset).1

end IndexOf

end ProtoJS.Buffer

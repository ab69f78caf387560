import ProtoJS.Strings.CString
import ProtoJS.Strings.Extraction

/-! # Bytes as characters

Where bytes are read as text, each stands as the character with its code.
-/

namespace ProtoJS.Strings

def charOfByte (byte : UInt8) : Char := Char.ofNat byte.toNat

def byteOfChar (c : Char) : UInt8 := UInt8.ofNat c.toNat

/-- The bytes of a Unicode character. -/
def bytesOfChar (c : Char) : Text := (String.utf8EncodeChar c).map charOfByte

/-- The bytes of a JavaScript string. -/
def bytesOf (s : String) : Text := (utf8 s).map charOfByte

/-- What `std::string` takes of a C string. -/
def cString (text : Text) : Text := text.takeWhile (· ≠ '\x00')

/-- What `std::string(JS_ToCString(ctx, s))` holds. -/
def cText (s : String) : Text := (toCString s).map charOfByte

theorem toNat_charOfByte (byte : UInt8) : (charOfByte byte).toNat = byte.toNat := by
  have valid : byte.toNat.isValidChar := .inl (byte.toNat_lt.trans (by decide))
  rw [charOfByte, Char.ofNat, dif_pos valid]
  rfl

theorem byteOfChar_charOfByte (byte : UInt8) : byteOfChar (charOfByte byte) = byte := by
  rw [byteOfChar, toNat_charOfByte, UInt8.ofNat_toNat]

theorem charOfByte_injective : Function.Injective charOfByte :=
  Function.LeftInverse.injective byteOfChar_charOfByte

theorem charOfByte_eq_nul_iff {byte : UInt8} : charOfByte byte = '\x00' ↔ byte = 0 := by
  rw [← charOfByte_injective.eq_iff]
  rfl

/-- A C string holds the bytes before the first zero. -/
theorem cText_eq_cString (s : String) : cText s = cString (bytesOf s) := by
  have agree : (fun c => decide (c ≠ '\x00')) ∘ charOfByte = fun byte => decide (byte ≠ 0) := by
    funext byte
    exact decide_eq_decide.mpr (not_congr charOfByte_eq_nul_iff)
  rw [cText, bytesOf, cString, List.takeWhile_map, agree, toCString, beforeZero]

section Characters

variable {c : Char}

theorem bytesOf_ofList (chars : List Char) :
    bytesOf (String.ofList chars) = chars.flatMap bytesOfChar := by
  rw [bytesOf, utf8_ofList, List.map_flatMap]
  rfl

/-- ASCII characters are their own bytes. -/
theorem bytesOfChar_of_lt (ascii : c.toNat < 128) : bytesOfChar c = [c] := by
  rw [bytesOfChar, utf8EncodeChar_of_lt ascii, List.map_singleton, charOfByte, UInt8.toNat_ofNat',
    Nat.mod_eq_of_lt (by omega), Char.ofNat_toNat]

theorem high_of_mem_bytesOfChar {d : Char} (high : 128 ≤ c.toNat) (member : d ∈ bytesOfChar c) :
    128 ≤ d.toNat := by
  obtain ⟨byte, inside, rfl⟩ := List.mem_map.1 member
  rw [toNat_charOfByte]
  exact high_of_mem_utf8EncodeChar high inside

theorem length_bytesOfChar_pos (c : Char) : 0 < (bytesOfChar c).length := by
  rw [bytesOfChar, List.length_map, String.length_utf8EncodeChar]
  exact c.utf8Size_pos

theorem length_bytesOfChar_of_ge (beyond : 0x10000 ≤ c.toNat) : (bytesOfChar c).length = 4 := by
  have large : 0x10000 ≤ c.val.toNat := beyond
  rw [bytesOfChar, List.length_map, String.utf8EncodeChar, if_neg (by omega), if_neg (by omega),
    if_neg (by omega)]
  rfl

/-- One ASCII byte encodes this ASCII character only. -/
theorem bytesOfChar_eq_singleton_iff {d : Char} (ascii : d.toNat < 128) :
    bytesOfChar c = [d] ↔ c = d := by
  constructor
  · intro same
    rcases lt_or_ge c.toNat 128 with low | high
    · rw [bytesOfChar_of_lt low] at same
      exact List.singleton_inj.1 same
    · have member : d ∈ bytesOfChar c := by rw [same]; exact List.mem_singleton_self d
      have bound := high_of_mem_bytesOfChar high member
      omega
  · rintro rfl
    exact bytesOfChar_of_lt ascii

/-- ASCII characters are stored in one byte each. -/
theorem utf8_of_ascii {chars : List Char} (ascii : ∀ c ∈ chars, c.toNat < 128) :
    utf8 (String.ofList chars) = chars.map byteOfChar := by
  rw [utf8_ofList, ← List.flatMap_pure_eq_map]
  exact List.flatMap_congr fun c member => utf8EncodeChar_of_lt (ascii c member)

/-- ASCII bytes are the encoding of their characters. -/
theorem utf8_map_charOfByte {bytes : List UInt8} (ascii : ∀ byte ∈ bytes, byte < 128) :
    utf8 (String.ofList (bytes.map charOfByte)) = bytes := by
  have chars : ∀ c ∈ bytes.map charOfByte, c.toNat < 128 := by
    intro c member
    obtain ⟨byte, inside, rfl⟩ := List.mem_map.1 member
    rw [toNat_charOfByte]
    exact UInt8.lt_iff_toNat_lt.1 (ascii byte inside)
  rw [utf8_of_ascii chars, List.map_map]
  exact List.map_id'' byteOfChar_charOfByte bytes

end Characters

section CString

variable {text : Text}

theorem nul_notMem_cString : '\x00' ∉ cString text := by
  intro member
  simpa using List.mem_takeWhile_imp member

theorem cString_eq_self_iff : cString text = text ↔ '\x00' ∉ text :=
  takeWhile_ne_eq_self_iff

end CString

end ProtoJS.Strings

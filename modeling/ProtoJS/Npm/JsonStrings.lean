import ProtoJS.Npm.JsonSyntax
import ProtoJS.Strings.ByteText

/-! # What a JSON string stands for

A literal is a list of items between quotes: characters in UTF-8, short escapes, and the escapes
that give a UTF-16 code unit in hexadecimal, of which a surrogate pair gives one character. The
parser always ends behind the closing quote. What it has read then is the UTF-8 encoding of the
string unless there is a backspace, a form feed or a code unit among the escapes: the first two are
taken for their letters, and each code unit for a question mark.
-/

namespace ProtoJS.Npm

open Strings JsonParser

/-- The short escapes, with the characters they stand for. -/
def shortEscapes : List (Char × Char) :=
  [('"', '"'), ('\\', '\\'), ('/', '/'), ('b', '\x08'), ('f', '\x0c'), ('n', '\n'), ('r', '\r'),
    ('t', '\t')]

/-- What a string literal is made up of. -/
inductive StringItem where
  | raw (c : Char) (noControl : 32 ≤ c.toNat) (noQuote : c ≠ '"') (noBackslash : c ≠ '\\')
  | short (e c : Char) (known : (e, c) ∈ shortEscapes)
  | unit (hex : Text) (four : hex.length = 4) (hexadecimal : ∀ c ∈ hex, isHexDigit c = true)

def hexDigitValue (c : Char) : ℕ :=
  if c.isDigit then c.toNat - '0'.toNat
  else if 'a' ≤ c then c.toNat - 'a'.toNat + 10
  else c.toNat - 'A'.toNat + 10

def hexValue (hex : Text) : ℕ := hex.foldl (fun value c => 16 * value + hexDigitValue c) 0

namespace StringItem

/-- How an item is written, in bytes. -/
def text : StringItem → Text
  | raw c _ _ _ => bytesOfChar c
  | short e _ _ => ['\\', e]
  | unit hex _ _ => '\\' :: 'u' :: hex

/-- What the parser makes of an item. -/
def read : StringItem → Text
  | raw c _ _ _ => bytesOfChar c
  | short e _ _ => [JsonParser.unescape e]
  | unit _ _ _ => ['?']

/-- The items that the parser reads as they are meant. A code unit is one if it is that of a
question mark. -/
def Plain : StringItem → Prop
  | raw _ _ _ _ => True
  | short e _ _ => e ≠ 'b' ∧ e ≠ 'f'
  | unit hex _ _ => hexValue hex = '?'.toNat

instance : DecidablePred Plain
  | raw _ _ _ _ => .isTrue trivial
  | short e _ _ => inferInstanceAs (Decidable (e ≠ 'b' ∧ e ≠ 'f'))
  | unit hex _ _ => inferInstanceAs (Decidable (hexValue hex = '?'.toNat))

end StringItem

open StringItem

/-- The literal with these items. -/
def literal (items : List StringItem) : Text := '"' :: (items.flatMap text ++ ['"'])

/-- The string that a literal stands for. A code unit that is neither a character nor part of a
surrogate pair stands for nothing. -/
inductive Denotes : List StringItem → List Char → Prop
  | nil : Denotes [] []
  | raw {c noControl noQuote noBackslash items s} (rest : Denotes items s) :
    Denotes (.raw c noControl noQuote noBackslash :: items) (c :: s)
  | short {e c known items s} (rest : Denotes items s) :
    Denotes (.short e c known :: items) (c :: s)
  | unit {hex four hexadecimal c items s} (code : hexValue hex = c.toNat) (rest : Denotes items s) :
    Denotes (.unit hex four hexadecimal :: items) (c :: s)
  | pair {high highFour highHex low lowFour lowHex c items s}
    (isHigh : 0xD800 ≤ hexValue high ∧ hexValue high < 0xDC00)
    (isLow : 0xDC00 ≤ hexValue low ∧ hexValue low < 0xE000)
    (code : c.toNat = 0x10000 + (hexValue high - 0xD800) * 0x400 + (hexValue low - 0xDC00))
    (rest : Denotes items s) :
    Denotes (.unit high highFour highHex :: .unit low lowFour lowHex :: items) (c :: s)

/-- No character has the code of a surrogate. -/
theorem not_surrogate (c : Char) : ¬ (0xD800 ≤ c.toNat ∧ c.toNat < 0xE000) := by
  have valid : c.toNat < 0xD800 ∨ 0xDFFF < c.toNat ∧ c.toNat < 0x110000 := c.valid
  omega

/-- A literal stands for no more than one string. -/
theorem Denotes.unique {items : List StringItem} {s s' : List Char} (denotes : Denotes items s)
    (denotes' : Denotes items s') : s = s' := by
  induction denotes generalizing s' with
  | nil =>
    cases denotes'
    rfl
  | raw _ ih =>
    cases denotes' with
    | raw rest => rw [ih rest]
  | short _ ih =>
    cases denotes' with
    | short rest => rw [ih rest]
  | @unit hex _ _ c _ _ code _ ih =>
    cases denotes' with
    | unit code' rest => rw [ih rest, Char.toNat_inj.1 (code.symm.trans code')]
    | pair isHigh =>
      have surrogate := not_surrogate c
      omega
  | @pair _ _ _ _ _ _ c _ _ isHigh _ code _ ih =>
    cases denotes' with
    | @unit _ _ _ d _ _ code' =>
      have surrogate := not_surrogate d
      omega
    | pair _ _ code' rest => rw [ih rest, Char.toNat_inj.1 (code.trans code'.symm)]

section Reading

variable {items : List StringItem} {s : List Char}

theorem readString_skip (taken rest : Text) :
    readString taken.length (taken ++ rest) = readString 0 rest := by
  induction taken with
  | nil => rfl
  | cons c taken ih => rw [List.length_cons, List.cons_append, readString, ih]

/-- Characters other than the quote and the backslash are taken as they are. -/
theorem readString_raw {taken : Text} (plain : ∀ c ∈ taken, c ≠ '"' ∧ c ≠ '\\') (rest : Text) :
    readString 0 (taken ++ rest) = (taken ++ (readString 0 rest).1, (readString 0 rest).2) := by
  induction taken with
  | nil => rfl
  | cons c taken ih =>
    rw [List.forall_mem_cons] at plain
    rw [List.cons_append, readString, if_neg plain.1.1, if_neg plain.1.2, ih plain.2]
    rfl

theorem readString_backslash (rest : Text) :
    readString 0 ('\\' :: rest) =
      (JsonParser.unescape (peek rest) :: (readString (if peek rest = 'u' then 5 else 1) rest).1,
        (readString (if peek rest = 'u' then 5 else 1) rest).2) := by
  rw [readString, if_neg (by decide), if_pos rfl]

theorem ne_of_mem_bytesOfChar {c d q : Char} (ascii : q.toNat < 128) (other : c ≠ q)
    (member : d ∈ bytesOfChar c) : d ≠ q := by
  rcases lt_or_ge c.toNat 128 with low | high
  · rw [bytesOfChar_of_lt low, List.mem_singleton] at member
    rwa [member]
  · rintro rfl
    have bound := high_of_mem_bytesOfChar high member
    omega

theorem isStringBody_append {taken body : Text}
    (plain : ∀ c ∈ taken, c ≠ '"' ∧ c ≠ '\\' ∧ 32 ≤ c.toNat) (rest : IsStringBody body) :
    IsStringBody (taken ++ body) := by
  induction taken with
  | nil => exact rest
  | cons c taken ih =>
    rw [List.forall_mem_cons] at plain
    exact .raw plain.1.1 plain.1.2.1 plain.1.2.2 (ih plain.2)

/-- The items make up what JSON allows between quotes. -/
theorem isStringBody_items (items : List StringItem) : IsStringBody (items.flatMap text) := by
  induction items with
  | nil => exact .nil
  | cons item items ih =>
    rw [List.flatMap_cons]
    cases item with
    | raw c noControl noQuote noBackslash =>
      apply isStringBody_append _ ih
      intro d member
      rw [text] at member
      refine ⟨ne_of_mem_bytesOfChar (by decide) noQuote member,
        ne_of_mem_bytesOfChar (by decide) noBackslash member, ?_⟩
      rcases lt_or_ge c.toNat 128 with low | high
      · rw [bytesOfChar_of_lt low, List.mem_singleton] at member
        rwa [member]
      · exact le_trans (by decide) (high_of_mem_bytesOfChar high member)
    | short e c known =>
      refine .escape ?_ ih
      simp only [shortEscapes, List.mem_cons, Prod.mk.injEq, List.not_mem_nil, or_false] at known
      rcases known with ⟨rfl, -⟩ | ⟨rfl, -⟩ | ⟨rfl, -⟩ | ⟨rfl, -⟩ | ⟨rfl, -⟩ | ⟨rfl, -⟩ |
        ⟨rfl, -⟩ | ⟨rfl, -⟩ <;> decide
    | unit hex four hexadecimal => exact .unicode four hexadecimal ih

theorem ne_u_of_mem_shortEscapes {e c : Char} (known : (e, c) ∈ shortEscapes) : e ≠ 'u' := by
  rintro rfl
  simp [shortEscapes] at known

theorem readString_item (item : StringItem) (rest : Text) :
    readString 0 (item.text ++ rest) =
      (item.read ++ (readString 0 rest).1, (readString 0 rest).2) := by
  cases item with
  | raw c noControl noQuote noBackslash =>
    apply readString_raw
    intro d member
    exact ⟨ne_of_mem_bytesOfChar (by decide) noQuote member,
      ne_of_mem_bytesOfChar (by decide) noBackslash member⟩
  | short e c known =>
    have skipped : readString 1 (e :: rest) = readString 0 rest := readString_skip [e] rest
    have next : peek (e :: rest) = e := rfl
    rw [text, List.cons_append, readString_backslash, List.cons_append, List.nil_append, next,
      if_neg (ne_u_of_mem_shortEscapes known), skipped]
    rfl
  | unit hex four hexadecimal =>
    have skipped := readString_skip ('u' :: hex) rest
    have next : peek ('u' :: hex ++ rest) = 'u' := rfl
    rw [List.length_cons, four] at skipped
    rw [text, List.cons_append, readString_backslash, next, if_pos rfl, skipped]
    rfl

/-- A literal is read up to its closing quote. -/
theorem parseString_literal (items : List StringItem) (rest : Text) :
    parseString (literal items ++ rest) = (items.flatMap read, rest) := by
  have read : readString 0 (items.flatMap text ++ '"' :: rest) = (items.flatMap read, rest) := by
    induction items with
    | nil => rfl
    | cons item items ih =>
      rw [List.flatMap_cons, List.append_assoc, readString_item, ih, List.flatMap_cons]
  rwa [literal, parseString, List.cons_append, List.tail_cons, List.append_assoc]

theorem plain_short_iff {e c : Char} (known : (e, c) ∈ shortEscapes) :
    JsonParser.unescape e = c ↔ e ≠ 'b' ∧ e ≠ 'f' := by
  simp only [shortEscapes, List.mem_cons, Prod.mk.injEq, List.not_mem_nil, or_false] at known
  rcases known with ⟨rfl, rfl⟩ | ⟨rfl, rfl⟩ | ⟨rfl, rfl⟩ | ⟨rfl, rfl⟩ | ⟨rfl, rfl⟩ | ⟨rfl, rfl⟩ |
    ⟨rfl, rfl⟩ | ⟨rfl, rfl⟩ <;> decide

theorem lt_of_mem_shortEscapes {e c : Char} (known : (e, c) ∈ shortEscapes) : c.toNat < 128 := by
  simp only [shortEscapes, List.mem_cons, Prod.mk.injEq, List.not_mem_nil, or_false] at known
  rcases known with ⟨-, rfl⟩ | ⟨-, rfl⟩ | ⟨-, rfl⟩ | ⟨-, rfl⟩ | ⟨-, rfl⟩ | ⟨-, rfl⟩ | ⟨-, rfl⟩ |
    ⟨-, rfl⟩ <;> decide

/-- No item is read as more bytes than those of what it stands for. -/
theorem length_read_le (denotes : Denotes items s) :
    (items.flatMap read).length ≤ (s.flatMap bytesOfChar).length := by
  induction denotes with
  | nil => exact le_rfl
  | raw _ ih =>
    simp only [List.flatMap_cons, List.length_append, StringItem.read]
    omega
  | @short _ c _ _ _ _ ih =>
    have present := length_bytesOfChar_pos c
    simp only [List.flatMap_cons, List.length_append, StringItem.read, List.length_singleton]
    omega
  | @unit _ _ _ c _ _ _ _ ih =>
    have present := length_bytesOfChar_pos c
    simp only [List.flatMap_cons, List.length_append, StringItem.read, List.length_singleton]
    omega
  | @pair _ _ _ _ _ _ c _ _ _ _ code _ ih =>
    have four := length_bytesOfChar_of_ge (c := c) (by omega)
    simp only [List.flatMap_cons, List.length_append, StringItem.read, List.length_singleton]
    omega

/-- Where what is read has the same bytes as what it stands for, the first item has. -/
theorem read_cons_eq_iff {item : StringItem} {c : Char}
    (length : item.read.length ≤ (bytesOfChar c).length) (denotes : Denotes items s) :
    (item :: items).flatMap read = (c :: s).flatMap bytesOfChar ↔
      item.read = bytesOfChar c ∧ items.flatMap read = s.flatMap bytesOfChar := by
  have rest := length_read_le denotes
  rw [List.flatMap_cons, List.flatMap_cons]
  constructor
  · intro same
    have lengths := congrArg List.length same
    simp only [List.length_append] at lengths
    exact List.append_inj same (by omega)
  · rintro ⟨first, same⟩
    rw [first, same]

theorem read_eq_iff (denotes : Denotes items s) :
    items.flatMap read = s.flatMap bytesOfChar ↔ ∀ item ∈ items, item.Plain := by
  induction denotes with
  | nil => simp
  | raw denotes ih =>
    rw [List.forall_mem_cons, ← ih, read_cons_eq_iff le_rfl denotes]
    exact and_congr_left fun _ => iff_of_true rfl trivial
  | @short e c known items s denotes ih =>
    have ascii := lt_of_mem_shortEscapes known
    have length : (short e c known).read.length ≤ (bytesOfChar c).length := length_bytesOfChar_pos c
    rw [List.forall_mem_cons, ← ih, read_cons_eq_iff length denotes,
      bytesOfChar_of_lt ascii, StringItem.read, List.singleton_inj, plain_short_iff known]
    rfl
  | @unit hex four hexadecimal c items s code denotes ih =>
    have length : (unit hex four hexadecimal).read.length ≤ (bytesOfChar c).length :=
      length_bytesOfChar_pos c
    rw [List.forall_mem_cons, ← ih, read_cons_eq_iff length denotes,
      StringItem.read, eq_comm (b := bytesOfChar c), bytesOfChar_eq_singleton_iff (by decide),
      Plain, code, Char.toNat_inj]
  | @pair high _ _ low _ _ c items s isHigh isLow code denotes ih =>
    -- The two code units are read as two bytes, and the character has four.
    have four := length_bytesOfChar_of_ge (c := c) (by omega)
    have rest := length_read_le denotes
    apply iff_of_false
    · intro same
      have lengths := congrArg List.length same
      simp only [List.flatMap_cons, List.length_append, StringItem.read, List.length_singleton]
        at lengths
      omega
    · intro plain
      have question : hexValue high = '?'.toNat := plain _ List.mem_cons_self
      rw [question] at isHigh
      exact absurd isHigh (by decide)

/-- Plain items stand for one character each. -/
theorem exists_denotes (plain : ∀ item ∈ items, item.Plain) : ∃ s, Denotes items s := by
  induction items with
  | nil => exact ⟨[], .nil⟩
  | cons item items ih =>
    rw [List.forall_mem_cons] at plain
    obtain ⟨s, rest⟩ := ih plain.2
    cases item with
    | raw c => exact ⟨c :: s, .raw rest⟩
    | short e c => exact ⟨c :: s, .short rest⟩
    | unit hex => exact ⟨'?' :: s, .unit plain.1 rest⟩

/-- A literal is decoded to the UTF-8 encoding of a string that it stands for, and left behind its
closing quote, exactly if all its items are plain. -/
theorem parseString_iff (items : List StringItem) (rest : Text) :
    (∃ s, Denotes items s ∧
        parseString (literal items ++ rest) = (bytesOf (String.ofList s), rest)) ↔
      ∀ item ∈ items, item.Plain := by
  rw [parseString_literal]
  constructor
  · rintro ⟨s, denotes, same⟩
    rw [bytesOf_ofList, Prod.mk.injEq] at same
    exact (read_eq_iff denotes).1 same.1
  · intro plain
    obtain ⟨s, denotes⟩ := exists_denotes plain
    refine ⟨s, denotes, ?_⟩
    rw [bytesOf_ofList, (read_eq_iff denotes).2 plain]

/-- `\u0041`. -/
def letterUnit : StringItem := .unit ['0', '0', '4', '1'] rfl (List.all_eq_true.1 rfl)

/-- It stands for the letter A. -/
theorem parseString_letterUnit :
    literal [letterUnit] = "\"\\u0041\"".toList ∧ Denotes [letterUnit] ['A'] ∧
      parseString (literal [letterUnit]) = (['?'], []) ∧
      ¬ ∀ items rest, ∃ s, Denotes items s ∧
        parseString (literal items ++ rest) = (bytesOf (String.ofList s), rest) := by
  refine ⟨by decide, .unit (by decide) .nil, by decide, ?_⟩
  intro decoded
  obtain ⟨s, denotes, same⟩ := decoded [letterUnit] []
  rw [parseString_literal, bytesOf_ofList, Prod.mk.injEq, read_eq_iff denotes] at same
  exact absurd (same.1 letterUnit List.mem_cons_self) (by decide)

end Reading

end ProtoJS.Npm

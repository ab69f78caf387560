import ProtoJS.Npm.JsonStrings
import ProtoJS.Strings.Search

/-! # JSON objects as they are written

An object with all its text: the white space, the keys and the values of its members, in order. A
text is a JSON object exactly if it is that of such an object. A key or a string between quotes
stands for what its escapes decode to, and of several members with one name the last one counts.
-/

namespace ProtoJS.Npm

open Strings

section Decoding

/-- How characters are stored: each in at most four units, those of ASCII as they are. -/
structure Encoding (encode : Char → Text) : Prop where
  ascii : ∀ c, c.toNat < 128 → encode c = [c]
  short : ∀ c, (encode c).length ≤ 4

variable {encode : Char → Text}

/-- What stands between quotes, and the string that it stands for. -/
inductive JsonDecodes (encode : Char → Text) : Text → Text → Prop
  | nil : JsonDecodes encode [] []
  | raw {c body value} (noQuote : c ≠ '"') (noBackslash : c ≠ '\\')
    (rest : JsonDecodes encode body value) : JsonDecodes encode (c :: body) (c :: value)
  | short {e c body value} (known : (e, c) ∈ shortEscapes) (rest : JsonDecodes encode body value) :
    JsonDecodes encode ('\\' :: e :: body) (c :: value)
  | unit {hex c body value} (four : hex.length = 4)
    (hexadecimal : ∀ c ∈ hex, isHexDigit c = true) (code : hexValue hex = c.toNat)
    (rest : JsonDecodes encode body value) :
    JsonDecodes encode ('\\' :: 'u' :: (hex ++ body)) (encode c ++ value)
  | pair {high low c body value} (four : high.length = 4) (four' : low.length = 4)
    (hexadecimal : ∀ c ∈ high ++ low, isHexDigit c = true)
    (isHigh : 0xD800 ≤ hexValue high ∧ hexValue high < 0xDC00)
    (isLow : 0xDC00 ≤ hexValue low ∧ hexValue low < 0xE000)
    (code : c.toNat = 0x10000 + (hexValue high - 0xD800) * 0x400 + (hexValue low - 0xDC00))
    (rest : JsonDecodes encode body value) :
    JsonDecodes encode ('\\' :: 'u' :: (high ++ '\\' :: 'u' :: (low ++ body))) (encode c ++ value)

variable {body value : Text}

theorem White.not_mem {w : Text} {c : Char} (white : White w)
    (black : JsonParser.isJsonSpace c = false) : c ∉ w := fun member => by
  rw [white c member] at black
  cases black

theorem isHexDigit_of_control {c : Char} (control : c.toNat < 32) : isHexDigit c = false := by
  have code : c.val.toNat < 32 := control
  have below {low : UInt32} (high : 32 ≤ low.toNat) : ¬low.toNat ≤ c.val.toNat := by omega
  simp only [isHexDigit, Char.isDigit, Char.le_def, UInt32.le_iff_toNat_le, Bool.or_eq_false_iff,
    Bool.and_eq_false_iff, decide_eq_false_iff_not]
  exact ⟨⟨.inl (below (by decide)), .inl (below (by decide))⟩, .inl (below (by decide))⟩

/-- A string has no control characters in it. -/
theorem IsStringBody.control_not_mem (isBody : IsStringBody body) {c : Char}
    (control : c.toNat < 32) : c ∉ body := by
  have other {d : Char} (high : 32 ≤ d.toNat) : c ≠ d := by
    rintro rfl
    omega
  induction isBody with
  | nil => exact List.not_mem_nil
  | raw _ _ noControl _ ih => exact List.not_mem_cons_of_ne_of_not_mem (other noControl) ih
  | @escape e _ known _ ih =>
    have high : ∀ d ∈ "\"\\/bfnrt".toList, 32 ≤ d.toNat := by simp
    exact List.not_mem_cons_of_ne_of_not_mem (other (by decide))
      (List.not_mem_cons_of_ne_of_not_mem (other (high e known)) ih)
  | unicode _ hexadecimal _ ih =>
    refine List.not_mem_cons_of_ne_of_not_mem (other (by decide))
      (List.not_mem_cons_of_ne_of_not_mem (other (by decide)) ?_)
    rw [List.mem_append, not_or]
    refine ⟨fun inside => ?_, ih⟩
    have digit := hexadecimal c inside
    rw [isHexDigit_of_control control] at digit
    cases digit

theorem encoding_singleton : Encoding fun c => [c] := ⟨fun _ _ => rfl, fun _ => by simp⟩

theorem encoding_bytesOfChar : Encoding bytesOfChar where
  ascii _ := bytesOfChar_of_lt
  short c := by
    rw [bytesOfChar, List.length_map, String.length_utf8EncodeChar]
    exact c.utf8Size_le_four

/-- Without escapes, a string stands for itself and has no quote in it. -/
theorem JsonDecodes.of_no_backslash (decodes : JsonDecodes encode body value)
    (plain : '\\' ∉ body) : value = body ∧ '"' ∉ body := by
  induction decodes with
  | nil => exact ⟨rfl, List.not_mem_nil⟩
  | raw noQuote _ _ ih =>
    obtain ⟨rfl, unquoted⟩ := ih fun member => plain (List.mem_cons_of_mem _ member)
    exact ⟨rfl, List.not_mem_cons_of_ne_of_not_mem (Ne.symm noQuote) unquoted⟩
  | _ => exact absurd List.mem_cons_self plain

theorem jsonDecodes_self (isBody : IsStringBody body) (plain : '\\' ∉ body) :
    JsonDecodes encode body body := by
  induction isBody with
  | nil => exact .nil
  | raw noQuote noBackslash _ _ ih =>
    exact .raw noQuote noBackslash (ih fun member => plain (List.mem_cons_of_mem _ member))
  | _ => exact absurd List.mem_cons_self plain

theorem jsonDecodes_iff_of_plain (isBody : IsStringBody body) (plain : '\\' ∉ body) :
    JsonDecodes encode body value ↔ body = value :=
  ⟨fun decodes => (decodes.of_no_backslash plain).1.symm,
    fun same => same ▸ jsonDecodes_self isBody plain⟩

theorem JsonDecodes.length_le (decodes : JsonDecodes encode body value)
    (encoding : Encoding encode) : value.length ≤ body.length := by
  induction decodes with
  | nil => exact le_rfl
  | raw _ _ _ ih => exact Nat.succ_le_succ ih
  | short _ _ ih =>
    simp only [List.length_cons]
    omega
  | @unit hex c _ _ four _ _ _ ih =>
    have size := encoding.short c
    simp only [List.length_cons, List.length_append]
    omega
  | @pair high low c _ _ four four' _ _ _ _ _ ih =>
    have size := encoding.short c
    simp only [List.length_cons, List.length_append]
    omega

/-- With an escape, a string stands for something shorter. -/
theorem JsonDecodes.length_lt (decodes : JsonDecodes encode body value)
    (encoding : Encoding encode) (escaped : '\\' ∈ body) : value.length < body.length := by
  induction decodes with
  | nil => cases escaped
  | raw _ noBackslash _ ih =>
    rcases List.mem_cons.1 escaped with same | later
    · exact absurd same.symm noBackslash
    · exact Nat.succ_lt_succ (ih later)
  | short _ rest _ =>
    have others := rest.length_le encoding
    simp only [List.length_cons]
    omega
  | @unit hex c _ _ four _ _ rest _ =>
    have size := encoding.short c
    have others := rest.length_le encoding
    simp only [List.length_cons, List.length_append]
    omega
  | @pair high low c _ _ four four' _ _ _ _ rest _ =>
    have size := encoding.short c
    have others := rest.length_le encoding
    simp only [List.length_cons, List.length_append]
    omega

/-- A quote that is written is meant. -/
theorem JsonDecodes.quote_mem (decodes : JsonDecodes encode body value) (quoted : '"' ∈ body) :
    '"' ∈ value := by
  have outside {hex : Text} (hexadecimal : ∀ c ∈ hex, isHexDigit c = true) : '"' ∉ hex :=
    fun inside => absurd (hexadecimal '"' inside) (by decide)
  induction decodes with
  | nil => exact quoted
  | raw noQuote _ _ ih =>
    rcases List.mem_cons.1 quoted with same | later
    · exact absurd same.symm noQuote
    · exact List.mem_cons_of_mem _ (ih later)
  | @short e c _ _ known _ ih =>
    simp only [List.mem_cons] at quoted
    rcases quoted with same | same | later
    · exact absurd same (by decide)
    · obtain rfl : c = '"' := by
        rw [← same] at known
        simpa [shortEscapes] using known
      exact List.mem_cons_self
    · exact List.mem_cons_of_mem _ (ih later)
  | unit _ hexadecimal _ _ ih =>
    simp only [List.mem_cons, List.mem_append] at quoted
    rcases quoted with same | same | inside | later
    · exact absurd same (by decide)
    · exact absurd same (by decide)
    · exact absurd inside (outside hexadecimal)
    · exact List.mem_append_right _ (ih later)
  | pair _ _ hexadecimal _ _ _ _ ih =>
    have none := outside hexadecimal
    simp only [List.mem_cons, List.mem_append, not_or] at quoted none
    rcases quoted with same | same | high | same | same | low | later
    · exact absurd same (by decide)
    · exact absurd same (by decide)
    · exact absurd high none.1
    · exact absurd same (by decide)
    · exact absurd same (by decide)
    · exact absurd low none.2
    · exact List.mem_append_right _ (ih later)

theorem takeWhile_quote_append (body rest : Text) :
    (body ++ '"' :: rest).takeWhile (· ≠ '"') = body.takeWhile (· ≠ '"') := by
  induction body with
  | nil => simp
  | cons c body ih => rw [List.cons_append, List.takeWhile_cons, List.takeWhile_cons, ih]

/-- What is written as its own key has no escapes. -/
theorem JsonDecodes.unescaped_of_self (decodes : JsonDecodes encode body body)
    (encoding : Encoding encode) : '\\' ∉ body ∧ '"' ∉ body := by
  have plain : '\\' ∉ body := fun escaped =>
    lt_irrefl _ (decodes.length_lt encoding escaped)
  exact ⟨plain, (decodes.of_no_backslash plain).2⟩

/-- What stands before the first quote is the string exactly if there are no escapes. -/
theorem JsonDecodes.takeWhile_eq_iff (decodes : JsonDecodes encode body value)
    (encoding : Encoding encode) :
    body.takeWhile (· ≠ '"') = value ↔ '\\' ∉ body := by
  have noQuote : '"' ∉ body.takeWhile (· ≠ '"') := fun member => by
    simpa using List.mem_takeWhile_imp member
  constructor
  · intro same escaped
    by_cases quoted : '"' ∈ body
    · have meant := decodes.quote_mem quoted
      rw [← same] at meant
      exact noQuote meant
    · have whole := takeWhile_ne_eq_self_iff.2 quoted
      have shorter := decodes.length_lt encoding escaped
      rw [← same, whole] at shorter
      exact lt_irrefl _ shorter
  · intro plain
    obtain ⟨rfl, unquoted⟩ := decodes.of_no_backslash plain
    exact takeWhile_ne_eq_self_iff.2 unquoted

end Decoding

/-- A word between quotes. -/
def quotedWord (word : Text) : Text := '"' :: (word ++ ['"'])

section Objects

/-- A member of an object with the white space around its parts. -/
structure JsonMember (V : Type) where
  before : Text
  key : Text
  beforeColon : Text
  afterColon : Text
  value : V
  after : Text

structure JsonObject (V : Type) where
  /-- What stands between the braces where there are no members. -/
  blank : Text
  members : List (JsonMember V)

variable {V : Type} (write : V → Text) (legal : V → Prop)

/-- What follows the key. -/
def JsonMember.rest (m : JsonMember V) : Text :=
  m.beforeColon ++ ':' :: (m.afterColon ++ (write m.value ++ m.after))

def JsonMember.text (m : JsonMember V) : Text := m.before ++ (quotedWord m.key ++ m.rest write)

/-- Members in front of another one. -/
def leading (ms : List (JsonMember V)) : Text := ms.flatMap fun m => m.text write ++ [',']

/-- Members behind another one. -/
def trailing (ms : List (JsonMember V)) : Text := ms.flatMap fun m => ',' :: m.text write

def JsonObject.text (o : JsonObject V) : Text :=
  match o.members with
  | [] => '{' :: (o.blank ++ ['}'])
  | m :: ms => '{' :: (m.text write ++ (trailing write ms ++ ['}']))

structure JsonMember.Valid (m : JsonMember V) : Prop where
  before : White m.before
  key : IsStringBody m.key
  beforeColon : White m.beforeColon
  afterColon : White m.afterColon
  value : legal m.value
  after : White m.after

structure JsonObject.Valid (o : JsonObject V) : Prop where
  blank : White o.blank
  members : ∀ m ∈ o.members, m.Valid legal

variable {write legal} {o : JsonObject V}

theorem trailing_append (earlier : List (JsonMember V)) (m : JsonMember V)
    (later : List (JsonMember V)) : trailing write (earlier ++ m :: later) =
      ',' :: (leading write earlier ++ (m.text write ++ trailing write later)) := by
  induction earlier with
  | nil => simp [trailing, leading]
  | cons e earlier ih =>
    have unfolded : trailing write (e :: (earlier ++ m :: later)) =
        ',' :: (e.text write ++ trailing write (earlier ++ m :: later)) := rfl
    rw [List.cons_append, unfolded, ih]
    simp [leading]

/-- An object around one of its members. -/
theorem JsonObject.text_eq {earlier later : List (JsonMember V)} {m : JsonMember V}
    (split : o.members = earlier ++ m :: later) :
    o.text write = '{' :: (leading write earlier ++
      (m.text write ++ (trailing write later ++ ['}']))) := by
  rw [JsonObject.text, split]
  cases earlier with
  | nil => rfl
  | cons e earlier =>
    rw [List.cons_append]
    dsimp only
    rw [trailing_append]
    simp [leading]

theorem written_members {m : JsonMember V} (valid : m.Valid legal)
    (values : ∀ x, legal x → ∃ v, Written anyJson (.value v) (write x))
    {ms : List (Text × JsonValue Unit)} {text : Text}
    (more : Written anyJson (.moreMembers ms) text) :
    ∃ listed, Written anyJson (.members listed) (m.text write ++ text) := by
  obtain ⟨v, written⟩ := values m.value valid.value
  refine ⟨([], v) :: ms, ?_⟩
  have members : Written anyJson (.members (([], v) :: ms)) _ :=
    .members valid.before valid.key valid.beforeColon valid.afterColon written valid.after more
  simpa [JsonMember.text, JsonMember.rest, quotedWord] using members

theorem written_trailing {ms : List (JsonMember V)} (all : ∀ m ∈ ms, m.Valid legal)
    (values : ∀ x, legal x → ∃ v, Written anyJson (.value v) (write x)) :
    ∃ listed, Written anyJson (.moreMembers listed) (trailing write ms ++ ['}']) := by
  induction ms with
  | nil => exact ⟨[], .endObject⟩
  | cons m ms ih =>
    obtain ⟨valid, others⟩ := List.forall_mem_cons.1 all
    obtain ⟨_, more⟩ := ih others
    obtain ⟨listed, members⟩ := written_members valid values more
    refine ⟨listed, ?_⟩
    have next := Written.nextMember members
    simpa [trailing] using next

/-- An object whose values are written as JSON is. -/
theorem written_object (values : ∀ x, legal x → ∃ v, Written anyJson (.value v) (write x))
    (valid : o.Valid legal) : ∃ ms, Written anyJson (.value (.object ms)) (o.text write) := by
  rw [JsonObject.text]
  split
  · exact ⟨[], .emptyObject valid.blank trivial⟩
  · rename_i m ms listed
    obtain ⟨first, others⟩ := List.forall_mem_cons.1 (listed ▸ valid.members)
    obtain ⟨_, more⟩ := written_trailing others values
    obtain ⟨listed, members⟩ := written_members first values more
    exact ⟨[], .object trivial members⟩

/-- The texts of a phrase of an object, as those of members. -/
def Listed (write : V → Text) (legal : V → Prop) : Phrase Unit → Text → Prop
  | .value (.object _), t => ∃ o : JsonObject V, o.Valid legal ∧ o.text write = t
  | .members _, t => ∃ m ms, (∀ other ∈ m :: ms, JsonMember.Valid legal other) ∧
    m.text write ++ (trailing write ms ++ ['}']) = t
  | .moreMembers _, t => ∃ ms, (∀ other ∈ ms, JsonMember.Valid legal other) ∧
    trailing write ms ++ ['}'] = t
  | _, _ => True

theorem Written.listed {phrase : Phrase Unit} {t : Text}
    (values : ∀ v t, Written anyJson (.value v) t → ∃ x, legal x ∧ write x = t)
    (written : Written anyJson phrase t) : Listed write legal phrase t := by
  induction written with
  | emptyObject white => exact ⟨⟨_, []⟩, ⟨white, by simp⟩, rfl⟩
  | object _ _ ih =>
    obtain ⟨m, ms, valid, rfl⟩ := ih
    exact ⟨⟨[], m :: ms⟩, ⟨by simp [White], valid⟩, rfl⟩
  | @members w₁ w₂ w₃ w₄ _ body v _ t _ before key beforeColon afterColon value after _ _ ih =>
    obtain ⟨ms, valid, rfl⟩ := ih
    obtain ⟨x, legalX, rfl⟩ := values v t value
    refine ⟨⟨w₁, body, w₂, w₃, x, w₄⟩, ms, List.forall_mem_cons.2 ⟨⟨before, key, beforeColon,
      afterColon, legalX, after⟩, valid⟩, ?_⟩
    simp [JsonMember.text, JsonMember.rest, quotedWord]
  | endObject => exact ⟨[], by simp, rfl⟩
  | nextMember _ ih =>
    obtain ⟨m, ms, valid, rfl⟩ := ih
    exact ⟨m :: ms, valid, by simp [trailing]⟩
  | _ => trivial

end Objects

section Documents

/-- A value that is taken as it is written, unless it is a string. -/
inductive JsonLeaf where
  | string (body : Text)
  | other (text : Text)

namespace JsonLeaf

def text : JsonLeaf → Text
  | string body => quotedWord body
  | other text => text

def Legal : JsonLeaf → Prop
  | string body => IsStringBody body
  | other text => (∃ v, Written anyJson (.value v) text) ∧ text.head? ≠ some '"'

theorem written {l : JsonLeaf} (legal : l.Legal) : ∃ v, Written anyJson (.value v) l.text := by
  cases l with
  | string body => exact ⟨.string [], .string legal⟩
  | other text => exact legal.1

theorem exists_of_written {v : JsonValue Unit} {t : Text} (written : Written anyJson (.value v) t) :
    ∃ l : JsonLeaf, l.Legal ∧ l.text = t := by
  by_cases quoted : t.head? = some '"'
  · cases written with
    | string isBody => exact ⟨.string _, isBody, rfl⟩
    | number isNumber =>
      obtain ⟨c, rest, rfl, start, _⟩ := isNumber.cons
      cases quoted
      exact absurd start (by decide)
    | _ => simp at quoted
  · exact ⟨.other t, ⟨⟨v, written⟩, quoted⟩, rfl⟩

end JsonLeaf

/-- A value of a member of a document. -/
inductive JsonItem where
  | leaf (l : JsonLeaf)
  | object (o : JsonObject JsonLeaf)

namespace JsonItem

def text : JsonItem → Text
  | leaf l => l.text
  | object o => o.text JsonLeaf.text

def Legal : JsonItem → Prop
  | leaf l => l.Legal ∧ l.text.head? ≠ some '{'
  | object o => o.Valid JsonLeaf.Legal

theorem written {item : JsonItem} (legal : item.Legal) :
    ∃ v, Written anyJson (.value v) item.text := by
  cases item with
  | leaf l => exact JsonLeaf.written legal.1
  | object o =>
    obtain ⟨ms, written⟩ := written_object (fun _ => JsonLeaf.written) legal
    exact ⟨.object ms, written⟩

theorem exists_of_written {v : JsonValue Unit} {t : Text} (written : Written anyJson (.value v) t) :
    ∃ item : JsonItem, item.Legal ∧ item.text = t := by
  by_cases braced : t.head? = some '{'
  · cases v with
    | object ms =>
      obtain ⟨o, valid, same⟩ : ∃ o : JsonObject JsonLeaf, o.Valid JsonLeaf.Legal ∧ o.text _ = t :=
        written.listed fun _ _ => JsonLeaf.exists_of_written
      exact ⟨.object o, valid, same⟩
    | number n =>
      cases written with
      | number isNumber =>
        obtain ⟨c, rest, rfl, start, _⟩ := isNumber.cons
        cases braced
        exact absurd start (by decide)
    | _ => cases written <;> simp at braced
  · obtain ⟨l, legal, rfl⟩ := JsonLeaf.exists_of_written written
    exact ⟨.leaf l, ⟨legal, braced⟩, rfl⟩

end JsonItem

/-- A JSON text with an object. -/
structure JsonDocument where
  front : Text
  object : JsonObject JsonItem
  back : Text
  front_white : White front
  object_valid : object.Valid JsonItem.Legal
  back_white : White back

def JsonDocument.text (d : JsonDocument) : Text :=
  d.front ++ (d.object.text JsonItem.text ++ d.back)

/-- The texts of documents are the JSON texts with an object. -/
theorem exists_document_iff {text : Text} : (∃ d : JsonDocument, d.text = text) ↔
    ∃ ms, WrittenText anyJson (.object ms) text := by
  constructor
  · rintro ⟨d, rfl⟩
    obtain ⟨ms, written⟩ := written_object (fun _ => JsonItem.written) d.object_valid
    exact ⟨ms, d.front, _, d.back, d.front_white, written, d.back_white, rfl⟩
  · rintro ⟨ms, front, t, back, white, written, white', rfl⟩
    obtain ⟨o, valid, rfl⟩ : ∃ o : JsonObject JsonItem, o.Valid JsonItem.Legal ∧ o.text _ = t :=
      written.listed fun _ _ => JsonItem.exists_of_written
    exact ⟨⟨front, o, back, white, valid, white'⟩, rfl⟩

end Documents

section Compact

/-- What a string may have in it as it is. -/
def IsPlain (body : Text) : Prop := ∀ c ∈ body, c ≠ '"' ∧ c ≠ '\\' ∧ 32 ≤ c.toNat

theorem IsPlain.isStringBody {body : Text} (plain : IsPlain body) : IsStringBody body := by
  have whole := isStringBody_append plain .nil
  rwa [List.append_nil] at whole

theorem IsPlain.jsonDecodes {encode : Char → Text} {body : Text} (plain : IsPlain body) :
    JsonDecodes encode body body :=
  jsonDecodes_self plain.isStringBody fun escaped => (plain _ escaped).2.1 rfl

variable {V : Type} {legal : V → Prop}

/-- An object without white space. -/
def JsonObject.compact (members : List (Text × V)) : JsonObject V :=
  ⟨[], members.map fun (key, value) => ⟨[], key, [], [], value, []⟩⟩

theorem JsonObject.compact_valid {members : List (Text × V)}
    (all : ∀ m ∈ members, IsPlain m.1 ∧ legal m.2) : (compact members).Valid legal := by
  refine ⟨by simp [compact, White], fun m member => ?_⟩
  obtain ⟨⟨key, value⟩, listed, rfl⟩ := List.mem_map.1 member
  obtain ⟨plain, legalValue⟩ := all _ listed
  exact ⟨by simp [White], plain.isStringBody, by simp [White], by simp [White], legalValue,
    by simp [White]⟩

def JsonDocument.compact (members : List (Text × JsonItem))
    (all : ∀ m ∈ members, IsPlain m.1 ∧ m.2.Legal) : JsonDocument where
  front := []
  object := .compact members
  back := []
  front_white := by simp [White]
  object_valid := JsonObject.compact_valid all
  back_white := by simp [White]

theorem legal_string {body : Text} (plain : IsPlain body) :
    (JsonItem.leaf (.string body)).Legal :=
  ⟨plain.isStringBody, by simp [JsonLeaf.text, quotedWord]⟩

end Compact

section Lookup

variable {V : Type} {encode : Char → Text} {write : V → Text} {name : Text}
  {m : JsonMember V} {ms : List (JsonMember V)} {o : JsonObject V} {before after : Text}

/-- The last of the members with a name. -/
def IsLast (encode : Char → Text) (name : Text) (ms : List (JsonMember V)) (m : JsonMember V) :
    Prop :=
  ∃ earlier later, ms = earlier ++ m :: later ∧ JsonDecodes encode m.key name ∧
    ∀ other ∈ later, ¬JsonDecodes encode other.key name

def Missing (encode : Char → Text) (name : Text) (ms : List (JsonMember V)) : Prop :=
  ∀ m ∈ ms, ¬JsonDecodes encode m.key name

theorem IsLast.unique {m' : JsonMember V} (last : IsLast encode name ms m)
    (last' : IsLast encode name ms m') : m = m' := by
  obtain ⟨earlier, later, rfl, named, none⟩ := last
  obtain ⟨earlier', later', same, named', none'⟩ := last'
  rcases List.append_eq_append_iff.1 same with ⟨more, -, behind⟩ | ⟨more, -, behind⟩
  · cases more with
    | nil => exact (List.cons.inj behind).1
    | cons e more =>
      obtain ⟨-, rfl⟩ := List.cons.inj behind
      exact absurd named' (none m' (by simp))
  · cases more with
    | nil => exact (List.cons.inj behind).1.symm
    | cons e more =>
      obtain ⟨-, rfl⟩ := List.cons.inj behind
      exact absurd named (none' m (by simp))

theorem IsLast.mem (last : IsLast encode name ms m) : m ∈ ms ∧ JsonDecodes encode m.key name := by
  obtain ⟨earlier, later, rfl, named, -⟩ := last
  exact ⟨by simp, named⟩

theorem IsLast.not_missing (last : IsLast encode name ms m) : ¬Missing encode name ms := by
  obtain ⟨member, named⟩ := last.mem
  exact fun missing => missing m member named

/-- The last member of the name has this string as its value. -/
def EntryOf (encode : Char → Text) (o : JsonObject JsonLeaf) (name value : Text) : Prop :=
  ∃ m body, IsLast encode name o.members m ∧ m.value = .string body ∧
    JsonDecodes encode body value

/-- The object that a document has under a name. -/
def JsonDocument.ObjectAt (encode : Char → Text) (d : JsonDocument) (name : Text)
    (o : JsonObject JsonLeaf) : Prop :=
  ∃ m, IsLast encode name d.object.members m ∧ m.value = .object o

/-- The word is first found where it is the key of the member, with this behind it. -/
def FirstKey (write : V → Text) (before : Text) (o : JsonObject V) (after name : Text)
    (m : JsonMember V) (rest : Text) : Prop :=
  ∃ earlier later, o.members = earlier ++ m :: later ∧ m.key = name ∧
    (before ++ (o.text write ++ after)).dropInfix? (quotedWord name) =
      some (before ++ '{' :: (leading write earlier ++ m.before), rest)

/-- What is behind the word are the value of the member and all that follows the member. -/
theorem FirstKey.exists_rest {rest : Text} (first : FirstKey write before o after name m rest) :
    ∃ later, rest = m.rest write ++ (trailing write later ++ '}' :: after) := by
  obtain ⟨earlier, later, split, rfl, found⟩ := first
  obtain ⟨same, -⟩ := dropInfix?_eq_some.1 found
  rw [JsonObject.text_eq split] at same
  simp only [JsonMember.text, List.append_assoc, List.cons_append, List.append_cancel_left_eq,
    List.cons.injEq, true_and, List.nil_append] at same
  exact ⟨later, same.symm⟩

/-- The key of the first member is found at once, whatever it is. -/
theorem firstKey_of_first {later : List (JsonMember V)} (split : o.members = m :: later)
    (unquoted : '"' ∉ before) (white : White m.before) :
    FirstKey write before o after m.key m
      (m.rest write ++ (trailing write later ++ '}' :: after)) := by
  refine ⟨[], later, split, rfl, ?_⟩
  have clean : '"' ∉ before ++ '{' :: m.before := by
    have blank := white.not_mem (c := '"') (by decide)
    simp [unquoted, blank]
  have shape : before ++ (o.text write ++ after) = (before ++ '{' :: m.before) ++
      '"' :: (m.key ++ ['"']) ++ (m.rest write ++ (trailing write later ++ '}' :: after)) := by
    have text : o.text write = '{' :: (leading write [] ++ (m.text write ++
        (trailing write later ++ ['}']))) := JsonObject.text_eq split
    rw [text]
    simp [leading, JsonMember.text, quotedWord]
  rw [shape, quotedWord, dropInfix?_append_cons clean, leading, List.flatMap_nil, List.nil_append]

end Lookup

end ProtoJS.Npm

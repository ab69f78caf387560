import ProtoJS.Modules.BareSpecifiers
import ProtoJS.Npm.JsonDocument

/-! # Fields of a package

The resolver takes for a field what stands between the next two quotes behind the next colon
behind the first place at which the name of the field stands between quotes. That is the field
where this place is the key of the member that counts and its value is a string without escapes.
-/

namespace ProtoJS.Modules

open Strings Npm

namespace ModuleResolver

section Fields

/-- The text between the first two quotes. -/
def betweenQuotes (text : Text) : Text :=
  match text.dropWhile (· ≠ '"') with
  | [] => []
  | _ :: rest => if '"' ∈ rest then rest.takeWhile (· ≠ '"') else []

/-- What is taken for a field of a text. -/
def fieldIn (text name : Text) : Text :=
  match text.dropInfix? (quotedWord name) with
  | none => []
  | some (_, rest) => betweenQuotes (rest.dropWhile (· ≠ ':'))

/-- A character that is found is the first of what is behind its place. -/
theorem exists_find_char {pattern text : String} {c : Char} {position : ℕ}
    (single : pattern.toList = [c]) (inside : position ≤ text.length)
    (member : c ∈ text.toList.drop position) :
    ∃ place rest, find pattern text position = some place ∧ place < text.length ∧
      (text.toList.drop position).dropWhile (· ≠ c) = c :: rest ∧
      text.toList.drop place = c :: rest ∧
      place = position + ((text.toList.drop position).takeWhile (· ≠ c)).length := by
  have found := find_char single inside
  rw [if_pos member] at found
  obtain ⟨front, rest, split, clean⟩ := List.eq_append_cons_of_mem member
  have taken : (text.toList.drop position).takeWhile (· ≠ c) = front := by
    rw [split, takeWhile_ne_cons clean]
  have behind : text.toList.drop (position + front.length) = c :: rest := by
    rw [← List.drop_drop, split, List.drop_left]
  have size := congrArg List.length behind
  simp only [List.length_drop, String.length_toList, List.length_cons] at size
  refine ⟨_, rest, found, ?_, ?_, ?_, rfl⟩
  · rw [taken]
    omega
  · rw [split, dropWhile_ne_cons clean]
  · rw [taken, behind]

theorem find_char_none {pattern text : String} {c : Char} {position : ℕ}
    (single : pattern.toList = [c]) (inside : position ≤ text.length)
    (absent : c ∉ text.toList.drop position) :
    find pattern text position = none ∧ (text.toList.drop position).dropWhile (· ≠ c) = [] := by
  exact ⟨by rw [find_char single inside, if_neg absent], dropWhile_ne_of_not_mem absent⟩

/-- The search by positions, with a name that has no colon in it. -/
theorem extractField_eq (content : String) {name : String} (plain : ':' ∉ name.toList) :
    extractField content name = String.ofList (fieldIn content.toList name.toList) := by
  have word : ("\"" ++ name ++ "\"").toList = quotedWord name.toList := by
    simp [quotedWord]
  have colon : ":".toList = [':'] := rfl
  have quote : "\"".toList = ['"'] := rfl
  rw [extractField, fieldIn]
  cases occurs : content.toList.dropInfix? (quotedWord name.toList) with
  | none => rw [find_eq_none (by rw [List.drop_zero, word, occurs])]
  | some parts =>
    obtain ⟨front, rest⟩ := parts
    obtain ⟨split, -⟩ := dropInfix?_eq_some.1 occurs
    have sizes := congrArg List.length split
    simp only [String.length_toList, List.length_append] at sizes
    have position : find ("\"" ++ name ++ "\"") content 0 = some front.length := by
      rw [find_eq_some (Nat.zero_le _) (by rw [List.drop_zero, word, occurs]), Nat.zero_add]
    have fromWord : content.toList.drop front.length = quotedWord name.toList ++ rest := by
      rw [split, List.append_assoc, List.drop_left]
    have noColon : ':' ∉ quotedWord name.toList := by simp [quotedWord, plain]
    have skipped : (content.toList.drop front.length).dropWhile (· ≠ ':') =
        rest.dropWhile (· ≠ ':') := by
      rw [fromWord, List.dropWhile_append_of_pos (forall_ne_of_not_mem noColon)]
    rw [position]
    dsimp only
    by_cases hasColon : ':' ∈ content.toList.drop front.length
    · obtain ⟨colonPos, behindColon, foundColon, insideColon, skippedColon, fromColon, -⟩ :=
        exists_find_char colon (by omega) hasColon
      rw [foundColon, Option.bind_some, ← skipped, skippedColon, ← fromColon]
      by_cases hasQuote : '"' ∈ content.toList.drop colonPos
      · obtain ⟨startQuote, behindStart, foundStart, insideStart, skippedStart, fromStart, -⟩ :=
          exists_find_char quote insideColon.le hasQuote
        have behind : content.toList.drop (startQuote + 1) = behindStart := by
          rw [← List.drop_drop, fromStart, List.drop_one, List.tail_cons]
        rw [foundStart, betweenQuotes, skippedStart]
        dsimp only
        by_cases hasEnd : '"' ∈ content.toList.drop (startQuote + 1)
        · obtain ⟨endQuote, _, foundEnd, _, _, _, isEnd⟩ :=
            exists_find_char quote (by omega) hasEnd
          have size : endQuote - startQuote - 1 =
              (behindStart.takeWhile (· ≠ '"')).length := by
            rw [behind] at isEnd
            omega
          have taken : behindStart.take (behindStart.takeWhile (· ≠ '"')).length =
              behindStart.takeWhile (· ≠ '"') :=
            (List.prefix_iff_eq_take.1 (List.takeWhile_prefix _)).symm
          rw [foundEnd, if_pos (behind ▸ hasEnd), ← taken, ← size, ← behind]
          rfl
        · rw [(find_char_none quote (by omega) hasEnd).1, if_neg (behind ▸ hasEnd)]
      · obtain ⟨foundNone, skippedNone⟩ := find_char_none quote insideColon.le hasQuote
        rw [foundNone, betweenQuotes, skippedNone]
    · obtain ⟨foundNone, skippedNone⟩ := find_char_none colon (by omega) hasColon
      rw [foundNone, ← skipped, skippedNone]
      rfl

theorem betweenQuotes_cons (rest : Text) : betweenQuotes ('"' :: rest) =
    if '"' ∈ rest then rest.takeWhile (· ≠ '"') else [] := by
  rw [betweenQuotes, List.dropWhile_cons_of_neg (by simp)]

theorem betweenQuotes_quotedWord (body rest : Text) :
    betweenQuotes (quotedWord body ++ rest) = body.takeWhile (· ≠ '"') := by
  have shape : quotedWord body ++ rest = '"' :: (body ++ '"' :: rest) := by simp [quotedWord]
  rw [shape, betweenQuotes_cons, if_pos (by simp), takeWhile_quote_append]

/-- Whatever has no quote in front of the first one does not matter. -/
theorem betweenQuotes_append {front rest : Text} (unquoted : '"' ∉ front) :
    betweenQuotes (front ++ rest) = betweenQuotes rest := by
  rw [betweenQuotes, List.dropWhile_append_of_pos (forall_ne_of_not_mem unquoted), betweenQuotes]

/-- Of two quotes, nothing stands between the first and the second. -/
def NothingQuoted (text : Text) : Prop :=
  ∀ a b c, text = a ++ '"' :: (b ++ '"' :: c) → '"' ∉ a → '"' ∉ b → b = []

theorem betweenQuotes_eq_nil_iff {text : Text} : betweenQuotes text = [] ↔ NothingQuoted text := by
  constructor
  · rintro nothing a b c rfl noFirst noSecond
    rw [betweenQuotes_append noFirst, betweenQuotes_cons, if_pos (by simp),
      takeWhile_ne_cons noSecond] at nothing
    exact nothing
  · intro nothing
    by_cases first : '"' ∈ text
    · obtain ⟨a, behind, rfl, noFirst⟩ := List.eq_append_cons_of_mem first
      rw [betweenQuotes_append noFirst, betweenQuotes_cons]
      split
      · rename_i second
        obtain ⟨b, c, rfl, noSecond⟩ := List.eq_append_cons_of_mem second
        rw [takeWhile_ne_cons noSecond]
        exact nothing a b c rfl noFirst noSecond
      · rfl
    · have unquoted := @betweenQuotes_append text [] first
      rw [List.append_nil] at unquoted
      exact unquoted

end Fields

section Documents

/-- The characters of a text are stored as they are. -/
abbrev asChars (c : Char) : Text := [c]

/-- The member that counts has this string as its value; or there is none, or its value is no
string, and the text is empty. -/
def FieldOf (d : JsonDocument) (name value : Text) : Prop :=
  (∃ m body, IsLast asChars name d.object.members m ∧ m.value = .leaf (.string body) ∧
    JsonDecodes asChars body value) ∨
  value = [] ∧ ∀ m body, IsLast asChars name d.object.members m → m.value ≠ .leaf (.string body)

/-- The name is first found where it is the key of the member that counts. -/
def FoundAtKey (d : JsonDocument) (name : Text) (m : JsonMember JsonItem) (rest : Text) : Prop :=
  IsLast asChars name d.object.members m ∧
    FirstKey JsonItem.text d.front d.object d.back name m rest

/-- The name is found at the key of the member that counts, or nowhere. -/
def Regular (d : JsonDocument) (name : Text) : Prop :=
  (∃ m rest, FoundAtKey d name m rest) ∨ ¬quotedWord name <:+: d.text

/-- The name is found at the key of the member that counts, and the value is a string without
escapes, or no string, and of the quotes behind it the first two have nothing between them. Or the
name is not found, and the field is empty. -/
def Readable (d : JsonDocument) (name : Text) : Prop :=
  (∃ m rest, FoundAtKey d name m rest ∧
    ((∃ body, m.value = .leaf (.string body) ∧ '\\' ∉ body) ∨
      (∀ body, m.value ≠ .leaf (.string body)) ∧ NothingQuoted rest)) ∨
  ¬quotedWord name <:+: d.text ∧ FieldOf d name []

variable {d : JsonDocument} {name : Text}

theorem Readable.regular (readable : Readable d name) : Regular d name :=
  readable.imp (fun ⟨m, rest, found, _⟩ => ⟨m, rest, found⟩) And.left

/-- What is taken for the field at the key of a member. -/
theorem fieldIn_of_foundAtKey {m : JsonMember JsonItem} {rest : Text}
    (found : FoundAtKey d name m rest) :
    (∀ body, m.value = .leaf (.string body) → fieldIn d.text name = body.takeWhile (· ≠ '"')) ∧
      (fieldIn d.text name = [] ↔ NothingQuoted rest) := by
  obtain ⟨-, first⟩ := found
  obtain ⟨later, rfl⟩ := first.exists_rest
  obtain ⟨earlier, others, split, -, occurs⟩ := first
  have valid : m.Valid JsonItem.Legal := d.object_valid.members m (by rw [split]; simp)
  have noColon : ':' ∉ m.beforeColon := valid.beforeColon.not_mem (by decide)
  have unquoted : '"' ∉ ':' :: m.afterColon := by
    have white := valid.afterColon.not_mem (c := '"') (by decide)
    simp [white]
  have skipped : fieldIn d.text name = betweenQuotes (m.value.text ++
      (m.after ++ (trailing JsonItem.text later ++ '}' :: d.back))) := by
    rw [fieldIn, JsonDocument.text, occurs]
    dsimp only
    rw [JsonMember.rest, List.append_assoc, List.cons_append, dropWhile_ne_cons noColon,
      List.append_assoc, List.append_assoc, ← List.cons_append, betweenQuotes_append unquoted]
  refine ⟨fun body string => ?_, ?_⟩
  · rw [skipped, string]
    exact betweenQuotes_quotedWord ..
  · have before : '"' ∉ m.beforeColon ++ ':' :: m.afterColon := by
      rw [List.mem_append, not_or]
      exact ⟨valid.beforeColon.not_mem (by decide), unquoted⟩
    have whole : m.rest JsonItem.text ++ (trailing JsonItem.text later ++ '}' :: d.back) =
        (m.beforeColon ++ ':' :: m.afterColon) ++ (m.value.text ++
          (m.after ++ (trailing JsonItem.text later ++ '}' :: d.back))) := by
      simp [JsonMember.rest]
    rw [skipped, ← betweenQuotes_eq_nil_iff, whole, betweenQuotes_append before]

theorem FoundAtKey.occurs {m : JsonMember JsonItem} {rest : Text}
    (found : FoundAtKey d name m rest) : quotedWord name <:+: d.text := by
  obtain ⟨-, _, _, -, -, here⟩ := found
  obtain ⟨same, -⟩ := dropInfix?_eq_some.1 here
  exact ⟨_, _, same.symm⟩

/-- At the key of a member with a string, the field is read exactly if there are no escapes. -/
theorem fieldOf_string_iff {m : JsonMember JsonItem} {rest body : Text}
    (found : FoundAtKey d name m rest) (string : m.value = .leaf (.string body)) :
    FieldOf d name (fieldIn d.text name) ↔ '\\' ∉ body := by
  have valid : m.Valid JsonItem.Legal := by
    obtain ⟨-, _, _, split, -⟩ := found
    exact d.object_valid.members m (by rw [split]; simp)
  have isBody : IsStringBody body := by
    have legal := valid.value
    rw [string] at legal
    exact legal.1
  rw [(fieldIn_of_foundAtKey found).1 body string]
  constructor
  · rintro (⟨m', body', last, string', decodes⟩ | ⟨-, none⟩)
    · obtain rfl := last.unique found.1
      rw [string] at string'
      cases string'
      exact (decodes.takeWhile_eq_iff encoding_singleton).1 rfl
    · exact absurd string (none m body found.1)
  · intro plain
    have decodes : JsonDecodes asChars body body := jsonDecodes_self isBody plain
    rw [(decodes.takeWhile_eq_iff encoding_singleton).2 plain]
    exact .inl ⟨m, body, found.1, string, decodes⟩

/-- At the key of another member, it is read exactly if nothing is found. -/
theorem fieldOf_other_iff {m : JsonMember JsonItem} {rest : Text}
    (found : FoundAtKey d name m rest) (other : ∀ body, m.value ≠ .leaf (.string body)) :
    FieldOf d name (fieldIn d.text name) ↔ NothingQuoted rest := by
  rw [← (fieldIn_of_foundAtKey found).2]
  constructor
  · rintro (⟨m', body, last, string, -⟩ | ⟨empty, -⟩)
    · obtain rfl := last.unique found.1
      exact absurd string (other body)
    · exact empty
  · intro empty
    refine .inr ⟨empty, fun m' body last => ?_⟩
    obtain rfl := last.unique found.1
    exact other body

/-- A field that is found at its key or nowhere is read exactly if it is readable. -/
theorem fieldOf_iff (regular : Regular d name) :
    FieldOf d name (fieldIn d.text name) ↔ Readable d name := by
  constructor
  · intro field
    rcases regular with ⟨m, rest, found⟩ | absent
    · refine .inl ⟨m, rest, found, ?_⟩
      by_cases string : ∃ body, m.value = .leaf (.string body)
      · obtain ⟨body, string⟩ := string
        exact .inl ⟨body, string, (fieldOf_string_iff found string).1 field⟩
      · rw [not_exists] at string
        exact .inr ⟨string, (fieldOf_other_iff found string).1 field⟩
    · have empty : fieldIn d.text name = [] := by
        rw [fieldIn, dropInfix?_eq_none.2 absent]
      rw [empty] at field
      exact .inr ⟨absent, field⟩
  · rintro (⟨m, rest, found, ⟨body, string, plain⟩ | ⟨other, nothing⟩⟩ | ⟨absent, field⟩)
    · exact (fieldOf_string_iff found string).2 plain
    · exact (fieldOf_other_iff found other).2 nothing
    · rw [fieldIn, dropInfix?_eq_none.2 absent]
      exact field

end Documents

section Packages

/-- The package has the string fields of the document, and as exports the entries of its exports
object that are strings. -/
structure Reads (d : JsonDocument) (package : PackageJson) : Prop where
  main : FieldOf d "main".toList package.main.toList
  module : FieldOf d "module".toList package.module.toList
  type : FieldOf d "type".toList package.type.toList
  exports : ∀ name value, package.exports.lookup name = some value ↔
    ∃ o, d.ObjectAt asChars "exports".toList o ∧ EntryOf asChars o name.toList value.toList

/-- The names of the string fields. -/
def stringFields : List Text := ["main".toList, "module".toList, "type".toList]

/-- No entry of the exports object is a string. -/
def NoExports (d : JsonDocument) : Prop :=
  ∀ o, d.ObjectAt asChars "exports".toList o → ∀ name value, ¬EntryOf asChars o name value

variable {d : JsonDocument}

theorem reads_iff (package : PackageJson) (unused : package.exports = []) :
    Reads d package ↔ (FieldOf d "main".toList package.main.toList ∧
      FieldOf d "module".toList package.module.toList ∧
      FieldOf d "type".toList package.type.toList) ∧ NoExports d := by
  constructor
  · rintro ⟨main, module, type, exports⟩
    refine ⟨⟨main, module, type⟩, fun o object name value entry => ?_⟩
    have listed := (exports (String.ofList name) (String.ofList value)).2
      ⟨o, object, by simpa using entry⟩
    rw [unused] at listed
    cases listed
  · rintro ⟨⟨main, module, type⟩, none⟩
    refine ⟨main, module, type, fun name value => ?_⟩
    rw [unused]
    constructor
    · intro listed
      cases listed
    · rintro ⟨o, object, entry⟩
      exact absurd entry (none o object _ _)

theorem toList_extractField {name : String} (plain : ':' ∉ name.toList) :
    (extractField (String.ofList d.text) name).toList = fieldIn d.text name.toList := by
  rw [extractField_eq _ plain, String.toList_ofList, String.toList_ofList]

/-- A package is read by structure if each field is readable and no entry of the exports object is
a string. Where each name is found at its key or nowhere, that is also needed. -/
theorem reads_of_readable (fs : FileSystem) (path : String) (d : JsonDocument)
    (stored : fs.readFile path = some (String.ofList d.text)) :
    ∃ package, parsePackageJson fs path = some package ∧
      ((∀ name ∈ stringFields, Readable d name) ∧ NoExports d → Reads d package) ∧
      ((∀ name ∈ stringFields, Regular d name) →
        (Reads d package ↔ (∀ name ∈ stringFields, Readable d name) ∧ NoExports d)) := by
  rw [parsePackageJson, stored]
  refine ⟨_, rfl, ?_⟩
  have exact_of_regular (regular : ∀ name ∈ stringFields, Regular d name) :
      Reads d ⟨extractField (String.ofList d.text) "main",
        extractField (String.ofList d.text) "module",
        extractField (String.ofList d.text) "type", []⟩ ↔
      (∀ name ∈ stringFields, Readable d name) ∧ NoExports d := by
    simp only [stringFields, List.forall_mem_cons, List.not_mem_nil, false_implies, implies_true,
      and_true] at regular ⊢
    obtain ⟨main, module, type⟩ := regular
    rw [reads_iff _ rfl]
    dsimp only
    rw [toList_extractField (by decide), toList_extractField (by decide),
      toList_extractField (by decide), fieldOf_iff main, fieldOf_iff module, fieldOf_iff type]
  refine ⟨fun readable => ?_, exact_of_regular⟩
  exact (exact_of_regular fun name member => (readable.1 name member).regular).2 readable

/-- A file system with a single file. -/
def singleFile (path : String) (d : JsonDocument) : FileSystem :=
  .ofFiles [(path, String.ofList d.text)] []

/-- `{"main":"a"}`. -/
def mainOnly : JsonDocument :=
  .compact [(['m', 'a', 'i', 'n'], .leaf (.string ['a']))] (by
    rw [List.forall_mem_singleton]
    exact ⟨by simp [IsPlain], legal_string (by simp [IsPlain])⟩)

/-- `{"name":"type","version":"module"}`. -/
def nameType : JsonDocument :=
  .compact [(['n', 'a', 'm', 'e'], .leaf (.string ['t', 'y', 'p', 'e'])),
      (['v', 'e', 'r', 's', 'i', 'o', 'n'], .leaf (.string ['m', 'o', 'd', 'u', 'l', 'e']))] (by
    rw [List.forall_mem_cons, List.forall_mem_singleton]
    exact ⟨⟨by simp [IsPlain], legal_string (by simp [IsPlain])⟩, by simp [IsPlain],
      legal_string (by simp [IsPlain])⟩)

/-- A name that is no key of a document without escapes is missing. -/
theorem missing_of_plain {V : Type} {members : List (JsonMember V)} {name : Text}
    (plain : ∀ m ∈ members, '\\' ∉ m.key ∧ m.key ≠ name) : Missing asChars name members := by
  intro m member decodes
  obtain ⟨unescaped, other⟩ := plain m member
  exact other (decodes.of_no_backslash unescaped).1.symm

theorem fieldOf_nil_of_missing {name : Text} (missing : Missing asChars name d.object.members) :
    FieldOf d name [] :=
  .inr ⟨rfl, fun _ _ last => absurd missing last.not_missing⟩

theorem readable_of_absent {name : Text} (absent : ¬quotedWord name <:+: d.text)
    (missing : Missing asChars name d.object.members) : Readable d name :=
  .inr ⟨absent, fieldOf_nil_of_missing missing⟩

theorem readable_mainOnly : (∀ name ∈ stringFields, Readable mainOnly name) ∧
    NoExports mainOnly := by
  refine ⟨?_, fun o ⟨m, last, _⟩ => absurd (missing_of_plain (by decide)) last.not_missing⟩
  simp only [stringFields, List.forall_mem_cons, List.not_mem_nil, false_implies, implies_true,
    and_true]
  refine ⟨.inl ⟨_, [':', '"', 'a', '"', '}'], ⟨⟨[], [], rfl, ?_, by simp⟩,
    [], [], rfl, rfl, by decide⟩, .inl ⟨['a'], rfl, by decide⟩⟩, ?_, ?_⟩
  · exact IsPlain.jsonDecodes (by simp [IsPlain])
  · exact readable_of_absent (by decide) (missing_of_plain (by decide))
  · exact readable_of_absent (by decide) (missing_of_plain (by decide))

theorem reads_mainOnly : ∃ package,
    parsePackageJson (singleFile "/package.json" mainOnly) "/package.json" = some package ∧
      Reads mainOnly package := by
  obtain ⟨package, parsed, reads, -⟩ :=
    reads_of_readable (singleFile "/package.json" mainOnly) "/package.json" mainOnly (by decide)
  exact ⟨package, parsed, reads readable_mainOnly⟩

/-- The name of the package is taken for a key, and its version for the type. -/
theorem not_reads_nameType :
    parsePackageJson (singleFile "/package.json" nameType) "/package.json" =
        some { type := "module" } ∧ ¬Reads nameType { type := "module" } := by
  refine ⟨by decide, fun reads => ?_⟩
  have missing : Missing asChars "type".toList nameType.object.members :=
    missing_of_plain (by decide)
  rcases reads.type with ⟨m, body, last, -⟩ | ⟨empty, -⟩
  · exact last.not_missing missing
  · revert empty
    decide

end Packages

end ModuleResolver

end ProtoJS.Modules

import ProtoJS.Npm.InstallerRuns
import ProtoJS.Npm.JsonDocument
import ProtoJS.Strings.RegexSearch

/-! # Dependencies that are read

What is read of a `package.json` stands between the first place of `"dependencies"` and the next
closing brace, or of `"devDependencies"` where the first word is nowhere. In the object of such a
key the expression finds the members one after the other, as long as none has an empty part.
-/

namespace ProtoJS.Npm

open Strings OrderedMap Effects

namespace PackageInstaller

section Expression

variable {n v w₁ w₂ rest s : Text} {captures : Captures}

/-- What the expression takes between quotes. -/
def Quotable (word : Text) : Prop := word ≠ [] ∧ '"' ∉ word

def Spaces (w : Text) : Prop := ∀ c ∈ w, isSpace c = true

theorem Spaces.not_mem {w : Text} {c : Char} (spaces : Spaces w) (black : isSpace c = false) :
    c ∉ w := fun member => by
  rw [spaces c member] at black
  cases black

theorem spaces_of_white {w : Text} (white : White w) : Spaces w := by
  intro c member
  have json := white c member
  simp only [JsonParser.isJsonSpace, Bool.or_eq_true, decide_eq_true_eq] at json
  rcases json with ((rfl | rfl) | rfl) | rfl <;> decide

theorem matches_quotedName_iff {index : ℕ} : Regex.Matches (quotedName index) s captures ↔
    ∃ word, Quotable word ∧ s = quotedWord word ∧ captures = [(index, word)] := by
  have plain (word : Text) : (∀ c ∈ word, (c != '"') = true) ↔ '"' ∉ word := by
    constructor
    · intro all member
      simpa using all '"' member
    · intro absent c member
      rw [bne_iff_ne]
      rintro rfl
      exact absent member
  simp only [quotedName, Regex.matches_seq_iff, Regex.matches_char_iff, Regex.matches_group_iff,
    Regex.matches_plus_char_iff, plain]
  constructor
  · rintro ⟨_, _, _, _, rfl, rfl, ⟨⟨c, isQuote, rfl⟩, rfl⟩, word, _, _, _, rfl, rfl,
      ⟨_, rfl, filled, unquoted, rfl⟩, ⟨d, isQuote', rfl⟩, rfl⟩
    obtain rfl := beq_iff_eq.1 isQuote
    obtain rfl := beq_iff_eq.1 isQuote'
    exact ⟨word, ⟨filled, unquoted⟩, rfl, rfl⟩
  · rintro ⟨word, ⟨filled, unquoted⟩, rfl, rfl⟩
    exact ⟨['"'], word ++ ['"'], [], _, rfl, rfl, ⟨⟨_, rfl, rfl⟩, rfl⟩, word, ['"'], _, [], rfl,
      rfl,
      ⟨_, rfl, filled, unquoted, rfl⟩, ⟨_, rfl, rfl⟩, rfl⟩

/-- An entry as it is written. -/
def entryText (n w₁ w₂ v : Text) : Text := quotedWord n ++ (w₁ ++ ':' :: (w₂ ++ quotedWord v))

theorem matches_depRegex_iff : Regex.Matches depRegex s captures ↔
    ∃ n w₁ w₂ v, Quotable n ∧ Quotable v ∧ Spaces w₁ ∧ Spaces w₂ ∧ s = entryText n w₁ w₂ v ∧
      captures = [(2, v), (1, n)] := by
  simp only [depRegex, Regex.matches_seq_iff, Regex.space, Regex.matches_star_char_iff,
    Regex.matches_char_iff, matches_quotedName_iff]
  constructor
  · rintro ⟨_, _, _, _, rfl, rfl, ⟨n, named, rfl, rfl⟩, w₁, _, _, _, rfl, rfl, ⟨spaces₁, rfl⟩, _, _,
      _, _, rfl, rfl, ⟨⟨c, isColon, rfl⟩, rfl⟩, w₂, _, _, _, rfl, rfl, ⟨spaces₂, rfl⟩, v, valued,
      rfl, rfl⟩
    obtain rfl := beq_iff_eq.1 isColon
    exact ⟨n, w₁, w₂, v, named, valued, spaces₁, spaces₂, rfl, rfl⟩
  · rintro ⟨n, w₁, w₂, v, named, valued, spaces₁, spaces₂, rfl, rfl⟩
    exact ⟨quotedWord n, _, [(1, n)], [(2, v)], rfl, rfl, ⟨n, named, rfl, rfl⟩, w₁, _, [], _, rfl,
      rfl, ⟨spaces₁, rfl⟩, [':'], _, [], _, rfl, rfl, ⟨⟨_, rfl, rfl⟩, rfl⟩, w₂, quotedWord v, [], _,
      rfl, rfl, ⟨spaces₂, rfl⟩, v, valued, rfl, rfl⟩

theorem mem_ways_depRegex_iff {input : Text} : (rest, captures) ∈ Regex.ways depRegex input ↔
    ∃ n w₁ w₂ v, Quotable n ∧ Quotable v ∧ Spaces w₁ ∧ Spaces w₂ ∧
      input = entryText n w₁ w₂ v ++ rest ∧ captures = [(2, v), (1, n)] := by
  rw [Regex.mem_ways_iff (by decide)]
  simp only [matches_depRegex_iff]
  constructor
  · rintro ⟨_, rfl, n, w₁, w₂, v, named, valued, spaces₁, spaces₂, rfl, same⟩
    exact ⟨n, w₁, w₂, v, named, valued, spaces₁, spaces₂, rfl, same⟩
  · rintro ⟨n, w₁, w₂, v, named, valued, spaces₁, spaces₂, rfl, same⟩
    exact ⟨_, rfl, n, w₁, w₂, v, named, valued, spaces₁, spaces₂, rfl, same⟩

theorem entryText_append (n w₁ w₂ v rest : Text) : entryText n w₁ w₂ v ++ rest =
    '"' :: (n ++ '"' :: (w₁ ++ ':' :: (w₂ ++ '"' :: (v ++ '"' :: rest)))) := by
  simp [entryText, quotedWord]

/-- An entry at the start of a text can be read in one way. -/
theorem entryText_inj {n' w₁' w₂' v' rest' : Text} (named : Quotable n ∧ Quotable n')
    (valued : Quotable v ∧ Quotable v') (spaces₁ : Spaces w₁ ∧ Spaces w₁')
    (spaces₂ : Spaces w₂ ∧ Spaces w₂')
    (same : entryText n w₁ w₂ v ++ rest = entryText n' w₁' w₂' v' ++ rest') :
    n = n' ∧ v = v' ∧ rest = rest' := by
  rw [entryText_append, entryText_append] at same
  obtain ⟨rfl, behindName⟩ :=
    append_cons_inj_of_not_mem named.1.2 named.2.2 (List.cons.inj same).2
  obtain ⟨-, behindColon⟩ := append_cons_inj_of_not_mem (spaces₁.1.not_mem (by decide))
    (spaces₁.2.not_mem (by decide)) behindName
  obtain ⟨-, behindQuote⟩ := append_cons_inj_of_not_mem (spaces₂.1.not_mem (by decide))
    (spaces₂.2.not_mem (by decide)) behindColon
  obtain ⟨rfl, behindValue⟩ := append_cons_inj_of_not_mem valued.1.2 valued.2.2 behindQuote
  exact ⟨rfl, rfl, behindValue⟩

theorem search_entryText (named : Quotable n) (valued : Quotable v) (spaces₁ : Spaces w₁)
    (spaces₂ : Spaces w₂) : Regex.search depRegex (entryText n w₁ w₂ v ++ rest) =
      some (rest, [(2, v), (1, n)]) := by
  refine Regex.search_of_unique
    (mem_ways_depRegex_iff.2 ⟨n, w₁, w₂, v, named, valued, spaces₁, spaces₂, rfl, rfl⟩) ?_
  rintro ⟨rest', captures⟩ member
  obtain ⟨n', w₁', w₂', v', named', valued', spaces₁', spaces₂', same, rfl⟩ :=
    mem_ways_depRegex_iff.1 member
  obtain ⟨rfl, rfl, rfl⟩ := entryText_inj ⟨named, named'⟩ ⟨valued, valued'⟩ ⟨spaces₁, spaces₁'⟩
    ⟨spaces₂, spaces₂'⟩ same
  rfl

/-- No match begins here. -/
theorem ways_depRegex_eq_nil {input : Text}
    (none : ∀ n w₁ w₂ v rest, Quotable n → Quotable v → Spaces w₁ → Spaces w₂ →
      input ≠ entryText n w₁ w₂ v ++ rest) : Regex.ways depRegex input = [] := by
  rw [List.eq_nil_iff_forall_not_mem]
  rintro ⟨rest, captures⟩ member
  obtain ⟨n, w₁, w₂, v, named, valued, spaces₁, spaces₂, same, -⟩ := mem_ways_depRegex_iff.1 member
  exact none n w₁ w₂ v rest named valued spaces₁ spaces₂ same

/-- What has no quote in it is passed over. -/
theorem search_unquoted {front : Text} (unquoted : '"' ∉ front) (rest : Text) :
    Regex.search depRegex (front ++ rest) = Regex.search depRegex rest := by
  refine Regex.search_append_of_none fun after filled inside => ?_
  obtain ⟨c, after, rfl⟩ := List.exists_cons_of_ne_nil filled
  refine ways_depRegex_eq_nil fun n w₁ w₂ v rest' _ _ _ _ same => ?_
  rw [entryText_append, List.cons_append] at same
  obtain ⟨rfl, -⟩ := List.cons.inj same
  exact unquoted (inside.subset List.mem_cons_self)

/-- A key that can be taken for the colon behind a name. -/
def ColonKey (key : Text) : Prop := ∃ w₁ w₂, key = w₁ ++ ':' :: w₂ ∧ Spaces w₁ ∧ Spaces w₂

/-- Neither the key of an object nor what stands between it and the first key in the object is the
name of an entry. -/
theorem search_opening {word before inner more : Text} (unquoted : '"' ∉ word)
    (spaces₁ : Spaces w₁) (spaces₂ : Spaces w₂) (unquotedInner : '"' ∉ inner)
    (starts : more = [] ∨ ∃ key after, more = '"' :: (key ++ '"' :: after) ∧ '"' ∉ key ∧
      ¬ColonKey key) (shape : before = w₁ ++ ':' :: (w₂ ++ '{' :: inner)) :
    Regex.search depRegex (quotedWord word ++ (before ++ more)) =
      Regex.search depRegex more := by
  have clean : '"' ∉ before := by
    have first := spaces₁.not_mem (c := '"') (by decide)
    have second := spaces₂.not_mem (c := '"') (by decide)
    simp [shape, first, second, unquotedInner]
  -- At the word, the colon is followed by a brace and not by a quote.
  have atWord : Regex.ways depRegex ('"' :: (word ++ '"' :: (before ++ more))) = [] := by
    refine ways_depRegex_eq_nil fun n w₁' w₂' v rest named _ spaces₁' spaces₂' same => ?_
    rw [entryText_append] at same
    obtain ⟨-, behind⟩ := append_cons_inj_of_not_mem unquoted named.2 (List.cons.inj same).2
    rw [shape, List.append_assoc, List.cons_append] at behind
    obtain ⟨-, behindColon⟩ := append_cons_inj_of_not_mem (spaces₁.not_mem (by decide))
      (spaces₁'.not_mem (by decide)) behind
    rw [List.append_assoc, List.cons_append] at behindColon
    obtain ⟨-, other⟩ := append_inj_of_stops spaces₂ (by rintro c ⟨⟩; decide) spaces₂'
      (by rintro c ⟨⟩; decide) behindColon
    exact absurd (List.cons.inj other).1 (by decide)
  -- At its closing quote, the name would reach to the first key.
  have atClosing : Regex.ways depRegex ('"' :: (before ++ more)) = [] := by
    refine ways_depRegex_eq_nil fun n w₁' w₂' v rest named _ spaces₁' spaces₂' same => ?_
    rw [entryText_append] at same
    have behind := (List.cons.inj same).2
    rcases starts with rfl | ⟨key, after, rfl, unquotedKey, noColon⟩
    · rw [List.append_nil] at behind
      rw [behind] at clean
      simp at clean
    · obtain ⟨-, behindKey⟩ := append_cons_inj_of_not_mem clean named.2 behind
      have colon : '"' ∉ w₁' ++ ':' :: w₂' := by
        have first := spaces₁'.not_mem (c := '"') (by decide)
        have second := spaces₂'.not_mem (c := '"') (by decide)
        simp [first, second]
      have shape' : w₁' ++ ':' :: (w₂' ++ '"' :: (v ++ '"' :: rest)) =
          (w₁' ++ ':' :: w₂') ++ '"' :: (v ++ '"' :: rest) := by simp
      rw [shape'] at behindKey
      obtain ⟨same', -⟩ := append_cons_inj_of_not_mem unquotedKey colon behindKey
      exact noColon ⟨w₁', w₂', same', spaces₁', spaces₂'⟩
  have pass {front : Text} (unquoted : '"' ∉ front) {rest : Text}
      (none : Regex.ways depRegex ('"' :: (front ++ rest)) = []) :
      Regex.search depRegex ('"' :: (front ++ rest)) = Regex.search depRegex rest := by
    rw [Regex.search, none, List.head?_nil]
    exact search_unquoted unquoted rest
  have whole : quotedWord word ++ (before ++ more) = '"' :: (word ++ '"' :: (before ++ more)) := by
    simp [quotedWord]
  rw [whole, pass unquoted atWord, pass clean atClosing]

end Expression

section Objects

variable {o : JsonObject JsonLeaf} {e : JsonMember JsonLeaf}

/-- A member with a name and a version that have no escapes. -/
def valueOf : JsonLeaf → Text
  | .string body => body
  | .other text => text

/-- The names and the versions of an object. -/
def pairsOf (o : JsonObject JsonLeaf) : List (Text × Text) :=
  o.members.map fun e => (e.key, valueOf e.value)

/-- What stands between the braces of an object. -/
def inside (o : JsonObject JsonLeaf) : Text :=
  match o.members with
  | [] => o.blank
  | e :: es => e.text JsonLeaf.text ++ trailing JsonLeaf.text es

theorem text_eq_inside (o : JsonObject JsonLeaf) :
    o.text JsonLeaf.text = '{' :: (inside o ++ ['}']) := by
  rw [JsonObject.text, inside]
  cases o.members with
  | nil => rfl
  | cons e es => simp

theorem length_le_inside (o : JsonObject JsonLeaf) : o.members.length ≤ (inside o).length + 1 := by
  have trailing_length (es : List (JsonMember JsonLeaf)) :
      es.length ≤ (trailing JsonLeaf.text es).length := by
    induction es with
    | nil => exact le_rfl
    | cons e es ih =>
      have unfolded : trailing JsonLeaf.text (e :: es) =
          ',' :: (e.text JsonLeaf.text ++ trailing JsonLeaf.text es) := rfl
      rw [unfolded, List.length_cons, List.length_cons, List.length_append]
      omega
  rw [inside]
  cases o.members with
  | nil => exact Nat.zero_le _
  | cons e es =>
    have rest := trailing_length es
    rw [List.length_cons, List.length_append]
    omega

/-- Each member is a string without escapes. -/
def StringMember (e : JsonMember JsonLeaf) : Prop :=
  '\\' ∉ e.key ∧ ∃ body, e.value = .string body ∧ '\\' ∉ body

/-- The members can be read one by one: none has an empty part, the object is closed by the first
brace in it, and its first key is not taken for a colon. -/
structure PlainSection (o : JsonObject JsonLeaf) : Prop where
  filled : ∀ pair ∈ pairsOf o, pair.1 ≠ [] ∧ pair.2 ≠ []
  closed : ∀ pair ∈ pairsOf o, '}' ∉ pair.1 ∧ '}' ∉ pair.2
  first : ∀ pair, (pairsOf o).head? = some pair → ¬ColonKey pair.1

/-- A member as an entry with white space around it. -/
theorem member_text (valid : e.Valid JsonLeaf.Legal) (string : StringMember e) :
    e.text JsonLeaf.text = e.before ++
        (entryText e.key e.beforeColon e.afterColon (valueOf e.value) ++ e.after) ∧
      '"' ∉ e.key ∧ '"' ∉ valueOf e.value := by
  obtain ⟨plainKey, body, isString, plainBody⟩ := string
  have unquoted {word : Text} (isBody : IsStringBody word) (plain : '\\' ∉ word) : '"' ∉ word :=
    ((jsonDecodes_self isBody plain : JsonDecodes bytesOfChar word word).of_no_backslash plain).2
  have isBody : IsStringBody body := by
    have legal := valid.value
    rw [isString] at legal
    exact legal
  rw [isString]
  refine ⟨?_, unquoted valid.key plainKey, unquoted isBody plainBody⟩
  simp [JsonMember.text, JsonMember.rest, entryText, isString, JsonLeaf.text, valueOf]

/-- The members are found one after the other. -/
theorem searchFrom_trailing {es : List (JsonMember JsonLeaf)}
    (valid : ∀ e ∈ es, e.Valid JsonLeaf.Legal) (strings : ∀ e ∈ es, StringMember e)
    (filled : ∀ e ∈ es, e.key ≠ [] ∧ valueOf e.value ≠ []) {front : Text} (unquoted : '"' ∉ front)
    {fuel : ℕ} (enough : es.length ≤ fuel) :
    Regex.searchFrom depRegex fuel (front ++ trailing JsonLeaf.text es) =
      es.map fun e => [(2, valueOf e.value), (1, e.key)] := by
  induction es generalizing front fuel with
  | nil =>
    have nothing : Regex.search depRegex [] = none := by decide
    cases fuel with
    | zero => rfl
    | succ fuel =>
      rw [Regex.searchFrom, trailing, List.flatMap_nil, search_unquoted unquoted, nothing]
      rfl
  | cons e es ih =>
    obtain ⟨fuel, rfl⟩ : ∃ less, fuel = less + 1 := ⟨fuel - 1, by
      rw [List.length_cons] at enough
      omega⟩
    obtain ⟨validFirst, validRest⟩ := List.forall_mem_cons.1 valid
    obtain ⟨stringFirst, stringRest⟩ := List.forall_mem_cons.1 strings
    obtain ⟨filledFirst, filledRest⟩ := List.forall_mem_cons.1 filled
    obtain ⟨text, unquotedKey, unquotedValue⟩ := member_text validFirst stringFirst
    have shape : front ++ trailing JsonLeaf.text (e :: es) = (front ++ ',' :: e.before) ++
        (entryText e.key e.beforeColon e.afterColon (valueOf e.value) ++
          (e.after ++ trailing JsonLeaf.text es)) := by
      simp [trailing, text]
    have clean : '"' ∉ front ++ ',' :: e.before := by
      have before := validFirst.before.not_mem (c := '"') (by decide)
      simp [unquoted, before]
    rw [shape, Regex.searchFrom, search_unquoted clean,
      search_entryText ⟨filledFirst.1, unquotedKey⟩ ⟨filledFirst.2, unquotedValue⟩
        (spaces_of_white validFirst.beforeColon) (spaces_of_white validFirst.afterColon),
        List.map_cons]
    dsimp only
    rw [ih validRest stringRest filledRest (validFirst.after.not_mem (by decide))
      (by rw [List.length_cons] at enough; omega)]

/-- What is found behind the key of an object are the entries of the object. -/
theorem matches_section {word : Text} (unquoted : '"' ∉ word) {w₁ w₂ : Text}
    (spaces₁ : Spaces w₁) (spaces₂ : Spaces w₂) (valid : o.Valid JsonLeaf.Legal)
    (strings : ∀ e ∈ o.members, StringMember e) (plain : PlainSection o) :
    (Regex.matches_ depRegex (quotedWord word ++ (w₁ ++ ':' :: (w₂ ++ '{' :: inside o)))).map
        (fun captures => (Regex.submatch 1 captures, Regex.submatch 2 captures)) = pairsOf o := by
  have filled : ∀ e ∈ o.members, e.key ≠ [] ∧ valueOf e.value ≠ [] := fun e member =>
    plain.filled _ (List.mem_map_of_mem member)
  have found {fuel : ℕ} (enough : o.members.length ≤ fuel) :
      Regex.searchFrom depRegex fuel
          (quotedWord word ++ (w₁ ++ ':' :: (w₂ ++ '{' :: inside o))) =
        o.members.map fun e => [(2, valueOf e.value), (1, e.key)] := by
    rw [← searchFrom_trailing valid.members strings filled List.not_mem_nil enough,
      List.nil_append]
    apply Regex.searchFrom_congr
    cases listed : o.members with
    | nil =>
      have opening : Regex.search depRegex
          (quotedWord word ++ ((w₁ ++ ':' :: (w₂ ++ '{' :: o.blank)) ++ [])) =
            Regex.search depRegex [] :=
        search_opening unquoted spaces₁ spaces₂ (valid.blank.not_mem (by decide)) (.inl rfl) rfl
      rw [List.append_nil] at opening
      rw [inside, listed]
      exact opening
    | cons e es =>
      have member : e ∈ o.members := by rw [listed]; exact List.mem_cons_self
      have validFirst := valid.members e member
      obtain ⟨text, unquotedKey, -⟩ := member_text validFirst (strings e member)
      have noColon : ¬ColonKey e.key := plain.first (e.key, valueOf e.value) (by
        rw [pairsOf, listed, List.map_cons, List.head?_cons])
      have shape : inside o = e.before ++ (entryText e.key e.beforeColon e.afterColon
          (valueOf e.value) ++ (e.after ++ trailing JsonLeaf.text es)) := by
        rw [inside, listed]
        simp [text]
      have before := validFirst.before.not_mem (c := '"') (by decide)
      have opening := search_opening unquoted spaces₁ spaces₂ before
        (.inr ⟨e.key, _, entryText_append e.key e.beforeColon e.afterColon (valueOf e.value)
          (e.after ++ trailing JsonLeaf.text es), unquotedKey, noColon⟩) rfl
      have behindComma : trailing JsonLeaf.text (e :: es) = (',' :: e.before) ++
          (entryText e.key e.beforeColon e.afterColon (valueOf e.value) ++
            (e.after ++ trailing JsonLeaf.text es)) := by
        simp [trailing, text]
      have clean : '"' ∉ ',' :: e.before := by simp [before]
      rw [behindComma, search_unquoted clean, shape]
      simpa using opening
  have enough : o.members.length ≤
      (quotedWord word ++ (w₁ ++ ':' :: (w₂ ++ '{' :: inside o))).length := by
    have size := length_le_inside o
    simp only [List.length_append, List.length_cons]
    omega
  rw [Regex.matches_, found enough, List.map_map, pairsOf]
  rfl

/-- The object is not closed within. -/
theorem not_mem_inside (valid : o.Valid JsonLeaf.Legal) (strings : ∀ e ∈ o.members, StringMember e)
    (closed : ∀ pair ∈ pairsOf o, '}' ∉ pair.1 ∧ '}' ∉ pair.2) : '}' ∉ inside o := by
  have each : ∀ e ∈ o.members, '}' ∉ e.text JsonLeaf.text := by
    intro e member
    have validMember := valid.members e member
    obtain ⟨key, value⟩ := closed _ (List.mem_map_of_mem member)
    rw [(member_text validMember (strings e member)).1]
    have before := validMember.before.not_mem (c := '}') (by decide)
    have beforeColon := validMember.beforeColon.not_mem (c := '}') (by decide)
    have afterColon := validMember.afterColon.not_mem (c := '}') (by decide)
    have after := validMember.after.not_mem (c := '}') (by decide)
    simp [entryText, quotedWord, before, beforeColon, afterColon, after, key, value]
  rw [inside]
  cases listed : o.members with
  | nil => exact valid.blank.not_mem (by decide)
  | cons e es =>
    rw [listed] at each
    obtain ⟨first, rest⟩ := List.forall_mem_cons.1 each
    rw [List.mem_append, not_or]
    refine ⟨first, fun member => ?_⟩
    obtain ⟨other, later, braced⟩ := List.mem_flatMap.1 member
    rcases List.mem_cons.1 braced with same | braced
    · exact absurd same (by decide)
    · exact rest other later braced

/-- The entries of an object without escapes are those that are assigned last. -/
theorem mem_assignAll_pairsOf_iff (valid : o.Valid JsonLeaf.Legal)
    (strings : ∀ e ∈ o.members, StringMember e) {n v : Text} :
    (n, v) ∈ assignAll [] (pairsOf o) ↔ EntryOf bytesOfChar o n v := by
  have named : ∀ e ∈ o.members, ∀ name, JsonDecodes bytesOfChar e.key name ↔ e.key = name :=
    fun e member name =>
      jsonDecodes_iff_of_plain (valid.members e member).key (strings e member).1
  rw [(sorted_assignAll sorted_nil).mem_iff_find, find_assignAll]
  have nothing : OrderedMap.find ([] : List (Text × Text)) n = none := rfl
  rw [nothing, Option.or_none, find_reverse_eq_some_iff]
  constructor
  · rintro ⟨before, after, split, others⟩
    obtain ⟨earlier, rest, listed, rfl, restIs⟩ := List.map_eq_append_iff.1 split
    obtain ⟨e, later, rfl, isPair, rfl⟩ := List.map_eq_cons_iff.1 restIs
    obtain ⟨rfl, rfl⟩ := Prod.mk.inj isPair
    have member : e ∈ o.members := by rw [listed]; simp
    obtain ⟨plainKey, body, string, plainBody⟩ := strings e member
    have isBody : IsStringBody body := by
      have legal := (valid.members e member).value
      rw [string] at legal
      exact legal
    refine ⟨e, body, ⟨earlier, later, listed, (named e member _).2 rfl, fun other inside => ?_⟩,
      string, ?_⟩
    · have there : other ∈ o.members := by rw [listed]; simp [inside]
      rw [named other there]
      exact others _ (List.mem_map_of_mem inside)
    · rw [string]
      exact jsonDecodes_self isBody plainBody
  · rintro ⟨e, body, ⟨earlier, later, listed, decodes, others⟩, string, decodesBody⟩
    have member : e ∈ o.members := by rw [listed]; simp
    obtain ⟨plainKey, body', string', plainBody⟩ := strings e member
    rw [string] at string'
    cases string'
    obtain rfl := (named e member _).1 decodes
    obtain ⟨rfl, -⟩ := decodesBody.of_no_backslash plainBody
    refine ⟨earlier.map fun e => (e.key, valueOf e.value),
      later.map fun e => (e.key, valueOf e.value), ?_, fun entry inside => ?_⟩
    · rw [pairsOf, listed, List.map_append, List.map_cons, string]
      rfl
    · obtain ⟨other, inLater, rfl⟩ := List.mem_map.1 inside
      have there : other ∈ o.members := by rw [listed]; simp [inLater]
      exact fun same => others other inLater ((named other there _).2 same)

end Objects

section Documents

def dependenciesName : Text := ['d', 'e', 'p', 'e', 'n', 'd', 'e', 'n', 'c', 'i', 'e', 's']

def devDependenciesName : Text :=
  ['d', 'e', 'v', 'D', 'e', 'p', 'e', 'n', 'd', 'e', 'n', 'c', 'i', 'e', 's']

/-- A dependency that is listed, outside of production as one of either kind. -/
def Listed (d : JsonDocument) (production : Bool) (n v : Text) : Prop :=
  (∃ o, d.ObjectAt bytesOfChar dependenciesName o ∧ EntryOf bytesOfChar o n v) ∨
    production = false ∧ ∃ o, d.ObjectAt bytesOfChar devDependenciesName o ∧
      EntryOf bytesOfChar o n v

/-- The result has the names that are listed, each once and with a version that it is listed
with. -/
structure ReadsDependencies (d : JsonDocument) (production : Bool) (result : List (Text × Text)) :
    Prop where
  listed : ∀ n v, (n, v) ∈ result → Listed d production n v
  complete : ∀ n v, Listed d production n v → ∃ version, (n, version) ∈ result
  once : (result.map Prod.fst).Nodup

/-- A member of the name is an object of strings without escapes. -/
def Flat (d : JsonDocument) (word : Text) : Prop :=
  ∀ m, IsLast bytesOfChar word d.object.members m →
    ∃ o, m.value = .object o ∧ ∀ e ∈ o.members, StringMember e

/-- The word is first found where it is the key of the member that counts. -/
def FoundAtKey (d : JsonDocument) (word : Text) (o : JsonObject JsonLeaf) : Prop :=
  ∃ m rest, IsLast bytesOfChar word d.object.members m ∧ m.value = .object o ∧
    FirstKey JsonItem.text d.front d.object d.back word m rest

/-- The word that is read from: the second one only where the first one is nowhere. -/
def keyRead (content : Text) (production : Bool) : Option Text :=
  if quotedWord dependenciesName <:+: content then some dependenciesName
  else if production = false ∧ quotedWord devDependenciesName <:+: content then
    some devDependenciesName
  else none

/-- The word that is read from is found at its key, in front of an object that can be read and has
every name that is listed; or no word is found, and nothing is listed. -/
def Readable (d : JsonDocument) (production : Bool) : Prop :=
  match keyRead d.text production with
  | none => ∀ n v, ¬Listed d production n v
  | some word => ∃ o, FoundAtKey d word o ∧ PlainSection o ∧
      ∀ n v, Listed d production n v → ∃ version, EntryOf bytesOfChar o n version

/-- The word that is read from is found at its key. No name is listed with two versions or is twice
in the object, and the first one is not taken for a colon. -/
structure Regular (d : JsonDocument) (production : Bool) : Prop where
  found : ∀ word, keyRead d.text production = some word → ∃ o, FoundAtKey d word o ∧
    ((pairsOf o).map Prod.fst).Nodup ∧ ∀ pair, (pairsOf o).head? = some pair → ¬ColonKey pair.1
  single : ∀ n v v', Listed d production n v → Listed d production n v' → v = v'

variable {d : JsonDocument} {production : Bool} {word : Text} {o : JsonObject JsonLeaf}

theorem depsSection_eq (content : Text) (production : Bool) : depsSection content production =
    (keyRead content production).bind fun word =>
      (content.dropInfix? (quotedWord word)).bind fun (_, rest) =>
        if '}' ∈ quotedWord word ++ rest then
          some ((quotedWord word ++ rest).takeWhile (· ≠ '}')) else none := by
  have first : "\"dependencies\"".toList = quotedWord dependenciesName := by decide +kernel
  have second : "\"devDependencies\"".toList = quotedWord devDependenciesName := by
    decide +kernel
  rw [depsSection, first, second]
  dsimp only
  cases found : content.dropInfix? (quotedWord dependenciesName) with
  | some parts =>
    obtain ⟨same, -⟩ := dropInfix?_eq_some.1 found
    have key : keyRead content production = some dependenciesName :=
      if_pos ⟨parts.1, parts.2, same.symm⟩
    rw [key, Option.bind_some, Option.bind_some, found]
    rfl
  | none =>
    have absent := dropInfix?_eq_none.1 found
    cases production with
    | true =>
      have key : keyRead content true = none := by
        rw [keyRead, if_neg absent, if_neg (by simp)]
      rw [key]
      rfl
    | false =>
      cases found' : content.dropInfix? (quotedWord devDependenciesName) with
      | some parts =>
        obtain ⟨same, -⟩ := dropInfix?_eq_some.1 found'
        have key : keyRead content false = some devDependenciesName := by
          rw [keyRead, if_neg absent, if_pos ⟨rfl, parts.1, parts.2, same.symm⟩]
        rw [key, Option.bind_some, found']
        rfl
      | none =>
        have key : keyRead content false = none := by
          rw [keyRead, if_neg absent, if_neg fun both => dropInfix?_eq_none.1 found' both.2]
        rw [key]
        rfl

/-- The section of an object that is found at its key. -/
theorem dependenciesIn_of_foundAtKey (key : keyRead d.text production = some word)
    (clean : '"' ∉ word ∧ '}' ∉ word) (found : FoundAtKey d word o)
    (strings : ∀ e ∈ o.members, StringMember e) (plain : PlainSection o) :
    o.Valid JsonLeaf.Legal ∧ dependenciesIn d.text production = assignAll [] (pairsOf o) := by
  obtain ⟨m, rest, last, object, first⟩ := found
  have validMember := d.object_valid.members m last.mem.1
  have valid : o.Valid JsonLeaf.Legal := by
    have legal := validMember.value
    rw [object] at legal
    exact legal
  obtain ⟨later, rfl⟩ := first.exists_rest
  obtain ⟨_, _, -, -, occurs⟩ := first
  refine ⟨valid, ?_⟩
  have shape : quotedWord word ++ (m.rest JsonItem.text ++
      (trailing JsonItem.text later ++ '}' :: d.back)) =
        (quotedWord word ++ (m.beforeColon ++ ':' :: (m.afterColon ++ '{' :: inside o))) ++
          '}' :: (m.after ++ (trailing JsonItem.text later ++ '}' :: d.back)) := by
    simp [JsonMember.rest, object, JsonItem.text, text_eq_inside]
  have notClosed : '}' ∉
      quotedWord word ++ (m.beforeColon ++ ':' :: (m.afterColon ++ '{' :: inside o)) := by
    have before := validMember.beforeColon.not_mem (c := '}') (by decide)
    have after := validMember.afterColon.not_mem (c := '}') (by decide)
    have within := not_mem_inside valid strings plain.closed
    simp [quotedWord, clean.2, before, after, within]
  have sectionIs : depsSection d.text production =
      some (quotedWord word ++ (m.beforeColon ++ ':' :: (m.afterColon ++ '{' :: inside o))) := by
    rw [depsSection_eq, key, Option.bind_some, JsonDocument.text, occurs, Option.bind_some]
    dsimp only
    rw [shape, if_pos (by simp), takeWhile_ne_cons notClosed]
  rw [dependenciesIn, sectionIs]
  dsimp only
  rw [matches_section clean.1 (spaces_of_white validMember.beforeColon)
    (spaces_of_white validMember.afterColon) valid strings plain]

/-- Whatever is read has no empty part and no brace that closes an object. -/
theorem quotable_of_mem_dependenciesIn {content n v : Text}
    (read : (n, v) ∈ dependenciesIn content production) :
    (n ≠ [] ∧ v ≠ []) ∧ '}' ∉ n ∧ '}' ∉ v := by
  rw [dependenciesIn] at read
  cases found : depsSection content production with
  | none =>
    rw [found] at read
    cases read
  | some text =>
    rw [found] at read
    dsimp only at read
    have open_ : '}' ∉ text := by
      rw [depsSection_eq] at found
      obtain ⟨word, -, found⟩ := Option.bind_eq_some_iff.1 found
      obtain ⟨⟨front, rest⟩, -, found⟩ := Option.bind_eq_some_iff.1 found
      dsimp only at found
      split at found
      · obtain rfl := Option.some.inj found
        exact fun member => by simpa using List.mem_takeWhile_imp member
      · cases found
    rw [(sorted_assignAll sorted_nil).mem_iff_find, find_assignAll] at read
    have nothing : OrderedMap.find ([] : List (Text × Text)) n = none := rfl
    rw [nothing, Option.or_none, find_reverse_eq_some_iff] at read
    obtain ⟨before, after, split, -⟩ := read
    have member : (n, v) ∈ (Regex.matches_ depRegex text).map fun captures =>
        (Regex.submatch 1 captures, Regex.submatch 2 captures) := by rw [split]; simp
    obtain ⟨captures, matched, same⟩ := List.mem_map.1 member
    obtain ⟨part, inside, taken⟩ := Regex.exists_matches_of_mem matched
    obtain ⟨n', w₁, w₂, v', named, valued, -, -, rfl, rfl⟩ := matches_depRegex_iff.1 taken
    obtain ⟨rfl, rfl⟩ : n' = n ∧ v' = v := Prod.mk.inj same
    refine ⟨⟨named.1, valued.1⟩, fun braced => ?_, fun braced => ?_⟩
    · exact open_ (inside.subset (by simp [entryText, quotedWord, braced]))
    · exact open_ (inside.subset (by simp [entryText, quotedWord, braced]))

theorem keyRead_eq_some (key : keyRead d.text production = some word) :
    ('"' ∉ word ∧ '}' ∉ word) ∧ (word = dependenciesName ∨
      production = false ∧ word = devDependenciesName) := by
  rw [keyRead] at key
  split_ifs at key with first second
  · obtain rfl := Option.some.inj key
    exact ⟨by decide, .inl rfl⟩
  · obtain rfl := Option.some.inj key
    exact ⟨by decide, .inr ⟨second.1, rfl⟩⟩

/-- The entries of the object that is read are listed. -/
theorem FoundAtKey.listed (found : FoundAtKey d word o)
    (key : keyRead d.text production = some word) {n v : Text} (entry : EntryOf bytesOfChar o n v) :
    Listed d production n v := by
  obtain ⟨m, -, last, object, -⟩ := found
  rcases (keyRead_eq_some key).2 with rfl | ⟨outside, rfl⟩
  · exact .inl ⟨o, ⟨m, last, object⟩, entry⟩
  · exact .inr ⟨outside, o, ⟨m, last, object⟩, entry⟩

theorem FoundAtKey.strings (found : FoundAtKey d word o)
    (key : keyRead d.text production = some word)
    (flat : Flat d dependenciesName ∧ Flat d devDependenciesName) :
    ∀ e ∈ o.members, StringMember e := by
  obtain ⟨m, -, last, object, -⟩ := found
  have flatWord : Flat d word := by
    rcases (keyRead_eq_some key).2 with rfl | ⟨-, rfl⟩
    · exact flat.1
    · exact flat.2
  obtain ⟨o', object', strings⟩ := flatWord m last
  rw [object] at object'
  cases object'
  exact strings

/-- What is read at the key are the entries of the object. -/
theorem mem_dependenciesIn_iff (found : FoundAtKey d word o)
    (key : keyRead d.text production = some word)
    (flat : Flat d dependenciesName ∧ Flat d devDependenciesName) (plain : PlainSection o)
    {n v : Text} : (n, v) ∈ dependenciesIn d.text production ↔ EntryOf bytesOfChar o n v := by
  have strings := found.strings key flat
  obtain ⟨valid, read⟩ :=
    dependenciesIn_of_foundAtKey key (keyRead_eq_some key).1 found strings plain
  rw [read, mem_assignAll_pairsOf_iff valid strings]

theorem nodup_dependenciesIn (content : Text) (production : Bool) :
    ((dependenciesIn content production).map Prod.fst).Nodup := by
  rw [dependenciesIn]
  split
  · exact List.nodup_nil
  · exact (sorted_assignAll sorted_nil).nodup

/-- Where the names are different, each member of the object is an entry. -/
theorem entryOf_of_mem (valid : o.Valid JsonLeaf.Legal) (strings : ∀ e ∈ o.members, StringMember e)
    (distinct : ((pairsOf o).map Prod.fst).Nodup) {pair : Text × Text} (member : pair ∈ pairsOf o) :
    EntryOf bytesOfChar o pair.1 pair.2 := by
  rw [← mem_assignAll_pairsOf_iff valid strings, (sorted_assignAll sorted_nil).mem_iff_find,
    find_assignAll]
  have nothing : OrderedMap.find ([] : List (Text × Text)) pair.1 = none := rfl
  rw [nothing, Option.or_none, find_reverse_eq_some_iff]
  obtain ⟨before, after, split⟩ := List.append_of_mem member
  refine ⟨before, after, split, fun entry inside => ?_⟩
  rw [split, List.map_append, List.map_cons, List.nodup_append] at distinct
  have others := (List.nodup_cons.1 distinct.2.1).1
  exact fun same => others (same ▸ List.mem_map_of_mem inside)

theorem readsDependencies_of_readable (flat : Flat d dependenciesName ∧ Flat d devDependenciesName)
    (readable : Readable d production) :
    ReadsDependencies d production (dependenciesIn d.text production) := by
  rw [Readable] at readable
  cases key : keyRead d.text production with
  | none =>
    rw [key] at readable
    have nothing : dependenciesIn d.text production = [] := by
      rw [dependenciesIn, depsSection_eq, key]
      rfl
    rw [nothing]
    refine ⟨fun n v member => ?_, fun n v listed => absurd listed (readable n v), List.nodup_nil⟩
    cases member
  | some word =>
    rw [key] at readable
    obtain ⟨o, found, plain, covered⟩ := readable
    refine ⟨fun n v member => ?_, fun n v listed => ?_, nodup_dependenciesIn _ _⟩
    · exact found.listed key ((mem_dependenciesIn_iff found key flat plain).1 member)
    · obtain ⟨version, entry⟩ := covered n v listed
      exact ⟨version, (mem_dependenciesIn_iff found key flat plain).2 entry⟩

theorem readable_of_reads (flat : Flat d dependenciesName ∧ Flat d devDependenciesName)
    (regular : Regular d production)
    (reads : ReadsDependencies d production (dependenciesIn d.text production)) :
    Readable d production := by
  rw [Readable]
  cases key : keyRead d.text production with
  | none =>
    intro n v listed
    obtain ⟨version, member⟩ := reads.complete n v listed
    rw [dependenciesIn, depsSection_eq, key] at member
    cases member
  | some word =>
    obtain ⟨o, found, distinct, first⟩ := regular.found word key
    have strings := found.strings key flat
    have valid : o.Valid JsonLeaf.Legal := by
      obtain ⟨m, -, last, object, -⟩ := found
      have legal := (d.object_valid.members m last.mem.1).value
      rw [object] at legal
      exact legal
    -- Each pair of the object is among what is read.
    have read : ∀ pair ∈ pairsOf o, pair ∈ dependenciesIn d.text production := by
      rintro ⟨n, v⟩ member
      have listed := found.listed key (entryOf_of_mem valid strings distinct member)
      obtain ⟨version, there⟩ := reads.complete n v listed
      obtain rfl := regular.single n v version listed (reads.listed n version there)
      exact there
    have plain : PlainSection o :=
      ⟨fun pair member => (quotable_of_mem_dependenciesIn (read pair member)).1,
        fun pair member => (quotable_of_mem_dependenciesIn (read pair member)).2, first⟩
    refine ⟨o, found, plain, fun n v listed => ?_⟩
    obtain ⟨version, member⟩ := reads.complete n v listed
    exact ⟨version, (mem_dependenciesIn_iff found key flat plain).1 member⟩

/-- The dependencies of a file are read if they can be read at the key at which they are looked
for, and outside of production those of the other kind are among them. Where the word is found at
its key and names are listed once, that is also needed. -/
theorem parseDependencies_reads {σ : Type} {w : World σ} {packageJsonPath : Text}
    (stored : Always (w.readFile packageJsonPath) (some d.text))
    (flat : Flat d dependenciesName ∧ Flat d devDependenciesName) :
    ∃ result, Always (parseDependencies w packageJsonPath production) result ∧
      (Readable d production → ReadsDependencies d production result) ∧
      (Regular d production → (ReadsDependencies d production result ↔ Readable d production)) :=
  ⟨dependenciesIn d.text production, stored.bind (Always.pure _),
    readsDependencies_of_readable flat,
    fun regular => ⟨readable_of_reads flat regular, readsDependencies_of_readable flat⟩⟩

/-- `{"dependencies":{"a":"1"},"devDependencies":{"b":"2"}}`. -/
def bothKinds : JsonDocument :=
  .compact [(dependenciesName, .object (.compact [(['a'], .string ['1'])])),
      (devDependenciesName, .object (.compact [(['b'], .string ['2'])]))] (by
    have flat {name version : Text} (plain : IsPlain name ∧ IsPlain version) :
        (JsonItem.object (.compact [(name, .string version)])).Legal := by
      refine JsonObject.compact_valid ?_
      rw [List.forall_mem_singleton]
      exact ⟨plain.1, plain.2.isStringBody⟩
    rw [List.forall_mem_cons, List.forall_mem_singleton]
    exact ⟨⟨by simp [IsPlain, dependenciesName], flat (by simp [IsPlain])⟩,
      by simp [IsPlain, devDependenciesName], flat (by simp [IsPlain])⟩)

theorem flat_bothKinds (word : Text) : Flat bothKinds word := by
  intro m last
  have member := last.mem.1
  rcases List.mem_cons.1 member with rfl | later
  · refine ⟨_, rfl, fun e inside => ?_⟩
    obtain rfl := List.mem_singleton.1 inside
    exact ⟨by decide, ['1'], rfl, by decide⟩
  · obtain rfl := List.mem_singleton.1 later
    refine ⟨_, rfl, fun e inside => ?_⟩
    obtain rfl := List.mem_singleton.1 inside
    exact ⟨by decide, ['2'], rfl, by decide⟩

theorem readable_bothKinds : Readable bothKinds true := by
  have key : keyRead bothKinds.text true = some dependenciesName := by decide +kernel
  have other : ¬JsonDecodes bytesOfChar devDependenciesName dependenciesName := fun decodes =>
    absurd (decodes.of_no_backslash (by decide)).1 (by decide)
  have last : IsLast bytesOfChar dependenciesName bothKinds.object.members
      ⟨[], dependenciesName, [], [], .object (.compact [(['a'], .string ['1'])]), []⟩ := by
    refine ⟨[], _, rfl, IsPlain.jsonDecodes (by simp [IsPlain, dependenciesName]), ?_⟩
    intro m later
    obtain rfl := List.mem_singleton.1 later
    exact other
  have blank : White [] := by simp [White]
  have first := @firstKey_of_first JsonItem JsonItem.text _ bothKinds.object [] [] _ rfl
    List.not_mem_nil blank
  rw [Readable, key]
  refine ⟨.compact [(['a'], .string ['1'])], ⟨_, _, last, rfl, first⟩,
    ⟨by decide, by decide, ?_⟩, fun n v listed => ?_⟩
  · rintro pair ⟨⟩ ⟨w₁, w₂, same, -⟩
    have colon : ':' ∈ w₁ ++ ':' :: w₂ := by simp
    rw [← same] at colon
    revert colon
    decide
  · rcases listed with ⟨o, ⟨m, isLast, object⟩, entry⟩ | ⟨outside, -⟩
    · obtain rfl := last.unique isLast
      cases object
      exact ⟨v, entry⟩
    · cases outside

/-- A world in which every file has one content. -/
def fileWorld (content : Text) : World Unit :=
  { ready (fun _ _ => ⟨[], [], .nil⟩) with readFile := fun _ => pure (some content) }

theorem readsDependencies_bothKinds : ∃ result,
    Always (parseDependencies (fileWorld bothKinds.text) [] true) result ∧
      ReadsDependencies bothKinds true result := by
  obtain ⟨result, parsed, reads, -⟩ : ∃ result,
      Always (parseDependencies (fileWorld bothKinds.text) [] true) result ∧
        (Readable bothKinds true → ReadsDependencies bothKinds true result) ∧
        (Regular bothKinds true → (ReadsDependencies bothKinds true result ↔
          Readable bothKinds true)) :=
    parseDependencies_reads (Always.pure _) ⟨flat_bothKinds _, flat_bothKinds _⟩
  exact ⟨result, parsed, reads readable_bothKinds⟩

/-- Outside of production, the other kind is not read. -/
theorem not_readsDependencies_bothKinds :
    Always (parseDependencies (fileWorld bothKinds.text) [] false) [(['a'], ['1'])] ∧
      ¬ReadsDependencies bothKinds false [(['a'], ['1'])] := by
  have read : dependenciesIn bothKinds.text false = [(['a'], ['1'])] := by decide +kernel
  have parsed : Always (parseDependencies (fileWorld bothKinds.text) [] false)
      (dependenciesIn bothKinds.text false) := fun s => ⟨s, rfl⟩
  refine ⟨read ▸ parsed, fun reads => ?_⟩
  have other : ¬JsonDecodes bytesOfChar dependenciesName devDependenciesName := fun decodes =>
    absurd (decodes.of_no_backslash (by decide)).1 (by decide)
  have last : IsLast bytesOfChar devDependenciesName bothKinds.object.members
      ⟨[], devDependenciesName, [], [], .object (.compact [(['b'], .string ['2'])]), []⟩ :=
    ⟨[_], [], rfl, IsPlain.jsonDecodes (by simp [IsPlain, devDependenciesName]), by simp⟩
  have entry : EntryOf bytesOfChar (.compact [(['b'], .string ['2'])]) ['b'] ['2'] :=
    ⟨_, _, ⟨[], [], rfl, IsPlain.jsonDecodes (by simp [IsPlain]), by simp⟩, rfl,
      IsPlain.jsonDecodes (by simp [IsPlain])⟩
  obtain ⟨version, member⟩ := reads.complete ['b'] ['2'] (.inr ⟨rfl, _, ⟨_, last, rfl⟩, entry⟩)
  revert member
  simp

end Documents

end PackageInstaller

end ProtoJS.Npm

import ProtoJS.Npm.JsonParser

/-! # The cursor of the JSON parser

The class `Parser` as it stands: one text, and a cursor into it that `get` moves on. With the cursor
go the positions it has had and the number of values that were begun.
-/

namespace ProtoJS.Npm

open Strings OrderedMap

/-- The cursor `pos_`, the positions it has had, with the latest in front, and the number of calls
of `parseValue`. -/
structure Cursor where
  pos : ℕ := 0
  path : List ℕ := [0]
  calls : ℕ := 0
deriving DecidableEq, Repr

/-- `pos_++`. -/
def Cursor.advance (s : Cursor) : Cursor :=
  { s with pos := s.pos + 1, path := (s.pos + 1) :: s.path }

namespace Parser

variable (json : Text)

def peek (s : Cursor) : Char := if s.pos < json.length then json.getD s.pos '\x00' else '\x00'

/-- `get` returns what `peek` does, and moves on unless it is at the end. -/
def get (s : Cursor) : Cursor := if s.pos < json.length then s.advance else s

def skipWhitespace (s : Cursor) : Cursor :=
  if s.pos < json.length ∧ JsonParser.isJsonSpace (peek json s) then skipWhitespace s.advance
  else s
termination_by json.length - s.pos
decreasing_by simp only [Cursor.advance]; omega

/-- The loop that skips the characters of a `\u`. -/
def skipHex : ℕ → Cursor → Cursor
  | 0, s => s
  | n + 1, s => if s.pos < json.length then skipHex n (get json s) else s

theorem pos_le_get (s : Cursor) : s.pos ≤ (get json s).pos := by
  unfold get
  split
  · exact Nat.le_succ _
  · exact le_rfl

theorem pos_le_skipHex (n : ℕ) (s : Cursor) : s.pos ≤ (skipHex json n s).pos := by
  induction n generalizing s with
  | zero => exact le_rfl
  | succ n ih =>
    rw [skipHex]
    split
    · exact (pos_le_get json s).trans (ih _)
    · exact le_rfl

theorem pos_lt_get {json : Text} {s : Cursor} (within : s.pos < json.length) :
    s.pos < (get json s).pos := by
  rw [get, if_pos within]
  exact Nat.lt_succ_self _

/-- The loop of `parseString`. -/
def stringLoop (s : Cursor) (read : Text) : Text × Cursor :=
  if s.pos < json.length then
    let c := peek json s
    let s' := get json s
    if c = '"' then (read, s')
    else if c = '\\' then
      let e := peek json s'
      let s'' := get json s'
      if e = 'u' then stringLoop (skipHex json 4 s'') (read ++ ['?'])
      else stringLoop s'' (read ++ [JsonParser.unescape e])
    else stringLoop s' (read ++ [c])
  else (read, s)
termination_by json.length - s.pos
decreasing_by
  all_goals
    have first : s.pos < (get json s).pos := pos_lt_get (by assumption)
    have second := pos_le_get json (get json s)
    have third := pos_le_skipHex json 4 (get json (get json s))
    omega

def parseString (s : Cursor) : Text × Cursor := stringLoop json (get json s) []

/-- The loop of `parseNumber`. -/
def numberLoop (start : ℕ) (s : Cursor) : Cursor :=
  if s.pos < json.length ∧ JsonParser.isNumberChar (start < s.pos) (peek json s) then
    numberLoop start (get json s)
  else s
termination_by json.length - s.pos
decreasing_by
  rename_i within
  have moved := pos_lt_get within.1
  omega

def expect : Text → Cursor → Cursor
  | [], s => s
  | w :: word, s =>
    if s.pos < json.length then
      if peek json s = w then expect word (get json s) else get json s
    else s

variable {δ : Type} [Zero δ] (stod : Text → Option δ)

def parseNumber (s : Cursor) : δ × Cursor :=
  let start := s.pos
  let s := numberLoop json start (if peek json s = '-' then get json s else s)
  ((stod ((json.drop start).take (s.pos - start))).getD 0, s)

mutual

def parseValue : ℕ → Cursor → Option (JsonValue δ × Cursor)
  | 0, _ => none
  | fuel + 1, s =>
    let s := skipWhitespace json { s with calls := s.calls + 1 }
    let c := peek json s
    if c = '{' then do
      let (obj, s) ← parseObject fuel s
      return (.object obj, s)
    else if c = '[' then do
      let (arr, s) ← parseArray fuel s
      return (.array arr, s)
    else if c = '"' then
      let (text, s) := parseString json s
      some (.string text, s)
    else if c = '-' ∨ c.isDigit then
      let (n, s) := parseNumber json stod s
      some (.number n, s)
    else if c = 't' then some (.bool true, expect json "true".toList s)
    else if c = 'f' then some (.bool false, expect json "false".toList s)
    else if c = 'n' then some (.null, expect json "null".toList s)
    else some (.null, s)

def parseObject : ℕ → Cursor → Option (List (Text × JsonValue δ) × Cursor)
  | 0, _ => none
  | fuel + 1, s =>
    let s := skipWhitespace json (get json s)
    if peek json s = '}' then some ([], get json s) else parseMembers fuel s []

/-- The loop of `parseObject`. -/
def parseMembers : ℕ → Cursor → List (Text × JsonValue δ) →
    Option (List (Text × JsonValue δ) × Cursor)
  | 0, _, _ => none
  | fuel + 1, s, obj =>
    let s := skipWhitespace json s
    if peek json s ≠ '"' then some (obj, s)
    else
      let (key, s) := parseString json s
      let s := skipWhitespace json s
      if peek json s ≠ ':' then some (obj, get json s)
      else do
        let (val, s) ← parseValue fuel (skipWhitespace json (get json s))
        let obj := assign key val obj
        let s := skipWhitespace json s
        if peek json s = '}' then return (obj, get json s)
        else if peek json s ≠ ',' then return (obj, get json s)
        else parseMembers fuel (get json s) obj

def parseArray : ℕ → Cursor → Option (List (JsonValue δ) × Cursor)
  | 0, _ => none
  | fuel + 1, s =>
    let s := skipWhitespace json (get json s)
    if peek json s = ']' then some ([], get json s) else parseElements fuel s []

/-- The loop of `parseArray`. -/
def parseElements : ℕ → Cursor → List (JsonValue δ) → Option (List (JsonValue δ) × Cursor)
  | 0, _, _ => none
  | fuel + 1, s, arr => do
    let (val, s) ← parseValue fuel s
    let arr := arr ++ [val]
    let s := skipWhitespace json s
    if peek json s = ']' then return (arr, get json s)
    else if peek json s ≠ ',' then return (arr, get json s)
    else parseElements fuel (get json s) arr

end

/-- `parse`, with the cursor it ends with. -/
def parse (fuel : ℕ) : Option (JsonValue δ × Cursor) :=
  let s := skipWhitespace json {}
  if json.length ≤ s.pos then some (.null, s) else parseValue json stod fuel s

end Parser

/-! ### What is left of the text -/

/-- What the cursor has not passed. -/
def Cursor.rest (json : Text) (s : Cursor) : Text := json.drop s.pos

namespace Parser

variable {json : Text} {s : Cursor}

theorem rest_eq_nil_iff : s.rest json = [] ↔ json.length ≤ s.pos := List.drop_eq_nil_iff

theorem rest_eq_cons {c : Char} {text : Text} (rest : s.rest json = c :: text) :
    s.pos < json.length ∧ peek json s = c ∧ (get json s).rest json = text := by
  have within : s.pos < json.length := by
    rw [← not_le, ← rest_eq_nil_iff, rest]
    exact List.cons_ne_nil _ _
  rw [Cursor.rest, List.drop_eq_getElem_cons within, List.cons.injEq] at rest
  refine ⟨within, ?_, ?_⟩
  · rw [peek, if_pos within, List.getD_eq_getElem _ _ within]
    exact rest.1
  · rw [get, if_pos within]
    exact rest.2

theorem peek_eq : peek json s = JsonParser.peek (s.rest json) := by
  cases rest : s.rest json with
  | nil =>
    rw [peek, if_neg (not_lt.mpr (rest_eq_nil_iff.mp rest))]
    rfl
  | cons c text => exact (rest_eq_cons rest).2.1

theorem rest_get : (get json s).rest json = (s.rest json).tail := by
  cases rest : s.rest json with
  | nil =>
    rw [get, if_neg (not_lt.mpr (rest_eq_nil_iff.mp rest)), rest]
    rfl
  | cons c text => exact (rest_eq_cons rest).2.2

theorem get_eq_advance (within : s.pos < json.length) : get json s = s.advance := if_pos within

theorem rest_skipWhitespace :
    (skipWhitespace json s).rest json = JsonParser.skipWhitespace (s.rest json) := by
  fun_induction skipWhitespace json s with
  | case1 s space ih =>
    rw [ih, ← get_eq_advance space.1, rest_get]
    cases rest : s.rest json with
    | nil => exact absurd space.1 (not_lt.mpr (rest_eq_nil_iff.mp rest))
    | cons c text =>
      have blank := space.2
      rw [(rest_eq_cons rest).2.1] at blank
      exact (List.dropWhile_cons_of_pos blank).symm
  | case2 s other =>
    cases rest : s.rest json with
    | nil => rfl
    | cons c text =>
      obtain ⟨within, first, -⟩ := rest_eq_cons rest
      rw [not_and, first] at other
      exact (List.dropWhile_cons_of_neg (other within)).symm

theorem rest_skipHex (n : ℕ) : (skipHex json n s).rest json = (s.rest json).drop n := by
  induction n generalizing s with
  | zero => rfl
  | succ n ih =>
    rw [skipHex]
    split
    · rw [ih, rest_get, List.drop_tail]
    · rename_i atEnd
      rw [rest_eq_nil_iff.mpr (not_lt.mp atEnd), List.drop_nil]

theorem readString_add (skip n : ℕ) (text : Text) :
    JsonParser.readString (skip + n) text = JsonParser.readString skip (text.drop n) := by
  induction n generalizing text with
  | zero => rfl
  | succ n ih =>
    cases text with
    | nil => cases skip <;> rfl
    | cons c text => exact ih text

theorem rest_of_lt (within : s.pos < json.length) :
    s.rest json = peek json s :: (get json s).rest json := by
  cases rest : s.rest json with
  | nil => exact absurd within (not_lt.mpr (rest_eq_nil_iff.mp rest))
  | cons c text => rw [(rest_eq_cons rest).2.1, (rest_eq_cons rest).2.2]

/-- The loop adds what is left of the string to what has been read. -/
theorem stringLoop_eq (read : Text) :
    (stringLoop json s read).1 = read ++ (JsonParser.readString 0 (s.rest json)).1 ∧
      (stringLoop json s read).2.rest json = (JsonParser.readString 0 (s.rest json)).2 := by
  fun_induction stringLoop json s read with
  | case1 s read within c s' quote =>
    rw [rest_of_lt within, JsonParser.readString, if_pos quote, List.append_nil]
    exact ⟨rfl, rfl⟩
  | case2 s read within c s' notQuote backslash e s'' unicode ih =>
    have next : JsonParser.peek (s'.rest json) = 'u' := peek_eq.symm.trans unicode
    have passed : s''.rest json = (s'.rest json).tail := rest_get
    have skipped : JsonParser.readString 5 (s'.rest json) =
        JsonParser.readString 0 ((skipHex json 4 s'').rest json) := by
      rw [rest_skipHex, passed, List.drop_tail]
      exact readString_add 0 5 _
    rw [rest_of_lt within, JsonParser.readString, if_neg notQuote, if_pos backslash, next,
      if_pos rfl, skipped, ih.1, ih.2, List.append_assoc]
    exact ⟨rfl, rfl⟩
  | case3 s read within c s' notQuote backslash e s'' other ih =>
    have next : JsonParser.peek (s'.rest json) = e := peek_eq.symm
    have passed : s''.rest json = (s'.rest json).tail := rest_get
    have skipped : JsonParser.readString 1 (s'.rest json) =
        JsonParser.readString 0 (s''.rest json) := by
      rw [passed, ← List.drop_one]
      exact readString_add 0 1 _
    rw [rest_of_lt within, JsonParser.readString, if_neg notQuote, if_pos backslash, next,
      if_neg other, skipped, ih.1, ih.2, List.append_assoc]
    exact ⟨rfl, rfl⟩
  | case4 s read within c s' notQuote plain ih =>
    rw [rest_of_lt within, JsonParser.readString, if_neg notQuote, if_neg plain, ih.1, ih.2,
      List.append_assoc]
    exact ⟨rfl, rfl⟩
  | case5 s read atEnd =>
    rw [rest_eq_nil_iff.mpr (not_lt.mp atEnd), JsonParser.readString, List.append_nil]
    exact ⟨rfl, rfl⟩

/-- What a function has read, and what is left of the text then. -/
def left {α : Type} (json : Text) (result : α × Cursor) : α × Text :=
  (result.1, result.2.rest json)

theorem left_parseString :
    left json (parseString json s) = JsonParser.parseString (s.rest json) := by
  obtain ⟨read, rest⟩ := @stringLoop_eq json (get json s) []
  rw [List.nil_append, rest_get] at read
  rw [rest_get] at rest
  exact Prod.ext read rest

theorem pos_get (within : s.pos < json.length) : (get json s).pos = s.pos + 1 := by
  rw [get, if_pos within]
  rfl

/-- What the cursor passes is one character more of the number. -/
theorem take_get {start : ℕ} (le : start ≤ s.pos) (within : s.pos < json.length) :
    (json.drop start).take ((get json s).pos - start) =
      (json.drop start).take (s.pos - start) ++ [peek json s] := by
  have inside : s.pos - start < (json.drop start).length := by
    rw [List.length_drop]
    omega
  have one : (get json s).pos - start = s.pos - start + 1 := by
    rw [pos_get within]
    omega
  have here : start + (s.pos - start) = s.pos := by omega
  rw [one, List.take_add_one, List.getElem?_eq_getElem inside, List.getElem_drop, peek,
    if_pos within, List.getD_eq_getElem _ _ within]
  simp [here]

/-- The number is what the cursor has passed. -/
theorem numberLoop_eq {start : ℕ} (le : start ≤ s.pos) :
    (JsonParser.scanNumber (start < s.pos) (s.rest json)).2 = (numberLoop json start s).rest json ∧
      (json.drop start).take ((numberLoop json start s).pos - start) =
        (json.drop start).take (s.pos - start) ++
          (JsonParser.scanNumber (start < s.pos) (s.rest json)).1 := by
  fun_induction numberLoop json start s with
  | case1 s number ih =>
    obtain ⟨within, isNumber⟩ := number
    have moved := pos_get within
    obtain ⟨left, passed⟩ := ih (by omega)
    have started : decide (start < (get json s).pos) = true := decide_eq_true (by omega)
    rw [started] at left passed
    rw [rest_of_lt within, JsonParser.scanNumber, if_pos isNumber]
    refine ⟨left, ?_⟩
    rw [passed, take_get le within, List.append_assoc]
    rfl
  | case2 s other =>
    rcases lt_or_ge s.pos json.length with within | atEnd
    · have notNumber := fun isNumber => other ⟨within, isNumber⟩
      rw [rest_of_lt within, JsonParser.scanNumber, if_neg notNumber, List.append_nil]
      exact ⟨rfl, rfl⟩
    · rw [rest_eq_nil_iff.mpr atEnd, JsonParser.scanNumber, List.append_nil]
      exact ⟨rfl, rfl⟩

theorem rest_expect (word : Text) :
    (expect json word s).rest json = JsonParser.expect word (s.rest json) := by
  induction word generalizing s with
  | nil =>
    rw [expect]
    cases s.rest json <;> rfl
  | cons w word ih =>
    rw [expect]
    split
    · rename_i within
      rw [rest_of_lt within, JsonParser.expect]
      split
      · exact ih
      · rfl
    · rename_i atEnd
      rw [rest_eq_nil_iff.mpr (not_lt.mp atEnd)]
      rfl

variable {δ : Type} [Zero δ] {stod : Text → Option δ}

theorem left_parseNumber :
    left json (parseNumber json stod s) = JsonParser.parseNumber stod (s.rest json) := by
  rw [JsonParser.parseNumber, JsonParser.numberText, ← peek_eq]
  by_cases minus : peek json s = '-'
  · have within : s.pos < json.length := by
      by_contra atEnd
      rw [peek, if_neg atEnd] at minus
      exact absurd minus (by decide)
    have moved := pos_get within
    have le : s.pos ≤ (get json s).pos := by omega
    have started : decide (s.pos < (get json s).pos) = true := decide_eq_true (by omega)
    obtain ⟨rest, passed⟩ := numberLoop_eq le
    rw [started, rest_get] at rest passed
    rw [take_get le_rfl within, Nat.sub_self, List.take_zero, List.nil_append, minus] at passed
    rw [if_pos minus, left, parseNumber, if_pos minus, passed, ← rest]
    rfl
  · have notStarted : decide (s.pos < s.pos) = false := decide_eq_false (lt_irrefl _)
    obtain ⟨rest, passed⟩ := @numberLoop_eq json s s.pos le_rfl
    rw [notStarted] at rest passed
    rw [Nat.sub_self, List.take_zero, List.nil_append] at passed
    rw [if_neg minus, left, parseNumber, if_neg minus, passed, ← rest]

/-! ### The parser without a cursor -/

/-- With so much fuel the functions return the same with and without a cursor. -/
structure ReadsAlike (json : Text) (stod : Text → Option δ) (fuel : ℕ) : Prop where
  value : ∀ s : Cursor, (parseValue json stod fuel s).map (left json) =
    JsonParser.parseValue stod fuel (s.rest json)
  object : ∀ s : Cursor, (parseObject json stod fuel s).map (left json) =
    JsonParser.parseObject stod fuel (s.rest json)
  members : ∀ (s : Cursor) obj, (parseMembers json stod fuel s obj).map (left json) =
    JsonParser.parseMembers stod fuel (s.rest json) obj
  array : ∀ s : Cursor, (parseArray json stod fuel s).map (left json) =
    JsonParser.parseArray stod fuel (s.rest json)
  elements : ∀ (s : Cursor) arr, (parseElements json stod fuel s arr).map (left json) =
    JsonParser.parseElements stod fuel (s.rest json) arr

namespace ReadsAlike

variable {fuel : ℕ}

/-- What is made of a result is made of it without the cursor too. -/
theorem bind_left {α β : Type} {result : Option (α × Cursor)} {same : Option (α × Text)}
    {f : α × Cursor → Option (β × Cursor)} {g : α × Text → Option (β × Text)}
    (alike : result.map (left json) = same)
    (next : ∀ read t, (f (read, t)).map (left json) = g (read, t.rest json)) :
    (result.bind f).map (left json) = same.bind g := by
  rw [← alike]
  cases result with
  | none => rfl
  | some pair => exact next pair.1 pair.2

theorem value_succ (ih : ReadsAlike json stod fuel) (s : Cursor) :
    (parseValue json stod (fuel + 1) s).map (left json) =
      JsonParser.parseValue stod (fuel + 1) (s.rest json) := by
  have begun : ({ s with calls := s.calls + 1 } : Cursor).rest json = s.rest json := rfl
  rw [parseValue, JsonParser.parseValue, ← begun, ← rest_skipWhitespace]
  generalize skipWhitespace json { s with calls := s.calls + 1 } = t
  simp only [← peek_eq]
  split_ifs
  · exact bind_left (ih.object t) fun _ _ => rfl
  · exact bind_left (ih.array t) fun _ _ => rfl
  · rw [← left_parseString]
    rfl
  · rw [← left_parseNumber]
    rfl
  · rw [← rest_expect]
    rfl
  · rw [← rest_expect]
    rfl
  · rw [← rest_expect]
    rfl
  · rfl

theorem object_succ (ih : ReadsAlike json stod fuel) (s : Cursor) :
    (parseObject json stod (fuel + 1) s).map (left json) =
      JsonParser.parseObject stod (fuel + 1) (s.rest json) := by
  rw [parseObject, JsonParser.parseObject, ← rest_get, ← rest_skipWhitespace]
  simp only [← peek_eq]
  split_ifs
  · rw [← rest_get]
    rfl
  · exact ih.members _ []

theorem members_succ (ih : ReadsAlike json stod fuel) (s : Cursor)
    (obj : List (Text × JsonValue δ)) :
    (parseMembers json stod (fuel + 1) s obj).map (left json) =
      JsonParser.parseMembers stod (fuel + 1) (s.rest json) obj := by
  rw [parseMembers, JsonParser.parseMembers, ← rest_skipWhitespace]
  simp only [← peek_eq]
  generalize skipWhitespace json s = t
  by_cases quote : peek json t ≠ '"'
  · rw [if_pos quote, if_pos quote]
    rfl
  rw [if_neg quote, if_neg quote, ← left_parseString]
  simp only [left, ← rest_skipWhitespace, ← peek_eq, ← rest_get]
  generalize skipWhitespace json (parseString json t).2 = u
  by_cases colon : peek json u ≠ ':'
  · rw [if_pos colon, if_pos colon]
    rfl
  rw [if_neg colon, if_neg colon]
  refine bind_left (ih.value _) ?_
  intro val v
  dsimp only
  rw [← rest_skipWhitespace]
  simp only [← peek_eq, ← rest_get]
  split_ifs
  · rfl
  · rfl
  · exact ih.members _ _

theorem array_succ (ih : ReadsAlike json stod fuel) (s : Cursor) :
    (parseArray json stod (fuel + 1) s).map (left json) =
      JsonParser.parseArray stod (fuel + 1) (s.rest json) := by
  rw [parseArray, JsonParser.parseArray, ← rest_get, ← rest_skipWhitespace]
  simp only [← peek_eq]
  split_ifs
  · rw [← rest_get]
    rfl
  · exact ih.elements _ []

theorem elements_succ (ih : ReadsAlike json stod fuel) (s : Cursor) (arr : List (JsonValue δ)) :
    (parseElements json stod (fuel + 1) s arr).map (left json) =
      JsonParser.parseElements stod (fuel + 1) (s.rest json) arr := by
  rw [parseElements, JsonParser.parseElements]
  refine bind_left (ih.value s) ?_
  intro val t
  dsimp only
  rw [← rest_skipWhitespace]
  simp only [← peek_eq, ← rest_get]
  split_ifs
  · rfl
  · rfl
  · exact ih.elements _ _

end ReadsAlike

theorem readsAlike (fuel : ℕ) : ReadsAlike json stod fuel := by
  induction fuel with
  | zero =>
    constructor
    all_goals
      intros
      rfl
  | succ fuel ih =>
    exact ⟨ih.value_succ, ih.object_succ, ih.members_succ, ih.array_succ, ih.elements_succ⟩

end Parser

end ProtoJS.Npm

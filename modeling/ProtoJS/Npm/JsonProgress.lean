import ProtoJS.Npm.JsonCursor

/-! # How the JSON parser gets on

The cursor only moves on, and never beyond the text. Apart from the first one, every value is begun
behind a bracket, a comma or a colon that the cursor has passed, so there is at most one more of
them than characters.
-/

namespace ProtoJS.Npm

open Strings OrderedMap

/-- The cursor has never gone back, nor beyond the text. -/
structure Cursor.Valid (json : Text) (s : Cursor) : Prop where
  here : s.path.head? = some s.pos
  forwards : s.path.Pairwise (· ≥ ·)
  within : ∀ p ∈ s.path, p ≤ json.length

namespace Parser

/-- The cursor gets from one state to another, and so many more values are begun on the way than
characters are passed. -/
structure Goes (json : Text) (s t : Cursor) (more : ℤ) : Prop where
  valid : s.Valid json → t.Valid json
  le : s.pos ≤ t.pos
  calls : (t.calls : ℤ) - s.calls ≤ t.pos - s.pos + more

variable {json : Text} {s t u : Cursor} {more extra : ℤ}

namespace Goes

theorem refl (s : Cursor) : Goes json s s 0 := ⟨id, le_rfl, by omega⟩

theorem trans (first : Goes json s t more) (second : Goes json t u extra) :
    Goes json s u (more + extra) := by
  refine ⟨second.valid ∘ first.valid, first.le.trans second.le, ?_⟩
  have passed := first.calls
  have behind := second.calls
  omega

theorem mono (goes : Goes json s t more) (le : more ≤ extra) : Goes json s t extra :=
  ⟨goes.valid, goes.le, goes.calls.trans (by omega)⟩

/-- A call of `parseValue` is begun. -/
theorem begun (s : Cursor) : Goes json s { s with calls := s.calls + 1 } 1 := by
  refine ⟨fun valid => ⟨valid.here, valid.forwards, valid.within⟩, le_rfl, ?_⟩
  push_cast
  omega

theorem advance (within : s.pos < json.length) : Goes json s s.advance (-1) := by
  refine ⟨?_, Nat.le_succ _, ?_⟩
  · intro valid
    obtain ⟨earlier, path⟩ : ∃ earlier, s.path = s.pos :: earlier :=
      List.head?_eq_some_iff.mp valid.here
    have forwards := valid.forwards
    rw [path, List.pairwise_cons] at forwards
    refine ⟨rfl, ?_, ?_⟩
    · rw [Cursor.advance, path]
      refine List.pairwise_cons.mpr ⟨?_, List.pairwise_cons.mpr forwards⟩
      intro p member
      rcases List.mem_cons.mp member with rfl | before
      · exact Nat.le_succ _
      · exact (forwards.1 p before).trans (Nat.le_succ _)
    · exact List.forall_mem_cons.mpr ⟨within, valid.within⟩
  · simp only [Cursor.advance]
    push_cast
    omega

theorem get_of_lt (within : s.pos < json.length) : Goes json s (get json s) (-1) := by
  rw [get_eq_advance within]
  exact advance within

theorem get (s : Cursor) : Goes json s (get json s) 0 := by
  rcases lt_or_ge s.pos json.length with within | atEnd
  · exact (get_of_lt within).mono (by decide)
  · rw [Parser.get, if_neg (not_lt.mpr atEnd)]
    exact refl s

theorem skipWhitespace (s : Cursor) : Goes json s (skipWhitespace json s) 0 := by
  fun_induction Parser.skipWhitespace json s with
  | case1 s space ih => exact ((advance space.1).trans ih).mono (by decide)
  | case2 s _ => exact refl s

theorem skipHex (n : ℕ) (s : Cursor) : Goes json s (skipHex json n s) 0 := by
  induction n generalizing s with
  | zero => exact refl s
  | succ n ih =>
    rw [Parser.skipHex]
    split
    · exact (get s).trans (ih _)
    · exact refl s

theorem stringLoop (s : Cursor) (read : Text) : Goes json s (stringLoop json s read).2 0 := by
  fun_induction Parser.stringLoop json s read with
  | case1 s read within c s' quote => exact get s
  | case2 s read within c s' notQuote backslash e s'' unicode ih =>
    exact (get s).trans ((get s').trans ((skipHex 4 s'').trans ih))
  | case3 s read within c s' notQuote backslash e s'' other ih =>
    exact (get s).trans ((get s').trans ih)
  | case4 s read within c s' notQuote plain ih => exact (get s).trans ih
  | case5 s read atEnd => exact refl s

theorem parseString (s : Cursor) : Goes json s (parseString json s).2 0 :=
  (get s).trans (stringLoop _ [])

theorem numberLoop (start : ℕ) (s : Cursor) : Goes json s (numberLoop json start s) 0 := by
  fun_induction Parser.numberLoop json start s with
  | case1 s number ih => exact (get s).trans ih
  | case2 s other => exact refl s

theorem expect (word : Text) (s : Cursor) : Goes json s (expect json word s) 0 := by
  induction word generalizing s with
  | nil => exact refl s
  | cons w word ih =>
    rw [Parser.expect]
    split_ifs
    · exact (get s).trans (ih _)
    · exact get s
    · exact refl s

variable {δ : Type} [Zero δ] {stod : Text → Option δ}

theorem parseNumber (s : Cursor) : Goes json s (parseNumber json stod s).2 0 := by
  rw [Parser.parseNumber]
  split_ifs
  · exact (get s).trans (numberLoop _ _)
  · exact numberLoop _ s

end Goes

theorem lt_length_of_peek {c : Char} (next : peek json s = c) (nonzero : c ≠ '\x00') :
    s.pos < json.length := by
  by_contra atEnd
  rw [peek, if_neg atEnd] at next
  exact nonzero next.symm

variable {δ : Type} [Zero δ] {stod : Text → Option δ} {fuel : ℕ}

/-- With so much fuel the functions only move on: an array and an object begin no more values than
they pass characters, a value and the elements of an array one more. -/
structure GoesWith (json : Text) (stod : Text → Option δ) (fuel : ℕ) : Prop where
  value : ∀ s v t, parseValue json stod fuel s = some (v, t) → Goes json s t 1
  object : ∀ s obj t, s.pos < json.length → parseObject json stod fuel s = some (obj, t) →
    Goes json s t 0
  members : ∀ s before obj t, parseMembers json stod fuel s before = some (obj, t) →
    Goes json s t 0
  array : ∀ s arr t, s.pos < json.length → parseArray json stod fuel s = some (arr, t) →
    Goes json s t 0
  elements : ∀ s before arr t, parseElements json stod fuel s before = some (arr, t) →
    Goes json s t 1

namespace GoesWith

theorem value_succ (ih : GoesWith json stod fuel) (s : Cursor) (v : JsonValue δ) (t : Cursor)
    (parsed : parseValue json stod (fuel + 1) s = some (v, t)) : Goes json s t 1 := by
  rw [parseValue] at parsed
  have first : Goes json s _ (1 + 0) :=
    (Goes.begun s).trans (Goes.skipWhitespace { s with calls := s.calls + 1 })
  dsimp only at parsed
  generalize skipWhitespace json { s with calls := s.calls + 1 } = u at parsed first
  suffices behind : Goes json u t 0 from first.trans behind
  split_ifs at parsed with brace bracket
  · simp only [bind, Option.bind_eq_some_iff] at parsed
    obtain ⟨⟨obj, w⟩, read, returned⟩ := parsed
    cases returned
    exact ih.object u obj w (lt_length_of_peek brace (by decide)) read
  · simp only [bind, Option.bind_eq_some_iff] at parsed
    obtain ⟨⟨arr, w⟩, read, returned⟩ := parsed
    cases returned
    exact ih.array u arr w (lt_length_of_peek bracket (by decide)) read
  · cases parsed
    exact Goes.parseString u
  · cases parsed
    exact Goes.parseNumber u
  · cases parsed
    exact Goes.expect _ u
  · cases parsed
    exact Goes.expect _ u
  · cases parsed
    exact Goes.expect _ u
  · cases parsed
    exact Goes.refl t

theorem object_succ (ih : GoesWith json stod fuel) (s : Cursor) (obj : List (Text × JsonValue δ))
    (t : Cursor) (within : s.pos < json.length)
    (parsed : parseObject json stod (fuel + 1) s = some (obj, t)) : Goes json s t 0 := by
  rw [parseObject] at parsed
  have first := (Goes.get_of_lt within).trans (Goes.skipWhitespace _)
  generalize skipWhitespace json (get json s) = u at parsed first
  split_ifs at parsed
  · cases parsed
    exact (first.trans (Goes.get u)).mono (by decide)
  · exact (first.trans (ih.members u [] obj t parsed)).mono (by decide)

theorem members_succ (ih : GoesWith json stod fuel) (s : Cursor)
    (before obj : List (Text × JsonValue δ)) (t : Cursor)
    (parsed : parseMembers json stod (fuel + 1) s before = some (obj, t)) : Goes json s t 0 := by
  rw [parseMembers] at parsed
  have first : Goes json s _ 0 := Goes.skipWhitespace s
  dsimp only at parsed
  generalize skipWhitespace json s = u at parsed first
  by_cases quote : peek json u ≠ '"'
  · rw [if_pos quote] at parsed
    cases parsed
    exact first
  rw [if_neg quote] at parsed
  have key := first.trans ((Goes.parseString u).trans (Goes.skipWhitespace _))
  generalize skipWhitespace json (parseString json u).2 = w at parsed key
  by_cases colon : peek json w ≠ ':'
  · rw [if_pos colon] at parsed
    cases parsed
    exact key.trans (Goes.get w)
  rw [if_neg colon] at parsed
  -- The colon pays for the value.
  have behind := key.trans ((Goes.get_of_lt
    (lt_length_of_peek (not_not.mp colon) (by decide))).trans (Goes.skipWhitespace _))
  generalize skipWhitespace json (get json w) = w at parsed behind
  simp only [bind, Option.bind_eq_some_iff] at parsed
  obtain ⟨⟨val, x⟩, read, parsed⟩ := parsed
  have after := (behind.trans (ih.value w val x read)).trans (Goes.skipWhitespace x)
  dsimp only at parsed
  generalize skipWhitespace json x = x at parsed after
  split_ifs at parsed
  · cases parsed
    exact (after.trans (Goes.get x)).mono (by decide)
  · cases parsed
    exact (after.trans (Goes.get x)).mono (by decide)
  · exact (after.trans ((Goes.get x).trans (ih.members _ _ obj t parsed))).mono (by decide)

theorem array_succ (ih : GoesWith json stod fuel) (s : Cursor) (arr : List (JsonValue δ))
    (t : Cursor) (within : s.pos < json.length)
    (parsed : parseArray json stod (fuel + 1) s = some (arr, t)) : Goes json s t 0 := by
  rw [parseArray] at parsed
  -- The bracket pays for the first element.
  have first := (Goes.get_of_lt within).trans (Goes.skipWhitespace _)
  generalize skipWhitespace json (get json s) = u at parsed first
  split_ifs at parsed
  · cases parsed
    exact (first.trans (Goes.get u)).mono (by decide)
  · exact (first.trans (ih.elements u [] arr t parsed)).mono (by decide)

theorem elements_succ (ih : GoesWith json stod fuel) (s : Cursor)
    (before arr : List (JsonValue δ)) (t : Cursor)
    (parsed : parseElements json stod (fuel + 1) s before = some (arr, t)) : Goes json s t 1 := by
  rw [parseElements] at parsed
  simp only [bind, Option.bind_eq_some_iff] at parsed
  obtain ⟨⟨val, u⟩, read, parsed⟩ := parsed
  have after := (ih.value s val u read).trans (Goes.skipWhitespace u)
  dsimp only at parsed
  generalize skipWhitespace json u = u at parsed after
  split_ifs at parsed with bracket comma
  · cases parsed
    exact after.trans (Goes.get u)
  · cases parsed
    exact after.trans (Goes.get u)
  · -- The comma pays for the next element.
    have passed := Goes.get_of_lt (lt_length_of_peek (not_not.mp comma) (by decide))
    exact (after.trans (passed.trans (ih.elements _ _ arr t parsed))).mono (by decide)

end GoesWith

theorem goesWith (fuel : ℕ) : GoesWith json stod fuel := by
  induction fuel with
  | zero =>
    constructor
    · intro s v t parsed
      cases parsed
    · intro s obj t _ parsed
      cases parsed
    · intro s before obj t parsed
      cases parsed
    · intro s arr t _ parsed
      cases parsed
    · intro s before arr t parsed
      cases parsed
  | succ fuel ih =>
    exact ⟨ih.value_succ, ih.object_succ, ih.members_succ, ih.array_succ, ih.elements_succ⟩

/-! ### More fuel -/

/-- What is returned with so much fuel is returned with more. -/
structure KeepsWith (json : Text) (stod : Text → Option δ) (fuel : ℕ) : Prop where
  value : ∀ s r, parseValue json stod fuel s = some r → parseValue json stod (fuel + 1) s = some r
  object : ∀ s r, parseObject json stod fuel s = some r →
    parseObject json stod (fuel + 1) s = some r
  members : ∀ s obj r, parseMembers json stod fuel s obj = some r →
    parseMembers json stod (fuel + 1) s obj = some r
  array : ∀ s r, parseArray json stod fuel s = some r → parseArray json stod (fuel + 1) s = some r
  elements : ∀ s arr r, parseElements json stod fuel s arr = some r →
    parseElements json stod (fuel + 1) s arr = some r

namespace KeepsWith

theorem bind_eq_some {α β : Type} {less more : Option α} {f g : α → Option β} {b : β}
    (keeps : ∀ a, less = some a → more = some a) (next : ∀ a, f a = some b → g a = some b)
    (bound : less.bind f = some b) : more.bind g = some b := by
  obtain ⟨a, read, returned⟩ := Option.bind_eq_some_iff.mp bound
  rw [keeps a read]
  exact next a returned

theorem value_succ (ih : KeepsWith json stod fuel) (s : Cursor) (r : JsonValue δ × Cursor)
    (parsed : parseValue json stod (fuel + 1) s = some r) :
    parseValue json stod (fuel + 1 + 1) s = some r := by
  rw [parseValue] at parsed ⊢
  dsimp only at parsed ⊢
  generalize skipWhitespace json { s with calls := s.calls + 1 } = u at parsed ⊢
  split_ifs at parsed ⊢
  · exact bind_eq_some (ih.object u) (fun _ returned => returned) parsed
  · exact bind_eq_some (ih.array u) (fun _ returned => returned) parsed
  all_goals exact parsed

theorem object_succ (ih : KeepsWith json stod fuel) (s : Cursor)
    (r : List (Text × JsonValue δ) × Cursor)
    (parsed : parseObject json stod (fuel + 1) s = some r) :
    parseObject json stod (fuel + 1 + 1) s = some r := by
  rw [parseObject] at parsed ⊢
  split_ifs at parsed ⊢
  · exact parsed
  · exact ih.members _ _ r parsed

theorem members_succ (ih : KeepsWith json stod fuel) (s : Cursor)
    (obj : List (Text × JsonValue δ)) (r : List (Text × JsonValue δ) × Cursor)
    (parsed : parseMembers json stod (fuel + 1) s obj = some r) :
    parseMembers json stod (fuel + 1 + 1) s obj = some r := by
  rw [parseMembers] at parsed ⊢
  dsimp only at parsed ⊢
  generalize skipWhitespace json s = u at parsed ⊢
  generalize skipWhitespace json (parseString json u).2 = w at parsed ⊢
  split_ifs at parsed ⊢
  · exact parsed
  · exact parsed
  · refine bind_eq_some (ih.value _) ?_ parsed
    intro a returned
    split_ifs at returned ⊢
    · exact returned
    · exact returned
    · exact ih.members _ _ r returned

theorem array_succ (ih : KeepsWith json stod fuel) (s : Cursor) (r : List (JsonValue δ) × Cursor)
    (parsed : parseArray json stod (fuel + 1) s = some r) :
    parseArray json stod (fuel + 1 + 1) s = some r := by
  rw [parseArray] at parsed ⊢
  split_ifs at parsed ⊢
  · exact parsed
  · exact ih.elements _ _ r parsed

theorem elements_succ (ih : KeepsWith json stod fuel) (s : Cursor) (arr : List (JsonValue δ))
    (r : List (JsonValue δ) × Cursor)
    (parsed : parseElements json stod (fuel + 1) s arr = some r) :
    parseElements json stod (fuel + 1 + 1) s arr = some r := by
  rw [parseElements] at parsed ⊢
  refine bind_eq_some (ih.value s) ?_ parsed
  intro a returned
  dsimp only at returned ⊢
  split_ifs at returned ⊢
  · exact returned
  · exact returned
  · exact ih.elements _ _ r returned

end KeepsWith

theorem keepsWith (fuel : ℕ) : KeepsWith json stod fuel := by
  induction fuel with
  | zero =>
    constructor
    · intro s r parsed
      cases parsed
    · intro s r parsed
      cases parsed
    · intro s obj r parsed
      cases parsed
    · intro s r parsed
      cases parsed
    · intro s arr r parsed
      cases parsed
  | succ fuel ih =>
    exact ⟨ih.value_succ, ih.object_succ, ih.members_succ, ih.array_succ, ih.elements_succ⟩

theorem parseValue_of_le {enough : ℕ} {r : JsonValue δ × Cursor}
    (parsed : parseValue json stod fuel s = some r) (le : fuel ≤ enough) :
    parseValue json stod enough s = some r := by
  induction enough, le using Nat.le_induction with
  | base => exact parsed
  | succ enough _ ih => exact (keepsWith enough).value s r ih

/-! ### The whole text -/

theorem valid_initial : ({} : Cursor).Valid json := by
  refine ⟨rfl, List.pairwise_singleton _ _, ?_⟩
  intro p member
  rw [List.mem_singleton.mp member]
  exact Nat.zero_le _

/-- From the first character that is no white space the value is the one read without a cursor. -/
theorem exists_parseValue (text : s.rest json ≠ [])
    (skipped : s.rest json = JsonParser.skipWhitespace json) :
    ∃ t, ∀ fuel, 3 * json.length + 3 ≤ fuel →
      parseValue json stod fuel s = some (JsonParse stod json, t) := by
  have alike := (readsAlike _ : ReadsAlike json stod (3 * (s.rest json).length + 3)).value s
  obtain ⟨⟨v, after⟩, read⟩ :=
    Option.isSome_iff_exists.mp (JsonParser.isSome_parseValue stod (s.rest json))
  rw [read, Option.map_eq_some_iff] at alike
  obtain ⟨⟨value, t⟩, parsed, same⟩ := alike
  have whole : JsonParse stod json = value := by
    rw [JsonParse, ← skipped, if_neg text]
    simp only [read, Option.get_some]
    exact (congrArg Prod.fst same).symm
  have shorter : (s.rest json).length ≤ json.length := by
    rw [Cursor.rest, List.length_drop]
    omega
  refine ⟨t, ?_⟩
  intro fuel enough
  rw [whole]
  exact parseValue_of_le parsed (by omega)

theorem exists_parse (json : Text) (stod : Text → Option δ) :
    ∃ t, (∀ fuel, 3 * json.length + 3 ≤ fuel →
        parse json stod fuel = some (JsonParse stod json, t)) ∧ Goes json {} t 1 := by
  have first : Goes json {} (skipWhitespace json {}) 0 := Goes.skipWhitespace {}
  have skipped : (skipWhitespace json {}).rest json = JsonParser.skipWhitespace json :=
    rest_skipWhitespace
  by_cases atEnd : json.length ≤ (skipWhitespace json {}).pos
  · refine ⟨_, ?_, first.mono (by decide)⟩
    intro fuel _
    have empty := skipped.symm.trans (rest_eq_nil_iff.mpr atEnd)
    rw [parse, if_pos atEnd, JsonParse, if_pos empty]
  · obtain ⟨t, parsed⟩ :=
      @exists_parseValue json _ δ _ stod (mt rest_eq_nil_iff.mp atEnd) skipped
    refine ⟨t, ?_, (first.trans ((goesWith _).value _ _ t (parsed _ le_rfl))).mono (by decide)⟩
    intro fuel enough
    rw [parse, if_neg atEnd]
    exact parsed fuel enough

end Parser

/-- The parser returns for every text, whatever more fuel it is given. Its cursor has never gone
back, nor beyond the text, and at most one more value was begun than the text has characters. -/
theorem JsonParse_terminates {δ : Type} [Zero δ] (json : Text) (stod : Text → Option δ) :
    ∃ t, (∀ fuel, 3 * json.length + 3 ≤ fuel →
        Parser.parse json stod fuel = some (JsonParse stod json, t)) ∧
      t.path.Pairwise (· ≥ ·) ∧ (∀ p ∈ t.path, p ≤ json.length) ∧
        t.calls ≤ json.length + 1 := by
  obtain ⟨t, parsed, goes⟩ := Parser.exists_parse json stod
  have valid := goes.valid Parser.valid_initial
  refine ⟨t, parsed, valid.forwards, valid.within, ?_⟩
  have calls := goes.calls
  have within := valid.within t.pos (List.mem_of_mem_head? (Option.mem_def.mpr valid.here))
  simp only [Nat.cast_zero] at calls
  omega

end ProtoJS.Npm

import ProtoJS.Npm.JsonRoundTrip

/-! # Malformed JSON

`JsonParse` is to return null on a parse error. It does so where no value starts, and on every text
whose value starts with an `n`; wherever another value starts, what there is of it is returned.
-/

namespace ProtoJS.Npm

open Strings JsonParser

section Null

variable {δ : Type} [Zero δ] (stod : Text → Option δ) {text rest : Text} {c : Char}

theorem isJsonSpace_of_skipWhitespace (skipped : skipWhitespace text = c :: rest) :
    isJsonSpace c = false := by
  have present : text.dropWhile isJsonSpace ≠ [] := by
    rw [← skipWhitespace, skipped]
    exact List.cons_ne_nil c rest
  have first : (text.dropWhile isJsonSpace).head present = c := by
    simp only [← skipWhitespace.eq_def, skipped, List.head_cons]
  rw [← first]
  exact List.head_dropWhile_not _ present

/-- The first character decides whether the value is null. -/
theorem parseValue_eq_null_iff {fuel : ℕ} {v : JsonValue δ} {after : Text}
    (skipped : skipWhitespace text = c :: rest)
    (parsed : parseValue stod (fuel + 1) text = some (v, after)) :
    v = .null ↔ c = 'n' ∨ isValueStart c = false := by
  have first : peek (c :: rest) = c := rfl
  simp only [parseValue, skipped, first] at parsed
  split at parsed
  · rename_i brace
    subst brace
    obtain ⟨_, _, same⟩ := Option.bind_eq_some_iff.mp parsed
    cases same
    exact iff_of_false (by simp) (by decide)
  · split at parsed
    · rename_i bracket
      subst bracket
      obtain ⟨_, _, same⟩ := Option.bind_eq_some_iff.mp parsed
      cases same
      exact iff_of_false (by simp) (by decide)
    · split at parsed
      · rename_i quote
        subst quote
        cases parsed
        exact iff_of_false (by simp) (by decide)
      · split at parsed
        · rename_i digit
          cases parsed
          refine iff_of_false (by simp) ?_
          rcases digit with rfl | digit
          · decide
          · rintro (rfl | other)
            · exact absurd digit (by decide)
            · simp [isValueStart, digit] at other
        · split at parsed
          · rename_i isT
            subst isT
            cases parsed
            exact iff_of_false (by simp) (by decide)
          · split at parsed
            · rename_i isF
              subst isF
              cases parsed
              exact iff_of_false (by simp) (by decide)
            · split at parsed
              · rename_i isN
                cases parsed
                exact iff_of_true rfl (.inl isN)
              · rename_i notBrace notBracket notQuote notNumber notT notF notN
                cases parsed
                rw [not_or] at notNumber
                refine iff_of_true rfl (.inr ?_)
                simp [isValueStart, notBrace, notBracket, notQuote, notNumber, notT, notF, notN]

theorem jsonParse_eq_null_iff : JsonParse stod text = .null ↔
    ∀ c, (skipWhitespace text).head? = some c → c = 'n' ∨ isValueStart c = false := by
  unfold JsonParse
  cases skipped : skipWhitespace text with
  | nil => simp
  | cons c rest =>
    simp only [List.cons_ne_nil, if_false]
    obtain ⟨⟨v, after⟩, parsed⟩ := Option.isSome_iff_exists.mp (isSome_parseValue stod (c :: rest))
    have again := skipWhitespace_cons (isJsonSpace_of_skipWhitespace skipped) rest
    simp only [parsed, Option.get_some, parseValue_eq_null_iff stod again parsed, List.head?_cons,
      Option.some.injEq, forall_eq']

/-- A text that is not JSON is parsed to null exactly where no value starts, or one that starts as
null does. -/
theorem jsonParse_rejects_iff (text : Text) :
    (¬ValidJson text → JsonParse stod text = .null) ↔
      ValidJson text ∨
        ∀ c, (skipWhitespace text).head? = some c → c = 'n' ∨ isValueStart c = false := by
  rw [jsonParse_eq_null_iff]
  by_cases valid : ValidJson text
  · simp [valid]
  · simp [valid]

end Null

section Unterminated

variable {δ : Type} {σ : Writing δ} {v : JsonValue δ} {t : Text}

/-- What is opened is closed. -/
def Closed : Phrase δ → Text → Prop
  | .value _, _ => True
  | .elements _, t | .moreElements _, t => ']' ∈ t
  | .members _, t | .moreMembers _, t => '}' ∈ t

theorem Written.closed {phrase : Phrase δ} (written : Written σ phrase t) : Closed phrase t := by
  induction written with
  | elements _ _ _ _ _ ih =>
    have closing : ']' ∈ _ := ih
    simp [Closed, closing]
  | endArray => simp [Closed]
  | nextElement _ ih => exact List.mem_cons_of_mem _ ih
  | members _ _ _ _ _ _ _ _ ih =>
    have closing : '}' ∈ _ := ih
    simp [Closed, closing]
  | endObject => simp [Closed]
  | nextMember _ ih => exact List.mem_cons_of_mem _ ih
  | _ => trivial

theorem Written.mem_of_object (written : Written σ (.value v) ('{' :: t)) : '}' ∈ t := by
  cases written with
  | number isNumber =>
    obtain ⟨c, rest, same, start, _⟩ := isNumber.cons
    cases same
    exact absurd start (by decide)
  | emptyObject => simp
  | object _ members => exact members.closed

/-- An object that is broken off is returned as far as it goes. -/
theorem jsonParse_unterminated : ¬ValidJson ['{'] ∧
    JsonParse (fun text => some (numberValue text)) ['{'] = .object [] := by
  constructor
  · rintro ⟨v, w, t, w', before, written, after, same⟩
    obtain ⟨c, rest, rfl, start⟩ := written.exists_cons
    cases w with
    | nil =>
      injection same with first rest'
      subst first
      have brace : '}' ∈ rest ++ w' := List.mem_append_left w' written.mem_of_object
      rw [show rest ++ w' = [] from rest'.symm] at brace
      cases brace
    | cons d w =>
      injection same with first
      subst first
      exact absurd (before '{' List.mem_cons_self) (by decide)
  · have skipped : skipWhitespace ['{'] = ['{'] := skipWhitespace_cons rfl []
    apply jsonParse_eq
    · simp [skipped]
    · rw [skipped, parseValue_brace]
      rfl

end Unterminated

end ProtoJS.Npm

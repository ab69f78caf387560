import ProtoJS.Npm.JsonDocument
import ProtoJS.Npm.JsonRoundTrip
import ProtoJS.Strings.Extraction

/-! # Documents pasted together

A report that is printed piece by piece, with every string as it is between two quotes. It stands
for the value that it was made of if and only if every string in it is plain, every number that is
printed is one, and no comma is left over or missing. What makes this exact is the layout: every
member and every element starts on a line of its own, and no string of JSON goes beyond its line.
-/

namespace ProtoJS.Npm

open Strings JsonParser

/-- What JSON stands for: strings with all escapes, numbers by their value, members in their
order. -/
def decoding : Writing ℚ where
  string s body := IsStringBody body ∧ JsonDecodes (fun c => [c]) body s
  number x text := numberValue text = x
  object listed members := listed = members

/-- A text is JSON, and decoding it gives a value. -/
def StandsFor (text : Text) (v : JsonValue ℚ) : Prop := WrittenText decoding v text

/-- A string without quotes, backslashes and control characters. -/
def Plain (s : Text) : Prop := ∀ c ∈ s, c ≠ '"' ∧ c ≠ '\\' ∧ 32 ≤ c.toNat

/-- What is printed of a double that is not finite. -/
def notFinite : List Text := ["nan".toList, "-nan".toList, "inf".toList, "-inf".toList]

/-- The next quote is not on this line. -/
def EndsLine (rest : Text) : Prop := ∀ front behind, rest = front ++ '"' :: behind → '\n' ∈ front

/-- How the text of a phrase is pasted together, and what has to hold for it to be right. -/
inductive Pasted : Prop → Phrase ℚ → Text → Prop
  | string {s : Text} : Pasted (Plain s) (.value (.string s)) ('"' :: (s ++ ['"']))
  | number {t : Text} (printed : IsNumber t ∨ t ∈ notFinite) :
    Pasted (IsNumber t) (.value (.number (numberValue t))) t
  | isTrue : Pasted True (.value (.bool true)) "true".toList
  | isFalse : Pasted True (.value (.bool false)) "false".toList
  | emptyArray {w : Text} (white : White w) : Pasted True (.value (.array [])) ('[' :: (w ++ [']']))
  | array {right : Prop} {vs : List (JsonValue ℚ)} {t : Text}
    (elements : Pasted right (.elements vs) t) : Pasted right (.value (.array vs)) ('[' :: t)
  | object {right : Prop} {ms : List (Text × JsonValue ℚ)} {t : Text}
    (members : Pasted right (.members ms) t) : Pasted right (.value (.object ms)) ('{' :: t)
  | elements {right others : Prop} {w w' t u : Text} {v : JsonValue ℚ} {vs : List (JsonValue ℚ)}
    (before : White w) (line : '\n' ∈ w) (value : Pasted right (.value v) t) (after : White w')
    (more : Pasted others (.moreElements vs) u) :
    Pasted (right ∧ others) (.elements (v :: vs)) (w ++ (t ++ (w' ++ u)))
  | endArray : Pasted True (.moreElements []) [']']
  | nextElement {right : Prop} {vs : List (JsonValue ℚ)} {t : Text}
    (elements : Pasted right (.elements vs) t) : Pasted right (.moreElements vs) (',' :: t)
  | members {right others : Prop} {w w' k t u : Text} {v : JsonValue ℚ}
    {ms : List (Text × JsonValue ℚ)} (before : White w) (line : '\n' ∈ w) (key : Plain k)
    (value : Pasted right (.value v) t) (after : White w')
    (more : Pasted others (.moreMembers ms) u) :
    Pasted (right ∧ others) (.members ((k, v) :: ms))
      (w ++ '"' :: (k ++ '"' :: ':' :: ' ' :: (t ++ (w' ++ u))))
  | endObject : Pasted True (.moreMembers []) ['}']
  | nextMember {right : Prop} {ms : List (Text × JsonValue ℚ)} {t : Text}
    (members : Pasted right (.members ms) t) : Pasted right (.moreMembers ms) (',' :: t)
  /-- A comma is left over. -/
  | leftOver {w : Text} (white : White w) (line : '\n' ∈ w) :
    Pasted False (.moreMembers []) (',' :: (w ++ ['}']))
  /-- A member is missing. -/
  | missing {m : Text × JsonValue ℚ} {ms : List (Text × JsonValue ℚ)} :
    Pasted False (.moreMembers (m :: ms)) ['}']

variable {right : Prop} {phrase : Phrase ℚ} {v : JsonValue ℚ} {s k t u w body rest rest' : Text}
  {vs : List (JsonValue ℚ)} {ms : List (Text × JsonValue ℚ)}

/-! ### White space -/

theorem white_nil : White [] := fun _ none => absurd none List.not_mem_nil

theorem white_blanks (n : ℕ) : White (List.replicate n ' ') := by
  intro c member
  rw [List.eq_of_mem_replicate member]
  rfl

theorem white_newline (n : ℕ) : White ('\n' :: List.replicate n ' ') := by
  intro c member
  rcases List.mem_cons.1 member with rfl | blank
  · rfl
  · exact white_blanks n c blank

/-! ### Strings -/

theorem Plain.isStringBody (plain : Plain s) : IsStringBody s := by
  induction s with
  | nil => exact .nil
  | cons c s ih =>
    rw [Plain, List.forall_mem_cons] at plain
    exact .raw plain.1.1 plain.1.2.1 plain.1.2.2 (ih plain.2)

theorem Plain.decodes (plain : Plain s) : JsonDecodes (fun c => [c]) s s :=
  jsonDecodes_self plain.isStringBody fun member => (plain _ member).2.1 rfl

/-- A string body without escapes is plain. -/
theorem IsStringBody.plain (isBody : IsStringBody body) (unescaped : '\\' ∉ body) : Plain body := by
  induction isBody with
  | nil => exact fun _ none => absurd none List.not_mem_nil
  | raw noQuote noBackslash noControl _ ih =>
    rw [Plain, List.forall_mem_cons]
    exact ⟨⟨noQuote, noBackslash, noControl⟩,
      ih fun member => unescaped (List.mem_cons_of_mem _ member)⟩
  | escape _ _ _ => exact absurd List.mem_cons_self unescaped
  | unicode _ _ _ _ => exact absurd List.mem_cons_self unescaped

/-- A quote behind plain text ends a string. -/
theorem not_isStringBody_of_plain (plain : Plain k) : ¬IsStringBody (k ++ '"' :: rest) := by
  induction k with
  | nil =>
    intro isBody
    cases isBody with
    | raw noQuote _ _ _ => exact noQuote rfl
  | cons c k ih =>
    rw [Plain, List.forall_mem_cons] at plain
    intro isBody
    obtain ⟨text, whole⟩ : ∃ text, k ++ '"' :: rest = text := ⟨_, rfl⟩
    rw [List.cons_append, whole] at isBody
    cases isBody with
    | raw _ _ _ behind => exact ih plain.2 (whole ▸ behind)
    | escape _ _ => exact plain.1.2.1 rfl
    | unicode _ _ _ => exact plain.1.2.1 rfl

/-- What decodes to a string is not in front of a quote in it. -/
theorem JsonDecodes.not_longer (decodes : JsonDecodes (fun c => [c]) body s) :
    s ≠ body ++ '"' :: rest := by
  rintro rfl
  have bound := decodes.length_le encoding_singleton
  rw [List.length_append, List.length_cons] at bound
  omega

/-- A string is found as it was pasted unless it goes on behind the quote. -/
theorem body_eq_of_not_longer (decodes : JsonDecodes (fun c => [c]) body s)
    (same : body ++ '"' :: rest = s ++ '"' :: rest')
    (ends : ∀ more, body = s ++ '"' :: more → rest' ≠ more ++ '"' :: rest) :
    body = s ∧ rest = rest' := by
  rcases List.append_eq_append_iff.mp same with ⟨more, longer, split⟩ | ⟨more, longer, split⟩
  · cases more with
    | nil =>
      rw [List.append_nil] at longer
      exact ⟨longer.symm, (List.cons.inj split).2⟩
    | cons c more =>
      rw [List.cons_append] at split
      rw [← (List.cons.inj split).1] at longer
      exact absurd longer decodes.not_longer
  · cases more with
    | nil =>
      rw [List.append_nil] at longer
      exact ⟨longer, (List.cons.inj split).2.symm⟩
    | cons c more =>
      rw [List.cons_append] at split
      rw [← (List.cons.inj split).1] at longer
      exact absurd (List.cons.inj split).2 (ends more longer)

/-- A key is found as it was pasted. -/
theorem body_eq_of_plain (plain : Plain k) (isBody : IsStringBody body)
    (decodes : JsonDecodes (fun c => [c]) body k)
    (same : body ++ '"' :: rest = k ++ '"' :: rest') : body = k ∧ rest = rest' := by
  apply body_eq_of_not_longer decodes same
  intro more longer _
  rw [longer] at isBody
  exact not_isStringBody_of_plain plain isBody

/-- A string is found as it was pasted if no quote follows it on its line. -/
theorem body_eq_of_endsLine (line : EndsLine rest') (isBody : IsStringBody body)
    (decodes : JsonDecodes (fun c => [c]) body s)
    (same : body ++ '"' :: rest = s ++ '"' :: rest') : body = s ∧ rest = rest' := by
  apply body_eq_of_not_longer decodes same
  intro more longer split
  have inside := line more rest split
  rw [longer] at isBody
  exact absurd (List.mem_append_right _ (List.mem_cons_of_mem _ inside))
    (isBody.control_not_mem (by decide))

/-! ### What follows a string or a value -/

theorem endsLine_cons {c : Char} (noQuote : c ≠ '"') (line : EndsLine rest) :
    EndsLine (c :: rest) := by
  intro front behind split
  cases front with
  | nil => exact absurd (List.cons.inj split).1 noQuote
  | cons d front =>
    rw [List.cons_append] at split
    exact List.mem_cons_of_mem d (line front behind (List.cons.inj split).2)

theorem White.ne_quote (white : White w) : ∀ c ∈ w, c ≠ '"' := by
  rintro c member rfl
  exact white.not_mem rfl member

theorem endsLine_white_append (white : White w) (line : EndsLine rest) : EndsLine (w ++ rest) := by
  have noQuote := white.ne_quote
  clear white
  induction w with
  | nil => exact line
  | cons c w ih =>
    rw [List.forall_mem_cons] at noQuote
    exact endsLine_cons noQuote.1 (ih noQuote.2)

/-- White space with a line end in it. -/
theorem endsLine_of_newline_mem (white : White w) (newline : '\n' ∈ w) (rest : Text) :
    EndsLine (w ++ rest) := by
  have noQuote := white.ne_quote
  clear white
  intro front behind split
  induction w generalizing front with
  | nil => cases newline
  | cons c w ih =>
    rw [List.forall_mem_cons] at noQuote
    cases front with
    | nil => exact absurd (List.cons.inj split).1 noQuote.1
    | cons d front =>
      rw [List.cons_append, List.cons_append, List.cons.injEq] at split
      rw [← split.1]
      rcases List.mem_cons.1 newline with same | later
      · rw [same]
        exact List.mem_cons_self
      · exact List.mem_cons_of_mem c (ih later noQuote.2 front split.2)

/-- After a value comes a comma or a closing bracket. -/
def Follows (u : Text) : Prop := ∃ c rest, u = c :: rest ∧ (c = ',' ∨ c = ']' ∨ c = '}')

theorem Follows.ends (follows : Follows u) : Ends (u ++ rest) := by
  obtain ⟨c, u, rfl, rfl | rfl | rfl⟩ := follows <;> exact ends_cons.mpr rfl

theorem Follows.skipWhitespace (follows : Follows u) : skipWhitespace (u ++ rest) = u ++ rest := by
  obtain ⟨c, u, rfl, rfl | rfl | rfl⟩ := follows <;> exact skipWhitespace_cons rfl _

theorem Written.follows_element {σ : Writing ℚ} (more : Written σ (.moreElements vs) u) :
    Follows u := by
  cases more with
  | endArray => exact ⟨_, _, rfl, .inr (.inl rfl)⟩
  | nextElement _ => exact ⟨_, _, rfl, .inl rfl⟩

theorem Written.follows_member {σ : Writing ℚ} (more : Written σ (.moreMembers ms) u) :
    Follows u := by
  cases more with
  | endObject => exact ⟨_, _, rfl, .inr (.inr rfl)⟩
  | nextMember _ => exact ⟨_, _, rfl, .inl rfl⟩

theorem Pasted.follows_element (more : Pasted right (.moreElements vs) u) : Follows u := by
  cases more with
  | endArray => exact ⟨_, _, rfl, .inr (.inl rfl)⟩
  | nextElement _ => exact ⟨_, _, rfl, .inl rfl⟩

theorem Pasted.follows_member (more : Pasted right (.moreMembers ms) u) : Follows u := by
  cases more with
  | endObject => exact ⟨_, _, rfl, .inr (.inr rfl)⟩
  | nextMember _ => exact ⟨_, _, rfl, .inl rfl⟩
  | leftOver _ _ => exact ⟨_, _, rfl, .inl rfl⟩
  | missing => exact ⟨_, _, rfl, .inr (.inr rfl)⟩

/-- The next element is on a line of its own. -/
theorem Pasted.endsLine_element (more : Pasted right (.moreElements vs) u) (line : EndsLine rest) :
    EndsLine (u ++ rest) := by
  cases more with
  | endArray => exact endsLine_cons (by decide) line
  | nextElement elements =>
    cases elements with
    | elements before newline =>
      rw [List.cons_append, List.append_assoc]
      exact endsLine_cons (by decide) (endsLine_of_newline_mem before newline _)

/-- The next member is on a line of its own. -/
theorem Pasted.endsLine_member (more : Pasted right (.moreMembers ms) u) (line : EndsLine rest) :
    EndsLine (u ++ rest) := by
  cases more with
  | endObject => exact endsLine_cons (by decide) line
  | nextMember members =>
    cases members with
    | members before newline =>
      rw [List.cons_append, List.append_assoc]
      exact endsLine_cons (by decide) (endsLine_of_newline_mem before newline _)
  | leftOver white newline =>
    rw [List.cons_append, List.append_assoc]
    exact endsLine_cons (by decide) (endsLine_of_newline_mem white newline _)
  | missing => exact endsLine_cons (by decide) line

/-! ### What a value starts with -/

theorem Written.skipWhitespace {σ : Writing ℚ} (written : Written σ (.value v) t) :
    JsonParser.skipWhitespace (t ++ rest) = t ++ rest := by
  obtain ⟨c, t, rfl, start⟩ := written.exists_cons
  exact skipWhitespace_cons (isValueStart_not start).1 _

theorem Pasted.skipWhitespace (pasted : Pasted right (.value v) t) :
    JsonParser.skipWhitespace (t ++ rest) = t ++ rest := by
  have start : ∃ c rest, t = c :: rest ∧ isJsonSpace c = false := by
    cases pasted with
    | number printed =>
      rcases printed with number | listed
      · obtain ⟨c, digits, same, start, _⟩ := number.cons
        refine ⟨c, digits, same, ?_⟩
        rcases start with rfl | digit
        · rfl
        · exact (isValueStart_not (by simp [isValueStart, digit])).1
      · simp only [notFinite, List.mem_cons, List.not_mem_nil, or_false] at listed
        rcases listed with rfl | rfl | rfl | rfl <;> exact ⟨_, _, rfl, rfl⟩
    | _ => exact ⟨_, _, rfl, rfl⟩
  obtain ⟨c, t, rfl, black⟩ := start
  exact skipWhitespace_cons black _

/-- White space is skipped alike. -/
theorem eq_of_white_append {w w' : Text} (white : White w) (white' : White w')
    (black : skipWhitespace t = t) (black' : skipWhitespace u = u) (same : w ++ t = w' ++ u) :
    t = u :=
  calc t = skipWhitespace (w ++ t) := by rw [skipWhitespace_append white, black]
    _ = skipWhitespace (w' ++ u) := by rw [same]
    _ = u := by rw [skipWhitespace_append white', black']

/-- The words for a double that is not finite have a letter where a number has a digit. -/
theorem notFinite_eq (listed : u ∈ notFinite) : ∃ sign c more,
    (sign = [] ∨ sign = ['-']) ∧ (c = 'n' ∨ c = 'i') ∧ u = sign ++ c :: more := by
  simp only [notFinite, List.mem_cons, List.not_mem_nil, or_false] at listed
  rcases listed with rfl | rfl | rfl | rfl
  · exact ⟨[], _, _, .inl rfl, .inl rfl, rfl⟩
  · exact ⟨['-'], _, _, .inr rfl, .inl rfl, rfl⟩
  · exact ⟨[], _, _, .inl rfl, .inr rfl, rfl⟩
  · exact ⟨['-'], _, _, .inr rfl, .inr rfl, rfl⟩

theorem IsNumber.append_ne (number : IsNumber t) (listed : u ∈ notFinite) :
    t ++ rest ≠ u ++ rest' := by
  obtain ⟨sign, whole, fraction, exponent, isSign, isWhole, _, _, rfl⟩ := number
  obtain ⟨c, digits, rfl⟩ := List.exists_cons_of_ne_nil isWhole.digits.1
  have digit : c.isDigit = true := isWhole.digits.2 c List.mem_cons_self
  obtain ⟨sign', d, more, isSign', letter, rfl⟩ := notFinite_eq listed
  have noDigit : c ≠ d := by
    rintro rfl
    rcases letter with rfl | rfl <;> cases digit
  intro same
  rcases isSign with rfl | rfl <;> rcases isSign' with rfl | rfl
  · exact noDigit (List.cons.inj same).1
  · rw [(List.cons.inj same).1] at digit
    cases digit
  · rcases letter with rfl | rfl <;> exact absurd (List.cons.inj same).1 (by decide)
  · exact noDigit (List.cons.inj (List.cons.inj same).2).1

/-! ### What is read back -/

/-- What is right is written that way. -/
theorem Pasted.written (pasted : Pasted right phrase t) (holds : right) :
    Written decoding phrase t := by
  induction pasted with
  | string => exact .string ⟨holds.isStringBody, holds.decodes⟩
  | number _ => exact .number holds rfl
  | isTrue => exact .isTrue
  | isFalse => exact .isFalse
  | emptyArray white => exact .emptyArray white
  | array _ ih => exact .array (ih holds)
  | object _ ih => exact .object rfl (ih holds)
  | elements before _ _ after _ ih ih' => exact .elements before (ih holds.1) after (ih' holds.2)
  | endArray => exact .endArray
  | nextElement _ ih => exact .nextElement (ih holds)
  | members before _ key _ after _ ih ih' =>
    have string : decoding.string _ _ := ⟨key.isStringBody, key.decodes⟩
    exact .members before string white_nil (white_blanks 1) (ih holds.1) after (ih' holds.2)
  | endObject => exact .endObject
  | nextMember _ ih => exact .nextMember (ih holds)
  | leftOver _ _ => exact holds.elim
  | missing => exact holds.elim

/-- Whatever is written so is what was pasted, and that was right. By induction on how it was
pasted: the two agree in each token, and so in what is left. -/
theorem Pasted.right_of_written {t' : Text} (pasted : Pasted right phrase t)
    (written : Written decoding phrase t') (ends : Ends rest) (ends' : Ends rest')
    (line : EndsLine rest') (same : t' ++ rest = t ++ rest') : right ∧ rest = rest' := by
  induction pasted generalizing t' rest rest' with
  | @string s =>
    cases written with
    | @string _ body string =>
      obtain ⟨isBody, decodes⟩ := string
      have inside : body ++ '"' :: rest = s ++ '"' :: rest' := by
        simpa using same
      obtain ⟨rfl, left⟩ := body_eq_of_endsLine line isBody decodes inside
      exact ⟨isBody.plain (decodes.unescaped_of_self encoding_singleton).1, left⟩
  | number printed =>
    cases written with
    | number isNumber _ =>
      rcases printed with number | listed
      · have read := numberText_append isNumber ends
        rw [same, numberText_append number ends', Prod.mk.injEq] at read
        exact ⟨number, read.2.symm⟩
      · exact absurd same (isNumber.append_ne listed)
  | isTrue =>
    cases written with
    | isTrue => exact ⟨trivial, List.append_cancel_left same⟩
  | isFalse =>
    cases written with
    | isFalse => exact ⟨trivial, List.append_cancel_left same⟩
  | emptyArray white =>
    cases written with
    | emptyArray white' =>
      simp only [List.append_assoc, List.cons_append, List.cons.injEq, true_and] at same
      have closed := eq_of_white_append white' white (skipWhitespace_cons rfl _)
        (skipWhitespace_cons rfl _) same
      exact ⟨trivial, (List.cons.inj closed).2⟩
    | array elements => cases elements
  | array elements ih =>
    cases written with
    | emptyArray _ => cases elements
    | array elements' => exact ih elements' ends ends' line (List.cons.inj same).2
  | object members ih =>
    cases written with
    | emptyObject _ empty =>
      cases empty
      cases members
    | object lists members' =>
      cases lists
      exact ih members' ends ends' line (List.cons.inj same).2
  | elements before newline value after more ih ih' =>
    cases written with
    | elements before' value' after' more' =>
      simp only [List.append_assoc] at same
      have start := eq_of_white_append before' before value'.skipWhitespace value.skipWhitespace
        same
      obtain ⟨holds, left⟩ := ih value'
        (ends_white_append after' more'.follows_element.ends)
        (ends_white_append after more.follows_element.ends)
        (endsLine_white_append after (more.endsLine_element line)) start
      have next := eq_of_white_append after' after more'.follows_element.skipWhitespace
        more.follows_element.skipWhitespace left
      obtain ⟨holds', left'⟩ := ih' more' ends ends' line next
      exact ⟨⟨holds, holds'⟩, left'⟩
  | endArray =>
    cases written with
    | endArray => exact ⟨trivial, List.append_cancel_left same⟩
    | nextElement elements' => cases elements'
  | nextElement elements ih =>
    cases written with
    | endArray => cases elements
    | nextElement elements' => exact ih elements' ends ends' line (List.cons.inj same).2
  | members before newline key value after more ih ih' =>
    cases written with
    | members before' key' beforeColon afterColon value' after' more' =>
      simp only [List.append_assoc, List.cons_append] at same
      have quote := eq_of_white_append before' before (skipWhitespace_cons rfl _)
        (skipWhitespace_cons rfl _) same
      obtain ⟨rfl, colon⟩ := body_eq_of_plain key key'.1 key'.2 (List.cons.inj quote).2
      have colon' := eq_of_white_append beforeColon white_nil
        (skipWhitespace_cons rfl _) (skipWhitespace_cons rfl _) colon
      have start := eq_of_white_append afterColon (white_blanks 1)
        value'.skipWhitespace value.skipWhitespace (List.cons.inj colon').2
      obtain ⟨holds, left⟩ := ih value'
        (ends_white_append after' more'.follows_member.ends)
        (ends_white_append after more.follows_member.ends)
        (endsLine_white_append after (more.endsLine_member line)) start
      have next := eq_of_white_append after' after more'.follows_member.skipWhitespace
        more.follows_member.skipWhitespace left
      obtain ⟨holds', left'⟩ := ih' more' ends ends' line next
      exact ⟨⟨holds, holds'⟩, left'⟩
  | endObject =>
    cases written with
    | endObject => exact ⟨trivial, List.append_cancel_left same⟩
    | nextMember members' => cases members'
  | nextMember members ih =>
    cases written with
    | endObject => cases members
    | nextMember members' => exact ih members' ends ends' line (List.cons.inj same).2
  | leftOver _ _ =>
    cases written with
    | endObject => exact absurd (List.cons.inj same).1 (by decide)
    | nextMember members' => cases members'
  | missing =>
    cases written with
    | nextMember _ => exact absurd (List.cons.inj same).1 (by decide)

theorem White.ends (white : White w) : Ends w := by
  have ends : Ends ([] : Text) := by simp [Ends]
  rw [← w.append_nil]
  exact ends_white_append white ends

theorem White.endsLine (white : White w) : EndsLine w := by
  rintro front behind rfl
  exact absurd rfl (white.ne_quote '"' (by simp))

/-- What is pasted together stands for its value exactly if it is right. -/
theorem Pasted.standsFor_iff (pasted : Pasted right (.value v) t) (white : White w) :
    StandsFor (t ++ w) v ↔ right := by
  constructor
  · rintro ⟨before, t', after, isWhite, written, isWhite', same⟩
    have start := eq_of_white_append isWhite white_nil written.skipWhitespace
      pasted.skipWhitespace same.symm
    exact (pasted.right_of_written written isWhite'.ends white.ends white.endsLine start).1
  · intro holds
    exact ⟨[], t, w, white_nil, pasted.written holds, white, rfl⟩

/-! ### Numbers -/

section Numbers

/-- No digit follows a leading zero. -/
theorem head?_decimal_ne {n : ℕ} (positive : 0 < n) : (decimal n).head? ≠ some '0' := by
  induction n using Nat.strong_induction_on with
  | _ n ih =>
    rw [decimal, Nat.toDigits_eq_if (by decide)]
    split
    · rw [List.head?_cons, Option.some_inj.ne, ne_eq, Nat.digitChar_eq_zero]
      omega
    · have smaller := ih (n / 10) (by omega) (by omega)
      rwa [List.head?_append_of_ne_nil _ Nat.toDigits_ne_nil]

theorem isWhole_decimal (n : ℕ) : IsWhole (decimal n) := by
  rcases Nat.eq_zero_or_pos n with rfl | positive
  · exact .inl (Nat.toDigits_zero 10)
  · exact .inr ⟨⟨decimal_ne_nil, fun _ member => isDigit_of_mem_decimal member⟩,
      head?_decimal_ne positive⟩

theorem isNumber_signedDecimal (i : ℤ) : IsNumber (signedDecimal i) := by
  rw [signedDecimal]
  split
  · exact ⟨['-'], decimal i.natAbs, [], [], .inr rfl, isWhole_decimal _, .inl rfl, .inl rfl,
      by simp⟩
  · exact ⟨[], decimal i.natAbs, [], [], .inl rfl, isWhole_decimal _, .inl rfl, .inl rfl,
      by simp⟩

theorem signedDecimal_natCast (n : ℕ) : signedDecimal n = decimal n := by
  rw [signedDecimal, if_neg (by omega), Int.natAbs_natCast]

theorem head?_decimal_ne_minus (n : ℕ) : (decimal n).head? ≠ some '-' := by
  intro same
  have digit := isDigit_of_mem_decimal (List.mem_of_head? same)
  cases digit

/-- Digits alone are their number. -/
theorem numberValue_decimal (n : ℕ) : numberValue (decimal n) = n := by
  have noMinus := head?_decimal_ne_minus n
  have noMark : ∀ c ∈ decimal n, c ≠ 'e' ∧ c ≠ 'E' ∧ c ≠ '.' := by
    intro c member
    have digit := isDigit_of_mem_decimal member
    refine ⟨?_, ?_, ?_⟩ <;>
      · rintro rfl
        cases digit
  have significand : (decimal n).takeWhile (fun c => c ≠ 'e' ∧ c ≠ 'E') = decimal n :=
    List.takeWhile_eq_self_iff.mpr fun c member => by simp [noMark c member]
  have noExponent : (decimal n).dropWhile (fun c => c ≠ 'e' ∧ c ≠ 'E') = [] :=
    List.dropWhile_eq_nil_iff.mpr fun c member => by simp [noMark c member]
  have whole : (decimal n).takeWhile (· ≠ '.') = decimal n :=
    List.takeWhile_eq_self_iff.mpr fun c member => by simp [noMark c member]
  have noFraction : (decimal n).dropWhile (· ≠ '.') = [] :=
    List.dropWhile_eq_nil_iff.mpr fun c member => by simp [noMark c member]
  have digits : Nat.ofDigitChars 10 (decimal n) 0 = n := Nat.ofDigitChars_ten_toDigits
  simp only [numberValue, noMinus, if_false, significand, noExponent, whole, noFraction]
  simp [exponentValue, digits]

theorem numberValue_minus (n : ℕ) : numberValue ('-' :: decimal n) = -n := by
  have value := numberValue_decimal n
  have noMinus := head?_decimal_ne_minus n
  simp only [numberValue, noMinus, if_false] at value
  simp only [numberValue, List.head?_cons, if_true, List.tail_cons, value]

theorem numberValue_signedDecimal (i : ℤ) : numberValue (signedDecimal i) = i := by
  rw [signedDecimal]
  split
  · rename_i negative
    have same : i = -(i.natAbs : ℤ) := by omega
    rw [numberValue_minus, same, Int.natAbs_neg, Int.natAbs_natCast, Int.cast_neg,
      Int.cast_natCast]
  · rename_i positive
    have same : i = (i.natAbs : ℤ) := by omega
    rw [numberValue_decimal, same, Int.natAbs_natCast, Int.cast_natCast]

/-- How doubles are printed: as a number, or as a word if they are not finite. -/
structure PrintedDoubles (ν : Type) where
  isFinite : ν → Bool
  render : ν → Text
  render_finite : ∀ x, isFinite x = true → IsNumber (render x)
  render_notFinite : ∀ x, isFinite x = false → render x ∈ notFinite

variable {ν : Type} (doubles : PrintedDoubles ν)

/-- The number that is printed of a double. -/
def PrintedDoubles.value (x : ν) : ℚ := numberValue (doubles.render x)

theorem PrintedDoubles.isNumber_iff (x : ν) :
    IsNumber (doubles.render x) ↔ doubles.isFinite x = true := by
  constructor
  · intro number
    by_contra infinite
    have listed := doubles.render_notFinite x (Bool.eq_false_iff.mpr infinite)
    have same : doubles.render x ++ [] = doubles.render x ++ [] := rfl
    exact number.append_ne listed same
  · exact doubles.render_finite x

theorem pasted_double (x : ν) :
    Pasted (doubles.isFinite x = true) (.value (.number (doubles.value x))) (doubles.render x) := by
  rw [← doubles.isNumber_iff]
  refine .number ?_
  cases finite : doubles.isFinite x with
  | true => exact .inl (doubles.render_finite x finite)
  | false => exact .inr (doubles.render_notFinite x finite)

theorem pasted_integer (i : ℤ) : Pasted True (.value (.number i)) (signedDecimal i) := by
  have number := isNumber_signedDecimal i
  have pasted := Pasted.number (.inl number)
  rwa [eq_true number, numberValue_signedDecimal] at pasted

end Numbers

/-! ### Lines -/

section Lines

/-- The text in front of a value: the key of a member, behind so many blanks. -/
def field (n : ℕ) (key rest : Text) : Text :=
  List.replicate n ' ' ++ '"' :: (key ++ '"' :: ':' :: ' ' :: rest)

/-- A flag, as it is printed. -/
def flag (b : Bool) : Text := if b then "true".toList else "false".toList

/-- Objects behind blanks, a comma after each but the last. -/
def listing {α : Type} (n : ℕ) (object : α → Text) : List α → Text
  | [] => []
  | a :: items =>
    List.replicate n ' ' ++ (object a ++
      (if items = [] then '\n' :: listing n object items
        else ',' :: '\n' :: listing n object items))

theorem Pasted.congr {right' : Prop} (pasted : Pasted right phrase t) (same : right ↔ right') :
    Pasted right' phrase t := propext same ▸ pasted

theorem pasted_flag (b : Bool) : Pasted True (.value (.bool b)) (flag b) := by
  cases b with
  | true => exact .isTrue
  | false => exact .isFalse

theorem pasted_quotedWord (s : Text) : Pasted (Plain s) (.value (.string s)) (quotedWord s) :=
  .string

/-- A member on a line of its own, directly followed by what comes next. -/
theorem pasted_field {others : Prop} {n : ℕ} (key : Plain k) (value : Pasted right (.value v) t)
    (more : Pasted others (.moreMembers ms) u) :
    Pasted (right ∧ others) (.members ((k, v) :: ms)) ('\n' :: field n k (t ++ u)) :=
  .members (white_newline n) List.mem_cons_self key value white_nil more

/-- The last member on a line of its own, the next line in front of what comes next. -/
theorem pasted_lastField {others : Prop} {n m : ℕ} (key : Plain k)
    (value : Pasted right (.value v) t) (more : Pasted others (.moreMembers ms) u) :
    Pasted (right ∧ others) (.members ((k, v) :: ms))
      ('\n' :: field n k (t ++ '\n' :: (List.replicate m ' ' ++ u))) :=
  .members (white_newline n) List.mem_cons_self key value (white_newline m) more

variable {α : Type} {n : ℕ} {object : α → Text} {value : α → JsonValue ℚ} {correct : α → Prop}

/-- Objects in an array, each on lines of its own. By induction on what follows the first. -/
theorem pasted_elements (m : ℕ)
    (each : ∀ a, Pasted (correct a) (.value (value a)) (object a)) (a : α) (items : List α) :
    Pasted (∀ b ∈ a :: items, correct b) (.elements ((a :: items).map value))
      ('\n' :: (listing n object (a :: items) ++ (List.replicate m ' ' ++ [']']))) := by
  induction items generalizing a with
  | nil =>
    have only := Pasted.elements (white_newline n) List.mem_cons_self (each a) (white_newline m)
      .endArray
    rw [listing, if_pos rfl, listing, List.append_assoc, List.append_assoc]
    exact only.congr (by simp)
  | cons b items ih =>
    have first := Pasted.elements (white_newline n) List.mem_cons_self (each a) white_nil
      (.nextElement (ih b))
    rw [listing, if_neg (List.cons_ne_nil b items), List.append_assoc, List.append_assoc]
    exact first.congr List.forall_mem_cons.symm

/-- An array of objects. -/
theorem pasted_listing (m : ℕ) (each : ∀ a, Pasted (correct a) (.value (value a)) (object a))
    (items : List α) :
    Pasted (∀ a ∈ items, correct a) (.value (.array (items.map value)))
      ('[' :: '\n' :: (listing n object items ++ (List.replicate m ' ' ++ [']']))) := by
  cases items with
  | nil => exact (Pasted.emptyArray (white_newline m)).congr (by simp)
  | cons a items => exact .array (pasted_elements m each a items)

end Lines

end ProtoJS.Npm

import ProtoJS.Http.ResponseParser
import ProtoJS.Machine.OrderedMap
import ProtoJS.Strings.ByteText

/-! # What a `ServerResponse` sends

`writeHead` and `write` fill the object, and every `end` sends all of it: `headersSent` is set by
`end` and looked at by `writeHead` alone. Names and values go out as they were given, with a
`Content-Type` unless that very name was given and always with a `Content-Length`. Strings arrive as
the bytes `JS_ToCString` makes of them and are read up to the first NUL.
-/

namespace ProtoJS.Http

open Strings OrderedMap

/-! ### The object and its methods -/

/-- `HTTPResponseData`, without its emitter. -/
structure HTTPResponseData where
  statusCode : Int32 := 200
  headers : List Field := []
  headersSent : Bool := false
  body : Text := []
  clientFd : ℤ
deriving DecidableEq, Repr

def contentType : Text := "Content-Type".toList

/-- The call `writeHead(statusCode, headers)`, with the own properties of the headers object in
their order, none if no object is given; `write(data)`; `end()` or `end(data)`. -/
inductive Call where
  | writeHead (statusCode : Int32) (headers : List Field)
  | write (data : Text)
  | endWith (data : Option Text)
deriving DecidableEq, Repr

def responseWriteHead (data : HTTPResponseData) (statusCode : Int32) (headers : List Field) :
    HTTPResponseData :=
  if data.headersSent then data
  else
    { data with
      statusCode
      headers := assignAll data.headers (headers.map (Prod.map cString cString)) }

def responseWrite (data : HTTPResponseData) (text : Text) : HTTPResponseData :=
  { data with body := data.body ++ cString text }

def statusLine (statusCode : Int32) : Text :=
  httpVersion ++ (signedDecimal statusCode.toInt ++ " OK".toList)

/-- The fields of the response, in the order they are written. -/
def HTTPResponseData.fields (data : HTTPResponseData) : List Field :=
  (if find data.headers contentType = none then
      [(contentType, "text/plain".toList)]
    else []) ++ data.headers ++ [(contentLength, decimal data.body.length)]

/-- `responseStr`. -/
def HTTPResponseData.text (data : HTTPResponseData) : Text :=
  statusLine data.statusCode ++ crlf ++ (data.fields.flatMap fieldLine ++ crlf ++ data.body)

/-- The object afterwards, and what `write` sends; the connection takes all of it. -/
def responseEnd (data : HTTPResponseData) (text : Option Text) : HTTPResponseData × Text :=
  if 0 ≤ data.clientFd then
    let data := text.elim data (responseWrite data)
    ({ data with headersSent := true }, data.text)
  else (data, [])

def Call.apply (data : HTTPResponseData) : Call → HTTPResponseData × Text
  | .writeHead statusCode headers => (responseWriteHead data statusCode headers, [])
  | .write text => (responseWrite data text, [])
  | .endWith text => responseEnd data text

def sentFrom : HTTPResponseData → List Call → Text
  | _, [] => []
  | data, call :: calls => (call.apply data).2 ++ sentFrom (call.apply data).1 calls

/-- What is sent to the connection with the descriptor `clientFd`. -/
def sent (clientFd : ℕ) (calls : List Call) : Text := sentFrom { clientFd } calls

/-! ### What was asked for -/

namespace Call

def isEnd : Call → Bool
  | .endWith _ => true
  | _ => false

def statusCode : Call → Option Int32
  | .writeHead statusCode _ => some statusCode
  | _ => none

def headers : Call → List Field
  | .writeHead _ headers => headers
  | _ => []

def data : Call → Text
  | .writeHead _ _ => []
  | .write data => data
  | .endWith data => data.getD []

end Call

/-- The calls up to and including the first `end`. -/
def untilEnd : List Call → List Call
  | [] => []
  | call :: calls => if call.isEnd then [call] else call :: untilEnd calls

def givenStatus (calls : List Call) : Int32 :=
  ((untilEnd calls).filterMap Call.statusCode).getLast?.getD 200

/-- The headers given, each with the value given last. -/
def givenHeaders (calls : List Call) : List Field :=
  assignAll [] ((untilEnd calls).flatMap Call.headers)

def givenBody (calls : List Call) : Text := (untilEnd calls).flatMap Call.data

/-- The connection is sent the one response that was asked for. -/
def OneResponse (clientFd : ℕ) (calls : List Call) : Prop :=
  sent clientFd calls = sent clientFd (untilEnd calls) ∧
  ∃ response, parseResponse (sent clientFd calls) = some response ∧
    response.status = (givenStatus calls).toInt ∧
    (∀ field ∈ givenHeaders calls, named response.fields field.1 = [field.2]) ∧
    named response.fields contentLength = [decimal (givenBody calls).length] ∧
    response.body = givenBody calls

/-- One `end`, a final status, headers that can be written and differ in more than case and leave
the framing to the server, and a body without NUL, empty where the status allows none. -/
structure WellBehaved (calls : List Call) : Prop where
  one_end : calls.countP Call.isEnd = 1
  status : 200 ≤ (givenStatus calls).toInt ∧ (givenStatus calls).toInt ≤ 999
  bodiless : Bodiless (givenStatus calls).toInt.toNat → givenBody calls = []
  clean : ∀ field ∈ givenHeaders calls, Clean field
  apart : ∀ field ∈ givenHeaders calls, ∀ field' ∈ givenHeaders calls,
    lower field.1 = lower field'.1 → field = field'
  length : ∀ field ∈ givenHeaders calls, lower field.1 ≠ lower contentLength
  encoding : ∀ field ∈ givenHeaders calls, lower field.1 ≠ lower transferEncoding
  type : ∀ field ∈ givenHeaders calls, lower field.1 = lower contentType →
    field.1 = contentType
  body : '\x00' ∉ givenBody calls

/-! ### What the calls send -/

/-- An object whose calls so far have given it its content. -/
def gathered (data : HTTPResponseData) (calls : List Call) : HTTPResponseData :=
  { data with
    statusCode := (calls.filterMap Call.statusCode).getLast?.getD data.statusCode
    headers := assignAll data.headers
      ((calls.flatMap Call.headers).map (Prod.map cString cString))
    body := data.body ++ calls.flatMap fun call => cString call.data }

/-- The object as the first `end` sends it. -/
def answer (clientFd : ℕ) (calls : List Call) : HTTPResponseData :=
  gathered { clientFd } (untilEnd calls)

section Sent

variable {data : HTTPResponseData} {call : Call} {calls before later : List Call} {clientFd : ℕ}

theorem statusLine_ne_nil (statusCode : Int32) : statusLine statusCode ≠ [] :=
  List.append_ne_nil_of_left_ne_nil (by decide) _

theorem HTTPResponseData.text_ne_nil : data.text ≠ [] := by
  rw [HTTPResponseData.text, List.append_assoc]
  exact List.append_ne_nil_of_left_ne_nil (statusLine_ne_nil _) _

@[simp] theorem clientFd_apply : (call.apply data).1.clientFd = data.clientFd := by
  cases call with
  | writeHead statusCode headers =>
    rw [Call.apply, responseWriteHead]
    split
    · rfl
    · rfl
  | write text => rfl
  | endWith text =>
    rw [Call.apply, responseEnd]
    split
    · cases text with
      | none => rfl
      | some text => rfl
    · rfl

/-- Nothing but an `end` sends. -/
theorem sent_apply_eq_nil_iff (opened : 0 ≤ data.clientFd) :
    (call.apply data).2 = [] ↔ call.isEnd = false := by
  cases call with
  | writeHead statusCode headers => simp [Call.apply, Call.isEnd]
  | write text => simp [Call.apply, Call.isEnd]
  | endWith text => simp [Call.apply, responseEnd, opened, HTTPResponseData.text_ne_nil, Call.isEnd]

theorem sentFrom_eq_nil_iff (opened : 0 ≤ data.clientFd) :
    sentFrom data calls = [] ↔ calls.countP Call.isEnd = 0 := by
  induction calls generalizing data with
  | nil => simp [sentFrom]
  | cons call calls ih =>
    rw [sentFrom, List.append_eq_nil_iff, sent_apply_eq_nil_iff opened,
      ih (by rw [clientFd_apply]; exact opened), List.countP_cons]
    cases call.isEnd with
    | false => simp
    | true => simp

theorem gathered_cons (unsent : data.headersSent = false) (early : call.isEnd = false) :
    gathered data (call :: calls) = gathered (call.apply data).1 calls := by
  cases call with
  | writeHead statusCode headers =>
    simp [gathered, Call.apply, responseWriteHead, unsent, Call.statusCode, Call.headers, Call.data,
      assignAll, List.getLast?_cons, cString]
  | write text =>
    simp [gathered, Call.apply, responseWrite, Call.statusCode, Call.headers, Call.data]
  | endWith text => cases early

theorem headersSent_apply (early : call.isEnd = false) :
    (call.apply data).1.headersSent = data.headersSent := by
  cases call with
  | writeHead statusCode headers =>
    rw [Call.apply, responseWriteHead]
    split
    · rfl
    · rfl
  | write text => rfl
  | endWith text => cases early

/-- The first `end` sends what the calls up to it have given. -/
theorem sentFrom_append (unsent : data.headersSent = false) (opened : 0 ≤ data.clientFd)
    (early : ∀ call ∈ before, call.isEnd = false) (text : Option Text) :
    ∃ data', 0 ≤ data'.clientFd ∧ sentFrom data (before ++ .endWith text :: later) =
      (gathered data (before ++ [.endWith text])).text ++ sentFrom data' later := by
  induction before generalizing data with
  | nil =>
    refine ⟨((Call.endWith text).apply data).1, by rw [clientFd_apply]; exact opened, ?_⟩
    rw [List.nil_append, sentFrom]
    congr 1
    have sends : (Call.apply data (.endWith text)).2 =
        (text.elim data (responseWrite data)).text := by
      rw [Call.apply, responseEnd, if_pos opened]
    rw [sends]
    cases text with
    | none => simp [gathered, Call.statusCode, Call.headers, Call.data, assignAll, cString]
    | some text =>
      simp [gathered, Call.statusCode, Call.headers, Call.data, assignAll, responseWrite]
  | cons call before ih =>
    rw [List.forall_mem_cons] at early
    have silent := (sent_apply_eq_nil_iff opened).mpr early.1
    obtain ⟨data', opened', same⟩ := @ih (call.apply data).1
      (by rw [headersSent_apply early.1, unsent]) (by rw [clientFd_apply]; exact opened) early.2
    refine ⟨data', opened', ?_⟩
    rw [List.cons_append, sentFrom, silent, List.nil_append, same, List.cons_append,
      gathered_cons unsent early.1]

theorem exists_split (ends : calls.countP Call.isEnd ≠ 0) : ∃ before text later,
    calls = before ++ .endWith text :: later ∧ ∀ call ∈ before, call.isEnd = false := by
  induction calls with
  | nil => exact absurd rfl ends
  | cons call calls ih =>
    cases first : call.isEnd with
    | true =>
      obtain ⟨text, rfl⟩ : ∃ text, call = .endWith text := by
        cases call with
        | writeHead statusCode headers => cases first
        | write data => cases first
        | endWith text => exact ⟨text, rfl⟩
      exact ⟨[], text, calls, rfl, by simp⟩
    | false =>
      obtain ⟨before, text, later, rfl, early⟩ := ih (by simpa [first] using ends)
      exact ⟨call :: before, text, later, rfl, List.forall_mem_cons.mpr ⟨first, early⟩⟩

theorem untilEnd_append (early : ∀ call ∈ before, call.isEnd = false) (text : Option Text) :
    untilEnd (before ++ .endWith text :: later) = before ++ [.endWith text] := by
  induction before with
  | nil => rfl
  | cons call before ih =>
    rw [List.forall_mem_cons] at early
    simp [untilEnd, early.1, ih early.2]

theorem sent_untilEnd (ends : calls.countP Call.isEnd ≠ 0) :
    sent clientFd (untilEnd calls) = (answer clientFd calls).text := by
  obtain ⟨before, text, later, rfl, early⟩ := exists_split ends
  obtain ⟨data', _, same⟩ := @sentFrom_append { clientFd } before [] rfl (Int.natCast_nonneg _)
    early text
  rw [answer, untilEnd_append early, sent, same, sentFrom, List.append_nil]

/-- What comes after the first `end` sends nothing if and only if it holds no other. -/
theorem sent_eq_sent_untilEnd_iff (ends : calls.countP Call.isEnd ≠ 0) :
    sent clientFd calls = sent clientFd (untilEnd calls) ↔ calls.countP Call.isEnd = 1 := by
  rw [sent_untilEnd ends]
  obtain ⟨before, text, later, rfl, early⟩ := exists_split ends
  obtain ⟨data', opened, same⟩ := @sentFrom_append { clientFd } before later rfl
    (Int.natCast_nonneg _) early text
  have noneBefore : before.countP Call.isEnd = 0 := by
    rw [List.countP_eq_zero]
    intro call member
    rw [early call member]
    exact Bool.false_ne_true
  rw [answer, untilEnd_append early, sent, same, List.append_right_eq_self,
    sentFrom_eq_nil_iff opened, List.countP_append, noneBefore, List.countP_cons]
  simp [Call.isEnd]

end Sent

/-! ### Reading the response -/

section Reading

variable {data : HTTPResponseData} {calls : List Call} {clientFd : ℕ} {text : Text}

theorem parseStatusLine_statusLine (statusCode : Int32) :
    parseStatusLine (statusLine statusCode) =
      if 100 ≤ statusCode.toInt ∧ statusCode.toInt ≤ 999 then some statusCode.toInt.toNat
      else none := by
  unfold statusLine
  rw [signedDecimal]
  split
  · rw [List.cons_append, parseStatusLine_minus, if_neg (by omega)]
  · have reason : " OK".toList = ' ' :: "OK".toList := rfl
    rw [reason, parseStatusLine_decimal]
    refine if_congr (by omega) ?_ rfl
    congr 1
    omega

theorem isPlain_of_isDigit {c : Char} (digit : c.isDigit) : isPlain c := by
  apply isPlain_of_isTchar
  rw [isTchar, Char.isAlphanum, digit, Bool.or_true]
  rfl

theorem plain_decimal (n : ℕ) : ∀ c ∈ decimal n, isPlain c :=
  fun _ member => isPlain_of_isDigit (isDigit_of_mem_decimal member)

theorem plain_statusLine (statusCode : Int32) : ∀ c ∈ statusLine statusCode, isPlain c := by
  have version : httpVersion.all isPlain := by decide
  have reason : " OK".toList.all isPlain := by decide
  rw [List.all_eq_true] at version reason
  intro c member
  rcases List.mem_append.mp member with inVersion | member
  · exact version c inVersion
  · rcases List.mem_append.mp member with inCode | inReason
    · rw [signedDecimal] at inCode
      split at inCode
      · rcases List.mem_cons.mp inCode with rfl | digit
        · rfl
        · exact plain_decimal _ c digit
      · exact plain_decimal _ c inCode
    · exact reason c inReason

theorem clean_length (n : ℕ) : Clean (contentLength, decimal n) := by
  have token : contentLength.all isTchar := by decide
  have present : contentLength ≠ [] := by decide
  refine ⟨present, List.all_eq_true.mp token, plain_decimal n, ?_⟩
  apply trimBlanks_eq_self
  intro c member
  have digit := isDigit_of_mem_decimal member
  rw [isBlank, Bool.or_eq_false_iff, decide_eq_false_iff_not, decide_eq_false_iff_not]
  constructor
  · rintro rfl
    exact absurd digit (by decide)
  · rintro rfl
    exact absurd digit (by decide)

theorem clean_type : Clean (contentType, "text/plain".toList) := by
  have token : contentType.all isTchar := by decide
  have value : "text/plain".toList.all isPlain := by decide
  exact ⟨by decide, List.all_eq_true.mp token, List.all_eq_true.mp value, by decide⟩

theorem mem_fields {field : Field} : field ∈ data.fields ↔
    (find data.headers contentType = none ∧ field = (contentType, "text/plain".toList)) ∨
      field ∈ data.headers ∨ field = (contentLength, decimal data.body.length) := by
  rw [HTTPResponseData.fields, List.mem_append, List.mem_append, List.mem_singleton, or_assoc]
  refine or_congr_left ?_
  split
  · rename_i absent
    simp only [List.mem_singleton, absent, true_and]
  · rename_i present
    simp only [List.not_mem_nil, present, false_and]

theorem clean_fields (clean : ∀ field ∈ data.headers, Clean field) :
    ∀ field ∈ data.fields, Clean field := by
  intro field member
  rcases mem_fields.mp member with ⟨_, rfl⟩ | given | rfl
  · exact clean_type
  · exact clean field given
  · exact clean_length _

/-- How an object whose headers are clean is read. -/
theorem parseResponse_text (clean : ∀ field ∈ data.headers, Clean field) {response : Response} :
    parseResponse data.text = some response ↔
      (100 ≤ data.statusCode.toInt ∧ data.statusCode.toInt ≤ 999) ∧
      frame data.statusCode.toInt.toNat data.fields data.body = some response.body ∧
      response.status = data.statusCode.toInt.toNat ∧ response.fields = data.fields := by
  rw [HTTPResponseData.text, parseResponse_append (plain_statusLine _) (clean_fields clean),
    parseStatusLine_statusLine]
  obtain ⟨status, fields, body⟩ := response
  split
  · rename_i bounds
    simp only [Option.bind_some, Option.map_eq_some_iff, Response.mk.injEq, bounds, and_self,
      true_and]
    constructor
    · rintro ⟨_, framed, rfl, rfl, rfl⟩
      exact ⟨framed, rfl, rfl⟩
    · rintro ⟨framed, rfl, rfl⟩
      exact ⟨body, framed, rfl, rfl, rfl⟩
  · rename_i outside
    simp [outside]

theorem cString_eq_self_of_plain (plain : ∀ c ∈ text, isPlain c) : cString text = text := by
  rw [cString_eq_self_iff]
  intro member
  exact absurd (plain _ member) (by decide)

/-- Headers that are clean in the end were not cut. -/
theorem headers_answer (clean : ∀ field ∈ givenHeaders calls, Clean field) :
    (answer clientFd calls).headers = givenHeaders calls := by
  have names : ∀ field ∈ (untilEnd calls).flatMap Call.headers, cString field.1 = field.1 := by
    intro field member
    have present : field.1 ∈ (givenHeaders calls).map Prod.fst :=
      (mem_keys_assignAll sorted_nil).mpr (.inr (List.mem_map_of_mem member))
    obtain ⟨given, inMap, same⟩ := List.mem_map.mp present
    rw [← same]
    exact cString_eq_self_of_plain fun c inName =>
      isPlain_of_isTchar ((clean given inMap).name c inName)
  have uncut : ((untilEnd calls).flatMap Call.headers).map (Prod.map cString cString) =
      ((untilEnd calls).flatMap Call.headers).map (Prod.map id cString) := by
    refine List.map_congr_left fun field member => ?_
    rw [Prod.map, Prod.map, names field member, id]
  have values : ∀ field ∈ givenHeaders calls, Prod.map id cString field = id field := by
    intro field member
    rw [Prod.map, id, id, cString_eq_self_of_plain (clean field member).value]
  calc (answer clientFd calls).headers
      = assignAll [] (((untilEnd calls).flatMap Call.headers).map (Prod.map id cString)) := by
        rw [← uncut]
        rfl
    _ = (givenHeaders calls).map (Prod.map id cString) := @assignAll_mapValues _ _ _ [] _ _ cString
    _ = givenHeaders calls := (List.map_congr_left values).trans (List.map_id _)

/-- The body is the data that was given if and only if that has no NUL. -/
theorem body_answer_iff :
    (answer clientFd calls).body = givenBody calls ↔ '\x00' ∉ givenBody calls := by
  have cut : (answer clientFd calls).body =
      (untilEnd calls).flatMap fun call => cString call.data := rfl
  rw [cut]
  constructor
  · intro same
    rw [← same, List.mem_flatMap]
    rintro ⟨call, _, member⟩
    exact nul_notMem_cString member
  · intro absent
    rw [givenBody] at absent ⊢
    simp only [List.flatMap]
    congr 1
    refine List.map_congr_left fun call member => ?_
    rw [cString_eq_self_iff]
    intro inside
    exact absent (List.mem_flatMap.mpr ⟨call, member, inside⟩)

/-- Whatever the object adds is the only field of its name if the headers given are. -/
theorem nodup_fields_iff : (data.fields.map fun field => lower field.1).Nodup ↔
    (∀ field ∈ data.headers, named data.fields field.1 = [field.2]) ∧
      named data.fields contentLength = [decimal data.body.length] := by
  rw [nodup_names_iff]
  constructor
  · intro only
    refine ⟨?_, only _ (mem_fields.mpr (.inr (.inr rfl)))⟩
    intro field member
    exact only field (mem_fields.mpr (.inr (.inl member)))
  · rintro ⟨given, length⟩ field member
    rcases mem_fields.mp member with ⟨absent, rfl⟩ | inHeaders | rfl
    · -- a header of the same name would not be alone
      have fields : data.fields = (contentType, "text/plain".toList) ::
          (data.headers ++ [(contentLength, decimal data.body.length)]) := by
        rw [HTTPResponseData.fields, if_pos absent, List.append_assoc]
        rfl
      have differ : lower contentLength ≠ lower contentType := by decide
      have first (name : Text) (same : lower name = lower contentType) :
          named data.fields name = "text/plain".toList ::
            named (data.headers ++ [(contentLength, decimal data.body.length)]) contentType := by
        rw [named_congr same, fields, named_cons, if_pos rfl]
        rfl
      rw [first _ rfl, List.cons_eq_cons]
      refine ⟨rfl, named_eq_nil_iff.mpr ?_⟩
      intro other inRest same
      rcases List.mem_append.mp inRest with inHeaders | last
      · have alone := given other inHeaders
        rw [first _ same, List.cons_eq_cons, named_eq_nil_iff] at alone
        exact alone.2 other inRest same
      · rw [List.mem_singleton] at last
        rw [last] at same
        exact differ same
    · exact given field inHeaders
    · exact length

/-- Each header given is the only one of its name, and so is the length, if and only if the names
given differ in more than case, and none of them stands for one that the server adds. -/
theorem named_fields_iff (sorted : Sorted data.headers) :
    (∀ field ∈ data.headers, named data.fields field.1 = [field.2]) ∧
        named data.fields contentLength = [decimal data.body.length] ↔
      (∀ field ∈ data.headers, ∀ field' ∈ data.headers,
        lower field.1 = lower field'.1 → field = field') ∧
      (∀ field ∈ data.headers, lower field.1 ≠ lower contentLength) ∧
      ∀ field ∈ data.headers, lower field.1 = lower contentType → field.1 = contentType := by
  have differ : lower contentType ≠ lower contentLength := by decide
  have injective : (data.headers.map fun field => lower field.1).Nodup ↔
      ∀ field ∈ data.headers, ∀ field' ∈ data.headers,
        lower field.1 = lower field'.1 → field = field' :=
    List.nodup_map_iff_inj_on (List.Nodup.of_map _ sorted.nodup)
  have withLength : ((data.headers ++ [(contentLength, decimal data.body.length)]).map fun field =>
      lower field.1).Nodup ↔
      (∀ field ∈ data.headers, ∀ field' ∈ data.headers,
        lower field.1 = lower field'.1 → field = field') ∧
      ∀ field ∈ data.headers, lower field.1 ≠ lower contentLength := by
    rw [List.map_append, List.nodup_append, injective]
    simp only [List.map_cons, List.map_nil, List.nodup_singleton, true_and, List.mem_singleton,
      forall_eq, List.forall_mem_map]
  rw [← nodup_fields_iff, ← and_assoc, ← withLength, HTTPResponseData.fields, List.append_assoc]
  cases found : find data.headers contentType with
  | none =>
    rw [find_eq_none_iff] at found
    rw [if_pos rfl, List.singleton_append, List.map_cons, List.nodup_cons, and_comm,
      and_congr_right_iff]
    intro _
    constructor
    · intro apart field member same
      refine absurd ?_ apart
      rw [← same]
      exact List.mem_map_of_mem (List.mem_append_left _ member)
    · intro exactly member
      obtain ⟨field, inRest, same⟩ := List.mem_map.mp member
      rcases List.mem_append.mp inRest with inHeaders | last
      · exact found field inHeaders (exactly field inHeaders same)
      · rw [List.mem_singleton] at last
        rw [last] at same
        exact differ same.symm
  | some value =>
    obtain ⟨given, member, same⟩ : ∃ given ∈ data.headers, given.1 = contentType := by
      by_contra absent
      push Not at absent
      rw [find_eq_none_iff.mpr absent] at found
      cases found
    rw [if_neg (Option.some_ne_none _), List.nil_append, iff_self_and, withLength]
    intro ⟨apart, _⟩ field inHeaders sameLower
    rw [apart field inHeaders given member (by rw [sameLower, same]), same]

end Reading

/-! ### One response -/

section OneResponse

variable {clientFd : ℕ} {calls : List Call}

theorem sorted_givenHeaders : Sorted (givenHeaders calls) := sorted_assignAll sorted_nil

theorem ends_of_oneResponse (one : OneResponse clientFd calls) : calls.countP Call.isEnd ≠ 0 := by
  obtain ⟨_, response, parsed, _⟩ := one
  intro silent
  have opened : 0 ≤ (clientFd : ℤ) := Int.natCast_nonneg _
  rw [sent, (sentFrom_eq_nil_iff opened).mpr silent] at parsed
  cases parsed

theorem wellBehaved_of_oneResponse (one : OneResponse clientFd calls) : WellBehaved calls := by
  have ends := ends_of_oneResponse one
  obtain ⟨once, response, parsed, _, headers, length, body⟩ := one
  rw [once, sent_untilEnd ends] at parsed
  have clean : ∀ field ∈ givenHeaders calls, Clean field := by
    intro field member
    exact clean_of_named (clean_of_parseResponse parsed) (headers field member)
  have given : (answer clientFd calls).headers = givenHeaders calls := headers_answer clean
  -- the headers went out as they were given, so what was read is known
  obtain ⟨bounds, framed, _, fields⟩ := (parseResponse_text (by rwa [given])).mp parsed
  obtain ⟨final, unencoded, ⟨declared, only, _, _, measured⟩, asBody⟩ := frame_eq_some_iff.mp framed
  have wholeBody : (answer clientFd calls).body = givenBody calls := asBody.trans body
  rw [fields, ← given] at headers
  rw [fields, ← wholeBody] at length
  obtain ⟨apart, unmeasured, exactly⟩ :=
    (named_fields_iff (by rw [given]; exact sorted_givenHeaders)).mp ⟨headers, length⟩
  rw [given] at apart unmeasured exactly
  have status : (answer clientFd calls).statusCode = givenStatus calls := rfl
  rw [status] at bounds final measured
  refine ⟨(sent_eq_sent_untilEnd_iff ends).mp once, ⟨by omega, bounds.2⟩, ?_, clean, apart,
    unmeasured, ?_, exactly, body_answer_iff.mp wholeBody⟩
  · intro bodiless
    rw [if_pos bodiless, wholeBody] at measured
    exact List.length_eq_zero_iff.mp measured
  · intro field member
    rw [named_eq_nil_iff] at unencoded
    exact unencoded field (mem_fields.mpr (.inr (.inl (by rwa [given]))))

/-- Each header given and the length are found once in what well-behaved calls send. -/
theorem named_answer (well : WellBehaved calls) :
    (∀ field ∈ givenHeaders calls, named (answer clientFd calls).fields field.1 = [field.2]) ∧
      named (answer clientFd calls).fields contentLength =
        [decimal (givenBody calls).length] := by
  have given : (answer clientFd calls).headers = givenHeaders calls := headers_answer well.clean
  have body : (answer clientFd calls).body = givenBody calls := body_answer_iff.mpr well.body
  rw [← body, ← given]
  apply (named_fields_iff (by rw [given]; exact sorted_givenHeaders)).mpr
  rw [given]
  exact ⟨well.apart, well.length, well.type⟩

theorem frame_answer (well : WellBehaved calls) :
    frame (givenStatus calls).toInt.toNat (answer clientFd calls).fields (givenBody calls) =
      some (givenBody calls) := by
  have given : (answer clientFd calls).headers = givenHeaders calls := headers_answer well.clean
  have final := well.status.1
  refine frame_eq_some_iff.mpr
    ⟨by omega, ?_, ⟨_, (named_answer well).2, decimal_ne_nil, ?_, ?_⟩, rfl⟩
  · rw [named_eq_nil_iff]
    intro field member
    rcases mem_fields.mp member with ⟨_, rfl⟩ | inHeaders | rfl
    · exact (by decide : lower contentType ≠ lower transferEncoding)
    · exact well.encoding field (by rwa [given] at inHeaders)
    · exact (by decide : lower contentLength ≠ lower transferEncoding)
  · exact List.all_eq_true.mpr fun c member => isDigit_of_mem_decimal member
  · split
    · rename_i bodiless
      rw [well.bodiless bodiless]
      rfl
    · exact Nat.ofDigitChars_ten_toDigits.symm

theorem oneResponse_of_wellBehaved (well : WellBehaved calls) : OneResponse clientFd calls := by
  have ends : calls.countP Call.isEnd ≠ 0 := by
    rw [well.one_end]
    exact one_ne_zero
  have once : sent clientFd calls = sent clientFd (untilEnd calls) :=
    (sent_eq_sent_untilEnd_iff ends).mpr well.one_end
  have given : (answer clientFd calls).headers = givenHeaders calls := headers_answer well.clean
  have body : (answer clientFd calls).body = givenBody calls := body_answer_iff.mpr well.body
  obtain ⟨headers, length⟩ := @named_answer clientFd calls well
  have final := well.status.1
  have threeDigits : 100 ≤ (givenStatus calls).toInt := by omega
  refine ⟨once, ⟨(givenStatus calls).toInt.toNat, (answer clientFd calls).fields,
    givenBody calls⟩, ?_, Int.toNat_of_nonneg (by omega), headers, length, rfl⟩
  rw [once, sent_untilEnd ends, parseResponse_text (by rw [given]; exact well.clean), body]
  exact ⟨⟨threeDigits, well.status.2⟩, frame_answer well, rfl, rfl⟩

/-- The connection is sent the one response that was asked for if and only if the calls are well
behaved. -/
theorem oneResponse_iff (clientFd : ℕ) (calls : List Call) :
    OneResponse clientFd calls ↔ WellBehaved calls :=
  ⟨wellBehaved_of_oneResponse, oneResponse_of_wellBehaved⟩

/-- A second `end` sends a second response. -/
theorem not_oneResponse_end_twice : ¬ OneResponse 5 [.endWith none, .endWith none] := by
  intro one
  have single := (sent_eq_sent_untilEnd_iff (by decide)).mp one.1
  exact absurd single (by decide)

example : (parseResponse (sent 5 [.writeHead 404 [], .endWith (some "gone".toList)])).map
    (fun response => (response.status, response.body)) = some (404, "gone".toList) := by decide

end OneResponse

end ProtoJS.Http

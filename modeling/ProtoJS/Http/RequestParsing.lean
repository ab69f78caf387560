import ProtoJS.Machine.OrderedMap
import ProtoJS.Strings.ByteText
import ProtoJS.Strings.Lines

/-! # What the server makes of a request

`HTTPModule::serverListen` reads once from the connection, extracts the three words of the request
line with `>>` and goes on with `getline` on the same stream. The version is extracted up to the
carriage return, so the first line `getline` returns is what is left of the request line: a single
carriage return, which ends the header loop.
-/

namespace ProtoJS.Http

open Strings

/-- `HTTPRequestData`, as the listener receives it. -/
structure HTTPRequestData where
  method : Text
  url : Text
  version : Text
  headers : List (Text × Text)
deriving DecidableEq, Repr

/-- What a line with a colon assigns. -/
def headerOf (line : Text) : Option (Text × Text) :=
  if ':' ∈ line then
    some (line.takeWhile (· ≠ ':'),
      (line.dropWhile (· ≠ ':')).tail.dropWhile fun c => c = ' ' ∨ c = '\r')
  else none

/-- The loop over the lines `getline` returns. -/
def headerLoop : List Text → List (Text × Text) → List (Text × Text)
  | [], headers => headers
  | line :: rest, headers =>
    if line ≠ ['\r'] ∧ line ≠ [] then
      match headerOf line with
      | some (key, value) => headerLoop rest (OrderedMap.assign key value headers)
      | none => headerLoop rest headers
    else headers

def parseRequest (requestStr : Text) : HTTPRequestData :=
  let (method, iss) := extract isSpace requestStr
  let (url, iss) := extract isSpace iss
  let (version, iss) := extract isSpace iss
  { method, url, version, headers := headerLoop (lines '\n' iss) [] }

/-- One `read` of at most 4095 bytes, of which the string ends at the first zero byte. -/
def readRequest (arrived : Text) : HTTPRequestData :=
  parseRequest ((arrived.take 4095).takeWhile (· ≠ '\x00'))

/-- `getHeader(name)`; `none` is `undefined`. -/
def incomingMessageGetHeader (decoder : Decoder) (data : HTTPRequestData) (name : String) :
    Option String :=
  (OrderedMap.find data.headers (cText name)).map fun value =>
    decoder.newString (value.map byteOfChar)

/-! ### Well-formed requests -/

/-- A character that may stand in a word of the request line or in a header name. -/
def Solid (c : Char) : Prop := isSpace c = false ∧ c ≠ '\x00'

/-- A character that may stand in a header value. -/
def Printed (c : Char) : Prop := c ≠ '\r' ∧ c ≠ '\n' ∧ c ≠ '\x00'

/-- A header line: the name, a colon, and the value with blanks around it. -/
structure HeaderLine where
  name : Text
  before : Text
  value : Text
  behind : Text
  name_ne_nil : name ≠ []
  name_solid : ∀ c ∈ name, Solid c ∧ c ≠ ':'
  blank : ∀ c ∈ before ++ behind, c = ' ' ∨ c = '\t'
  value_printed : ∀ c ∈ value, Printed c
  value_trimmed : ∀ c ∈ value.head?.toList ++ value.getLast?.toList, c ≠ ' ' ∧ c ≠ '\t'

def HeaderLine.text (header : HeaderLine) : Text :=
  header.name ++ ':' :: header.before ++ header.value ++ header.behind ++ "\r\n".toList

/-- A well-formed request that one `read` takes in. -/
structure Request where
  method : Text
  url : Text
  version : Text
  headers : List HeaderLine
  body : Text
  words_ne_nil : method ≠ [] ∧ url ≠ [] ∧ version ≠ []
  words_solid : ∀ c ∈ method ++ url ++ version, Solid c
  distinct : (headers.map (·.name)).Nodup
  body_clean : '\x00' ∉ body

namespace Request

def text (request : Request) : Text :=
  request.method ++ ' ' :: request.url ++ ' ' :: request.version ++ "\r\n".toList ++
    request.headers.flatMap HeaderLine.text ++ "\r\n".toList ++ request.body

variable {request : Request}

theorem nul_notMem_headerText (header : HeaderLine) : '\x00' ∉ header.text := by
  simp only [HeaderLine.text, List.mem_append, List.mem_cons, not_or]
  refine ⟨⟨⟨⟨?_, by decide, ?_⟩, ?_⟩, ?_⟩, by decide⟩
  · intro member
    exact (header.name_solid _ member).1.2 rfl
  · intro member
    exact absurd (header.blank _ (List.mem_append_left _ member)) (by decide)
  · intro member
    exact (header.value_printed _ member).2.2 rfl
  · intro member
    exact absurd (header.blank _ (List.mem_append_right _ member)) (by decide)

theorem solid_method (c : Char) (member : c ∈ request.method) : Solid c :=
  request.words_solid c (by simp [member])

theorem solid_url (c : Char) (member : c ∈ request.url) : Solid c :=
  request.words_solid c (by simp [member])

theorem solid_version (c : Char) (member : c ∈ request.version) : Solid c :=
  request.words_solid c (by simp [member])

theorem nul_notMem_text (request : Request) : '\x00' ∉ request.text := by
  have blank : '\x00' ≠ ' ' := by decide
  have terminator : '\x00' ∉ "\r\n".toList := by decide
  simp only [text, List.mem_append, List.mem_cons, List.mem_flatMap, blank, terminator, false_or,
    or_false]
  rintro ((((member | member) | member) | ⟨header, _, member⟩) | member)
  · exact (solid_method _ member).2 rfl
  · exact (solid_url _ member).2 rfl
  · exact (solid_version _ member).2 rfl
  · exact nul_notMem_headerText header member
  · exact request.body_clean member

/-- The words of the request line are read, and no header is. -/
theorem readRequest_text (arrives : request.text.length ≤ 4095) :
    readRequest request.text =
      { method := request.method
        url := request.url
        version := request.version
        headers := [] } := by
  obtain ⟨rest, shape⟩ : ∃ rest, request.text = request.method ++ ' ' :: (request.url ++ ' ' ::
      (request.version ++ '\r' :: '\n' :: rest)) :=
    ⟨request.headers.flatMap HeaderLine.text ++ "\r\n".toList ++ request.body, by simp [text]⟩
  have read : (request.text.take 4095).takeWhile (· ≠ '\x00') = request.text := by
    rw [List.take_of_length_le arrives, List.takeWhile_eq_self_iff]
    intro c member
    simp only [decide_eq_true_eq]
    rintro rfl
    exact nul_notMem_text request member
  have blank : isSpace ' ' = true := by decide
  have words := request.words_ne_nil
  rw [readRequest, read, shape, parseRequest,
    extract_word (fun c member => (solid_method c member).1) words.1 blank]
  simp only [extract_cons_of_space blank]
  rw [extract_word (fun c member => (solid_url c member).1) words.2.1 blank]
  simp only [extract_cons_of_space blank]
  rw [extract_word (fun c member => (solid_version c member).1) words.2.2 (by decide)]
  -- what is left of the request line is the line that ends the loop
  have left : lines '\n' ('\r' :: '\n' :: rest) = ['\r'] :: lines '\n' rest :=
    @lines_append _ _ '\n' ['\r'] rest (by decide)
  have stop : headerLoop (lines '\n' ('\r' :: '\n' :: rest)) [] = [] := by
    rw [left, headerLoop, if_neg (by simp)]
  simp only [stop]

end Request

/-- No header can be asked for. -/
theorem incomingMessageGetHeader_eq_none {request : Request} (decoder : Decoder)
    (arrives : request.text.length ≤ 4095) (name : String) :
    incomingMessageGetHeader decoder (readRequest request.text) name = none := by
  rw [Request.readRequest_text arrives]
  rfl

/-! ### What the listener is handed -/

/-- The listener has the words of the request line, and the headers with their values. -/
structure Handed (request : Request) (data : HTTPRequestData) : Prop where
  method : data.method = request.method
  url : data.url = request.url
  version : data.version = request.version
  headers : ∀ name value, (name, value) ∈ data.headers ↔
    ∃ header ∈ request.headers, header.name = name ∧ header.value = value

/-- The listener is handed the request if and only if it has no headers. -/
theorem handed_iff {request : Request} (arrives : request.text.length ≤ 4095) :
    Handed request (readRequest request.text) ↔ request.headers = [] := by
  rw [Request.readRequest_text arrives]
  constructor
  · intro handed
    rw [List.eq_nil_iff_forall_not_mem]
    intro header member
    have found := (handed.headers header.name header.value).mpr ⟨header, member, rfl, rfl⟩
    exact List.not_mem_nil found
  · intro none
    refine ⟨rfl, rfl, rfl, ?_⟩
    intro name value
    simp [none]

/-- `GET / HTTP/1.1` with header lines. -/
def getRequest (headers : List HeaderLine) (distinct : (headers.map (·.name)).Nodup) : Request where
  method := "GET".toList
  url := "/".toList
  version := "HTTP/1.1".toList
  headers
  body := []
  words_ne_nil := by decide
  words_solid := by simp [Solid, isSpace]
  distinct
  body_clean := by decide

def hostHeader : HeaderLine where
  name := "Host".toList
  before := [' ']
  value := "localhost".toList
  behind := []
  name_ne_nil := by decide
  name_solid := by simp [Solid, isSpace]
  blank := by simp
  value_printed := by simp [Printed]
  value_trimmed := by simp

theorem handed_get :
    (getRequest [] (by decide)).text.length ≤ 4095 ∧
      Handed (getRequest [] (by decide)) (readRequest (getRequest [] (by decide)).text) :=
  ⟨by decide, (handed_iff (by decide)).mpr rfl⟩

theorem not_handed_host :
    ¬ ∀ request : Request, request.text.length ≤ 4095 →
      Handed request (readRequest request.text) := by
  intro all
  have handed := all (getRequest [hostHeader] (by simp)) (by decide)
  have found := (handed.headers hostHeader.name hostHeader.value).mpr
    ⟨hostHeader, List.mem_singleton_self _, rfl, rfl⟩
  exact absurd found (by decide)

end ProtoJS.Http

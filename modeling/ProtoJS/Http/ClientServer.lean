import ProtoJS.Http.RequestParsing
import ProtoJS.Http.ServerResponse
import ProtoJS.Npm.DownloadIntegrity
import ProtoJS.Npm.RegistryUrls

/-! # The client and the server

`NPMRegistry` sends its requests to a server of `HTTPModule`. The server understands the request
line and nothing else of the request; its listener answers with calls on the response object, and
what these send comes back in any pieces. The client takes off the head at the first empty line and
keeps the rest up to the end of the connection, without a look at the length that the server sends.
-/

namespace ProtoJS.Http

open Strings OrderedMap
open Npm (Network RegistryUrl)
open Npm.NPMRegistry (request separator bodyOf receiveAll httpGet httpDownload acceptOf answer_text)

section BlankLine

variable {lines : List Text}

theorem flatMap_crlf (present : lines ≠ []) :
    lines.flatMap (· ++ crlf) = crlf.intercalate lines ++ crlf := by
  induction lines with
  | nil => exact absurd rfl present
  | cons line lines ih =>
    rcases eq_or_ne lines [] with rfl | more
    · simp
    · rw [List.flatMap_cons, ih more, List.intercalate_cons_of_ne_nil more]
      simp

end BlankLine

/-! ### What the server sends -/

/-- The lines of the head, each without its end. -/
def HTTPResponseData.headLines (data : HTTPResponseData) : List Text :=
  statusLine data.statusCode :: data.fields.map fun field => field.1 ++ ": ".toList ++ field.2

def HTTPResponseData.head (data : HTTPResponseData) : Text := crlf.intercalate data.headLines

/-- A character that stands in no header and not in the body. -/
structure Lacks (c : Char) (data : HTTPResponseData) : Prop where
  headers : ∀ field ∈ data.headers, c ∉ field.1 ∧ c ∉ field.2
  body : c ∉ data.body

section Text

variable {data : HTTPResponseData} {call : Call} {calls : List Call} {clientFd : ℕ} {c : Char}

theorem text_eq : data.text = data.head ++ separator ++ data.body := by
  have blank : separator = crlf ++ crlf := rfl
  have lines : data.headLines.flatMap (· ++ crlf) = data.head ++ crlf :=
    flatMap_crlf (List.cons_ne_nil _ _)
  have fields : data.fields.flatMap fieldLine =
      (data.fields.map fun field => field.1 ++ ": ".toList ++ field.2).flatMap (· ++ crlf) := by
    rw [List.flatMap_map]
    rfl
  rw [HTTPResponseData.headLines, List.flatMap_cons, ← fields] at lines
  rw [blank, ← List.append_assoc, ← lines, HTTPResponseData.text]
  simp only [List.append_assoc]

theorem notMem_of_plain {text : Text} (plain : ∀ c ∈ text, isPlain c) (odd : ¬ isPlain c) :
    c ∉ text :=
  fun member => odd (plain c member)

theorem notMem_of_clean {field : Field} (clean : Clean field) (odd : ¬ isPlain c) :
    c ∉ field.1 ∧ c ∉ field.2 :=
  ⟨fun member => odd (isPlain_of_isTchar (clean.name c member)), notMem_of_plain clean.value odd⟩

/-- What is not printed stands in a line of the head only if it stands in a header. -/
theorem notMem_headLines (odd : ¬ isPlain c)
    (absent : ∀ field ∈ data.headers, c ∉ field.1 ∧ c ∉ field.2) :
    ∀ line ∈ data.headLines, c ∉ line := by
  have between : (": ".toList).all isPlain := by decide
  have printed : ∀ field ∈ data.fields, c ∉ field.1 ∧ c ∉ field.2 := by
    intro field member
    rcases mem_fields.mp member with ⟨-, rfl⟩ | given | rfl
    · exact notMem_of_clean clean_type odd
    · exact absent field given
    · exact notMem_of_clean (clean_length _) odd
  intro line member
  rcases List.mem_cons.mp member with rfl | inFields
  · exact notMem_of_plain (plain_statusLine _) odd
  · obtain ⟨field, inside, rfl⟩ := List.mem_map.mp inFields
    simp only [List.mem_append, not_or]
    exact ⟨⟨(printed field inside).1, notMem_of_plain (List.all_eq_true.mp between) odd⟩,
      (printed field inside).2⟩

theorem nul_notMem_text (lacks : Lacks '\x00' data) : '\x00' ∉ data.text := by
  have ends : '\x00' ∉ crlf := by decide
  have lines := notMem_headLines (by decide) lacks.headers
  have lineEnds : data.headLines.flatMap (· ++ crlf) = data.head ++ crlf :=
    flatMap_crlf (List.cons_ne_nil _ _)
  have head : '\x00' ∉ data.head ++ crlf := by
    rw [← lineEnds, List.mem_flatMap]
    rintro ⟨line, member, inside⟩
    rcases List.mem_append.mp inside with inLine | inEnd
    · exact lines line member inLine
    · exact ends inEnd
  rw [List.mem_append, not_or] at head
  rw [text_eq, List.mem_append, List.mem_append, not_or, not_or]
  exact ⟨⟨head.1, by decide⟩, lacks.body⟩

end Text

/-! ### What the client makes of it -/

/-- The pieces in which the bytes of a connection are received. -/
structure Delivery where
  pieces : Text → List Text
  flatten : ∀ stream, (pieces stream).flatten = stream

/-- A URL without TLS and without a port, whose request one `read` takes in. -/
structure Address where
  url : RegistryUrl
  tcp : url.https = false
  bare : url.port = none
  solid : ∀ c ∈ url.host ++ url.requested, Solid c
  fits : (request url.host url.requested (acceptOf true)).length ≤ 4095

theorem blank_space : ∀ c ∈ ([' '] : Text) ++ [], c = ' ' ∨ c = '\t' := by simp

/-- A header whose value is one word, as the client writes it. -/
def wordHeader (name value : Text) (named : name ≠ [] ∧ ∀ c ∈ name, Solid c ∧ c ≠ ':')
    (solid : ∀ c ∈ value, Solid c) : HeaderLine where
  name
  before := [' ']
  value
  behind := []
  name_ne_nil := named.1
  name_solid := named.2
  blank := blank_space
  value_printed c member := by
    obtain ⟨word, nul⟩ := solid c member
    refine ⟨?_, ?_, nul⟩
    · rintro rfl
      exact absurd word (by decide)
    · rintro rfl
      exact absurd word (by decide)
  value_trimmed c member := by
    have inside : c ∈ value := by
      rcases List.mem_append.mp member with first | last
      · exact List.mem_of_mem_head? (by simpa using first)
      · exact List.mem_of_mem_getLast? (by simpa using last)
    have word := (solid c inside).1
    constructor
    · rintro rfl
      exact absurd word (by decide)
    · rintro rfl
      exact absurd word (by decide)

namespace Address

variable (address : Address)

/-- What the listener is handed. -/
def seen : HTTPRequestData where
  method := "GET".toList
  url := address.url.requested
  version := "HTTP/1.1".toList
  headers := []

theorem solid_words : (∀ c ∈ "GET".toList, Solid c) ∧ (∀ c ∈ "HTTP/1.1".toList, Solid c) ∧
    (∀ c ∈ "protoJS/0.6.0".toList, Solid c) ∧ ∀ c ∈ "close".toList, Solid c := by
  simp [Solid, isSpace]

theorem acceptOf_solid (progress : Bool) : ∀ c ∈ acceptOf progress, Solid c := by
  cases progress with
  | false => simp [acceptOf, Solid, isSpace]
  | true => simp [acceptOf, Solid, isSpace]

theorem requested_ne_nil : address.url.requested ≠ [] := by
  rw [RegistryUrl.requested]
  split
  · exact List.cons_ne_nil _ _
  · rename_i path
    rw [RegistryUrl.pathText]
    cases given : address.url.path with
    | none => exact absurd given path
    | some text => exact List.cons_ne_nil _ _

/-- The request of the client. -/
def asked (progress : Bool) : Request where
  method := "GET".toList
  url := address.url.requested
  version := "HTTP/1.1".toList
  headers :=
    [wordHeader "Host".toList address.url.host (by simp [Solid, isSpace])
        fun c member => address.solid c (List.mem_append_left _ member),
      wordHeader "User-Agent".toList "protoJS/0.6.0".toList (by simp [Solid, isSpace])
        solid_words.2.2.1,
      wordHeader "Accept".toList (acceptOf progress) (by simp [Solid, isSpace])
        (acceptOf_solid progress),
      wordHeader "Connection".toList "close".toList (by simp [Solid, isSpace]) solid_words.2.2.2]
  body := []
  words_ne_nil := ⟨by decide, address.requested_ne_nil, by decide⟩
  words_solid c member := by
    rcases List.mem_append.mp member with before | version
    · rcases List.mem_append.mp before with method | path
      · exact solid_words.1 c method
      · exact address.solid c (List.mem_append_right _ path)
    · exact solid_words.2.1 c version
  distinct := by simp [wordHeader]
  body_clean := List.not_mem_nil

end Address

/-! ### From the listener to the file -/

section Served

variable {address : Address} {handler : HTTPRequestData → List Call} {delivery : Delivery}
variable {calls : List Call} {clientFd : ℕ} {chunks : List Text}

/-- A listener that answers with an error page. -/
def notFound : HTTPRequestData → List Call :=
  fun data => [.writeHead 404 [("X-Path".toList, data.url)], .endWith (some "gone".toList)]

end Served

end ProtoJS.Http

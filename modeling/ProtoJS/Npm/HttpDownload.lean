import ProtoJS.Strings.Extraction
import ProtoJS.Strings.Search

/-! # Downloading over HTTP

`NPMRegistry::httpGet` and `NPMRegistry::httpDownload` on Linux. What a connection receives is the
list of what its successful reads returned: it ends where the peer closes or a read fails. A buffer
that is appended as a C string ends at its first zero byte.
-/

namespace ProtoJS.Npm

open Strings

/-- What is received for a request that is sent to a port of a host; `none` if the connection or
the request fails. -/
structure Network where
  tls : Text → ℕ → Text → Option (List Text)
  tcp : Text → ℕ → Text → Option (List Text)

/-- What a download returns, what it wrote if it opened the target file, and what it reported to
the progress callback. -/
structure Download where
  returned : Bool
  file : Option Text := none
  reports : List (ℕ × ℕ) := []
deriving DecidableEq, Repr

namespace NPMRegistry

def separator : Text := "\r\n\r\n".toList

/-- What `response += buf` appends. -/
def cString (buf : Text) : Text := buf.takeWhile (· ≠ '\x00')

/-- The protocol, the host and the path. -/
def parseUrl (url : Text) : Text × Text × Text :=
  match url.dropInfix? "://".toList with
  | none => ([], [], ['/'])
  | some (protocol, rest) =>
    if '/' ∈ rest then (protocol, rest.takeWhile (· ≠ '/'), rest.dropWhile (· ≠ '/'))
    else (protocol, rest, ['/'])

def request (host path accept : Text) : Text :=
  "GET ".toList ++ path ++ " HTTP/1.1\r\nHost: ".toList ++ host ++
    "\r\nUser-Agent: protoJS/0.6.0\r\nAccept: ".toList ++ accept ++
    "\r\nConnection: close\r\n\r\n".toList

def portOf (protocol : Text) : ℕ := if protocol = "https".toList then 443 else 80

/-- The loop that receives a whole response. -/
def receiveAll (chunks : List Text) : Text := chunks.flatMap cString

/-- What follows the first empty line, or all of it if there is none. -/
def bodyOf (response : Text) : Text :=
  match response.dropInfix? separator with
  | some (_, body) => body
  | none => response

def tcpGet (net : Network) (host : Text) (port : ℕ) (path : Text) : Text :=
  match net.tcp host port (request host path "application/json".toList) with
  | none => []
  | some chunks => bodyOf (receiveAll chunks)

def httpGet (net : Network) (url : Text) : Text :=
  let (protocol, host, path) := parseUrl url
  if host = [] then []
  else if protocol = "https".toList then
    match net.tls host (portOf protocol) (request host path "application/json".toList) with
    | none => []
    | some chunks => bodyOf (receiveAll chunks)
  else tcpGet net host (portOf protocol) path

/-- The name with its colon has 15 characters, of which 14 are skipped; `std::stoull` throws where
the number is out of range. -/
def parseContentLength (headers : Text) : ℕ :=
  match headers.dropInfix? "Content-Length:".toList with
  | none => 0
  | some (before, _) =>
    let value := (headers.drop (before.length + 14)).dropWhile fun c => c = ' ' || c = '\t'
    let digits := value.takeWhile Char.isDigit
    if digits = [] then 0
    else
      let n := Nat.ofDigitChars 10 digits 0
      if n < 2 ^ 64 then n else 0

/-- The loop that receives up to the end of the headers: these, what has come of the body, and what
is received then. -/
def receiveHeaders (headers : Text) : List Text → Option (Text × Text × List Text)
  | [] => none
  | buf :: chunks =>
    match (headers ++ cString buf).dropInfix? separator with
    | some (before, body) => some (before, body, chunks)
    | none => receiveHeaders (headers ++ cString buf) chunks

/-- The loop that receives the rest of the body: what it writes, and what it reports. -/
def receiveBody (contentLength totalReceived : ℕ) : List Text → Text × List (ℕ × ℕ)
  | [] => ([], [])
  | buf :: chunks =>
    if contentLength = 0 ∨ totalReceived < contentLength then
      let total := totalReceived + buf.length
      let (written, reports) := receiveBody contentLength total chunks
      (buf ++ written, (total, contentLength) :: reports)
    else ([], [])

/-- The loops of the TLS and of the TCP connection, which are the same. -/
def downloadBody (chunks : List Text) (opens : Bool) : Download :=
  match receiveHeaders [] chunks with
  | none => { returned := false }
  | some (headers, body, chunks) =>
    if !opens then { returned := false }
    else
      let contentLength := parseContentLength headers
      let (written, reports) := receiveBody contentLength body.length chunks
      { returned := true
        file := some (body ++ written)
        reports := (body.length, contentLength) :: reports }

/-- `opens` says whether the target file can be opened, `progress` whether there is a callback. -/
def httpDownload (net : Network) (url : Text) (opens progress : Bool) : Download :=
  let (protocol, host, path) := parseUrl url
  if host = [] then { returned := false }
  else
    let reqStr := request host path "application/octet-stream".toList
    if !progress then
      let data := httpGet net url
      if data = [] then { returned := false }
      else if !opens then { returned := false }
      else { returned := true, file := some data }
    else if protocol = "https".toList then
      match net.tls host (portOf protocol) reqStr with
      | none => { returned := false }
      | some chunks => downloadBody chunks opens
    else
      match net.tcp host (portOf protocol) reqStr with
      | none => { returned := false }
      | some chunks => downloadBody chunks opens

section Answer

variable {net : Network} {url : Text} {chunks : List Text}

/-- What is received for a URL. The request says what it accepts. -/
def answer (net : Network) (url accept : Text) : Option (List Text) :=
  let (protocol, host, path) := parseUrl url
  if host = [] then none
  else
    (if protocol = "https".toList then net.tls else net.tcp) host (portOf protocol)
      (request host path accept)

/-- The two kinds of request. -/
def acceptOf (progress : Bool) : Text :=
  if progress then "application/octet-stream".toList else "application/json".toList

/-- What `httpGet` returns for an answer. -/
def fetched (answered : Option (List Text)) : Text :=
  match answered with
  | none => []
  | some chunks => bodyOf (receiveAll chunks)

/-- What `httpDownload` does with what `httpGet` has returned. -/
def saved (data : Text) (opens : Bool) : Download :=
  if data = [] ∨ opens = false then { returned := false }
  else { returned := true, file := some data }

/-- What `httpDownload` does with the answer to a request of its own. -/
def downloaded (answered : Option (List Text)) (opens : Bool) : Download :=
  match answered with
  | none => { returned := false }
  | some chunks => downloadBody chunks opens

theorem httpGet_eq (net : Network) (url : Text) :
    httpGet net url = fetched (answer net url (acceptOf false)) := by
  rw [httpGet, answer, acceptOf, if_neg Bool.false_ne_true]
  rcases parseUrl url with ⟨protocol, host, path⟩
  dsimp only
  split_ifs
  · rfl
  · rfl
  · rfl

/-- Without a callback the file is what `httpGet` returns. -/
theorem httpDownload_plain_eq (net : Network) (url : Text) (opens : Bool) :
    httpDownload net url opens false = saved (fetched (answer net url (acceptOf false))) opens := by
  rw [← httpGet_eq, httpDownload, saved]
  simp only [Bool.not_false, if_true]
  rcases eq_or_ne (httpGet net url) [] with empty | data
  · simp [empty]
  · -- There is nothing to fetch without a host.
    have host : (parseUrl url).2.1 ≠ [] := by
      intro missing
      exact data (by rw [httpGet]; simp [missing])
    cases opens with
    | false => simp [data]
    | true => simp [data, host]

theorem httpDownload_progress_eq (net : Network) (url : Text) (opens : Bool) :
    httpDownload net url opens true = downloaded (answer net url (acceptOf true)) opens := by
  rw [httpDownload, answer, acceptOf, if_pos rfl]
  simp only [Bool.not_true, Bool.false_eq_true, if_false]
  rcases parseUrl url with ⟨protocol, host, path⟩
  dsimp only
  split_ifs
  · rfl
  · rfl
  · rfl

theorem httpDownload_of_answer {opens : Bool}
    (answered : answer net url (acceptOf true) = some chunks) :
    httpDownload net url opens true = downloadBody chunks opens := by
  rw [httpDownload_progress_eq, answered, downloaded]

theorem httpDownload_of_answer' {opens : Bool}
    (answered : answer net url (acceptOf false) = some chunks) :
    httpDownload net url opens false =
      if bodyOf (receiveAll chunks) = [] ∨ opens = false then { returned := false }
      else { returned := true, file := some (bodyOf (receiveAll chunks)) } := by
  rw [httpDownload_plain_eq, answered, fetched, saved]

theorem downloadBody_file_of_failed {opens : Bool}
    (failed : (downloadBody chunks opens).returned = false) :
    (downloadBody chunks opens).file = none := by
  rw [downloadBody] at failed ⊢
  cases received : receiveHeaders [] chunks with
  | none => rfl
  | some parts =>
    rw [received] at failed
    cases opens with
    | false => rfl
    | true => exact absurd failed (by simp)

/-- The target file is opened only where the download returns true. -/
theorem httpDownload_file_of_failed {opens progress : Bool}
    (failed : (httpDownload net url opens progress).returned = false) :
    (httpDownload net url opens progress).file = none := by
  cases progress with
  | false =>
    rw [httpDownload_plain_eq, saved] at failed ⊢
    split_ifs at failed ⊢
    rfl
  | true =>
    rw [httpDownload_progress_eq] at failed ⊢
    cases answered : answer net url (acceptOf true) with
    | none => rfl
    | some chunks =>
      rw [answered] at failed
      exact downloadBody_file_of_failed failed

/-- Nothing is downloaded to a file that cannot be opened. -/
theorem httpDownload_unopened (net : Network) (url : Text) (progress : Bool) :
    (httpDownload net url false progress).returned = false := by
  cases progress with
  | false => rw [httpDownload_plain_eq, saved, if_pos (.inr rfl)]
  | true =>
    rw [httpDownload_progress_eq]
    cases answer net url (acceptOf true) with
    | none => rfl
    | some chunks =>
      rw [downloaded, downloadBody]
      cases receiveHeaders [] chunks with
      | none => rfl
      | some parts => rfl

theorem downloadBody_file_of_returned (returned : (downloadBody chunks true).returned = true) :
    ∃ content, (downloadBody chunks true).file = some content := by
  rw [downloadBody] at returned ⊢
  cases received : receiveHeaders [] chunks with
  | none =>
    rw [received] at returned
    cases returned
  | some parts => exact ⟨_, rfl⟩

theorem httpDownload_file_of_returned {progress : Bool}
    (returned : (httpDownload net url true progress).returned = true) :
    ∃ content, (httpDownload net url true progress).file = some content := by
  cases progress with
  | false =>
    rw [httpDownload_plain_eq, saved] at returned ⊢
    split at returned
    · cases returned
    · rename_i data
      exact ⟨_, by rw [if_neg data]⟩
  | true =>
    rw [httpDownload_progress_eq] at returned ⊢
    cases answered : answer net url (acceptOf true) with
    | none =>
      rw [answered] at returned
      cases returned
    | some chunks =>
      rw [answered] at returned
      exact downloadBody_file_of_returned returned

end Answer

section Length

/-- What is looked at first is the colon, so no length is ever found. -/
theorem parseContentLength_eq_zero (headers : Text) : parseContentLength headers = 0 := by
  unfold parseContentLength
  split
  · rfl
  · rename_i before rest found
    obtain ⟨same, _⟩ := dropInfix?_eq_some.mp found
    have colon : headers.drop (before.length + 14) = ':' :: rest := by
      rw [same, List.append_assoc, List.drop_append]
      simp
    simp [colon]

/-- So the body is received until the connection ends. -/
theorem receiveBody_zero (total : ℕ) (chunks : List Text) :
    (receiveBody 0 total chunks).1 = chunks.flatten := by
  induction chunks generalizing total with
  | nil => rfl
  | cons buf chunks ih =>
    rw [receiveBody, if_pos (.inl rfl), List.flatten_cons]
    simp only [ih]

end Length

section CString

variable {text rest : Text} {chunks : List Text}

theorem cString_append_of_not_mem (clean : '\x00' ∉ text) (rest : Text) :
    cString (text ++ rest) = text ++ cString rest := by
  rw [cString, List.takeWhile_append_of_pos, cString]
  intro c member
  rw [decide_eq_true_eq]
  rintro rfl
  exact clean member

theorem cString_eq_self_iff : cString text = text ↔ '\x00' ∉ text := by
  rw [cString, List.takeWhile_eq_self_iff]
  constructor
  · intro whole member
    simpa using whole '\x00' member
  · intro clean
    exact forall_ne_of_not_mem clean

theorem length_cString_le (text : Text) : (cString text).length ≤ text.length :=
  (List.takeWhile_prefix _).length_le

theorem length_receiveAll_le (chunks : List Text) :
    (receiveAll chunks).length ≤ chunks.flatten.length := by
  induction chunks with
  | nil => exact le_rfl
  | cons buf chunks ih =>
    have bound := length_cString_le buf
    simp only [receiveAll, List.flatMap_cons, List.flatten_cons, List.length_append] at ih ⊢
    omega

theorem receiveAll_of_not_mem (clean : '\x00' ∉ chunks.flatten) :
    receiveAll chunks = chunks.flatten := by
  induction chunks with
  | nil => rfl
  | cons buf chunks ih =>
    rw [List.flatten_cons, List.mem_append, not_or] at clean
    rw [receiveAll, List.flatMap_cons, cString_eq_self_iff.mpr clean.1, ← receiveAll, ih clean.2,
      List.flatten_cons]

/-- Everything is kept exactly if there is no zero byte. -/
theorem receiveAll_eq_flatten_iff :
    receiveAll chunks = chunks.flatten ↔ '\x00' ∉ chunks.flatten := by
  refine ⟨?_, receiveAll_of_not_mem⟩
  induction chunks with
  | nil => simp
  | cons buf chunks ih =>
    intro same
    rw [receiveAll, List.flatMap_cons, List.flatten_cons, ← receiveAll] at same
    have lengths := congrArg List.length same
    have first := length_cString_le buf
    have others := length_receiveAll_le chunks
    simp only [List.length_append] at lengths
    obtain ⟨kept, later⟩ := List.append_inj same (by omega)
    rw [List.flatten_cons, List.mem_append, not_or]
    exact ⟨cString_eq_self_iff.mp kept, ih later⟩

end CString

end NPMRegistry

end ProtoJS.Npm

import ProtoJS.Npm.HttpDownload

/-! # What a download leaves behind

The head of a response ends at its first empty line and has no zero byte. However the response is
received in pieces, the head is taken off exactly; what happens to the body depends on where its
zero bytes are. Neither the status nor the announced length is ever looked at.
-/

namespace ProtoJS.Npm

open Strings

namespace NPMRegistry

/-- The bytes of a response without transfer coding. -/
structure Response where
  head : Text
  body : Text
  clean : '\x00' ∉ head
  /-- The separator that follows is the first one. -/
  first : (head ++ separator).dropInfix? separator = some (head, [])

namespace Response

variable (r : Response)

def stream : Text := r.head ++ separator ++ r.body

def headLength : ℕ := (r.head ++ separator).length

/-- The pieces of the body. -/
def pieces (chunks : List Text) : List Text := after r.headLength chunks

variable {r} {chunks : List Text}

theorem headLength_pos : 0 < r.headLength := by simp [headLength, separator]

theorem not_mem_head : '\x00' ∉ r.head ++ separator := by
  rw [List.mem_append, not_or]
  exact ⟨r.clean, by decide⟩

/-- What has been received is the beginning of the response: either the head is not complete, or
there is a piece with its end in it. -/
theorem pieces_cases (received : chunks.flatten <+: r.stream) :
    (chunks.flatten.length < r.headLength ∧ r.pieces chunks = [] ∧
        chunks.flatten <+: r.head ++ separator) ∨
      ∃ before piece rest later, chunks = before ++ (piece ++ rest) :: later ∧
        before.flatten ++ piece = r.head ++ separator ∧ piece ≠ [] ∧
        r.pieces chunks = rest :: later := by
  by_cases short : chunks.flatten.length < r.headLength
  · refine .inl ⟨short, after_eq_nil short, ?_⟩
    exact List.prefix_of_prefix_length_le received (List.prefix_append ..) short.le
  · right
    obtain ⟨before, piece, rest, later, same, length, present, behind⟩ :=
      exists_after headLength_pos (Nat.le_of_not_lt short)
    refine ⟨before, piece, rest, later, same, ?_, present, behind⟩
    have within : before.flatten ++ piece <+: r.stream := by
      refine List.IsPrefix.trans ?_ received
      rw [same]
      simp [List.prefix_append]
    have whole : r.head ++ separator <+: r.stream := List.prefix_append ..
    exact (List.prefix_of_prefix_length_le within whole length.le).eq_of_length length

/-- Of a response that is received to its end, the pieces make up the body. -/
theorem flatten_pieces (received : chunks.flatten = r.stream) :
    r.pieces chunks ≠ [] ∧ (r.pieces chunks).flatten = r.body := by
  have within : chunks.flatten <+: r.stream := received ▸ List.prefix_rfl
  rcases pieces_cases within with
    ⟨short, _, _⟩ | ⟨before, piece, rest, later, same, ends, _, behind⟩
  · rw [received, stream, headLength, @List.length_append _ (r.head ++ separator)] at short
    omega
  · rw [behind]
    refine ⟨List.cons_ne_nil _ _, ?_⟩
    have whole : before.flatten ++ piece ++ (rest ++ later.flatten) = r.stream := by
      rw [← received, same]
      simp
    rw [ends, stream] at whole
    exact List.append_cancel_left whole

end Response

section Loops

variable {r : Response} {before : List Text} {piece rest headers : Text} {later chunks : List Text}

/-- The headers are complete with the piece in which they end. -/
theorem receiveHeaders_append (ends : headers ++ before.flatten ++ piece = r.head ++ separator)
    (present : piece ≠ []) :
    receiveHeaders headers (before ++ (piece ++ rest) :: later) =
      some (r.head, cString rest, later) := by
  have clean : '\x00' ∉ headers ++ before.flatten ++ piece := ends ▸ r.not_mem_head
  rw [List.mem_append, List.mem_append, not_or, not_or] at clean
  induction before generalizing headers with
  | nil =>
    rw [List.flatten_nil, List.append_nil] at ends
    have found := dropInfix?_append r.first (cString rest)
    rw [List.nil_append, receiveHeaders, cString_append_of_not_mem clean.2,
      ← List.append_assoc, ends, found, List.nil_append]
  | cons buf before ih =>
    rw [List.flatten_cons, List.mem_append, not_or] at clean
    rw [List.flatten_cons, ← List.append_assoc] at ends
    have whole : cString buf = buf := cString_eq_self_iff.mpr clean.1.2.1
    have notYet : (headers ++ buf).dropInfix? separator = none := by
      apply dropInfix?_of_prefix r.first
      · rw [← ends, List.append_assoc (headers ++ buf)]
        exact List.prefix_append ..
      · rw [← ends]
        have more := List.length_pos_iff.mpr present
        simp only [List.length_append]
        omega
    rw [List.cons_append, receiveHeaders, whole, notYet]
    refine ih ends ⟨⟨?_, clean.1.2.2⟩, clean.2⟩
    rw [List.mem_append, not_or]
    exact ⟨clean.1.1, clean.1.2.1⟩

theorem receiveHeaders_of_prefix (within : headers ++ chunks.flatten <+: r.head ++ separator)
    (short : (headers ++ chunks.flatten).length < r.headLength) :
    receiveHeaders headers chunks = none := by
  induction chunks generalizing headers with
  | nil => rfl
  | cons buf chunks ih =>
    rw [List.flatten_cons, ← List.append_assoc] at within short
    have clean : '\x00' ∉ buf := by
      intro member
      exact r.not_mem_head (within.subset (by simp [member]))
    have start : headers ++ buf <+: r.head ++ separator :=
      (List.prefix_append ..).trans within
    have shorter : (headers ++ buf).length < (r.head ++ separator).length := by
      rw [List.length_append] at short
      exact (Nat.le_add_right ..).trans_lt short
    rw [receiveHeaders, cString_eq_self_iff.mpr clean,
      dropInfix?_of_prefix r.first start shorter]
    exact ih within short

theorem downloadBody_of_prefix (within : chunks.flatten <+: r.head ++ separator)
    (short : chunks.flatten.length < r.headLength) (opens : Bool) :
    (downloadBody chunks opens).returned = false := by
  have none : receiveHeaders [] chunks = none := receiveHeaders_of_prefix within short
  simp only [downloadBody, none]

theorem downloadBody_closed (chunks : List Text) : (downloadBody chunks false).returned = false := by
  unfold downloadBody
  split
  · rfl
  · simp

theorem downloadBody_append (ends : before.flatten ++ piece = r.head ++ separator)
    (present : piece ≠ []) :
    (downloadBody (before ++ (piece ++ rest) :: later) true).returned = true ∧
      (downloadBody (before ++ (piece ++ rest) :: later) true).file =
        some (cString rest ++ later.flatten) := by
  have headers : receiveHeaders [] (before ++ (piece ++ rest) :: later) =
      some (r.head, cString rest, later) := receiveHeaders_append ends present
  simp only [downloadBody, headers, Bool.not_true, Bool.false_eq_true, if_false,
    parseContentLength_eq_zero, receiveBody_zero, true_and]

/-- All of a response that is received with its head. -/
theorem bodyOf_append (ends : before.flatten ++ piece = r.head ++ separator) :
    bodyOf (receiveAll (before ++ (piece ++ rest) :: later)) = receiveAll (rest :: later) := by
  have clean : '\x00' ∉ before.flatten ++ piece := ends ▸ r.not_mem_head
  rw [List.mem_append, not_or] at clean
  have received : receiveAll (before ++ (piece ++ rest) :: later) =
      r.head ++ separator ++ receiveAll (rest :: later) := by
    rw [← ends]
    simp only [receiveAll, List.flatMap_append, List.flatMap_cons]
    rw [cString_append_of_not_mem clean.2, ← receiveAll, receiveAll_of_not_mem clean.1]
    simp only [List.append_assoc]
  rw [bodyOf, received, dropInfix?_append r.first, List.nil_append]

/-- A response of which only a part of the head is received. -/
theorem bodyOf_within (within : chunks.flatten <+: r.head ++ separator)
    (short : chunks.flatten.length < r.headLength) :
    bodyOf (receiveAll chunks) = chunks.flatten := by
  have clean : '\x00' ∉ chunks.flatten := fun member => r.not_mem_head (within.subset member)
  rw [receiveAll_of_not_mem clean, bodyOf, dropInfix?_of_prefix r.first within short]

end Loops

section Integrity

variable {net : Network} {url : Text} {chunks : List Text}

/-- The file is the body exactly if, with a callback, there is no zero byte among the bytes that
come in one piece with the end of the head and, without one, there is none at all, and the body is
not empty. -/
theorem file_eq_body_iff (r : Response) (progress : Bool)
    (answered : answer net url (acceptOf progress) = some chunks)
    (received : chunks.flatten = r.stream) :
    (httpDownload net url true progress).file = some r.body ↔
      if progress then ∀ piece ∈ (r.pieces chunks).head?, '\x00' ∉ piece
      else r.body ≠ [] ∧ '\x00' ∉ r.body := by
  obtain ⟨complete, body⟩ := Response.flatten_pieces received
  have within : chunks.flatten <+: r.stream := received ▸ List.prefix_rfl
  rcases Response.pieces_cases within with
    ⟨_, none, _⟩ | ⟨before, piece, rest, later, rfl, ends, present, behind⟩
  · exact absurd none complete
  rw [behind] at body ⊢
  cases progress with
  | true =>
    rw [httpDownload_of_answer answered, (downloadBody_append ends present).2, ← body,
      List.flatten_cons, Option.some.injEq, List.append_left_inj, cString_eq_self_iff]
    simp
  | false =>
    rw [httpDownload_of_answer' answered, bodyOf_append ends, ← body]
    simp only [Bool.true_eq_false, Bool.false_eq_true, if_false, or_false,
      ← receiveAll_eq_flatten_iff]
    split
    · rename_i empty
      rw [empty]
      simp only [reduceCtorEq, false_iff, not_and]
      intro nonempty same
      exact nonempty same.symm
    · rename_i nonempty
      rw [Option.some.injEq, iff_and_self]
      intro same
      rwa [← same]

end Integrity

section Completeness

namespace Response

variable (r : Response) (progress : Bool) (chunks : List Text)

/-- The status code of the first line is 2xx. -/
def isSuccess : Bool :=
  match r.head.dropWhile (· ≠ ' ') with
  | ' ' :: '2' :: a :: b :: rest =>
    a.isDigit && b.isDigit && (rest = [] || rest.head? = some ' ' || rest.head? = some '\r')
  | _ => false

/-- The length that a header field announces. -/
def announced : Option ℕ :=
  (r.head.splitOn '\n').tail.findSome? fun line =>
    let name := (line.takeWhile (· ≠ ':')).map Char.toLower
    let value := (line.dropWhile (· ≠ ':')).tail.dropWhile fun c => c = ' ' || c = '\t'
    let digits := value.takeWhile Char.isDigit
    if name = "content-length".toList ∧ digits ≠ [] then some (Nat.ofDigitChars 10 digits 0)
    else none

/-- How many bytes of the body a file holds: none, if it was written before the head was
complete. -/
def bodyBytes (file : Text) : ℕ := if r.pieces chunks = [] then 0 else file.length

/-- The download succeeded, and the file has as many bytes of the body as were announced. -/
def Complete (download : Download) : Prop :=
  r.isSuccess = true ∧ ∀ n, r.announced = some n →
    ∃ file, download.file = some file ∧ r.bodyBytes chunks file = n

/-- How many bytes of the body are received and do not come behind a zero byte in their piece; with
a callback that loses bytes only in the piece that the head ends in. -/
def kept : ℕ :=
  match r.pieces chunks with
  | [] => 0
  | piece :: later =>
    if progress then (cString piece).length + later.flatten.length
    else (receiveAll (piece :: later)).length

/-- The target file cannot be opened, or there is nothing to write to it. -/
def Refused (opens : Bool) : Prop :=
  opens = false ∨
    if progress then r.pieces chunks = []
    else if r.pieces chunks = [] then chunks.flatten = [] else r.kept false chunks = 0

end Response

variable {net : Network} {url : Text} {chunks : List Text} {r : Response}

/-- With a callback. -/
theorem httpDownload_progress (opens : Bool)
    (answered : answer net url (acceptOf true) = some chunks)
    (received : chunks.flatten <+: r.stream) :
    (r.Refused true chunks opens ∧ (httpDownload net url opens true).returned = false) ∨
      ¬r.Refused true chunks opens ∧ (httpDownload net url opens true).returned = true ∧
        ∃ file, (httpDownload net url opens true).file = some file ∧
          r.bodyBytes chunks file = r.kept true chunks := by
  rw [httpDownload_of_answer answered]
  cases opens with
  | false => exact .inl ⟨.inl rfl, downloadBody_closed chunks⟩
  | true =>
    rcases Response.pieces_cases received with
      ⟨short, none, within⟩ | ⟨before, piece, rest, later, rfl, ends, present, behind⟩
    · exact .inl ⟨.inr none, downloadBody_of_prefix within short true⟩
    · obtain ⟨returned, file⟩ := downloadBody_append ends present
      refine .inr ⟨?_, returned, _, file, ?_⟩
      · simp [Response.Refused, behind]
      · simp [Response.bodyBytes, Response.kept, behind]

/-- Without a callback. -/
theorem httpDownload_plain (opens : Bool)
    (answered : answer net url (acceptOf false) = some chunks)
    (received : chunks.flatten <+: r.stream) :
    (r.Refused false chunks opens ∧ (httpDownload net url opens false).returned = false) ∨
      ¬r.Refused false chunks opens ∧ (httpDownload net url opens false).returned = true ∧
        ∃ file, (httpDownload net url opens false).file = some file ∧
          r.bodyBytes chunks file = r.kept false chunks := by
  rw [httpDownload_of_answer' answered]
  rcases Response.pieces_cases received with
    ⟨short, none, within⟩ | ⟨before, piece, rest, later, rfl, ends, present, behind⟩
  · rw [bodyOf_within within short]
    have refused : r.Refused false chunks opens ↔ chunks.flatten = [] ∨ opens = false := by
      simp [Response.Refused, none, or_comm]
    rw [refused]
    split
    · rename_i empty
      exact .inl ⟨empty, rfl⟩
    · rename_i written
      refine .inr ⟨written, rfl, _, rfl, ?_⟩
      simp [Response.bodyBytes, Response.kept, none]
  · rw [bodyOf_append ends]
    have refused : r.Refused false (before ++ (piece ++ rest) :: later) opens ↔
        receiveAll (rest :: later) = [] ∨ opens = false := by
      simp [Response.Refused, Response.kept, behind, or_comm]
    rw [refused]
    split
    · rename_i empty
      exact .inl ⟨empty, rfl⟩
    · rename_i written
      refine .inr ⟨written, rfl, _, rfl, ?_⟩
      simp [Response.bodyBytes, Response.kept, behind]

/-- What is reported as downloaded is complete exactly if nothing is reported, or the response is
a success and, where it announces a length, the bytes received and kept are as many. -/
theorem complete_of_returned_iff (r : Response) (opens progress : Bool)
    (answered : answer net url (acceptOf progress) = some chunks)
    (received : chunks.flatten <+: r.stream) :
    ((httpDownload net url opens progress).returned = true →
        r.Complete chunks (httpDownload net url opens progress)) ↔
      r.Refused progress chunks opens ∨
        r.isSuccess = true ∧ ∀ n, r.announced = some n → r.kept progress chunks = n := by
  have outcome : (r.Refused progress chunks opens ∧
        (httpDownload net url opens progress).returned = false) ∨
      ¬r.Refused progress chunks opens ∧ (httpDownload net url opens progress).returned = true ∧
        ∃ file, (httpDownload net url opens progress).file = some file ∧
          r.bodyBytes chunks file = r.kept progress chunks := by
    cases progress with
    | true => exact httpDownload_progress opens answered received
    | false => exact httpDownload_plain opens answered received
  rcases outcome with ⟨refused, returned⟩ | ⟨accepted, returned, file, written, bytes⟩
  · simp [refused, returned]
  · simp [accepted, returned, Response.Complete, written, bytes]

end Completeness

section Answering

/-- A peer that answers every request in the same way. -/
def answering (chunks : List Text) : Network :=
  ⟨fun _ _ _ => some chunks, fun _ _ _ => some chunks⟩

def tarballUrl : Text := "http://npm/a.tgz".toList

theorem answer_answering (chunks : List Text) (accept : Text) :
    answer (answering chunks) tarballUrl accept = some chunks := by
  have host : (parseUrl tarballUrl).2.1 ≠ [] := by decide
  simp only [answer, if_neg host, answering]
  split
  · rfl
  · rfl

def okHead : Text := "HTTP/1.1 200 OK\r\nContent-Length: 3".toList

def errorHead : Text := "HTTP/1.1 404 Not Found".toList

theorem clean_okHead : '\x00' ∉ okHead := by decide

theorem first_okHead : (okHead ++ separator).dropInfix? separator = some (okHead, []) := by
  decide

theorem clean_errorHead : '\x00' ∉ errorHead := by decide

theorem first_errorHead : (errorHead ++ separator).dropInfix? separator = some (errorHead, []) := by
  decide

def okResponse (body : Text) : Response := ⟨okHead, body, clean_okHead, first_okHead⟩

def errorResponse (body : Text) : Response := ⟨errorHead, body, clean_errorHead, first_errorHead⟩

/-- Received in three pieces, of which the second ends the head. -/
def threePieces : List Text := [okHead ++ ['\r', '\n'], ['\r', '\n', 'a', 'b'], ['c']]

theorem flatten_threePieces : threePieces.flatten = (okResponse "abc".toList).stream := by
  decide

theorem file_eq_body_iff_threePieces :
    (httpDownload (answering threePieces) tarballUrl true true).file = some "abc".toList ∧
    (httpDownload (answering threePieces) tarballUrl true false).file = some "abc".toList :=
  ⟨(file_eq_body_iff (okResponse "abc".toList) true (answer_answering ..)
      flatten_threePieces).mpr (by decide),
    (file_eq_body_iff (okResponse "abc".toList) false (answer_answering ..)
      flatten_threePieces).mpr (by decide)⟩

/-- A zero byte ends the body on both paths. -/
theorem file_of_zero_byte :
    [(okResponse ['a', '\x00', 'b']).stream].flatten = (okResponse ['a', '\x00', 'b']).stream ∧
    (httpDownload (answering [(okResponse ['a', '\x00', 'b']).stream]) tarballUrl true true).file =
      some ['a'] ∧
    (httpDownload (answering [(okResponse ['a', '\x00', 'b']).stream]) tarballUrl true false).file =
      some ['a'] := by
  decide

theorem complete_of_returned_iff_threePieces :
    (httpDownload (answering threePieces) tarballUrl true true).returned = true ∧
      (okResponse "abc".toList).Complete threePieces
        (httpDownload (answering threePieces) tarballUrl true true) := by
  have returned : (httpDownload (answering threePieces) tarballUrl true true).returned = true := by
    decide
  refine ⟨returned, (complete_of_returned_iff (okResponse "abc".toList) true true
    (answer_answering ..) (by rw [flatten_threePieces])).mpr (.inr ⟨by decide, ?_⟩) returned⟩
  have announced : (okResponse "abc".toList).announced = some 3 := by decide
  intro n same
  rw [announced] at same
  cases same
  decide

/-- Two bytes of the body are missing. -/
def brokenOff : List Text := [okHead ++ separator, ['a']]

theorem brokenOff_prefix : brokenOff.flatten <+: (okResponse "abc".toList).stream := by
  decide

theorem httpDownload_brokenOff : httpDownload (answering brokenOff) tarballUrl true true =
    { returned := true, file := some ['a'], reports := [(0, 0), (1, 0)] } := by
  decide

/-- An error page, and a body that is broken off, are reported as downloaded. -/
theorem returned_incomplete :
    ¬((httpDownload (answering [(errorResponse "no".toList).stream]) tarballUrl true
          true).returned = true →
        (errorResponse "no".toList).Complete [(errorResponse "no".toList).stream]
          (httpDownload (answering [(errorResponse "no".toList).stream]) tarballUrl true true)) ∧
    brokenOff.flatten <+: (okResponse "abc".toList).stream ∧
    ¬((httpDownload (answering brokenOff) tarballUrl true true).returned = true →
        (okResponse "abc".toList).Complete brokenOff
          (httpDownload (answering brokenOff) tarballUrl true true)) := by
  refine ⟨?_, brokenOff_prefix, ?_⟩
  · intro complete
    have success := (complete (by decide)).1
    exact absurd success (by decide)
  · rw [httpDownload_brokenOff]
    intro complete
    obtain ⟨file, written, bytes⟩ := (complete rfl).2 3 (by decide)
    cases written
    exact absurd bytes (by decide)

end Answering

end NPMRegistry

end ProtoJS.Npm

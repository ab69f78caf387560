import ProtoJS.Npm.DownloadIntegrity

/-! # The length that a response announces

`parseContentLength` looks for its digits on the colon and finds none, so that no length is known:
zero is reported as the total, and the body is received until the connection ends. What is right of
that is right of a length of zero with no body behind it.
-/

namespace ProtoJS.Npm

open Strings

/-- The line `Content-Length: N`, whose numeral denotes `n`. -/
def AnnouncesLength (n : ℕ) (line : Text) : Prop :=
  ∃ blanks numeral, (∀ c ∈ blanks, c = ' ' ∨ c = '\t') ∧ numeral ≠ [] ∧
    (∀ c ∈ numeral, c.isDigit) ∧ Nat.ofDigitChars 10 numeral 0 = n ∧
      line = "Content-Length:".toList ++ blanks ++ numeral

/-- The lines of a header block, of which exactly one announces a length. -/
structure HeaderBlock where
  before : List Text
  line : Text
  after : List Text
  length : ℕ
  noBreak : ∀ l ∈ before ++ line :: after, ¬ ['\r', '\n'] <:+: l
  announces : AnnouncesLength length line
  bound : length < 2 ^ 64
  single : ∀ l ∈ before ++ after, ∀ n, ¬ AnnouncesLength n l

def HeaderBlock.text (block : HeaderBlock) : Text :=
  ['\r', '\n'].intercalate (block.before ++ block.line :: block.after)

/-- Of the totals that are reported, only the last one reaches `n`: nothing is received once there
are `n` bytes. -/
def StopsAfter (n : ℕ) (reports : List (ℕ × ℕ)) : Prop := ∀ report ∈ reports.dropLast, report.1 < n

namespace NPMRegistry

section Reports

variable {contentLength total : ℕ} {chunks : List Text}

theorem reports_receiveBody :
    ∀ report ∈ (receiveBody contentLength total chunks).2, report.2 = contentLength := by
  induction chunks generalizing total with
  | nil => simp [receiveBody]
  | cons buf chunks ih =>
    rw [receiveBody]
    split
    · rw [List.forall_mem_cons]
      exact ⟨rfl, ih⟩
    · simp

theorem length_reports_receiveBody_zero (total : ℕ) (chunks : List Text) :
    (receiveBody 0 total chunks).2.length = chunks.length := by
  induction chunks generalizing total with
  | nil => rfl
  | cons buf chunks ih =>
    rw [receiveBody, if_pos (.inl rfl), List.length_cons, List.length_cons, ih]

theorem stopsAfter_zero_iff {reports : List (ℕ × ℕ)} :
    StopsAfter 0 reports ↔ reports.length ≤ 1 := by
  rw [StopsAfter]
  constructor
  · intro stops
    by_contra more
    have present : reports.dropLast ≠ [] := by
      rw [← List.length_pos_iff, List.length_dropLast]
      omega
    obtain ⟨report, others, rest⟩ := List.exists_cons_of_ne_nil present
    exact absurd (stops report (by rw [rest]; exact List.mem_cons_self)) (Nat.not_lt_zero _)
  · intro few report member
    have none : reports.dropLast = [] := by
      rw [← List.length_eq_zero_iff, List.length_dropLast]
      omega
    rw [none] at member
    exact absurd member List.not_mem_nil

end Reports

section Announced

variable {net : Network} {url body : Text} {chunks rest : List Text} {opens : Bool}

/-- The announced length is read, reported as the total and kept to exactly if it is zero and
nothing comes behind the piece that the headers end in. -/
theorem contentLength_iff (block : HeaderBlock)
    (answered : answer net url (acceptOf true) = some chunks)
    (received : receiveHeaders [] chunks = some (block.text, body, rest)) :
    (parseContentLength block.text = block.length ∧
        (∀ report ∈ (httpDownload net url opens true).reports, report.2 = block.length) ∧
        StopsAfter block.length (httpDownload net url opens true).reports) ↔
      block.length = 0 ∧ (opens = true → rest = []) := by
  rw [httpDownload_of_answer answered, downloadBody, received]
  simp only [parseContentLength_eq_zero]
  rcases Nat.eq_zero_or_pos block.length with zero | positive
  · rw [zero]
    cases opens with
    | false => simp [StopsAfter]
    | true =>
      simp only [Bool.not_true, Bool.false_eq_true, if_false, true_and, forall_const,
        stopsAfter_zero_iff, List.length_cons, length_reports_receiveBody_zero]
      rw [List.forall_mem_cons, and_iff_right ⟨rfl, reports_receiveBody⟩, ← List.length_eq_zero_iff]
      omega
  · simp [positive.ne, positive.ne']

theorem noBreak_of_notMem {lines : List Text} (clean : ∀ l ∈ lines, '\r' ∉ l) :
    ∀ l ∈ lines, ¬ ['\r', '\n'] <:+: l := by
  intro l member broken
  exact clean l member (broken.subset List.mem_cons_self)

/-- The status line announces nothing. -/
theorem single_status : ∀ l ∈ ["HTTP/1.1 200 OK".toList], ∀ n, ¬ AnnouncesLength n l := by
  rintro l member n ⟨blanks, numeral, -, -, -, -, rfl⟩
  simp at member

/-- The head of a response of three bytes. -/
def okBlock : HeaderBlock where
  before := ["HTTP/1.1 200 OK".toList]
  line := "Content-Length: 3".toList
  after := []
  length := 3
  noBreak := noBreak_of_notMem (by decide)
  announces := ⟨[' '], ['3'], by simp, by simp, List.all_eq_true.1 rfl, by decide, rfl⟩
  bound := by decide
  single := single_status

/-- The length 3 is read as zero. -/
theorem parseContentLength_okBlock :
    okBlock.length = 3 ∧ parseContentLength okBlock.text = 0 ∧
      ¬ ∀ block : HeaderBlock, parseContentLength block.text = block.length := by
  refine ⟨rfl, parseContentLength_eq_zero _, ?_⟩
  intro correct
  have zero := correct okBlock
  rw [parseContentLength_eq_zero] at zero
  exact absurd zero (by decide)

/-- The head of a response without a body. -/
def emptyBlock : HeaderBlock where
  before := ["HTTP/1.1 200 OK".toList]
  line := "Content-Length: 0".toList
  after := []
  length := 0
  noBreak := noBreak_of_notMem (by decide)
  announces := ⟨[' '], ['0'], by simp, by simp, List.all_eq_true.1 rfl, by decide, rfl⟩
  bound := by decide
  single := single_status

theorem contentLength_iff_emptyBlock :
    parseContentLength emptyBlock.text = emptyBlock.length ∧
      (∀ report ∈ (httpDownload (answering [emptyBlock.text ++ separator]) tarballUrl true
        true).reports, report.2 = emptyBlock.length) ∧
      StopsAfter emptyBlock.length
        (httpDownload (answering [emptyBlock.text ++ separator]) tarballUrl true true).reports := by
  have received : receiveHeaders [] [emptyBlock.text ++ separator] =
      some (emptyBlock.text, [], []) := by decide
  exact (contentLength_iff emptyBlock (answer_answering ..) received).2 ⟨rfl, fun _ => rfl⟩

end Announced

end NPMRegistry

end ProtoJS.Npm

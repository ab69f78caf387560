import ProtoJS.Http.RequestParsing
import ProtoJS.Strings.Extraction

/-! # Header maps as text

`formatHeaders` ends a line with a carriage return and a line feed. `parseHeaders` splits at the
line feed and removes carriage returns in front of a value only, so the one behind it stays.
-/

namespace ProtoJS.Http

open Strings OrderedMap

/-- `HTTPModule::parseHeaders`; the trimming loop is that of the request listener. -/
def parseHeaders (headerStr : Text) (headers : List (Text × Text)) : List (Text × Text) :=
  (lines '\n' headerStr).foldl (fun headers line =>
    match headerOf line with
    | some (key, value) => assign key value headers
    | none => headers) headers

/-- What is written for an entry. -/
def headerText (key value : Text) : Text := key ++ ": ".toList ++ value ++ "\r\n".toList

/-- `HTTPModule::formatHeaders`. -/
def formatHeaders (headers : List (Text × Text)) : Text :=
  headers.flatMap fun (key, value) => headerText key value

/-- A header map whose names and values can stand in a line. -/
structure HeaderMap where
  entries : List (Text × Text)
  sorted : Sorted entries
  names : ∀ entry ∈ entries, entry.1 ≠ [] ∧ ':' ∉ entry.1 ∧ '\r' ∉ entry.1 ∧ '\n' ∉ entry.1
  values : ∀ entry ∈ entries, '\r' ∉ entry.2 ∧ '\n' ∉ entry.2 ∧
    ' ' ∉ entry.2.head? ∧ ' ' ∉ entry.2.getLast?

/-- What is read in place of a value. -/
def readValue (value : Text) : Text := if value = [] then [] else value ++ ['\r']

theorem readValue_eq_self_iff {value : Text} : readValue value = value ↔ value = [] := by
  rw [readValue]
  split
  · rename_i empty
    simp [empty]
  · rename_i present
    simp [present]

section Lines

variable {key value : Text}

/-- The blank in front of a value is removed and the carriage return behind it is not, unless
there is nothing in between. -/
theorem headerOf_line (noColon : ':' ∉ key) (noReturn : '\r' ∉ value) (noBlank : ' ' ∉ value.head?) :
    headerOf (key ++ ':' :: ' ' :: value ++ ['\r']) = some (key, readValue value) := by
  have shape : key ++ ':' :: ' ' :: value ++ ['\r'] = key ++ ':' :: (' ' :: (value ++ ['\r'])) := by
    simp
  have colon : ':' ∈ key ++ ':' :: (' ' :: (value ++ ['\r'])) := by simp
  rw [shape, headerOf, if_pos colon, takeWhile_ne_cons noColon, dropWhile_ne_cons noColon,
    List.tail_cons, List.dropWhile_cons_of_pos (by simp), readValue]
  rcases value with _ | ⟨first, more⟩
  · rfl
  · have notBlank : first ≠ ' ' := by simpa using noBlank
    have notReturn : first ≠ '\r' := by
      rintro rfl
      exact noReturn List.mem_cons_self
    rw [List.cons_append, List.dropWhile_cons_of_neg (by simp [notBlank, notReturn]),
      if_neg (List.cons_ne_nil _ _)]

/-- A line that was written is read before the others. -/
theorem parseHeaders_append (noColon : ':' ∉ key) (nameLine : '\n' ∉ key) (noReturn : '\r' ∉ value)
    (valueLine : '\n' ∉ value) (noBlank : ' ' ∉ value.head?) (rest : Text)
    (headers : List (Text × Text)) :
    parseHeaders (headerText key value ++ rest) headers =
      parseHeaders rest (assign key (readValue value) headers) := by
  have shape : headerText key value ++ rest =
      (key ++ ':' :: ' ' :: value ++ ['\r']) ++ '\n' :: rest := by simp [headerText]
  have clean : '\n' ∉ key ++ ':' :: ' ' :: value ++ ['\r'] := by simp [nameLine, valueLine]
  rw [shape, parseHeaders, lines_append clean, List.foldl_cons,
    headerOf_line noColon noReturn noBlank]
  rfl

end Lines

namespace HeaderMap

/-- Every entry is assigned with what is read in place of its value. -/
theorem parseHeaders_formatHeaders (headers : HeaderMap) :
    parseHeaders (formatHeaders headers.entries) [] =
      headers.entries.map (Prod.map id readValue) := by
  have loop (entries assigned : List (Text × Text)) (inside : ∀ entry ∈ entries,
      entry ∈ headers.entries) : parseHeaders (formatHeaders entries) assigned =
        assignAll assigned (entries.map (Prod.map id readValue)) := by
    induction entries generalizing assigned with
    | nil => rfl
    | cons entry rest ih =>
      obtain ⟨key, value⟩ := entry
      have member := inside (key, value) List.mem_cons_self
      obtain ⟨-, noColon, -, nameLine⟩ := headers.names _ member
      obtain ⟨noReturn, valueLine, noBlank, -⟩ := headers.values _ member
      rw [formatHeaders, List.flatMap_cons, ← formatHeaders,
        parseHeaders_append noColon nameLine noReturn valueLine noBlank,
        ih _ fun entry later => inside entry (List.mem_cons_of_mem _ later)]
      rfl
  have mapped := @assignAll_mapValues _ _ _ [] headers.entries _ readValue
  rw [loop _ _ fun _ => id]
  rw [List.map_nil, assignAll_of_perm headers.sorted (List.Perm.refl _)] at mapped
  exact mapped

/-- A header map is read as it was written exactly when all its values are empty. -/
theorem headers_return_iff (headers : HeaderMap) :
    parseHeaders (formatHeaders headers.entries) [] = headers.entries ↔
      ∀ entry ∈ headers.entries, entry.2 = [] := by
  have unchanged : headers.entries.map (Prod.map id readValue) = headers.entries ↔
      ∀ entry ∈ headers.entries, Prod.map id readValue entry = entry := by
    conv_lhs => rhs; rw [← List.map_id headers.entries]
    exact List.map_inj_left
  rw [parseHeaders_formatHeaders, unchanged]
  refine forall₂_congr fun entry _ => ?_
  rw [Prod.ext_iff, Prod.map_fst, Prod.map_snd, id, readValue_eq_self_iff]
  exact and_iff_right rfl

end HeaderMap

/-- `Host: localhost`. -/
def hostMap : HeaderMap where
  entries := [("Host".toList, "localhost".toList)]
  sorted := List.pairwise_singleton ..
  names := by simp
  values := by simp

/-- The value comes back with a carriage return. -/
theorem not_headers_return_host :
    ¬ ∀ headers : HeaderMap,
      parseHeaders (formatHeaders headers.entries) [] = headers.entries := by
  intro all
  have same := all hostMap
  rw [HeaderMap.parseHeaders_formatHeaders] at same
  exact absurd same (by decide)

end ProtoJS.Http

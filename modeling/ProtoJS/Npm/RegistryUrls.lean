import ProtoJS.Npm.HttpDownload

/-! # Where a registry URL leads

A registry URL is `scheme://host[:port][/path]`. `parseUrl` ends the host at the first slash, and
takes the port from the scheme alone. A port in the URL therefore stays part of the name that is
looked up, and is not connected to.
-/

namespace ProtoJS.Npm

open Strings

/-- The numerals of the ports. -/
def IsPort (numeral : Text) : Prop :=
  numeral ≠ [] ∧ (∀ c ∈ numeral, c.isDigit) ∧ Nat.ofDigitChars 10 numeral 0 < 65536

/-- The URL of a registry or a package; the path is given without its leading slash. -/
structure RegistryUrl where
  https : Bool
  host : Text
  port : Option Text
  path : Option Text
  nonempty : host ≠ []
  noColon : ':' ∉ host
  noSlash : '/' ∉ host
  isPort : ∀ numeral ∈ port, IsPort numeral

namespace RegistryUrl

variable (u : RegistryUrl)

def scheme : Text := if u.https then "https".toList else "http".toList

def portText : Text :=
  match u.port with
  | none => []
  | some numeral => ':' :: numeral

def pathText : Text :=
  match u.path with
  | none => []
  | some path => '/' :: path

def text : Text := u.scheme ++ "://".toList ++ (u.host ++ u.portText ++ u.pathText)

/-- The port that the URL names, or that of its scheme. -/
def portNumber : ℕ :=
  match u.port with
  | none => if u.https then 443 else 80
  | some numeral => Nat.ofDigitChars 10 numeral 0

/-- The path that the URL names, or the root. -/
def requested : Text := if u.path = none then ['/'] else u.pathText

/-- What is received for the URL, if the request names the host in this way. -/
def contact (net : Network) (hostField accept : Text) : Option (List Text) :=
  (if u.https then net.tls else net.tcp) u.host u.portNumber
    (NPMRegistry.request hostField u.requested accept)

end RegistryUrl

namespace NPMRegistry

variable {u : RegistryUrl}

theorem notMem_scheme : ':' ∉ u.scheme := by
  rw [RegistryUrl.scheme]
  split_ifs
  · decide
  · decide

theorem portOf_scheme : portOf u.scheme = if u.https then 443 else 80 := by
  rw [RegistryUrl.scheme, portOf]
  cases u.https <;> rfl

theorem scheme_eq_https_iff : u.scheme = "https".toList ↔ u.https = true := by
  rw [RegistryUrl.scheme]
  cases u.https with
  | false => exact iff_of_false (by decide) (by decide)
  | true => exact iff_of_true rfl rfl

theorem notMem_authority : '/' ∉ u.host ++ u.portText := by
  rw [List.mem_append, not_or]
  refine ⟨u.noSlash, ?_⟩
  rw [RegistryUrl.portText]
  cases port : u.port with
  | none => exact List.not_mem_nil
  | some numeral =>
    intro member
    rcases List.mem_cons.1 member with same | inside
    · exact absurd same (by decide)
    · exact absurd ((u.isPort numeral port).2.1 _ inside) (by decide)

/-- The port is cut off with the host. -/
theorem parseUrl_text (u : RegistryUrl) :
    parseUrl u.text = (u.scheme, u.host ++ u.portText, u.requested) := by
  have cut : u.text.dropInfix? "://".toList =
      some (u.scheme, u.host ++ u.portText ++ u.pathText) := by
    exact dropInfix?_append_cons (notMem_scheme (u := u))
  have authority := notMem_authority (u := u)
  rw [parseUrl, cut, RegistryUrl.requested, RegistryUrl.pathText]
  dsimp only
  cases u.path with
  | none => rw [List.append_nil, if_neg authority, if_pos rfl]
  | some path =>
    have inside : ∀ c ∈ u.host ++ u.portText, decide (c ≠ '/') = true := by
      intro c member
      rw [decide_eq_true_eq]
      rintro rfl
      exact authority member
    have stops : ∀ c, ('/' :: path).head? = some c → decide (c ≠ '/') = false := by
      intro c head
      obtain rfl : '/' = c := Option.some.inj head
      rfl
    rw [takeWhile_append_of_stops inside stops, dropWhile_append_of_stops inside stops,
      if_pos (by simp), if_neg (by simp)]

theorem answer_text (net : Network) (accept : Text) :
    answer net u.text accept = (if u.https then net.tls else net.tcp) (u.host ++ u.portText)
      (if u.https then 443 else 80) (request (u.host ++ u.portText) u.requested accept) := by
  have host : u.host ++ u.portText ≠ [] := by simp [u.nonempty]
  simp only [answer, parseUrl_text, if_neg host, portOf_scheme, scheme_eq_https_iff]

/-- The three callers receive what the host answers on the port of the URL. -/
def Reaches (u : RegistryUrl) (net : Network) (hostField : Text) : Prop :=
  httpGet net u.text = fetched (u.contact net hostField (acceptOf false)) ∧
    ∀ opens, httpDownload net u.text opens false =
        saved (fetched (u.contact net hostField (acceptOf false))) opens ∧
      httpDownload net u.text opens true =
        downloaded (u.contact net hostField (acceptOf true)) opens

theorem reaches_of_port_none (port : u.port = none) (net : Network) : Reaches u net u.host := by
  have contact (accept : Text) : answer net u.text accept = u.contact net u.host accept := by
    rw [answer_text, RegistryUrl.contact, RegistryUrl.portNumber, RegistryUrl.portText, port]
    simp only [List.append_nil]
  refine ⟨?_, fun opens => ⟨?_, ?_⟩⟩
  · rw [httpGet_eq, contact]
  · rw [httpDownload_plain_eq, contact]
  · rw [httpDownload_progress_eq, contact]

/-- A network in which every name but one is found and answers with one byte. -/
def allBut (host : Text) : Network where
  tls name _ _ := if name = host then none else some [['x']]
  tcp name _ _ := if name = host then none else some [['x']]

/-- The name with the port is another one. -/
theorem not_reaches_of_port {numeral : Text} (port : u.port = some numeral) (hostField : Text) :
    ¬ Reaches u (allBut u.host) hostField := by
  rintro ⟨got, -⟩
  have other : u.host ++ u.portText ≠ u.host := by
    rw [RegistryUrl.portText, port]
    simp
  have expected (accept : Text) : u.contact (allBut u.host) hostField accept = none := by
    rw [RegistryUrl.contact, allBut]
    cases u.https <;> simp
  have answered (accept : Text) : answer (allBut u.host) u.text accept = some [['x']] := by
    rw [answer_text, allBut]
    cases u.https <;> simp [other]
  rw [httpGet_eq, answered, expected] at got
  exact absurd got (by decide)

/-- The callers reach the host and the port of a URL exactly if it names no port. -/
theorem reaches_iff (u : RegistryUrl) :
    (∃ hostField, ∀ net, Reaches u net hostField) ↔ u.port = none := by
  constructor
  · rintro ⟨hostField, reaches⟩
    cases port : u.port with
    | none => rfl
    | some numeral => exact absurd (reaches (allBut u.host)) (not_reaches_of_port port hostField)
  · intro port
    exact ⟨u.host, reaches_of_port_none port⟩

/-- `http://localhost:4873/left-pad`. -/
def localRegistry : RegistryUrl where
  https := false
  host := "localhost".toList
  port := some "4873".toList
  path := some "left-pad".toList
  nonempty := by decide
  noColon := by decide
  noSlash := by decide
  isPort := by
    rintro _ ⟨⟩
    exact ⟨by decide, List.all_eq_true.1 rfl, by decide⟩

/-- The name `localhost:4873` is looked up, to be connected to on port 80. -/
theorem parseUrl_localRegistry :
    localRegistry.text = "http://localhost:4873/left-pad".toList ∧
      parseUrl localRegistry.text =
        ("http".toList, "localhost:4873".toList, "/left-pad".toList) ∧
      portOf "http".toList = 80 ∧
      ¬ ∀ u, ∃ hostField, ∀ net, Reaches u net hostField := by
  refine ⟨by decide, by decide, by decide, ?_⟩
  intro reach
  obtain ⟨hostField, reaches⟩ := reach localRegistry
  exact not_reaches_of_port rfl hostField (reaches _)

end NPMRegistry

end ProtoJS.Npm

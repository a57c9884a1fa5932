import FastCrawl.Uri.Matching

namespace FastCrawl

/-! `Uri.parse` is the one-pass split, up to ports that do not fit. -/

def UriParts.PortFits (parts : UriParts) : Prop := Decimal.read parts.port ≤ 65535

instance (parts : UriParts) : Decidable parts.PortFits := Nat.decLe _ _

theorem parse_eq (text : Bytes) :
    Uri.parse text =
      if BrokenFragment text then .ok {}
      else if (UriParts.split text).PortFits then .ok (UriParts.split text).uri
      else .error .portExtraction := by
  obtain ⟨fails, succeeds⟩ := fullMatch_sRegex text
  by_cases broken : BrokenFragment text
  · rw [if_pos broken, Uri.parse, fails broken]
  · obtain ⟨bref, matched, shows⟩ := succeeds broken
    rw [if_neg broken, Uri.parse, matched]
    obtain ⟨rest, scheme, user, password, host, port, path, query, fragment⟩ := shows
    generalize UriParts.split text = parts at *
    simp only [scheme, user, password, host, port, path, query, fragment]
    by_cases noPort : parts.port = []
    · have fits : parts.PortFits := by simp [UriParts.PortFits, noPort, Decimal.read]
      rw [if_pos noPort, if_pos fits]
      simp [UriParts.uri, noPort, Decimal.read]
    · rw [if_neg noPort, extractPort]
      by_cases fits : parts.PortFits
      · rw [if_pos fits, if_pos (show Decimal.read parts.port ≤ 65535 from fits)]
        rfl
      · rw [if_neg fits, if_neg (show ¬Decimal.read parts.port ≤ 65535 from fits)]

def NoLineBreak (text : Bytes) : Prop := '\r'.toUInt8 ∉ text ∧ '\n'.toUInt8 ∉ text

theorem noLineBreak_of_host {host : Bytes} (isHost : ∀ ch ∈ host, hostChar ch = true) :
    NoLineBreak host := by
  constructor
  · intro member
    exact absurd (isHost _ member) (by decide)
  · intro member
    exact absurd (isHost _ member) (by decide)

theorem parse_host {text : Bytes} {uri : Uri} (parsed : Uri.parse text = .ok uri) :
    NoLineBreak uri.host := by
  have isHost := UriParts.split_host text
  rw [parse_eq] at parsed
  generalize UriParts.split text = parts at parsed isHost
  split_ifs at parsed
  · cases parsed
    exact noLineBreak_of_host (by simp)
  · cases parsed
    exact noLineBreak_of_host isHost

theorem downloadUri_host {mHost text : Bytes} (clean : NoLineBreak mHost) {uri : Uri}
    (parsed : downloadUri mHost text = .ok uri) : NoLineBreak uri.host := by
  unfold downloadUri at parsed
  cases found : Uri.parse text with
  | error failure =>
      rw [found] at parsed
      cases parsed
  | ok page =>
      rw [found] at parsed
      cases parsed
      dsimp only
      split
      · exact clean
      · exact parse_host found

/-- The expression, matched by backtracking, computes the one-pass split: it fails
just on a line break in the fragment, when the parser returns the empty URI, and
otherwise the parser returns the split if the port fits. -/
theorem parse_computes_split (text : Bytes) :
    (sRegex.fullMatch text = none ↔ ∃ before after, text = before ++ '#'.toUInt8 :: after ∧
      '#'.toUInt8 ∉ before ∧ ∃ ch ∈ after, ch = '\n'.toUInt8 ∨ ch = '\r'.toUInt8) ∧
    (sRegex.fullMatch text = none → Uri.parse text = .ok {}) ∧
    (sRegex.fullMatch text ≠ none → (UriParts.split text).PortFits →
      Uri.parse text = .ok (UriParts.split text).uri) ∧
    (∀ uri, Uri.parse text = .ok uri → NoLineBreak uri.host) ∧
    (∀ mHost uri, NoLineBreak mHost → downloadUri mHost text = .ok uri → NoLineBreak uri.host) := by
  obtain ⟨fails, succeeds⟩ := fullMatch_sRegex text
  have failed : sRegex.fullMatch text = none ↔ BrokenFragment text := by
    refine ⟨fun failed => ?_, fails⟩
    by_contra whole
    obtain ⟨bref, matched, _⟩ := succeeds whole
    exact absurd (matched.symm.trans failed) (by simp)
  refine ⟨failed.trans brokenFragment_iff, ?_, ?_, fun _ => parse_host,
    fun _ _ clean => downloadUri_host clean⟩
  · intro noMatch
    rw [parse_eq, if_pos (failed.mp noMatch)]
  · intro matched fits
    rw [parse_eq, if_neg (mt failed.mpr matched), if_pos fits]

/-- The assertion of the parser holds just when there is a line break in the
fragment, so that there is no port, or when the port fits. -/
theorem parse_safe_iff (text : Bytes) :
    (∃ uri, Uri.parse text = .ok uri) ↔
      BrokenFragment text ∨ (UriParts.split text).PortFits := by
  rw [parse_eq]
  split_ifs <;> simp [*]

theorem parse_port_overflow : ¬∀ text : Bytes, ∃ uri, Uri.parse text = .ok uri := by
  intro safe
  have failed : Uri.parse (bytes "http://h:99999/") = .error .portExtraction := by decide
  obtain ⟨uri, parsed⟩ := safe (bytes "http://h:99999/")
  rw [failed] at parsed
  contradiction

end FastCrawl

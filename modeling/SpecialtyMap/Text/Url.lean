import SpecialtyMap.Text.Percent
import Mathlib.Data.List.TakeWhile

/-!
# Components of a URL

`URL.ofString?` accepts a nonempty text of RFC 3986 letters whose percent signs open well-formed
escapes, and cuts it into scheme, authority, path, query and fragment. An escaped text is well
formed as soon as its allowed letters are letters of a URL (`wellFormed_escape`), and a text without
a number sign after its question mark is the query (`components_query`).
-/

namespace SpecialtyMap.Text

/-- The letters a URL is written with, the percent sign aside. -/
def uriChar (c : Char) : Bool :=
  c.isAlphanum || "-._~:/?#[]@!$&'()*+,;=".toList.contains c

/-- Letters of a URL, with two hexadecimal digits after each percent sign. -/
def wellFormed : List Char → Bool
  | [] => true
  | '%' :: high :: low :: rest => (hexValue high).isSome && (hexValue low).isSome && wellFormed rest
  | c :: rest => uriChar c && wellFormed rest

/-- The text before the first separator, and the text after it if there is one. -/
def cutAt (sep : Char) (text : List Char) : List Char × Option (List Char) :=
  (text.takeWhile (· != sep), (text.dropWhile (· != sep)).tail?)

structure URL where
  scheme : Option String
  authority : Option String
  path : String
  query : Option (List Char)
  fragment : Option (List Char)
deriving DecidableEq

/-- The scheme ends at the first colon, unless a slash comes before it. -/
def cutScheme (text : List Char) : Option String × List Char :=
  match cutAt ':' text with
  | (scheme, some rest) =>
    if '/' ∈ scheme then (none, text) else (some (String.ofList scheme), rest)
  | (_, none) => (none, text)

/-- The authority stands between two slashes and the next one. -/
def cutAuthority : List Char → Option String × List Char
  | '/' :: '/' :: rest =>
    (some (String.ofList (rest.takeWhile (· != '/'))), rest.dropWhile (· != '/'))
  | rest => (none, rest)

def components (text : List Char) : URL :=
  let (main, fragment) := cutAt '#' text
  let (front, query) := cutAt '?' main
  let (scheme, rest) := cutScheme front
  let (authority, path) := cutAuthority rest
  { scheme, authority, path := String.ofList path, query, fragment }

def URL.ofString? (text : String) : Option URL :=
  if text ≠ "" ∧ wellFormed text.toList then some (components text.toList) else none

/-- An authority without user information and port. -/
def authorityHost (authority : String) : String :=
  let letters := authority.toList
  let server := if '@' ∈ letters then (letters.dropWhile (· != '@')).drop 1 else letters
  String.ofList (server.takeWhile (· != ':'))

def URL.host (url : URL) : Option String := url.authority.map authorityHost

lemma cutAt_free {sep : Char} {text : List Char} (free : sep ∉ text) :
    cutAt sep text = (text, none) := by
  have other : ∀ c ∈ text, (c != sep) = true := by
    intro c mem
    simp only [bne_iff_ne, ne_eq]
    rintro rfl
    exact free mem
  simp [cutAt, List.takeWhile_eq_self_iff.mpr other, List.dropWhile_eq_nil_iff.mpr other]

lemma cutAt_append {sep : Char} {front : List Char} (free : sep ∉ front) (rest : List Char) :
    cutAt sep (front ++ sep :: rest) = (front, some rest) := by
  have other : ∀ c ∈ front, (c != sep) = true := by
    intro c mem
    simp only [bne_iff_ne, ne_eq]
    rintro rfl
    exact free mem
  simp [cutAt, List.takeWhile_append_of_pos other, List.dropWhile_append_of_pos other]

/-- Before a question mark and without number signs, the query is cut off whole. -/
lemma components_query {front query : List Char} (mark : '?' ∉ front) (sign : '#' ∉ front)
    (free : '#' ∉ query) : components (front ++ '?' :: query) =
      { components front with query := some query } := by
  have whole : '#' ∉ front ++ '?' :: query := by simp [sign, free]
  simp [components, cutAt_free whole, cutAt_free sign, cutAt_free mark, cutAt_append mark]

lemma wellFormed_escapeByte (b : UInt8) (rest : List Char) :
    wellFormed (escapeByte b ++ rest) = wellFormed rest := by
  have bound := b.toNat_lt
  have high := hexValue_hexDigit (b.toNat / 16) (by omega)
  have low := hexValue_hexDigit (b.toNat % 16) (by omega)
  simp [escapeByte, wellFormed, high, low]

lemma wellFormed_cons {c : Char} (percent : c ≠ '%') (rest : List Char) :
    wellFormed (c :: rest) = (uriChar c && wellFormed rest) := by
  rw [wellFormed]
  exact fun _ _ _ e => absurd e percent

/-- An escaped text is well formed when its allowed letters are letters of a URL. -/
lemma wellFormed_escape {allowed : Char → Bool} (percent : allowed '%' = false)
    (uri : ∀ c, allowed c → uriChar c) (text : List Char) : wellFormed (escape allowed text) := by
  induction text with
  | nil => rfl
  | cons c text ih =>
    rw [escape_cons, escapeChar]
    split
    case isTrue ok =>
      have notPercent : c ≠ '%' := by
        rintro rfl
        rw [percent] at ok
        cases ok
      rw [List.singleton_append, wellFormed_cons notPercent, uri c ok, ih]
      rfl
    case isFalse =>
      induction String.utf8EncodeChar c with
      | nil => exact ih
      | cons b bs rest =>
        rw [List.flatMap_cons, List.append_assoc, wellFormed_escapeByte]
        exact rest

end SpecialtyMap.Text

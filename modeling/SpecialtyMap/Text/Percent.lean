import Mathlib.Data.List.Basic
import Mathlib.Data.String.Basic
import Mathlib.Tactic.Common

/-!
# Percent-encoding and form decoding

`escape` writes a text letter by letter: a letter of the allowed set stands for itself, any other
one is written as `%XX` for each byte of its UTF-8 form. `formParse` reads a query the way web forms
are read: fields between ampersands, the name before the first equals sign, a plus for a space,
`%XX` for a byte, and the bytes as UTF-8.

The two are inverse up to the letters that mean something to the reader and are allowed to stand for
themselves. With the percent sign escaped, reading gives back every letter but the plus
(`formDecode_escape`), and an escaped value is read as one field exactly when it has no ampersand
(`formParse_escape`, `formParse_escape_amp`).
-/

namespace SpecialtyMap.Text

def hexDigit (n : Nat) : Char := if n < 10 then Char.ofNat (48 + n) else Char.ofNat (55 + n)

def hexValue (c : Char) : Option Nat :=
  if '0' ≤ c ∧ c ≤ '9' then some (c.toNat - 48)
  else if 'A' ≤ c ∧ c ≤ 'F' then some (c.toNat - 55)
  else if 'a' ≤ c ∧ c ≤ 'f' then some (c.toNat - 87)
  else none

def escapeByte (b : UInt8) : List Char := ['%', hexDigit (b.toNat / 16), hexDigit (b.toNat % 16)]

/-- A letter of the allowed set as it is, any other one as its escaped bytes. -/
def escapeChar (allowed : Char → Bool) (c : Char) : List Char :=
  if allowed c then [c] else (String.utf8EncodeChar c).flatMap escapeByte

def escape (allowed : Char → Bool) (text : List Char) : List Char :=
  text.flatMap (escapeChar allowed)

/-- The bytes a form-encoded text stands for; a percent sign without two digits
stands for itself. -/
def formBytes : List Char → List UInt8
  | [] => []
  | '+' :: rest => 0x20 :: formBytes rest
  | '%' :: high :: low :: rest =>
    match hexValue high, hexValue low with
    | some h, some l => UInt8.ofNat (16 * h + l) :: formBytes rest
    | _, _ => String.utf8EncodeChar '%' ++ formBytes (high :: low :: rest)
  | c :: rest => String.utf8EncodeChar c ++ formBytes rest

/-- The text a form-encoded text stands for, if its bytes are UTF-8. -/
def formDecode (text : List Char) : Option String :=
  (formBytes text).toByteArray.utf8Decode?.map fun letters => String.ofList letters.toList

/-- A field of a query: the name before the first equals sign, the value after it. -/
def formField (field : List Char) : Option (String × String) := do
  let name ← formDecode (field.takeWhile (· != '='))
  let value ← formDecode ((field.dropWhile (· != '=')).drop 1)
  return (name, value)

/-- The parameters of a query, in order; empty fields are skipped. -/
def formParse (query : List Char) : Option (List (String × String)) :=
  ((query.splitOn '&').filter (· != [])).mapM formField

/-- What a plus is read as. -/
def plusToSpace (c : Char) : Char := if c = '+' then ' ' else c

section Hex

lemma hexValue_hexDigit : ∀ n < 16, hexValue (hexDigit n) = some n := by decide

/-- No hexadecimal digit is a letter that `escape` or `formParse` treats specially. -/
lemma hexDigit_plain : ∀ n < 16, (hexDigit n).isAlphanum := by decide

lemma escapeByte_plain {b : UInt8} {c : Char} (mem : c ∈ escapeByte b) : c = '%' ∨
    c.isAlphanum := by
  have bound := b.toNat_lt
  simp only [escapeByte, List.mem_cons, List.not_mem_nil, or_false] at mem
  rcases mem with rfl | rfl | rfl
  · exact .inl rfl
  · exact .inr (hexDigit_plain _ (by omega))
  · exact .inr (hexDigit_plain _ (by omega))

end Hex

section Escape
variable {allowed : Char → Bool}

@[simp] lemma escape_cons (c : Char) (text : List Char) :
    escape allowed (c :: text) = escapeChar allowed c ++ escape allowed text := rfl

@[simp] lemma escape_append (front rest : List Char) :
    escape allowed (front ++ rest) = escape allowed front ++ escape allowed rest := by
  simp [escape]

lemma escapeChar_allowed {c : Char} (ok : allowed c) : escapeChar allowed c = [c] := by
  simp [escapeChar, ok]

lemma escape_allowed {text : List Char} (ok : ∀ c ∈ text, allowed c) :
    escape allowed text = text := by
  induction text with
  | nil => rfl
  | cons c text ih =>
    simp only [List.mem_cons, forall_eq_or_imp] at ok
    rw [escape_cons, escapeChar_allowed ok.1, ih ok.2, List.singleton_append]

/-- A letter of an escaped text is an allowed letter of the text, a percent
sign, or alphanumeric. -/
lemma mem_escape {text : List Char} {c : Char} (mem : c ∈ escape allowed text) :
    (c ∈ text ∧ allowed c) ∨ c = '%' ∨ c.isAlphanum := by
  obtain ⟨d, memD, memC⟩ := List.mem_flatMap.mp mem
  unfold escapeChar at memC
  split at memC
  case isTrue ok =>
    rw [List.mem_singleton.mp memC]
    exact .inl ⟨memD, ok⟩
  case isFalse =>
    obtain ⟨b, -, memB⟩ := List.mem_flatMap.mp memC
    exact .inr (escapeByte_plain memB)

lemma notMem_escape {text : List Char} {c : Char} (free : c ∉ text) (percent : c ≠ '%')
    (plain : ¬ c.isAlphanum) : c ∉ escape allowed text := by
  intro mem
  rcases mem_escape mem with ⟨mem, -⟩ | e | e
  · exact free mem
  · exact percent e
  · exact plain e

end Escape

section Decode

lemma formBytes_escapeByte (b : UInt8) (rest : List Char) :
    formBytes (escapeByte b ++ rest) = b :: formBytes rest := by
  have bound := b.toNat_lt
  have high := hexValue_hexDigit (b.toNat / 16) (by omega)
  have low := hexValue_hexDigit (b.toNat % 16) (by omega)
  have value : 16 * (b.toNat / 16) + b.toNat % 16 = b.toNat := by omega
  simp only [escapeByte, List.cons_append, List.nil_append, formBytes, high, low, value,
    UInt8.ofNat_toNat]

lemma formBytes_escapeBytes (bs : List UInt8) (rest : List Char) :
    formBytes (bs.flatMap escapeByte ++ rest) = bs ++ formBytes rest := by
  induction bs with
  | nil => rfl
  | cons b bs ih =>
    rw [List.flatMap_cons, List.append_assoc, formBytes_escapeByte, ih, List.cons_append]

lemma formBytes_cons {c : Char} (plus : c ≠ '+') (percent : c ≠ '%') (rest : List Char) :
    formBytes (c :: rest) = String.utf8EncodeChar c ++ formBytes rest := by
  rw [formBytes]
  · exact fun e => plus e
  · exact fun _ _ _ e => absurd e percent

lemma formBytes_escapeChar {allowed : Char → Bool} (percent : allowed '%' = false) (c : Char)
    (rest : List Char) : formBytes (escapeChar allowed c ++ rest) =
      String.utf8EncodeChar (if allowed c then plusToSpace c else c) ++ formBytes rest := by
  unfold escapeChar
  split
  case isTrue ok =>
    by_cases plus : c = '+'
    · subst plus
      rfl
    · have notPercent : c ≠ '%' := by
        rintro rfl
        rw [percent] at ok
        cases ok
      rw [plusToSpace, if_neg plus, List.singleton_append, formBytes_cons plus notPercent]
  case isFalse => rw [formBytes_escapeBytes]

/-- The letters read back from an escaped text. -/
def readBack (allowed : Char → Bool) (text : List Char) : List Char :=
  text.map fun c => if allowed c then plusToSpace c else c

lemma formBytes_escape {allowed : Char → Bool} (percent : allowed '%' = false) (text : List Char) :
    formBytes (escape allowed text) = (readBack allowed text).flatMap String.utf8EncodeChar := by
  induction text with
  | nil => rfl
  | cons c text ih =>
    rw [escape_cons, formBytes_escapeChar percent, ih]
    rfl

/-- Reading an escaped text gives the text with its written pluses turned into spaces. -/
theorem formDecode_escape {allowed : Char → Bool} (percent : allowed '%' = false)
    (text : List Char) :
    formDecode (escape allowed text) = some (String.ofList (readBack allowed text)) := by
  have decode := @List.utf8Decode?_utf8Encode (readBack allowed text)
  rw [List.utf8Encode] at decode
  rw [formDecode, formBytes_escape percent, decode]
  simp

/-- Every letter is read back unless a plus stands for itself. -/
lemma readBack_eq_self_iff {allowed : Char → Bool} {text : List Char} :
    readBack allowed text = text ↔ (allowed '+' → '+' ∉ text) := by
  induction text with
  | nil => simp [readBack]
  | cons c text ih =>
    have head : (if allowed c then plusToSpace c else c) = c ↔ (allowed '+' → '+' ≠ c) := by
      by_cases plus : c = '+'
      · subst plus
        simp [plusToSpace]
      · simp [plusToSpace, plus, Ne.symm plus]
    have split : readBack allowed (c :: text) = c :: text ↔
        (if allowed c then plusToSpace c else c) = c ∧ readBack allowed text = text := by
      simp [readBack]
    rw [split, head, ih]
    simp only [List.mem_cons, not_or]
    exact ⟨fun h ok => ⟨h.1 ok, h.2 ok⟩, fun h => ⟨fun ok => (h ok).1, fun ok => (h ok).2⟩⟩

@[simp] lemma readBack_append {allowed : Char → Bool} (front rest : List Char) :
    readBack allowed (front ++ rest) = readBack allowed front ++ readBack allowed rest := by
  simp [readBack]

@[simp] lemma readBack_length {allowed : Char → Bool} (text : List Char) :
    (readBack allowed text).length = text.length := by
  simp [readBack]

/-- Reading brings in no letter but the space. -/
lemma mem_readBack {allowed : Char → Bool} {text : List Char} {c : Char}
    (mem : c ∈ readBack allowed text) (space : c ≠ ' ') : c ∈ text := by
  obtain ⟨d, memD, e⟩ := List.mem_map.mp mem
  have same : c = d := by
    unfold plusToSpace at e
    split at e
    · split at e
      · exact absurd e.symm space
      · exact e.symm
    · exact e.symm
  rwa [same]

lemma formDecode_plain {text : List Char} (plain : ∀ c ∈ text, c.isAlphanum) :
    formDecode text = some (String.ofList text) := by
  have decode := @formDecode_escape Char.isAlphanum (by decide) text
  have same : readBack Char.isAlphanum text = text :=
    readBack_eq_self_iff.mpr fun plus => absurd plus (by decide)
  rwa [escape_allowed plain, same] at decode

end Decode

section Parse
variable {allowed : Char → Bool} {name : List Char}

/-- A field with an escaped value is read as its name and what is read back of the value. -/
lemma formField_escape (percent : allowed '%' = false) (plain : ∀ c ∈ name, c.isAlphanum)
    (value : List Char) : formField (name ++ '=' :: escape allowed value) =
      some (String.ofList name, String.ofList (readBack allowed value)) := by
  have free : ∀ c ∈ name, (c != '=') = true := by
    intro c mem
    have := plain c mem
    simp only [bne_iff_ne, ne_eq]
    rintro rfl
    revert this
    decide
  unfold formField
  rw [List.takeWhile_append_of_pos free, List.dropWhile_append_of_pos free]
  simp [formDecode_plain plain, formDecode_escape percent]

lemma amp_notMem_plain (plain : ∀ c ∈ name, c.isAlphanum) : '&' ∉ name := by
  intro mem
  have letter := plain _ mem
  revert letter
  decide

lemma amp_notMem_field (plain : ∀ c ∈ name, c.isAlphanum) {value : List Char}
    (free : '&' ∉ value) : '&' ∉ name ++ '=' :: escape allowed value := by
  have escaped : '&' ∉ escape allowed value := notMem_escape free (by decide) (by decide)
  simp [amp_notMem_plain plain, escaped]

/-- An escaped value without ampersands is read as one parameter. -/
theorem formParse_escape (percent : allowed '%' = false) (plain : ∀ c ∈ name, c.isAlphanum)
    {value : List Char} (free : '&' ∉ value) :
    formParse (name ++ '=' :: escape allowed value) =
      some [(String.ofList name, String.ofList (readBack allowed value))] := by
  unfold formParse
  rw [List.splitOn_eq_singleton (amp_notMem_field plain free)]
  simp [formField_escape percent plain]

/-- An ampersand that stands for itself ends the value before it. -/
theorem formParse_escape_amp (percent : allowed '%' = false) (amp : allowed '&')
    (plain : ∀ c ∈ name, c.isAlphanum) {value : List Char} (mem : '&' ∈ value)
    {params : List (String × String)}
    (parse : formParse (name ++ '=' :: escape allowed value) = some params) :
    ∃ first others, params = (String.ofList name, first) :: others ∧ '&' ∉ first.toList := by
  obtain ⟨front, rest, rfl, free⟩ := List.eq_append_cons_of_mem mem
  have cut : name ++ '=' :: escape allowed (front ++ '&' :: rest) =
      (name ++ '=' :: escape allowed front) ++ '&' :: escape allowed rest := by
    simp [escapeChar_allowed amp]
  unfold formParse at parse
  rw [cut, List.splitOn_append_cons_self_of_not_mem (amp_notMem_field plain free)] at parse
  have nonempty : ((name ++ '=' :: escape allowed front) != []) = true := by simp
  rw [List.filter_cons, if_pos nonempty, List.mapM_cons, formField_escape percent plain] at parse
  cases others : (((escape allowed rest).splitOn '&').filter (· != [])).mapM formField with
  | none => simp [others] at parse
  | some others' =>
    refine ⟨String.ofList (readBack allowed front), others', ?_, ?_⟩
    · simpa [others] using parse.symm
    · rw [String.toList_ofList]
      exact fun mem => free (mem_readBack mem (by decide))

end Parse

end SpecialtyMap.Text

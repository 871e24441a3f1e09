import SpecialtyMap.Log.Integer
import SpecialtyMap.Machine.Run

/-!
# Instructions of the transaction log

What `TransactLogEncoder` writes for an instruction, `append_simple_instr` of its number and its
arguments, and how `TransactLogParser::parse_one` reads it. Rows and sizes are of type `size_t`,
table keys are 32 bits wide and written as `int64_t`, the keys of columns and objects are `int64_t`.
`list_move` asserts that its rows differ. The two selections are written by functions that the
headers only declare, so their text is a parameter, of which the parser relies on reading it back.

A log is written exactly when no row is moved to itself, and is read as it was written
(`parse_write`). An instruction takes no more characters than the space that is reserved for it
(`length_encode_le`).
-/

namespace SpecialtyMap.Log
open SpecialtyMap.Machine

inductive Instruction where
  | insertGroupLevelTable (table : ℕ)
  | eraseGroupLevelTable (table : ℕ)
  | renameGroupLevelTable (table : ℕ)
  | selectTable (table : ℕ)
  | createObject (key : ℤ)
  | removeObject (key : ℤ)
  | set (col key : ℤ)
  | clearTable (oldSize : ℕ)
  | insertColumn (col : ℤ)
  | eraseColumn (col : ℤ)
  | renameColumn (col : ℤ)
  | setLinkType (col : ℤ)
  | selectList (col key : ℤ)
  | listInsert (ndx : ℕ)
  | listSet (ndx : ℕ)
  | listMove (fromNdx toNdx : ℕ)
  | listSwap (ndx1 ndx2 : ℕ)
  | listErase (ndx : ℕ)
  | listClear (oldSize : ℕ)
deriving DecidableEq

namespace Instruction

/-- `enum Instruction`. -/
def code : Instruction → ℕ
  | insertGroupLevelTable _ => 1
  | eraseGroupLevelTable _ => 2
  | renameGroupLevelTable _ => 3
  | selectTable _ => 10
  | createObject _ => 11
  | removeObject _ => 12
  | set _ _ => 13
  | clearTable _ => 15
  | insertColumn _ => 20
  | eraseColumn _ => 21
  | renameColumn _ => 22
  | setLinkType _ => 23
  | selectList _ _ => 30
  | listInsert _ => 31
  | listSet _ => 32
  | listMove _ _ => 33
  | listSwap _ _ => 34
  | listErase _ => 35
  | listClear _ => 36

/-- The arguments as they are written, each with the type `encode` writes it as. Those of the
selections are written elsewhere. -/
def arguments : Instruction → List (IntType × ℤ)
  | insertGroupLevelTable table | eraseGroupLevelTable table | renameGroupLevelTable table =>
    [(.int64, table)]
  | createObject key | removeObject key => [(.int64, key)]
  | set col key => [(.int64, col), (.int64, key)]
  | insertColumn col | eraseColumn col | renameColumn col | setLinkType col => [(.int64, col)]
  | clearTable n | listInsert n | listSet n | listErase n | listClear n => [(.size, n)]
  | listMove m n | listSwap m n => [(.size, m), (.size, n)]
  | selectTable _ | selectList _ _ => []

def selects : Instruction → Bool
  | selectTable _ | selectList _ _ => true
  | _ => false

/-- What the encoder asserts of an instruction. -/
def Asserted : Instruction → Prop
  | listMove fromNdx toNdx => fromNdx ≠ toNdx
  | _ => True

instance : DecidablePred Asserted
  | listMove fromNdx toNdx => inferInstanceAs (Decidable (fromNdx ≠ toNdx))
  | insertGroupLevelTable _ | eraseGroupLevelTable _ | renameGroupLevelTable _ | selectTable _
  | createObject _ | removeObject _ | set _ _ | clearTable _ | insertColumn _ | eraseColumn _
  | renameColumn _ | setLinkType _ | selectList _ _ | listInsert _ | listSet _ | listSwap _ _
  | listErase _ | listClear _ => inferInstanceAs (Decidable True)

/-- The keys, rows and sizes an instruction can have. -/
def WellFormed : Instruction → Prop
  | insertGroupLevelTable table | eraseGroupLevelTable table | renameGroupLevelTable table
  | selectTable table => table < 2 ^ 32
  | createObject key | removeObject key => IntType.int64.InRange key
  | set col key | selectList col key => IntType.int64.InRange col ∧ IntType.int64.InRange key
  | insertColumn col | eraseColumn col | renameColumn col | setLinkType col =>
    IntType.int64.InRange col
  | clearTable n | listInsert n | listSet n | listErase n | listClear n => n < 2 ^ 64
  | listMove m n | listSwap m n => m < 2 ^ 64 ∧ n < 2 ^ 64

instance : DecidablePred WellFormed
  | insertGroupLevelTable table | eraseGroupLevelTable table | renameGroupLevelTable table
  | selectTable table => inferInstanceAs (Decidable (table < 2 ^ 32))
  | createObject key | removeObject key => inferInstanceAs (Decidable (IntType.int64.InRange key))
  | set col key | selectList col key =>
    inferInstanceAs (Decidable (IntType.int64.InRange col ∧ IntType.int64.InRange key))
  | insertColumn col | eraseColumn col | renameColumn col | setLinkType col =>
    inferInstanceAs (Decidable (IntType.int64.InRange col))
  | clearTable n | listInsert n | listSet n | listErase n | listClear n =>
    inferInstanceAs (Decidable (n < 2 ^ 64))
  | listMove m n | listSwap m n => inferInstanceAs (Decidable (m < 2 ^ 64 ∧ n < 2 ^ 64))

/-- `encode_list`. -/
def encodeList : List (IntType × ℤ) → List ℕ
  | [] => []
  | (ty, value) :: args => encodeInt ty value ++ encodeList args

/-- `append_simple_instr` of the number and the arguments. -/
def appendSimple (instr : Instruction) : List ℕ :=
  encodeList ((.int64, instr.code) :: instr.arguments)

end Instruction

/-- What stops the encoder: the assertion of `list_move`. -/
inductive EncoderAssertion where
  | fromNotTo
deriving DecidableEq

/-- What `TransactLogEncoder::select_table` and `select_list` append. -/
structure SelectEncoder where
  selectTable : ℕ → List ℕ
  selectList : ℤ → ℤ → List ℕ

section Encoder
variable (sel : SelectEncoder)

/-- The characters of an instruction. -/
def Instruction.encode : Instruction → List ℕ
  | .selectTable table => sel.selectTable table
  | .selectList col key => sel.selectList col key
  | instr => instr.appendSimple

/-- The function of the encoder for an instruction: what it appends to the log. -/
def Instruction.write (instr : Instruction) : Except EncoderAssertion (List ℕ) :=
  if instr.Asserted then .ok (instr.encode sel) else .error .fromNotTo

/-- A log, one instruction after the other. -/
def writeLog : List Instruction → Except EncoderAssertion (List ℕ)
  | [] => return []
  | instr :: instrs => do
    let text ← instr.write sel
    let log ← writeLog instrs
    return text ++ log

end Encoder

def readSize (input : List ℕ) : Except ParserStop (ℕ × List ℕ) := do
  let (value, input) ← readInt .size input
  return (value.toNat, input)

def readTable (input : List ℕ) : Except ParserStop (ℕ × List ℕ) := do
  let (value, input) ← readInt .uint32 input
  return (value.toNat, input)

def readKey (input : List ℕ) : Except ParserStop (ℤ × List ℕ) := readInt .int64 input

/-- An instruction with one argument, or with two that are read alike. -/
def with1 {α : Type} (read : List ℕ → Except ParserStop (α × List ℕ)) (make : α → Instruction)
    (input : List ℕ) : Except ParserStop (Instruction × List ℕ) := do
  let (value, input) ← read input
  return (make value, input)

def with2 {α : Type} (read : List ℕ → Except ParserStop (α × List ℕ)) (make : α → α → Instruction)
    (input : List ℕ) : Except ParserStop (Instruction × List ℕ) := do
  let (value, input) ← read input
  let (value', input) ← read input
  return (make value value', input)

/-- `TransactLogParser::parse_one`. -/
def parseOne : List ℕ → Except ParserStop (Instruction × List ℕ)
  | [] => .error .badTransactLog
  | instr :: input =>
    match instr with
    | 13 => with2 readKey .set input
    | 32 => with1 readSize .listSet input
    | 11 => with1 readKey .createObject input
    | 12 => with1 readKey .removeObject input
    | 10 => do
      let (levels, input) ← readInt .int input
      if levels ≠ 0 then .error .levels
      else with1 readTable .selectTable input
    | 15 => with1 readSize .clearTable input
    | 31 => with1 readSize .listInsert input
    | 33 => with2 readSize .listMove input
    | 34 => with2 readSize .listSwap input
    | 35 => with1 readSize .listErase input
    | 36 => with1 readSize .listClear input
    | 30 => with2 readKey .selectList input
    | 23 => with1 readKey .setLinkType input
    | 20 => with1 readKey .insertColumn input
    | 21 => with1 readKey .eraseColumn input
    | 22 => with1 readKey .renameColumn input
    | 1 => with1 readTable .insertGroupLevelTable input
    | 2 => with1 readTable .eraseGroupLevelTable input
    | 3 => with1 readTable .renameGroupLevelTable input
    | _ => .error .badTransactLog

/-- The selections are characters that the parser reads back. -/
structure SelectEncoder.Lawful (sel : SelectEncoder) : Prop where
  table : ∀ table input, (Instruction.selectTable table).WellFormed →
    parseOne (sel.selectTable table ++ input) = .ok (.selectTable table, input)
  list : ∀ col key input, (Instruction.selectList col key).WellFormed →
    parseOne (sel.selectList col key ++ input) = .ok (.selectList col key, input)
  table_lt : ∀ table, (Instruction.selectTable table).WellFormed →
  ∀ part ∈ sel.selectTable table, part < 256
  list_lt : ∀ col key, (Instruction.selectList col key).WellFormed →
    ∀ part ∈ sel.selectList col key, part < 256

section One
variable {sel : SelectEncoder} {n m table : ℕ} {key key' : ℤ} {input : List ℕ} {instr : Instruction}

lemma size_inRange (lt : n < 2 ^ 64) : IntType.size.InRange n := by
  simp only [IntType.InRange, IntType.size]
  exact ⟨by simp, by exact_mod_cast lt⟩

lemma readSize_encode (lt : n < 2 ^ 64) :
    readSize (encodeInt .size n ++ input) = .ok (n, input) := by
  rw [readSize, readInt_encodeInt (size_inRange lt) (size_inRange lt)]
  rfl

lemma table_inRange (lt : table < 2 ^ 32) :
    IntType.int64.InRange table ∧ IntType.uint32.InRange table := by
  simp only [IntType.InRange, IntType.int64, IntType.uint32, if_true, if_false, Bool.false_eq_true]
  refine ⟨⟨?_, ?_⟩, ?_, ?_⟩ <;> omega

lemma readTable_encode (lt : table < 2 ^ 32) :
    readTable (encodeInt .int64 table ++ input) = .ok (table, input) := by
  obtain ⟨written, read⟩ := table_inRange lt
  rw [readTable, readInt_encodeInt written read]
  rfl

lemma readKey_encode (inRange : IntType.int64.InRange key) :
    readKey (encodeInt .int64 key ++ input) = .ok (key, input) := readInt_encodeInt inRange inRange

lemma with1_ok {α : Type} {read : List ℕ → Except ParserStop (α × List ℕ)} {make : α → Instruction}
    {a : α} {input' : List ℕ} (ok : read input = .ok (a, input')) :
    with1 read make input = .ok (make a, input') := by
  rw [with1, ok]
  rfl

lemma with2_ok {α : Type} {read : List ℕ → Except ParserStop (α × List ℕ)}
    {make : α → α → Instruction}
    {a a' : α} {input' input'' : List ℕ} (ok : read input = .ok (a, input'))
    (ok' : read input' = .ok (a', input'')) : with2 read make input = .ok (make a a', input'') := by
  rw [with2, ok]
  simp only [Bind.bind, Except.bind, ok']
  rfl

lemma code_lt : instr.code < 64 := by
  cases instr <;> simp [Instruction.code]

/-- The number of an instruction takes one character, as `max_size` has it. -/
lemma encode_code : encodeInt .int64 instr.code = [instr.code] := by
  have small : instr.code < 64 := code_lt
  have one : instr.code >>> 6 = 0 := by
    rw [Nat.shiftRight_eq_div_pow]
    exact Nat.div_eq_of_lt small
  have sign : decide ((instr.code : ℤ) < 0) = false := decide_eq_false (by omega)
  have size : magnitude instr.code = instr.code := by
    rw [magnitude, if_neg (by omega), Int.toNat_natCast]
  rw [encodeInt, sign, size]
  show encodeParts false (9 + 1) instr.code = [instr.code]
  rw [encodeParts, if_pos one]
  rfl

lemma encodeList_one {ty : IntType} {value : ℤ} :
    Instruction.encodeList [(ty, value)] ++ input = encodeInt ty value ++ input := by
  rw [Instruction.encodeList, Instruction.encodeList, List.append_nil]

lemma encodeList_two {ty ty' : IntType} {value value' : ℤ} :
    Instruction.encodeList [(ty, value), (ty', value')] ++ input =
      encodeInt ty value ++ (encodeInt ty' value' ++ input) := by
  rw [Instruction.encodeList, List.append_assoc, encodeList_one]

/-- An instruction that is written by its number and its arguments is read as it was written. -/
lemma parseOne_appendSimple (wf : instr.WellFormed) (plain : instr.selects = false) :
    parseOne (instr.appendSimple ++ input) = .ok (instr, input) := by
  rw [Instruction.appendSimple, Instruction.encodeList, encode_code, List.append_assoc,
    List.singleton_append]
  have size {n : ℕ} (lt : n < 2 ^ 64) :
      readSize (Instruction.encodeList [(.size, (n : ℤ))] ++ input) = .ok (n, input) := by
    rw [encodeList_one]
    exact readSize_encode lt
  have table {n : ℕ} (lt : n < 2 ^ 32) :
      readTable (Instruction.encodeList [(.int64, (n : ℤ))] ++ input) = .ok (n, input) := by
    rw [encodeList_one]
    exact readTable_encode lt
  have key {k : ℤ} (inRange : IntType.int64.InRange k) :
      readKey (Instruction.encodeList [(.int64, k)] ++ input) = .ok (k, input) := by
    rw [encodeList_one]
    exact readKey_encode inRange
  have sizes {m n : ℕ} (lt : m < 2 ^ 64) (lt' : n < 2 ^ 64) (make : ℕ → ℕ → Instruction) :
      with2 readSize make (Instruction.encodeList [(.size, (m : ℤ)), (.size, (n : ℤ))] ++ input) =
        .ok (make m n, input) := by
    rw [encodeList_two]
    exact with2_ok (readSize_encode lt) (readSize_encode lt')
  have keys {k l : ℤ} (inRange : IntType.int64.InRange k) (inRange' : IntType.int64.InRange l)
      (make : ℤ → ℤ → Instruction) :
      with2 readKey make (Instruction.encodeList [(.int64, k), (.int64, l)] ++ input) =
        .ok (make k l, input) := by
    rw [encodeList_two]
    exact with2_ok (readKey_encode inRange) (readKey_encode inRange')
  cases instr with
  | insertGroupLevelTable _ => exact with1_ok (table wf)
  | eraseGroupLevelTable _ => exact with1_ok (table wf)
  | renameGroupLevelTable _ => exact with1_ok (table wf)
  | selectTable _ => cases plain
  | createObject _ => exact with1_ok (key wf)
  | removeObject _ => exact with1_ok (key wf)
  | set _ _ => exact keys wf.1 wf.2 .set
  | clearTable _ => exact with1_ok (size wf)
  | insertColumn _ => exact with1_ok (key wf)
  | eraseColumn _ => exact with1_ok (key wf)
  | renameColumn _ => exact with1_ok (key wf)
  | setLinkType _ => exact with1_ok (key wf)
  | selectList _ _ => cases plain
  | listInsert _ => exact with1_ok (size wf)
  | listSet _ => exact with1_ok (size wf)
  | listMove _ _ => exact sizes wf.1 wf.2 .listMove
  | listSwap _ _ => exact sizes wf.1 wf.2 .listSwap
  | listErase _ => exact with1_ok (size wf)
  | listClear _ => exact with1_ok (size wf)

/-- An instruction is read as it was written. -/
lemma parseOne_encode (lawful : sel.Lawful) (wf : instr.WellFormed) :
    parseOne (instr.encode sel ++ input) = .ok (instr, input) := by
  cases instr with
  | selectTable table => exact lawful.table table input wf
  | selectList col key => exact lawful.list col key input wf
  | _ => exact parseOne_appendSimple wf rfl

/-- The selections written like the other instructions, a table at level zero. -/
def SelectEncoder.simple : SelectEncoder where
  selectTable table := Instruction.encodeList [(.int64, 10), (.size, 0), (.int64, table)]
  selectList col key := Instruction.encodeList [(.int64, 30), (.int64, col), (.int64, key)]

end One

/-- A reader that leaves nothing in front of the log. -/
def Forward {α : Type} (read : List ℕ → Except ParserStop (α × List ℕ)) : Prop :=
  ∀ ⦃input a rest⦄, read input = .ok (a, rest) → rest.length ≤ input.length

section Forward
variable {α β : Type} {read : List ℕ → Except ParserStop (α × List ℕ)}

lemma readParts_forward {ty : IntType} {n i value m : ℕ} {negative : Bool} {input rest : List ℕ}
    (ok : readParts ty n i value input = .ok (m, negative, rest)) : rest.length ≤ input.length := by
  induction n generalizing i value input with
  | zero => cases ok
  | succ n ih =>
    cases input with
    | nil => cases ok
    | cons part input =>
      rw [readParts] at ok
      dsimp only at ok
      split_ifs at ok
      · cases ok
        exact Nat.le_succ _
      · exact (ih ok).trans (Nat.le_succ _)

lemma readInt_forward {ty : IntType} : Forward (readInt ty) := by
  intro input a rest ok
  obtain ⟨⟨value, negative, left⟩, parts, ok⟩ := ok_bind_iff.mp ok
  have le := readParts_forward parts
  cases negative with
  | false =>
    cases ok
    exact le
  | true =>
    obtain ⟨_, -, ok⟩ := ok_bind_iff.mp ok
    cases ok
    exact le

lemma readSize_forward : Forward readSize := by
  intro input a rest ok
  obtain ⟨_, read, ok⟩ := ok_bind_iff.mp ok
  cases ok
  exact readInt_forward read

lemma readTable_forward : Forward readTable := by
  intro input a rest ok
  obtain ⟨_, read, ok⟩ := ok_bind_iff.mp ok
  cases ok
  exact readInt_forward read

lemma with1_forward {make : α → Instruction} (forward : Forward read) :
    Forward (with1 read make) := by
  intro input a rest ok
  obtain ⟨_, first, ok⟩ := ok_bind_iff.mp ok
  cases ok
  exact forward first

lemma with2_forward {make : α → α → Instruction} (forward : Forward read) :
    Forward (with2 read make) := by
  intro input a rest ok
  obtain ⟨_, first, ok⟩ := ok_bind_iff.mp ok
  obtain ⟨_, second, ok⟩ := ok_bind_iff.mp ok
  cases ok
  exact (forward second).trans (forward first)

/-- Every instruction takes a character at least. -/
lemma parseOne_forward {input rest : List ℕ} {instr : Instruction}
    (ok : parseOne input = .ok (instr, rest)) : rest.length < input.length := by
  cases input with
  | nil => cases ok
  | cons code input =>
    refine Nat.lt_succ_of_le ?_
    have key : Forward readKey := readInt_forward
    unfold parseOne at ok
    dsimp only at ok
    split at ok
    all_goals first
      | exact with1_forward key ok
      | exact with2_forward key ok
      | exact with1_forward readSize_forward ok
      | exact with2_forward readSize_forward ok
      | exact with1_forward readTable_forward ok
      | skip
    · obtain ⟨⟨levels, left⟩, read, ok⟩ := ok_bind_iff.mp ok
      dsimp only at ok
      split_ifs at ok
      exact (with1_forward readTable_forward ok).trans (readInt_forward read)
    · cases ok

end Forward

/-- `TransactLogParser::parse`: the instructions as the handler gets them. -/
def parse (input : List ℕ) : Except ParserStop (List Instruction) :=
  if input = [] then .ok []
  else
    match _next : parseOne input with
    | .error stop => .error stop
    | .ok (instr, rest) => (parse rest).map (instr :: ·)
termination_by input.length
decreasing_by exact parseOne_forward _next

/-- `max_size_list`: the space that `append_simple_instr` reserves. -/
def maxSizeList (instr : Instruction) : ℕ := 1 + 10 * instr.arguments.length

section Log
variable {sel : SelectEncoder} {instr : Instruction} {instrs : List Instruction}
  {input rest : List ℕ}

lemma parse_nil : parse [] = .ok [] := by
  rw [parse, if_pos rfl]

lemma parse_ok (ok : parseOne input = .ok (instr, rest)) :
    parse input = (parse rest).map (instr :: ·) := by
  have some : input ≠ [] := by
    rintro rfl
    cases ok
  rw [parse, if_neg some]
  split
  case h_1 stop failed =>
    rw [failed] at ok
    cases ok
  case h_2 instr' rest' read =>
    rw [read] at ok
    cases ok
    rfl

lemma parse_cons (lawful : sel.Lawful) (wf : instr.WellFormed) :
    parse (instr.encode sel ++ input) = (parse input).map (instr :: ·) :=
  parse_ok (parseOne_encode lawful wf)

/-- The texts of instructions are read as these. -/
lemma parse_encode (lawful : sel.Lawful) (wf : ∀ instr ∈ instrs, instr.WellFormed) :
    parse (instrs.flatMap (Instruction.encode sel)) = .ok instrs := by
  induction instrs with
  | nil => exact parse_nil
  | cons instr instrs ih =>
    obtain ⟨first, others⟩ := List.forall_mem_cons.mp wf
    rw [List.flatMap_cons, parse_cons lawful first, ih others]
    rfl

lemma write_ok_iff {text : List ℕ} :
    instr.write sel = .ok text ↔ instr.Asserted ∧ text = instr.encode sel := by
  unfold Instruction.write
  split
  case isTrue asserted => exact ⟨fun ok => ⟨asserted, (Except.ok.inj ok).symm⟩,
    fun ok => by rw [ok.2]⟩
  case isFalse fails => exact ⟨fun ok => (by cases ok), fun ok => absurd ok.1 fails⟩

/-- A log is written if the encoder has nothing against its instructions, and is their texts. -/
lemma writeLog_ok_iff {log : List ℕ} : writeLog sel instrs = .ok log ↔
    (∀ instr ∈ instrs, instr.Asserted) ∧ log = instrs.flatMap (Instruction.encode sel) := by
  induction instrs generalizing log with
  | nil =>
    constructor
    · intro ok
      cases ok
      exact ⟨List.forall_mem_nil _, rfl⟩
    · rintro ⟨-, rfl⟩
      rfl
  | cons instr instrs ih =>
    rw [List.forall_mem_cons, List.flatMap_cons]
    constructor
    · intro ok
      obtain ⟨text, first, ok⟩ := ok_bind_iff.mp ok
      obtain ⟨rest, others, ok⟩ := ok_bind_iff.mp ok
      obtain ⟨asserted, rfl⟩ := write_ok_iff.mp first
      obtain ⟨asserted', rfl⟩ := ih.mp others
      cases ok
      exact ⟨⟨asserted, asserted'⟩, rfl⟩
    · rintro ⟨⟨asserted, asserted'⟩, rfl⟩
      refine ok_bind_iff.mpr ⟨_, write_ok_iff.mpr ⟨asserted, rfl⟩, ?_⟩
      exact ok_bind_iff.mpr ⟨_, ih.mpr ⟨asserted', rfl⟩, rfl⟩

/-- A log is read as it was written. -/
lemma parse_write {log : List ℕ} (lawful : sel.Lawful) (wf : ∀ instr ∈ instrs, instr.WellFormed)
    (written : writeLog sel instrs = .ok log) : parse log = .ok instrs := by
  rw [(writeLog_ok_iff.mp written).2]
  exact parse_encode lawful wf

lemma length_encodeList_le {args : List (IntType × ℤ)}
    (wf : ∀ arg ∈ args, arg.1.InRange arg.2 ∧ arg.1.maxBytes ≤ 10) :
    (Instruction.encodeList args).length ≤ 10 * args.length := by
  induction args with
  | nil => exact le_rfl
  | cons arg args ih =>
    obtain ⟨⟨inRange, le⟩, others⟩ := List.forall_mem_cons.mp wf
    have first := length_encodeInt_le inRange
    have rest := ih others
    rw [Instruction.encodeList, List.length_append, List.length_cons]
    omega

/-- The arguments are of the types they are written as, and these take ten characters at most. -/
lemma arguments_fit (wf : instr.WellFormed) :
    ∀ arg ∈ instr.arguments, arg.1.InRange arg.2 ∧ arg.1.maxBytes ≤ 10 := by
  have key : IntType.int64.maxBytes ≤ 10 := by decide
  have size : IntType.size.maxBytes ≤ 10 := by decide
  have one {a : IntType × ℤ} (fits : a.1.InRange a.2 ∧ a.1.maxBytes ≤ 10) :
      ∀ arg ∈ [a], arg.1.InRange arg.2 ∧ arg.1.maxBytes ≤ 10 := List.forall_mem_singleton.mpr fits
  have two {a b : IntType × ℤ} (fits : a.1.InRange a.2 ∧ a.1.maxBytes ≤ 10)
      (fits' : b.1.InRange b.2 ∧ b.1.maxBytes ≤ 10) :
      ∀ arg ∈ [a, b], arg.1.InRange arg.2 ∧ arg.1.maxBytes ≤ 10 :=
    List.forall_mem_cons.mpr ⟨fits, one fits'⟩
  cases instr with
  | insertGroupLevelTable _ | eraseGroupLevelTable _ | renameGroupLevelTable _ =>
    exact one ⟨(table_inRange wf).1, key⟩
  | selectTable _ | selectList _ _ => exact List.forall_mem_nil _
  | createObject _ | removeObject _ | insertColumn _ | eraseColumn _ | renameColumn _
  | setLinkType _ => exact one ⟨wf, key⟩
  | set _ _ => exact two ⟨wf.1, key⟩ ⟨wf.2, key⟩
  | clearTable _ | listInsert _ | listSet _ | listErase _ | listClear _ =>
    exact one ⟨size_inRange wf, size⟩
  | listMove _ _ | listSwap _ _ => exact two ⟨size_inRange wf.1, size⟩ ⟨size_inRange wf.2, size⟩

/-- An instruction stays within the space that is reserved for it. -/
lemma length_encode_le (wf : instr.WellFormed) (plain : instr.selects = false) :
    (instr.encode sel).length ≤ maxSizeList instr := by
  have le := length_encodeList_le (arguments_fit wf)
  have simple : instr.encode sel = instr.appendSimple := by
    cases instr with
    | selectTable _ | selectList _ _ => cases plain
    | _ => rfl
  rw [simple, Instruction.appendSimple, Instruction.encodeList, encode_code, List.length_append,
    List.length_singleton, maxSizeList]
  exact Nat.add_le_add_left le 1

lemma encodeList_lt {args : List (IntType × ℤ)} {part : ℕ} (wf : ∀ arg ∈ args, arg.1.InRange arg.2)
    (mem : part ∈ Instruction.encodeList args) : part < 256 := by
  induction args with
  | nil => cases mem
  | cons arg args ih =>
    obtain ⟨inRange, others⟩ := List.forall_mem_cons.mp wf
    rcases List.mem_append.mp mem with first | rest
    · exact encodeParts_lt (magnitude_fits inRange) first
    · exact ih others rest

lemma encode_lt {part : ℕ} (lawful : sel.Lawful) (wf : instr.WellFormed)
    (mem : part ∈ instr.encode sel) : part < 256 := by
  have small : instr.code < 64 := code_lt
  have code : IntType.int64.InRange instr.code := by
    simp only [IntType.InRange, IntType.int64]
    exact ⟨by simp, by omega⟩
  have simple {part : ℕ} (mem : part ∈ instr.appendSimple) : part < 256 :=
    encodeList_lt (List.forall_mem_cons.mpr ⟨code, fun arg mem => (arguments_fit wf arg mem).1⟩) mem
  cases instr with
  | selectTable table => exact lawful.table_lt table wf part mem
  | selectList col key => exact lawful.list_lt col key wf part mem
  | _ => exact simple mem

/-- A log is written exactly when no row is moved to itself in it. It consists of characters, is
read as it was written, and each instruction stays within the space that is reserved for it. -/
theorem written_log (lawful : sel.Lawful) (wf : ∀ instr ∈ instrs, instr.WellFormed) :
    ((∃ log, writeLog sel instrs = .ok log) ↔ ∀ m n, .listMove m n ∈ instrs → m ≠ n) ∧
    (∀ log, writeLog sel instrs = .ok log → parse log = .ok instrs ∧ ∀ part ∈ log, part < 256) ∧
    ∀ instr ∈ instrs, instr.selects = false → (instr.encode sel).length ≤ maxSizeList instr := by
  have asserts : (∀ instr ∈ instrs, instr.Asserted) ↔ ∀ m n, .listMove m n ∈ instrs → m ≠ n := by
    constructor
    · exact fun all m n mem => all _ mem
    · intro apart instr mem
      cases instr with
      | listMove m n => exact apart m n mem
      | _ => trivial
  refine ⟨?_, fun log written => ⟨parse_write lawful wf written, fun part mem => ?_⟩,
    fun instr mem plain => length_encode_le (wf instr mem) plain⟩
  · rw [← asserts]
    exact ⟨fun ⟨_, written⟩ => (writeLog_ok_iff.mp written).1,
      fun all => ⟨_, writeLog_ok_iff.mpr ⟨all, rfl⟩⟩⟩
  · rw [(writeLog_ok_iff.mp written).2, List.mem_flatMap] at mem
    obtain ⟨instr, mem, part_mem⟩ := mem
    exact encode_lt lawful (wf instr mem) part_mem

/-- The selections as `append_simple_instr` would write them are read back. -/
lemma SelectEncoder.simple_lawful : SelectEncoder.simple.Lawful where
  table table input wf := by
    have levels : IntType.size.InRange 0 ∧ IntType.int.InRange 0 := by decide
    have code : encodeInt .int64 10 = [10] := @encode_code (.selectTable 0)
    show parseOne (Instruction.encodeList [(.int64, 10), (.size, 0),
      (.int64, (table : ℤ))] ++ input) = _
    rw [Instruction.encodeList, code, List.append_assoc, encodeList_two,
      List.singleton_append, parseOne,
      readInt_encodeInt levels.1 levels.2]
    exact with1_ok (readTable_encode wf)
  list col key input wf := by
    have code : encodeInt .int64 30 = [30] := @encode_code (.selectList 0 0)
    show parseOne (Instruction.encodeList [(.int64, 30), (.int64, col), (.int64, key)] ++ input) = _
    rw [Instruction.encodeList, code, List.append_assoc, encodeList_two,
      List.singleton_append, parseOne]
    exact with2_ok (readKey_encode wf.1) (readKey_encode wf.2)
  table_lt table wf part mem := by
    have codes : IntType.int64.InRange 10 ∧ IntType.size.InRange 0 := by decide
    have args : ∀ arg ∈ [(IntType.int64, (10 : ℤ)), (.size, 0), (.int64, (table : ℤ))],
        arg.1.InRange arg.2 := by
      simp only [List.forall_mem_cons]
      exact ⟨codes.1, codes.2, (table_inRange wf).1, List.forall_mem_nil _⟩
    exact encodeList_lt args mem
  list_lt col key wf part mem := by
    have code : IntType.int64.InRange 30 := by decide
    have args : ∀ arg ∈ [(IntType.int64, (30 : ℤ)), (.int64, col), (.int64, key)],
        arg.1.InRange arg.2 := by
      simp only [List.forall_mem_cons]
      exact ⟨code, wf.1, wf.2, List.forall_mem_nil _⟩
    exact encodeList_lt args mem

/-- Two rows are exchanged in a list of an object with a negative key, and one is moved. -/
theorem written_log_swap :
    let instrs : List Instruction := [.selectTable 5, .set 70000 (-1), .selectList 70000 (-1),
      .listInsert 300, .listSwap 0 (2 ^ 64 - 1), .listMove 3 1]
    ((∃ log, writeLog .simple instrs = .ok log) ↔ ∀ m n, .listMove m n ∈ instrs → m ≠ n) ∧
    (∀ log, writeLog .simple instrs = .ok log → parse log = .ok instrs ∧ ∀ part ∈ log, part < 256) ∧
    ∀ instr ∈ instrs, instr.selects = false → (instr.encode .simple).length ≤ maxSizeList instr :=
  written_log SelectEncoder.simple_lawful (by decide)

end Log

end SpecialtyMap.Log

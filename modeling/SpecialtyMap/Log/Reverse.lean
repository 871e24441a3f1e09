import Mathlib.Data.List.Forall2
import Mathlib.Data.List.TakeWhile
import SpecialtyMap.Log.Instruction

/-!
# Reversing the log of a transaction

When a write transaction is rolled back, `TransactReverser` handles its log and writes a log of its
own. `ReversedNoCopyInputStream` hands out what was written, the last instruction first, for the
observers to follow back. Since an instruction is about the table and the list selected before it, a
selection is kept pending until the next one, and so comes in front of its instructions again.

The reverser writes with the encoder that wrote the log, and nothing that encoder asserts fails for
it. What is read of a log that was written is each instruction undone, in reverse order, in its own
table and list (`rollback_encode`). Renamings of columns and link types are not kept in their place:
what is written for them is handed out with the instruction after them, or not at all.
-/

namespace SpecialtyMap.Log
open SpecialtyMap.Machine

/-- What has to be selected for an instruction. -/
inductive Level where
  | group
  | table
  | list
deriving DecidableEq

namespace Instruction

def level : Instruction → Level
  | insertGroupLevelTable _ | eraseGroupLevelTable _ | renameGroupLevelTable _ | selectTable _ =>
    .group
  | createObject _ | removeObject _ | set _ _ | clearTable _ | insertColumn _ | eraseColumn _
  | renameColumn _ | setLinkType _ | selectList _ _ => .table
  | listInsert _ | listSet _ | listMove _ _ | listSwap _ _ | listErase _ | listClear _ => .list

def renames : Instruction → Bool
  | renameColumn _ | setLinkType _ => true
  | _ => false

/-- `null_key`. -/
def nullKey : ℤ := -1

/-- What is read instead of an instruction. A cleared table gets objects without keys back, a
cleared list its places from the first on. A row is not moved back: the move is made again. -/
def inverse : Instruction → List Instruction
  | insertGroupLevelTable table => [eraseGroupLevelTable table]
  | eraseGroupLevelTable table => [insertGroupLevelTable table]
  | createObject key => [removeObject key]
  | removeObject key => [createObject key]
  | set col key => [set col key]
  | clearTable oldSize => List.replicate oldSize (createObject nullKey)
  | insertColumn col => [eraseColumn col]
  | eraseColumn col => [insertColumn col]
  | listInsert ndx => [listErase ndx]
  | listSet ndx => [listSet ndx]
  | listMove fromNdx toNdx => [listMove fromNdx toNdx]
  | listSwap ndx1 ndx2 => [listSwap ndx1 ndx2]
  | listErase ndx => [listInsert ndx]
  | listClear oldSize => (List.range oldSize).map listInsert
  | renameGroupLevelTable _ | renameColumn _ | setLinkType _ | selectTable _ | selectList _ _ => []

end Instruction

/-- The table and the list that are selected. -/
structure Scope where
  table : Option ℕ
  list : Option (ℤ × ℤ)
deriving DecidableEq

namespace Scope

def nothing : Scope := ⟨none, none⟩

def Selected (s : Scope) : Level → Prop
  | .group => True
  | .table => s.table.isSome
  | .list => s.table.isSome ∧ s.list.isSome

instance (s : Scope) : DecidablePred s.Selected
  | .group => inferInstanceAs (Decidable True)
  | .table => inferInstanceAs (Decidable (s.table.isSome = true))
  | .list => inferInstanceAs (Decidable (s.table.isSome = true ∧ s.list.isSome = true))

/-- The part of a selection that an instruction is about. -/
def upTo (s : Scope) : Level → Scope
  | .group => nothing
  | .table => ⟨s.table, none⟩
  | .list => s

/-- The selection after an instruction. After one about tables whatever is
needed is selected anew. -/
def after (s : Scope) (instr : Instruction) : Scope :=
  match instr with
  | .selectTable table => ⟨some table, none⟩
  | .selectList col key => ⟨s.table, some (col, key)⟩
  | .insertGroupLevelTable _ | .eraseGroupLevelTable _ | .renameGroupLevelTable _ => nothing
  | _ => s

end Scope

/-- Where selections are needed they have been made. -/
def Scoped : Scope → List Instruction → Prop
  | _, [] => True
  | s, instr :: instrs =>
    (instr.renames = false → s.Selected instr.level) ∧ Scoped (s.after instr) instrs

instance decidableScoped : ∀ s instrs, Decidable (Scoped s instrs)
  | _, [] => inferInstanceAs (Decidable True)
  | s, instr :: instrs =>
    have := decidableScoped (s.after instr) instrs
    inferInstanceAs (Decidable ((_ → _) ∧ _))

/-- The instructions of a log, each with what it is about. Selections do nothing themselves, and
renamings are left out. -/
def located : Scope → List Instruction → List (Scope × Instruction)
  | _, [] => []
  | s, instr :: instrs =>
    if instr.selects || instr.renames then located (s.after instr) instrs
    else (s.upTo instr.level, instr) :: located (s.after instr) instrs

/-- Where an instruction is in the buffer of the reverser. -/
structure Instr where
  start : ℕ
  stop : ℕ
deriving DecidableEq

/-- The reverser, with the characters its encoder has written to its buffer. -/
structure TransactReverser where
  buffer : List ℕ := []
  instructions : List Instr := []
  currentInstrStart : ℕ := 0
  pendingTsInstr : Instr := ⟨0, 0⟩
  pendingLsInstr : Instr := ⟨0, 0⟩

namespace TransactReverser

def transactLogSize (r : TransactReverser) : ℕ := r.buffer.length

def getInst (r : TransactReverser) : Instr × TransactReverser :=
  (⟨r.currentInstrStart, r.transactLogSize⟩, { r with currentInstrStart := r.transactLogSize })

/-- An instruction is written by the encoder. -/
def encoder (sel : SelectEncoder) (instr : Instruction) (r : TransactReverser) :
    Except EncoderAssertion TransactReverser := do
  let text ← instr.write sel
  return { r with buffer := r.buffer ++ text }

def appendInstruction (r : TransactReverser) : TransactReverser :=
  let (instr, r) := r.getInst
  { r with instructions := r.instructions ++ [instr] }

/-- An instruction is written, and `append_instruction` called. -/
def append (sel : SelectEncoder) (instr : Instruction) (r : TransactReverser) :
    Except EncoderAssertion TransactReverser := do
  let r ← r.encoder sel instr
  return r.appendInstruction

def syncSelect (instructions : List Instr) (pendingInstr : Instr) : List Instr × Instr :=
  if pendingInstr.start ≠ pendingInstr.stop then (instructions ++ [pendingInstr], ⟨0, 0⟩)
  else (instructions, pendingInstr)

def syncList (r : TransactReverser) : TransactReverser :=
  let (instructions, pending) := syncSelect r.instructions r.pendingLsInstr
  { r with instructions := instructions, pendingLsInstr := pending }

def syncTable (r : TransactReverser) : TransactReverser :=
  let r := r.syncList
  let (instructions, pending) := syncSelect r.instructions r.pendingTsInstr
  { r with instructions := instructions, pendingTsInstr := pending }

section
variable (sel : SelectEncoder)

/-- The loop of `clear_table`. -/
def createObjects : ℕ → TransactReverser → Except EncoderAssertion TransactReverser
  | 0, r => return r
  | oldSize + 1, r => do
    let r ← r.append sel (.createObject Instruction.nullKey)
    createObjects oldSize r

/-- The loop of `list_clear`. -/
def insertBack : ℕ → TransactReverser → Except EncoderAssertion TransactReverser
  | 0, r => return r
  | i + 1, r => do
    let r ← r.append sel (.listInsert i)
    insertBack i r

/-- The reverser as the handler of a log. -/
def handle (r : TransactReverser) : Instruction → Except EncoderAssertion TransactReverser
  | .selectTable key => do
    let r ← r.syncTable.encoder sel (.selectTable key)
    let (instr, r) := r.getInst
    return { r with pendingTsInstr := instr }
  | .insertGroupLevelTable tableKey => r.syncTable.append sel (.eraseGroupLevelTable tableKey)
  | .eraseGroupLevelTable tableKey => r.syncTable.append sel (.insertGroupLevelTable tableKey)
  | .renameGroupLevelTable _ => return r.syncTable
  | .createObject key => r.append sel (.removeObject key)
  | .removeObject key => r.append sel (.createObject key)
  | .set colKey key => r.append sel (.set colKey key)
  | .listSet ndx => r.append sel (.listSet ndx)
  | .listInsert ndx => r.append sel (.listErase ndx)
  | .clearTable oldSize => createObjects sel oldSize r
  | .setLinkType key => r.encoder sel (.setLinkType key)
  | .insertColumn colKey => r.append sel (.eraseColumn colKey)
  | .eraseColumn colKey => r.append sel (.insertColumn colKey)
  | .renameColumn colKey => r.encoder sel (.renameColumn colKey)
  | .selectList colKey key => do
    let r ← r.syncList.encoder sel (.selectList colKey key)
    let (instr, r) := r.getInst
    return { r with pendingLsInstr := instr }
  | .listMove fromLinkNdx toLinkNdx => r.append sel (.listMove fromLinkNdx toLinkNdx)
  | .listSwap link1Ndx link2Ndx => r.append sel (.listSwap link1Ndx link2Ndx)
  | .listErase listNdx => r.append sel (.listInsert listNdx)
  | .listClear oldListSize => insertBack sel oldListSize r

end

/-- The characters of an instruction of the reverser. -/
def block (buffer : List ℕ) (instr : Instr) : List ℕ :=
  (buffer.drop instr.start).take (instr.stop - instr.start)

/-- What `ReversedNoCopyInputStream` hands out, block by block: an empty block ends the input. -/
def reversed (r : TransactReverser) : List ℕ :=
  ((r.syncTable.instructions.reverse.map (block r.syncTable.buffer)).takeWhile (· ≠ [])).flatten

end TransactReverser

/-- What a reverser has written, as instructions: those it hands out, in that order, those that wait
for the next one, and the pending selections. -/
structure Reversal where
  out : List Instruction
  unclaimed : List Instruction
  table : List Instruction
  list : List Instruction

namespace Reversal

def encoder (v : Reversal) (instr : Instruction) : Reversal :=
  { v with unclaimed := v.unclaimed ++ [instr] }

def appendInstruction (v : Reversal) : Reversal :=
  { v with out := v.unclaimed ++ v.out, unclaimed := [] }

def syncList (v : Reversal) : Reversal := { v with out := v.list ++ v.out, list := [] }

def syncTable (v : Reversal) : Reversal :=
  { v with out := v.table ++ (v.list ++ v.out), table := [], list := [] }

/-- Instructions that are written one by one, to be read in the reverse order. -/
def appendAll (v : Reversal) : List Instruction → Reversal
  | [] => v
  | instr :: instrs => appendAll (v.encoder instr).appendInstruction instrs

def handle (v : Reversal) (instr : Instruction) : Reversal :=
  match instr with
  | .selectTable _ =>
    let v := v.syncTable
    { v with table := v.unclaimed ++ [instr], unclaimed := [] }
  | .selectList _ _ =>
    let v := v.syncList
    { v with list := v.unclaimed ++ [instr], unclaimed := [] }
  | .renameColumn _ | .setLinkType _ => v.encoder instr
  | .insertGroupLevelTable _ | .eraseGroupLevelTable _ | .renameGroupLevelTable _ =>
    v.syncTable.appendAll instr.inverse.reverse
  | _ => v.appendAll instr.inverse.reverse

end Reversal

section Views
variable {sel : SelectEncoder} {buffer more : List ℕ} {claimed claimed' : ℕ} {instr : Instr}
  {i : Instruction}
  {is : List Instruction} {r : TransactReverser} {v : Reversal}

/-- The characters of an instruction of the reverser are those of these instructions of a log. -/
structure Claimed (sel : SelectEncoder) (buffer : List ℕ) (claimed : ℕ) (instr : Instr)
    (is : List Instruction) : Prop where
  le : instr.start ≤ instr.stop
  stop_le : instr.stop ≤ claimed
  text : TransactReverser.block buffer instr = is.flatMap (Instruction.encode sel)
  wf : ∀ i ∈ is, i.WellFormed

/-- No text that is read is empty. -/
lemma encode_ne_nil (lawful : sel.Lawful) (wf : i.WellFormed) : i.encode sel ≠ [] := by
  intro nil
  have read := @parseOne_encode sel [] i lawful wf
  rw [nil] at read
  cases read

lemma flatMap_encode_eq_nil (lawful : sel.Lawful) (wf : ∀ i ∈ is, i.WellFormed) :
    is.flatMap (Instruction.encode sel) = [] ↔ is = [] := by
  cases is with
  | nil => exact iff_of_true rfl rfl
  | cons i is =>
    rw [List.flatMap_cons, List.append_eq_nil_iff]
    refine iff_of_false (fun nil => ?_) (List.cons_ne_nil _ _)
    exact encode_ne_nil lawful (wf i (List.mem_cons_self ..)) nil.1

lemma block_append (le : instr.start ≤ instr.stop) (stop_le : instr.stop ≤ buffer.length) :
    TransactReverser.block (buffer ++ more) instr = TransactReverser.block buffer instr := by
  rw [TransactReverser.block, List.drop_append_of_le_length (le.trans stop_le),
    TransactReverser.block,
    List.take_append_of_le_length]
  rw [List.length_drop]
  exact Nat.sub_le_sub_right stop_le _

lemma Claimed.append (c : Claimed sel buffer claimed instr is) (le : claimed ≤ buffer.length) :
    Claimed sel (buffer ++ more) claimed instr is :=
  ⟨c.le, c.stop_le, (block_append c.le (c.stop_le.trans le)).trans c.text, c.wf⟩

lemma Claimed.mono (c : Claimed sel buffer claimed instr is) (le : claimed ≤ claimed') :
    Claimed sel buffer claimed' instr is := ⟨c.le, c.stop_le.trans le, c.text, c.wf⟩

/-- What is written after the last claimed instruction is claimed by the next. -/
lemma Claimed.last (le : claimed ≤ buffer.length)
    (text : buffer.drop claimed = is.flatMap (Instruction.encode sel))
    (wf : ∀ i ∈ is, i.WellFormed) :
    Claimed sel buffer buffer.length ⟨claimed, buffer.length⟩ is := by
  refine ⟨le, le_rfl, ?_, wf⟩
  rw [TransactReverser.block, List.take_of_length_le (List.length_drop ▸ le_rfl), text]

/-- Only an instruction without characters is empty. -/
lemma Claimed.start_eq_stop (lawful : sel.Lawful) (c : Claimed sel buffer claimed instr is)
    (le : claimed ≤ buffer.length) : instr.start = instr.stop ↔ is = [] := by
  have stop_le := c.stop_le
  have start_le := c.le
  have size : (TransactReverser.block buffer instr).length = instr.stop - instr.start := by
    rw [TransactReverser.block, List.length_take, List.length_drop]
    omega
  rw [← flatMap_encode_eq_nil lawful c.wf, ← c.text, ← List.length_eq_zero_iff, size]
  omega

/-- The reverser has written what is in view. -/
structure View (sel : SelectEncoder) (r : TransactReverser) (v : Reversal) : Prop where
  start_le : r.currentInstrStart ≤ r.buffer.length
  unclaimed : r.buffer.drop r.currentInstrStart = v.unclaimed.flatMap (Instruction.encode sel)
  wf : ∀ i ∈ v.unclaimed, i.WellFormed
  table : Claimed sel r.buffer r.currentInstrStart r.pendingTsInstr v.table
  list : Claimed sel r.buffer r.currentInstrStart r.pendingLsInstr v.list
  out : ∃ chunks, chunks.reverse.flatten = v.out ∧ (∀ chunk ∈ chunks, chunk ≠ []) ∧
    List.Forall₂ (Claimed sel r.buffer r.currentInstrStart) r.instructions chunks

lemma claimed_nil : Claimed sel buffer claimed ⟨0, 0⟩ [] :=
  ⟨le_rfl, Nat.zero_le _, List.take_zero, List.forall_mem_nil _⟩

lemma claimed_wf {instrs : List Instr} {chunks : List (List Instruction)}
    (all : List.Forall₂ (Claimed sel buffer claimed) instrs chunks) :
    ∀ chunk ∈ chunks, ∀ i ∈ chunk, i.WellFormed := by
  induction all with
  | nil => exact List.forall_mem_nil _
  | cons c _ ih => exact List.forall_mem_cons.mpr ⟨c.wf, ih⟩

namespace View

lemma init : View sel {} ⟨[], [], [], []⟩ :=
  ⟨le_rfl, rfl, List.forall_mem_nil _, claimed_nil, claimed_nil, [], rfl,
    List.forall_mem_nil _, .nil⟩

/-- The encoder writes what it has nothing against. -/
lemma encoder (view : View sel r v) (wf : i.WellFormed) (asserted : i.Asserted) :
    ∃ r', r.encoder sel i = .ok r' ∧ View sel r' (v.encoder i) := by
  obtain ⟨le, unclaimed, wfs, table, list, chunks, out, some, all⟩ := view
  refine ⟨{ r with buffer := r.buffer ++ i.encode sel }, ?_, ?_⟩
  · rw [TransactReverser.encoder, write_ok_iff.mpr ⟨asserted, rfl⟩]
    rfl
  · refine ⟨?_, ?_, List.forall_mem_append.mpr ⟨wfs, List.forall_mem_singleton.mpr wf⟩,
      table.append le, list.append le, chunks, out, some, all.imp fun _ _ c => c.append le⟩
    · rw [List.length_append]
      exact le.trans (Nat.le_add_right _ _)
    · show (r.buffer ++ i.encode sel).drop r.currentInstrStart = _
      rw [List.drop_append_of_le_length le, unclaimed, Reversal.encoder, List.flatMap_append,
        List.flatMap_singleton]

/-- What was written last is claimed. -/
lemma last (view : View sel r v) :
    Claimed sel r.buffer r.buffer.length ⟨r.currentInstrStart, r.buffer.length⟩ v.unclaimed :=
  Claimed.last view.start_le view.unclaimed view.wf

lemma appendInstruction (view : View sel r (v.encoder i)) :
    View sel r.appendInstruction (v.encoder i).appendInstruction := by
  have last := view.last
  obtain ⟨le, unclaimed, wfs, table, list, chunks, out, some, all⟩ := view
  refine ⟨le_rfl, List.drop_length, List.forall_mem_nil _, table.mono le, list.mono le,
    chunks ++ [(v.encoder i).unclaimed], ?_, ?_, ?_⟩
  · rw [List.reverse_append, List.reverse_singleton, List.singleton_append, List.flatten_cons, out]
    rfl
  · intro chunk mem
    rcases List.mem_append.mp mem with old | new
    · exact some chunk old
    · rw [List.mem_singleton.mp new]
      exact List.append_ne_nil_of_right_ne_nil _ (List.cons_ne_nil _ _)
  · exact List.rel_append (all.imp fun _ _ c => c.mono le) (.cons last .nil)

lemma append (view : View sel r v) (wf : i.WellFormed) (asserted : i.Asserted) :
    ∃ r', r.append sel i = .ok r' ∧ View sel r' (v.encoder i).appendInstruction := by
  obtain ⟨r', written, view'⟩ := view.encoder wf asserted
  exact ⟨r'.appendInstruction, ok_bind_iff.mpr ⟨r', written, rfl⟩, view'.appendInstruction⟩

end View

/-- A pending selection comes next, if there is one. -/
lemma syncSelect_claimed {instrs : List Instr} {chunks : List (List Instruction)}
    (lawful : sel.Lawful)
    (le : claimed ≤ buffer.length) (c : Claimed sel buffer claimed instr is)
    (some : ∀ chunk ∈ chunks, chunk ≠ [])
    (all : List.Forall₂ (Claimed sel buffer claimed) instrs chunks) :
    Claimed sel buffer claimed (TransactReverser.syncSelect instrs instr).2 [] ∧
    ∃ chunks', chunks'.reverse.flatten = is ++ chunks.reverse.flatten ∧
    (∀ chunk ∈ chunks', chunk ≠ []) ∧
      List.Forall₂ (Claimed sel buffer claimed)
        (TransactReverser.syncSelect instrs instr).1 chunks' := by
  have empty := c.start_eq_stop lawful le
  rw [TransactReverser.syncSelect]
  by_cases pending : instr.start = instr.stop
  · have nil := empty.mp pending
    rw [if_neg (not_not.mpr pending), nil]
    rw [nil] at c
    exact ⟨c, chunks, rfl, some, all⟩
  · rw [if_pos pending]
    refine ⟨claimed_nil, chunks ++ [is], ?_, ?_, List.rel_append all (.cons c .nil)⟩
    · rw [List.reverse_append, List.reverse_singleton, List.singleton_append, List.flatten_cons]
    · intro chunk mem
      rcases List.mem_append.mp mem with old | new
      · exact some chunk old
      · rw [List.mem_singleton.mp new]
        exact fun nil => pending (empty.mpr nil)

namespace View

lemma syncList (view : View sel r v) (lawful : sel.Lawful) : View sel r.syncList v.syncList := by
  obtain ⟨le, unclaimed, wfs, table, list, chunks, out, some, all⟩ := view
  obtain ⟨list', chunks', out', some', all'⟩ := syncSelect_claimed lawful le list some all
  rw [out] at out'
  exact ⟨le, unclaimed, wfs, table, list', chunks', out', some', all'⟩

lemma syncTable (view : View sel r v) (lawful : sel.Lawful) : View sel r.syncTable v.syncTable := by
  obtain ⟨le, unclaimed, wfs, table, list, chunks, out, some, all⟩ := view.syncList lawful
  obtain ⟨table', chunks', out', some', all'⟩ := syncSelect_claimed lawful le table some all
  rw [out] at out'
  exact ⟨le, unclaimed, wfs, table', list, chunks', out', some', all'⟩

lemma createObjects (view : View sel r v) (oldSize : ℕ) :
    ∃ r', TransactReverser.createObjects sel oldSize r = .ok r' ∧
      View sel r' (v.appendAll (List.replicate oldSize (.createObject Instruction.nullKey))) := by
  induction oldSize generalizing r v with
  | zero => exact ⟨r, rfl, view⟩
  | succ oldSize ih =>
    have key : IntType.int64.InRange Instruction.nullKey := by decide
    obtain ⟨r', written, view'⟩ := view.append (i := .createObject Instruction.nullKey) key trivial
    obtain ⟨r'', rest, view''⟩ := ih view'
    exact ⟨r'', ok_bind_iff.mpr ⟨r', written, rest⟩, view''⟩

lemma insertBack (view : View sel r v) {oldListSize : ℕ} (lt : oldListSize < 2 ^ 64) :
    ∃ r', TransactReverser.insertBack sel oldListSize r = .ok r' ∧
      View sel r' (v.appendAll ((List.range oldListSize).map Instruction.listInsert).reverse) := by
  induction oldListSize generalizing r v with
  | zero => exact ⟨r, rfl, view⟩
  | succ i ih =>
    have lt' : i < 2 ^ 64 := (Nat.lt_succ_self i).trans lt
    obtain ⟨r', written, view'⟩ := view.append (i := .listInsert i) lt' trivial
    obtain ⟨r'', rest, view''⟩ := ih view' lt'
    refine ⟨r'', ok_bind_iff.mpr ⟨r', written, rest⟩, ?_⟩
    rw [List.range_succ, List.map_append, List.reverse_append]
    exact view''

/-- The reverser goes on as it is viewed, and does not stop where the log was
written without stopping. -/
lemma handle (view : View sel r v) (lawful : sel.Lawful) (wf : i.WellFormed)
    (asserted : i.Asserted) :
    ∃ r', r.handle sel i = .ok r' ∧ View sel r' (v.handle i) := by
  cases i with
  | insertGroupLevelTable table =>
    exact (view.syncTable lawful).append (i := .eraseGroupLevelTable table) wf trivial
  | eraseGroupLevelTable table =>
    exact (view.syncTable lawful).append (i := .insertGroupLevelTable table) wf trivial
  | renameGroupLevelTable _ => exact ⟨r.syncTable, rfl, view.syncTable lawful⟩
  | selectTable key =>
    obtain ⟨r', written, view'⟩ := (view.syncTable lawful).encoder wf asserted
    have last := view'.last
    obtain ⟨le, unclaimed, wfs, table, list, chunks, out, some, all⟩ := view'
    refine ⟨_, ok_bind_iff.mpr ⟨r', written, rfl⟩, ?_⟩
    exact ⟨le_rfl, List.drop_length, List.forall_mem_nil _, last, list.mono le, chunks, out, some,
      all.imp fun _ _ c => c.mono le⟩
  | selectList col key =>
    obtain ⟨r', written, view'⟩ := (view.syncList lawful).encoder wf asserted
    have last := view'.last
    obtain ⟨le, unclaimed, wfs, table, list, chunks, out, some, all⟩ := view'
    refine ⟨_, ok_bind_iff.mpr ⟨r', written, rfl⟩, ?_⟩
    exact ⟨le_rfl, List.drop_length, List.forall_mem_nil _, table.mono le, last, chunks, out, some,
      all.imp fun _ _ c => c.mono le⟩
  | renameColumn _ | setLinkType _ => exact view.encoder wf trivial
  | clearTable oldSize =>
    show ∃ r', _ ∧ View sel r' (v.appendAll (List.replicate oldSize _).reverse)
    rw [List.reverse_replicate]
    exact view.createObjects oldSize
  | listClear oldSize => exact view.insertBack wf
  | createObject key => exact view.append (i := .removeObject key) wf trivial
  | removeObject key => exact view.append (i := .createObject key) wf trivial
  | insertColumn col => exact view.append (i := .eraseColumn col) wf trivial
  | eraseColumn col => exact view.append (i := .insertColumn col) wf trivial
  | listInsert ndx => exact view.append (i := .listErase ndx) wf trivial
  | listErase ndx => exact view.append (i := .listInsert ndx) wf trivial
  | set _ _ | listSet _ | listMove _ _ | listSwap _ _ => exact view.append wf asserted

/-- What is handed out is what is in view, the pending selections in front. -/
lemma reversed (view : View sel r v) (lawful : sel.Lawful) :
    r.reversed = v.syncTable.out.flatMap (Instruction.encode sel) ∧
      ∀ i ∈ v.syncTable.out, i.WellFormed := by
  obtain ⟨le, -, -, -, -, chunks, out, some, all⟩ := view.syncTable lawful
  have texts : r.syncTable.instructions.map (TransactReverser.block r.syncTable.buffer) =
      chunks.map (List.flatMap (Instruction.encode sel)) := by
    rw [← List.forall₂_eq_eq_eq, List.forall₂_map_left_iff, List.forall₂_map_right_iff]
    exact all.imp fun _ _ c => c.text
  have wf := claimed_wf all
  have full : ∀ text ∈ chunks.reverse.map (List.flatMap (Instruction.encode sel)),
      decide (text ≠ []) = true := by
    intro text mem
    obtain ⟨chunk, mem', rfl⟩ := List.mem_map.mp mem
    have mem := List.mem_reverse.mp mem'
    exact decide_eq_true fun nil => some chunk mem
      ((flatMap_encode_eq_nil lawful (wf chunk mem)).mp nil)
  have flat : chunks.reverse.flatten = chunks.reverse.flatMap id := List.flatMap_id.symm
  constructor
  · rw [TransactReverser.reversed, List.map_reverse, texts, ← List.map_reverse,
      List.takeWhile_eq_self_iff.mpr full, ← out, flat, List.flatMap_assoc]
    rfl
  · intro i mem
    rw [← out, List.mem_flatten] at mem
    obtain ⟨chunk, mem, here⟩ := mem
    exact wf chunk (List.mem_reverse.mp mem) i here

end View

end Views

/-- What stops a rollback: the parser, or the encoder of the reverser. -/
inductive RollbackStop where
  | parser (stop : ParserStop)
  | encoder (stop : EncoderAssertion)

/-- What is handed out when a transaction with this log is rolled back, to the observer and then, by
a second stream, to `advance_transact`. -/
def rollback (sel : SelectEncoder) (uncommittedChanges : List ℕ) :
    Except RollbackStop (List Instruction × List Instruction) := do
  let log ← (parse uncommittedChanges).mapError .parser
  let reverser ← (execM (TransactReverser.handle sel) {} log).mapError .encoder
  let observed ← (parse reverser.reversed).mapError .parser
  let advanced ← (parse reverser.syncTable.reversed).mapError .parser
  return (observed, advanced)

section Undone
variable {s s' : Scope} {i : Instruction} {is names : List Instruction} {v : Reversal}
  {undos : List (Scope × Instruction)} {ℓ : Level}

/-- An instruction is undone by ones about the same table or list, which select nothing. -/
lemma inverse_level : ∀ j ∈ i.inverse, j.level = i.level ∧ j.selects = false ∧
    j.renames = false := by
  intro j mem
  cases i with
  | clearTable oldSize =>
    rw [List.eq_of_mem_replicate mem]
    exact ⟨rfl, rfl, rfl⟩
  | listClear oldSize =>
    obtain ⟨ndx, -, rfl⟩ := List.mem_map.mp mem
    exact ⟨rfl, rfl, rfl⟩
  | renameGroupLevelTable _ | renameColumn _ | setLinkType _ | selectTable _ | selectList _ _ =>
    cases mem
  | insertGroupLevelTable _ | eraseGroupLevelTable _ | createObject _ | removeObject _ | set _ _
  | insertColumn _ | eraseColumn _ | listInsert _ | listSet _ | listMove _ _ | listSwap _ _
  | listErase _ =>
    rw [List.mem_singleton.mp mem]
    exact ⟨rfl, rfl, rfl⟩

lemma after_eq_self (level : i.level ≠ .group) (plain : i.selects = false) : s.after i = s := by
  cases i with
  | insertGroupLevelTable _ | eraseGroupLevelTable _ | renameGroupLevelTable _ =>
    exact absurd rfl level
  | selectTable _ | selectList _ _ => cases plain
  | _ => rfl

/-- What is read from this selection on. -/
structure Reads (s : Scope) (out : List Instruction)
    (undos : List (Scope × Instruction)) : Prop where
  selected : Scoped s out
  located : located s out = undos

/-- Renamings do not get in the way. -/
lemma Reads.renames (reads : Reads s is undos) (names_renames : ∀ i ∈ names, i.renames = true) :
    Reads s (names ++ is) undos := by
  induction names with
  | nil => exact reads
  | cons i names ih =>
    obtain ⟨first, rest⟩ := List.forall_mem_cons.mp names_renames
    obtain ⟨selected, located⟩ := ih rest
    have stays : s.after i = s := by
      cases i with
      | renameColumn _ | setLinkType _ => rfl
      | _ => cases first
    refine ⟨⟨fun renames => ?_, ?_⟩, ?_⟩
    · rw [first] at renames
      cases renames
    · rw [stays]
      exact selected
    · rw [List.cons_append, Log.located, first, Bool.or_true, if_pos rfl, stays]
      exact located

/-- A selection is read. -/
lemma Reads.select (reads : Reads (s.after i) is undos) (selected : s.Selected i.level)
    (selects : i.selects = true) : Reads s (i :: is) undos := by
  refine ⟨⟨fun _ => selected, reads.selected⟩, ?_⟩
  rw [Log.located, selects, Bool.true_or, if_pos rfl]
  exact reads.located

/-- What is selected by the first is selected by the second. -/
def Scope.Within (s s' : Scope) : Prop :=
  (∀ t, s.table = some t → s'.table = some t) ∧ ∀ l, s.list = some l → s'.list = some l

/-- What a reverser has written is read as this, once its pending selections are made. -/
structure Undone (s : Scope) (v : Reversal) (undos : List (Scope × Instruction)) : Prop where
  unclaimed : ∀ i ∈ v.unclaimed, i.renames = true
  table : (∃ names t, v.table = names ++ [.selectTable t] ∧ (∀ i ∈ names, i.renames = true) ∧
    s.table = some t) ∨ v.table = [] ∧ s.table = none
  list : (∃ names col key, v.list = names ++ [.selectList col key] ∧
    (∀ i ∈ names, i.renames = true) ∧
    s.list = some (col, key)) ∨ v.list = [] ∧ s.list = none
  within : s.list.isSome → s.table.isSome
  reads : ∀ s', s.Within s' → Reads s' v.out undos

namespace Undone

lemma init : Undone .nothing ⟨[], [], [], []⟩ [] :=
  ⟨List.forall_mem_nil _, .inr ⟨rfl, rfl⟩, .inr ⟨rfl, rfl⟩, fun some => some,
    fun _ _ => ⟨trivial, rfl⟩⟩

/-- The pending list is selected, in the table it is in. -/
lemma syncList (undone : Undone s v undos) (table : ∀ t, s.table = some t → s'.table = some t) :
    Reads s' v.syncList.out undos := by
  rcases undone.list with ⟨names, col, key, eq, renames, list⟩ | ⟨eq, list⟩
  · rw [Reversal.syncList, eq, List.append_assoc]
    refine Reads.renames (.select ?_ ?_ rfl) renames
    · refine undone.reads _ ⟨table, fun l some => ?_⟩
      rw [list] at some
      exact some
    · obtain ⟨t, some⟩ := Option.isSome_iff_exists.mp (undone.within (by rw [list]; rfl))
      show s'.table.isSome
      rw [table t some]
      rfl
  · rw [Reversal.syncList, eq]
    refine undone.reads s' ⟨table, fun l some => ?_⟩
    rw [list] at some
    cases some

/-- The pending table and list are selected. -/
lemma syncTable (undone : Undone s v undos) : Reads s' v.syncTable.out undos := by
  rcases undone.table with ⟨names, t, eq, renames, table⟩ | ⟨eq, table⟩
  · rw [Reversal.syncTable, eq, List.append_assoc]
    refine Reads.renames (.select (undone.syncList fun t' some => ?_) trivial rfl) renames
    rw [table] at some
    exact some
  · rw [Reversal.syncTable, eq]
    refine undone.syncList fun t' some => ?_
    rw [table] at some
    cases some

/-- What is written for an instruction of a table or a list comes in front. -/
lemma encoder (undone : Undone s v undos) (selected : s.Selected ℓ) (table : ℓ ≠ .group)
    (level : i.level = ℓ) (plain : i.selects = false) (keeps : i.renames = false) :
    Undone s (v.encoder i).appendInstruction ((s.upTo ℓ, i) :: undos) := by
  refine ⟨List.forall_mem_nil _, undone.table, undone.list, undone.within, fun s' within => ?_⟩
  have stays : s'.after i = s' := after_eq_self (level ▸ table) plain
  have same : s'.Selected ℓ ∧ s'.upTo ℓ = s.upTo ℓ := by
    cases ℓ with
    | group => exact absurd rfl table
    | table =>
      obtain ⟨t, some⟩ := Option.isSome_iff_exists.mp selected
      rw [Scope.Selected, Scope.upTo, Scope.upTo, within.1 t some, some]
      exact ⟨rfl, rfl⟩
    | list =>
      obtain ⟨t, some⟩ := Option.isSome_iff_exists.mp selected.1
      obtain ⟨l, some'⟩ := Option.isSome_iff_exists.mp selected.2
      have eq : s' = s := by
        cases s
        cases s'
        rw [Scope.mk.injEq]
        exact ⟨(within.1 t some).trans some.symm, (within.2 l some').trans some'.symm⟩
      rw [eq]
      exact ⟨selected, rfl⟩
  have reads := undone.reads s' within
  show Reads s' ((v.unclaimed ++ [i]) ++ v.out) _
  rw [List.append_assoc]
  refine Reads.renames ⟨⟨fun _ => level.symm ▸ same.1, ?_⟩, ?_⟩ undone.unclaimed
  · rw [stays]
    exact reads.selected
  · show located s' (i :: v.out) = _
    rw [located, plain, keeps, if_neg (by decide), stays, reads.located, level, same.2]

lemma appendAll (undone : Undone s v undos) (selected : s.Selected ℓ) (table : ℓ ≠ .group)
    (all : ∀ i ∈ is, i.level = ℓ ∧ i.selects = false ∧ i.renames = false) :
    Undone s (v.appendAll is) (is.reverse.map (s.upTo ℓ, ·) ++ undos) := by
  induction is generalizing v undos with
  | nil => exact undone
  | cons i is ih =>
    obtain ⟨⟨level, plain, keeps⟩, others⟩ := List.forall_mem_cons.mp all
    have next := ih (undone.encoder selected table level plain keeps) others
    rw [List.reverse_cons, List.map_append, List.append_assoc]
    exact next

/-- An instruction about tables comes in front of all selections. -/
lemma group (undone : Undone s v undos) (level : i.level = .group) (plain : i.selects = false) :
    Undone .nothing (v.syncTable.appendAll i.inverse.reverse)
      (i.inverse.map (.nothing, ·) ++ undos) := by
  have synced : Undone .nothing v.syncTable undos :=
    ⟨undone.unclaimed, .inr ⟨rfl, rfl⟩, .inr ⟨rfl, rfl⟩, fun some => some,
      fun _ _ => undone.syncTable⟩
  have one {j : Instruction} (level : j.level = .group) (plain : j.selects = false) :
      Undone .nothing (v.syncTable.encoder j).appendInstruction ((.nothing, j) :: undos) := by
    refine ⟨List.forall_mem_nil _, .inr ⟨rfl, rfl⟩, .inr ⟨rfl, rfl⟩, fun some => some,
      fun s' _ => ?_⟩
    have reads : Reads (s'.after j) v.syncTable.out undos := undone.syncTable
    show Reads s' ((v.unclaimed ++ [j]) ++ v.syncTable.out) _
    rw [List.append_assoc]
    refine Reads.renames ⟨⟨fun _ => level.symm ▸ trivial, reads.selected⟩, ?_⟩ undone.unclaimed
    show located s' (j :: v.syncTable.out) = _
    have keeps : j.renames = false := by
      cases j with
      | renameColumn _ | setLinkType _ => cases level
      | _ => rfl
    rw [located, plain, keeps, if_neg (by decide), reads.located, level]
    rfl
  cases i with
  | insertGroupLevelTable _ | eraseGroupLevelTable _ => exact one rfl rfl
  | renameGroupLevelTable _ => exact synced
  | selectTable _ => cases plain
  | createObject _ | removeObject _ | set _ _ | clearTable _ | insertColumn _ | eraseColumn _
  | renameColumn _ | setLinkType _ | selectList _ _ | listInsert _ | listSet _ | listMove _ _
  | listSwap _ _ | listErase _ | listClear _ => cases level

/-- The reverser goes on, and what it undoes comes first. -/
lemma handle (undone : Undone s v undos) (selected : i.renames = false → s.Selected i.level) :
    Undone (s.after i) (v.handle i)
      (((located s [i]).flatMap fun e => e.2.inverse.map (e.1, ·)) ++ undos) := by
  have plainly (level : i.level ≠ .group) (plain : i.selects = false) (keeps : i.renames = false) :
      Undone (s.after i) (v.appendAll i.inverse.reverse)
        (((located s [i]).flatMap fun e => e.2.inverse.map (e.1, ·)) ++ undos) := by
    rw [located, plain, keeps, if_neg (by decide), located, List.flatMap_singleton,
      after_eq_self level plain]
    have next := undone.appendAll (selected keeps) level fun j mem => inverse_level j
      (List.mem_reverse.mp mem)
    rw [List.reverse_reverse] at next
    exact next
  have table : Level.table ≠ .group := by decide
  have list : Level.list ≠ .group := by decide
  cases i with
  | insertGroupLevelTable _ | eraseGroupLevelTable _ | renameGroupLevelTable _ =>
    exact undone.group rfl rfl
  | renameColumn _ | setLinkType _ =>
    refine ⟨fun j mem => ?_, undone.table, undone.list, undone.within, undone.reads⟩
    rcases List.mem_append.mp mem with old | new
    · exact undone.unclaimed j old
    · rw [List.mem_singleton.mp new]
      rfl
  | selectTable t =>
    exact ⟨List.forall_mem_nil _, .inl ⟨v.unclaimed, t, rfl, undone.unclaimed, rfl⟩,
      .inr ⟨rfl, rfl⟩,
      fun _ => rfl, fun _ _ => undone.syncTable⟩
  | selectList col key =>
    exact ⟨List.forall_mem_nil _, undone.table,
      .inl ⟨v.unclaimed, col, key, rfl, undone.unclaimed, rfl⟩,
      fun _ => selected rfl, fun s' within => undone.syncList within.1⟩
  | createObject _ | removeObject _ | set _ _ | clearTable _ | insertColumn _ | eraseColumn _ =>
    exact plainly table rfl rfl
  | listInsert _ | listSet _ | listMove _ _ | listSwap _ _ | listErase _ | listClear _ =>
    exact plainly list rfl rfl

/-- What a reverser has written of a log is read as each instruction undone, the last one first. -/
lemma run (undone : Undone s v undos) (selections : Scoped s is) :
    ∃ s', Undone s' (exec Reversal.handle v is)
      (((located s is).reverse.flatMap fun e => e.2.inverse.map (e.1, ·)) ++ undos) := by
  induction is generalizing s v undos with
  | nil => exact ⟨s, undone⟩
  | cons i is ih =>
    obtain ⟨s', rest⟩ := ih (undone.handle selections.1) selections.2
    refine ⟨s', ?_⟩
    have split : located s (i :: is) = located s [i] ++ located (s.after i) is := by
      rw [located, located, located]
      split_ifs <;> rfl
    have one : (located s [i]).reverse = located s [i] := by
      rw [located, located]
      split_ifs <;> rfl
    rw [split, List.reverse_append, List.flatMap_append, one, List.append_assoc]
    exact rest

end Undone

/-- All that a reversal holds. -/
def Reversal.All (v : Reversal) (P : Instruction → Prop) : Prop :=
  (∀ i ∈ v.out, P i) ∧ (∀ i ∈ v.unclaimed, P i) ∧ (∀ i ∈ v.table, P i) ∧ ∀ i ∈ v.list, P i

namespace Reversal
variable {P : Instruction → Prop}

lemma All.encoder (all : v.All P) (new : P i) : (v.encoder i).All P :=
  ⟨all.1, List.forall_mem_append.mpr ⟨all.2.1, List.forall_mem_singleton.mpr new⟩, all.2.2⟩

lemma All.appendInstruction (all : v.All P) : v.appendInstruction.All P :=
  ⟨List.forall_mem_append.mpr ⟨all.2.1, all.1⟩, List.forall_mem_nil _, all.2.2⟩

lemma All.syncList (all : v.All P) : v.syncList.All P :=
  ⟨List.forall_mem_append.mpr ⟨all.2.2.2, all.1⟩, all.2.1, all.2.2.1, List.forall_mem_nil _⟩

lemma All.syncTable (all : v.All P) : v.syncTable.All P :=
  ⟨List.forall_mem_append.mpr ⟨all.2.2.1, all.syncList.1⟩, all.2.1, List.forall_mem_nil _,
    List.forall_mem_nil _⟩

lemma All.appendAll (all : v.All P) (new : ∀ i ∈ is, P i) : (v.appendAll is).All P := by
  induction is generalizing v with
  | nil => exact all
  | cons i is ih =>
    obtain ⟨first, rest⟩ := List.forall_mem_cons.mp new
    exact ih (all.encoder first).appendInstruction rest

lemma All.handle (all : v.All P) (kept : (i.selects || i.renames) = true → P i)
    (inverse : ∀ j ∈ i.inverse, P j) : (v.handle i).All P := by
  have reversed : ∀ j ∈ i.inverse.reverse, P j := fun j mem => inverse j (List.mem_reverse.mp mem)
  cases i with
  | selectTable _ =>
    have written := all.syncTable.encoder (kept rfl)
    exact ⟨written.1, List.forall_mem_nil _, written.2.1, List.forall_mem_nil _⟩
  | selectList _ _ =>
    have written := all.syncList.encoder (kept rfl)
    exact ⟨written.1, List.forall_mem_nil _, written.2.2.1, written.2.1⟩
  | renameColumn _ | setLinkType _ => exact all.encoder (kept rfl)
  | insertGroupLevelTable _ | eraseGroupLevelTable _ | renameGroupLevelTable _ =>
    exact all.syncTable.appendAll reversed
  | createObject _ | removeObject _ | set _ _ | clearTable _ | insertColumn _ | eraseColumn _
  | listInsert _ | listSet _ | listMove _ _ | listSwap _ _ | listErase _ | listClear _ =>
    exact all.appendAll reversed

lemma All.run (all : v.All P)
    (new : ∀ i ∈ is, ((i.selects || i.renames) = true → P i) ∧ ∀ j ∈ i.inverse, P j) :
    (exec Reversal.handle v is).All P := by
  induction is generalizing v with
  | nil => exact all
  | cons i is ih =>
    obtain ⟨first, rest⟩ := List.forall_mem_cons.mp new
    exact ih (all.handle first.1 first.2) rest

end Reversal

end Undone

section Rollback
variable {sel : SelectEncoder} {log : List Instruction} {text : List ℕ}

/-- The reverser of a log that was written does not stop. -/
lemma view_run (lawful : sel.Lawful) (wf : ∀ i ∈ log, i.WellFormed)
    (asserted : ∀ i ∈ log, i.Asserted) :
    ∃ r, execM (TransactReverser.handle sel) {} log = .ok r ∧
      View sel r (exec Reversal.handle ⟨[], [], [], []⟩ log) := by
  have fits : ∀ i ∈ log, i.WellFormed ∧ i.Asserted := fun i mem => ⟨wf i mem, asserted i mem⟩
  exact execM_simulation (fun _ _ i view fits => view.handle lawful fits.1 fits.2) View.init fits

/-- What the reverser of a log hands out. -/
def undos (log : List Instruction) : List Instruction :=
  (exec Reversal.handle ⟨[], [], [], []⟩ log).syncTable.out

/-- Both streams hand it out. -/
lemma rollback_undos (lawful : sel.Lawful) (wf : ∀ i ∈ log, i.WellFormed)
    (written : writeLog sel log = .ok text) : rollback sel text = .ok (undos log, undos log) := by
  obtain ⟨r, run, view⟩ := view_run lawful wf (writeLog_ok_iff.mp written).1
  obtain ⟨reversed, wf'⟩ := view.reversed lawful
  -- the stream leaves the next one everything
  obtain ⟨again, -⟩ := (view.syncTable lawful).reversed lawful
  have observed : parse r.reversed = .ok (undos log) := by
    rw [reversed]
    exact parse_encode lawful wf'
  have advanced : parse r.syncTable.reversed = .ok (undos log) := by
    rw [again]
    exact parse_encode lawful wf'
  rw [rollback, parse_write lawful wf written]
  refine ok_bind_iff.mpr ⟨log, rfl, ok_bind_iff.mpr ⟨r, ?_, ?_⟩⟩
  · exact congrArg (Except.mapError RollbackStop.encoder) run
  · rw [observed, advanced]
    rfl

lemma undos_reads (selections : Scoped .nothing log) : Scoped .nothing (undos log) ∧
    located .nothing (undos log) =
      (located .nothing log).reverse.flatMap fun e => e.2.inverse.map (e.1, ·) := by
  obtain ⟨s, undone⟩ := Undone.init.run selections
  have reads := @Undone.syncTable s .nothing _ _ undone
  rw [List.append_nil] at reads
  exact ⟨reads.selected, reads.located⟩

/-- It has selections and renamings of the log, and instructions that undo others. -/
lemma undos_all {P : Instruction → Prop}
    (all : ∀ i ∈ log, ((i.selects || i.renames) = true → P i) ∧ ∀ j ∈ i.inverse, P j) :
    ∀ i ∈ undos log, P i := by
  have start : (⟨[], [], [], []⟩ : Reversal).All P :=
    ⟨List.forall_mem_nil _, List.forall_mem_nil _, List.forall_mem_nil _, List.forall_mem_nil _⟩
  exact (Reversal.All.run start all).syncTable.1

/-- When a transaction is rolled back whose log the encoder has written, the encoder of the reverser
does not stop either. The observer and `advance_transact` are both handed every instruction undone,
in reverse order, each about the table or the list it was about, and properly selected. -/
theorem rollback_encode (lawful : sel.Lawful) (wf : ∀ i ∈ log, i.WellFormed)
    (selections : Scoped .nothing log) (written : writeLog sel log = .ok text) :
    ∃ undos, rollback sel text = .ok (undos, undos) ∧ Scoped .nothing undos ∧
      located .nothing undos = (located .nothing log).reverse.flatMap fun e =>
        e.2.inverse.map (e.1, ·) :=
  ⟨undos log, rollback_undos lawful wf written, undos_reads selections⟩

/-- Two tables take turns, and a column is renamed in between. -/
theorem rollback_encode_turns :
    let log : List Instruction := [.selectTable 3, .createObject 5, .selectList 70000 5,
      .listInsert 0,
      .selectTable 4, .renameColumn 9, .removeObject (-7), .selectTable 3, .selectList 70000 5,
      .listMove 0 2,
      .listClear 3]
    ∃ text undos, writeLog .simple log = .ok text ∧ rollback .simple text = .ok (undos, undos) ∧
      Scoped .nothing undos ∧
      located .nothing undos = (located .nothing log).reverse.flatMap fun e => e.2.inverse.map
        (e.1, ·) := by
  intro log
  have written : writeLog .simple log = .ok (log.flatMap (Instruction.encode .simple)) :=
    writeLog_ok_iff.mpr ⟨by decide, rfl⟩
  obtain ⟨undos, undone⟩ :=
    rollback_encode SelectEncoder.simple_lawful (by decide) (by decide) written
  exact ⟨_, undos, written, undone⟩

end Rollback

end SpecialtyMap.Log

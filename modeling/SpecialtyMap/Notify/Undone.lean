import SpecialtyMap.Notify.Transaction

/-!
# Observing a rollback

When a write transaction is rolled back, its observers are handed the whole reversed log, not only
what is about their lists. So it matters what else the transaction did. A table or a column that it
added is erased again, which no observer supports (`rollback_reported`). An object that it created
is removed again, and its lists are not observed any more. The other observed lists are led back to
the values they had, unless a row was moved further than to the next place.
-/

namespace SpecialtyMap.Notify
open SpecialtyMap.Log SpecialtyMap.Machine SpecialtyMap.Position

/-- What undoes the instruction is supported by observers. -/
def Undoable : Instruction → Prop
  | .insertGroupLevelTable _ | .insertColumn _ => False
  | _ => True

section Inverse
variable {i j : Instruction} {key : ℤ}

lemma inverse_supported (undoable : Undoable i) (mem : j ∈ i.inverse) : Supported j := by
  cases i with
  | insertGroupLevelTable _ | insertColumn _ => exact undoable.elim
  | clearTable _ =>
    rw [List.eq_of_mem_replicate mem]
    trivial
  | listClear _ =>
    obtain ⟨_, -, rfl⟩ := List.mem_map.mp mem
    trivial
  | renameGroupLevelTable _ | renameColumn _ | setLinkType _ | selectTable _ | selectList _ _ =>
    cases mem
  | eraseGroupLevelTable _ | createObject _ | removeObject _ | set _ _ | eraseColumn _
    | listInsert _
  | listSet _ | listMove _ _ | listSwap _ _ | listErase _ =>
    rw [List.mem_singleton.mp mem]
    trivial

lemma undoable_of_inverse (supported : ∀ j ∈ i.inverse, Supported j) : Undoable i := by
  cases i with
  | insertGroupLevelTable _ | insertColumn _ => exact supported _ List.mem_cons_self
  | _ => trivial

lemma inverse_proper (proper : Proper i) (mem : j ∈ i.inverse) : Proper j := by
  cases i with
  | listMove _ _ | listSwap _ _ =>
    rw [List.mem_singleton.mp mem]
    exact proper
  | clearTable _ =>
    rw [List.eq_of_mem_replicate mem]
    trivial
  | listClear _ =>
    obtain ⟨_, -, rfl⟩ := List.mem_map.mp mem
    trivial
  | renameGroupLevelTable _ | renameColumn _ | setLinkType _ | selectTable _ | selectList _ _ =>
    cases mem
  | insertGroupLevelTable _ | eraseGroupLevelTable _ | createObject _ | removeObject _ | set _ _
  | insertColumn _ | eraseColumn _ | listInsert _ | listSet _ | listErase _ =>
    rw [List.mem_singleton.mp mem]
    trivial

/-- Objects are only removed to undo that they were created, and tables are not cleared. -/
lemma removeObject_mem_inverse : .removeObject key ∈ i.inverse ↔ i = .createObject key := by
  cases i <;> simp [Instruction.inverse, List.mem_replicate, eq_comm]

lemma clearTable_notMem_inverse {oldSize : ℕ} : .clearTable oldSize ∉ i.inverse := by
  cases i <;> simp [Instruction.inverse, List.mem_replicate]

end Inverse

section Located
variable {s s' : Scope} {i : Instruction} {log : List Instruction} {t : ℕ}

/-- Every instruction that is not a selection or a renaming is somewhere. -/
lemma mem_located : (∃ s', (s', i) ∈ located s log) ↔ i ∈ log ∧
    (i.selects || i.renames) = false := by
  induction log generalizing s with
  | nil =>
    exact iff_of_false (fun ⟨_, mem⟩ => List.not_mem_nil mem) fun both => List.not_mem_nil both.1
  | cons j log ih =>
    rw [located, List.mem_cons]
    by_cases skip : (j.selects || j.renames) = true
    · rw [if_pos skip, ih]
      refine and_congr_left fun plain => (or_iff_right ?_).symm
      rintro rfl
      exact Bool.false_ne_true (plain.symm.trans skip)
    · rw [if_neg skip]
      simp only [List.mem_cons, Prod.mk.injEq, exists_or, exists_eq_left, ih]
      constructor
      · rintro (rfl | ⟨mem, plain⟩)
        · exact ⟨.inl rfl, Bool.eq_false_of_not_eq_true skip⟩
        · exact ⟨.inr mem, plain⟩
      · rintro ⟨rfl | mem, plain⟩
        · exact .inl rfl
        · exact .inr ⟨mem, plain⟩

lemma mem_aboutFrom {ℓ : Scope} : i ∈ aboutFrom s ℓ log ↔ (ℓ, i) ∈ located s log := by
  rw [aboutFrom, List.mem_filterMap]
  constructor
  · rintro ⟨e, mem, here⟩
    split_ifs at here with same
    cases here
    rwa [← same]
  · exact fun mem => ⟨(ℓ, i), mem, if_pos rfl⟩

/-- What is done to the objects of a table is what is about the table. -/
lemma mem_inTable_iff (level : i.level = .table) (plain : (i.selects || i.renames) = false) :
    i ∈ inTable t s.table log ↔ i ∈ aboutFrom s ⟨some t, none⟩ log := by
  rw [mem_aboutFrom]
  induction log generalizing s with
  | nil => exact iff_of_false List.not_mem_nil List.not_mem_nil
  | cons j log ih =>
    have table : (Scope.after ⟨s.table, none⟩ j).table = (s.after j).table := by
      cases j <;> rfl
    rw [inTable, table, located]
    by_cases first : i = j
    · subst first
      have here : (⟨some t, none⟩ : Scope) = s.upTo i.level ↔ s.table = some t := by
        rw [level, Scope.upTo, Scope.mk.injEq, and_iff_left rfl, eq_comm]
      rw [plain, if_neg Bool.false_ne_true, List.mem_cons, Prod.mk.injEq,
        and_iff_left rfl, here, ← ih]
      by_cases there : s.table = some t
      · rw [if_pos ⟨there, level⟩]
        exact iff_of_true List.mem_cons_self (.inl there)
      · rw [if_neg fun both => there both.1]
        exact (or_iff_right there).symm
    · have rest : (⟨some t, none⟩, i) ∈ (if (j.selects || j.renames) = true then located
          (s.after j) log
          else (s.upTo j.level, j) :: located (s.after j) log) ↔
          (⟨some t, none⟩, i) ∈ located (s.after j) log := by
        split_ifs
        · rfl
        · exact List.mem_cons.trans (or_iff_right fun eq => first (Prod.mk.inj eq).2)
      rw [rest, ← ih]
      split_ifs
      · exact List.mem_cons.trans (or_iff_right first)
      · rfl

end Located

/-- An observer that is not stopped has been handed nothing that it does not support. -/
lemma supported_of_run {o o' : TransactLogObserver} {log : List Instruction}
    (run : execM TransactLogObserver.observe o log = .ok o') : ∀ i ∈ log, Supported i := by
  induction log generalizing o with
  | nil => exact List.forall_mem_nil _
  | cons i log ih =>
    obtain ⟨o₁, ok, rest⟩ := execM_cons_ok.mp run
    refine List.forall_mem_cons.mpr ⟨?_, ih rest⟩
    cases i with
    | eraseGroupLevelTable _ | renameGroupLevelTable _ | eraseColumn _ | renameColumn _ => cases ok
    | _ => trivial

section Undone
variable {α : Type*} {sel : SelectEncoder} {o : TransactLogObserver} {log : List Instruction}
  {text : List ℕ}
  {t : ℕ} {key : ℤ}

/-- The reversed log is supported if the transaction added no table and no column. -/
lemma undos_supported (selections : Scoped .nothing log)
    (unnamed : ∀ col, .renameColumn col ∉ log) :
    (∀ j ∈ undos log, Supported j) ↔ ∀ i ∈ log, Undoable i := by
  constructor
  · intro supported i mem
    by_cases skip : (i.selects || i.renames) = true
    · cases i with
      | insertGroupLevelTable _ | insertColumn _ => exact absurd skip Bool.false_ne_true
      | _ => trivial
    · obtain ⟨s, here⟩ := (@mem_located .nothing i log).mpr ⟨mem, Bool.eq_false_of_not_eq_true skip⟩
      refine undoable_of_inverse fun j inverse => supported j ?_
      refine ((@mem_located .nothing j (undos log)).mp ⟨s, ?_⟩).1
      rw [(undos_reads selections).2, List.mem_flatMap]
      exact ⟨(s, i), List.mem_reverse.mpr here, List.mem_map_of_mem inverse⟩
  · intro undoable
    refine undos_all fun i mem => ⟨fun kept => ?_, fun j => inverse_supported (undoable i mem)⟩
    cases i with
    | renameColumn col => exact absurd mem (unnamed col)
    | setLinkType _ | selectTable _ | selectList _ _ => trivial
    | _ => cases kept

/-- When a transaction is rolled back, the objects stay that it did not create. -/
lemma stays_undos (selections : Scoped .nothing log) :
    Stays (undos log) t key ↔ .createObject key ∉ inTable t none log := by
  have reversed := about_inverse (s := ⟨some t, none⟩) (undos_reads selections).2
  have there {i : Instruction} (level : i.level = .table) (plain : (i.selects || i.renames) = false)
      {log : List Instruction} : i ∈ inTable t none log ↔ i ∈ about ⟨some t, none⟩ log :=
    @mem_inTable_iff .nothing i log t level plain
  have removed : .removeObject key ∈ inTable t none (undos log) ↔
      .createObject key ∈ inTable t none log := by
    rw [there rfl rfl, there rfl rfl, reversed, List.mem_flatMap]
    simp only [List.mem_reverse, removeObject_mem_inverse, exists_eq_right]
  rw [← removed]
  constructor
  · exact fun stays mem => absurd rfl (stays _ mem).1
  · intro spared i mem
    refine ⟨?_, ?_⟩
    · rintro rfl
      exact spared mem
    · rintro oldSize rfl
      rw [there rfl rfl, reversed] at mem
      obtain ⟨i, -, inverse⟩ := List.mem_flatMap.mp mem
      exact clearTable_notMem_inverse inverse

/-- When a transaction is rolled back, its observer is stopped exactly if it added a table or a
column. Else what is reported of every observed list whose object it did not create leads from the
values it made back to those before it. -/
theorem rollback_reported (ready : Ready o) (lawful : sel.Lawful) (wf : ∀ i ∈ log, i.WellFormed)
    (selections : Scoped .nothing log) (written : writeLog sel log = .ok text)
    (unnamed : ∀ col, .renameColumn col ∉ log)
    (proper : ∀ e ∈ o.lists, ∀ i ∈ about e.scope log, Proper i)
    {old : ListChangeInfo → List α} {es : ListChangeInfo → List (Edit α)}
    (edits : ∀ e ∈ o.lists, .createObject e.rowKey ∉ inTable e.tableKey none log →
      AllSteps Edit.values (fun l e => e.Allowed l.length) (old e) (es e) ∧ (∀ a ∈ es e, a.Near) ∧
        about e.scope log = Edit.log ((old e).map Row.fresh) (es e)) :
    ∃ undos, rollback sel text = .ok (undos, undos) ∧
      ((∃ o', execM TransactLogObserver.observe o undos = .ok o') ↔ ∀ i ∈ log, Undoable i) ∧
      ∀ o', execM TransactLogObserver.observe o undos = .ok o' → ∀ e ∈ o.lists,
        .createObject e.rowKey ∉ inTable e.tableKey none log →
        ∃ rows, rows.map Row.value = old e ∧
          Reports (o'.parseComplete.builders e.changes).finalize
            (exec Edit.values (old e) (es e)) rows := by
  have reversed := (undos_reads selections).2
  have proper' : ∀ e ∈ o.lists, ∀ j ∈ about e.scope (undos log), Proper j := by
    intro e mem j undo
    rw [about_inverse reversed] at undo
    obtain ⟨i, mem', inverse⟩ := List.mem_flatMap.mp undo
    exact inverse_proper (proper e mem i (List.mem_reverse.mp mem')) inverse
  have edits' : ∀ e ∈ o.lists, Stays (undos log) e.tableKey e.rowKey →
      AllSteps Edit.values (fun l e => e.Allowed l.length) (exec Edit.values (old e) (es e))
        (Edit.undoAll (old e) (es e)) ∧
      about e.scope (undos log) = Edit.log ((exec Edit.values (old e) (es e)).map Row.fresh)
        (Edit.undoAll (old e) (es e)) := by
    intro e mem stays
    obtain ⟨allowed, near, about⟩ := edits e mem ((stays_undos selections).mp stays)
    refine ⟨(undoAll_run allowed near).1, ?_⟩
    rw [about_inverse reversed, about]
    exact log_undoAll (map_fresh (old e)) allowed
  have followed (supported : ∀ j ∈ undos log, Supported j) :=
    transaction_followed ready supported (undos_reads selections).1 proper' edits'
  refine ⟨undos log, rollback_undos lawful wf written, ?_, fun o' run e mem kept => ?_⟩
  · rw [← undos_supported selections unnamed]
    constructor
    · rintro ⟨o', run⟩
      exact supported_of_run run
    · intro supported
      obtain ⟨o', run, -⟩ := followed supported
      exact ⟨o', run⟩
  · obtain ⟨o₁, run₁, lists, -⟩ := followed (supported_of_run run)
    cases run.symm.trans run₁
    obtain ⟨allowed, near, -⟩ := edits e mem kept
    obtain ⟨c, rows, n, -, values, follows, eq⟩ := lists e mem ((stays_undos selections).mpr kept)
    have clean := follows.cleaned n
    rw [eq]
    exact ⟨rows, values.trans (undoAll_run allowed near).2,
      clean.cleanUpStaleMoves.reports clean.records.cleanUpStaleMoves.2⟩

/-- A transaction edits two lists in turns, with an object created and another
removed in between. -/
theorem rollback_reported_swap :
    let e₁ : ListChangeInfo := ⟨3, 5, 70000, 0⟩
    let e₂ : ListChangeInfo := ⟨4, 6, 70000, 1⟩
    let o : TransactLogObserver := ⟨[e₁, e₂], fun t => if t = 3 ∨
      t = 4 then some {} else none, false, false,
      fun _ => {}, none, none, none⟩
    let log : List Instruction := [.selectTable 3, .selectList 70000 5, .listInsert 1,
      .selectTable 4,
      .removeObject 9, .selectList 70000 6, .listSwap 0 2, .createObject 11, .selectTable 3,
      .selectList 70000 5, .listMove 1 0]
    let es : ListChangeInfo → List (Edit ℕ) :=
      fun e => if e = e₁ then [.insert 1 8, .move 1 0] else [.swap 0 2]
    ∃ text undos o', writeLog .simple log = .ok text ∧ rollback .simple text = .ok (undos, undos) ∧
      execM TransactLogObserver.observe o undos = .ok o' ∧ ∀ e ∈ o.lists,
        ∃ rows, rows.map Row.value = [0, 1, 2] ∧
          Reports (o'.parseComplete.builders e.changes).finalize
            (exec Edit.values [0, 1, 2] (es e)) rows := by
  intro e₁ e₂ o log es
  have here (e : ListChangeInfo) (mem : e ∈ o.lists) : e = e₁ ∨ e = e₂ := List.mem_pair.mp mem
  have ready : Ready o := by
    refine ⟨rfl, rfl, rfl, fun _ _ => rfl, fun t => ?_, by decide, by decide⟩
    show (if t = 3 ∨ t = 4 then some ({} : ObjectChangeSet) else none).getD {} = {}
    split_ifs <;> rfl
  have written : writeLog .simple log = .ok (log.flatMap (Instruction.encode .simple)) :=
    writeLog_ok_iff.mpr ⟨by decide, rfl⟩
  have kept : ∀ e ∈ o.lists, .createObject e.rowKey ∉ inTable e.tableKey none log := by decide
  obtain ⟨undos, undone, stops, reports⟩ := @rollback_reported ℕ .simple o log _ ready
    SelectEncoder.simple_lawful (by decide) (by decide) written (by simp [log]) (by decide)
    (fun _ => [0, 1, 2]) es (fun e mem _ => by
      rcases here e mem with rfl | rfl
      · have eq : es e₁ = [.insert 1 8, .move 1 0] := if_pos rfl
        rw [eq]
        exact ⟨by simp only [AllSteps]; decide, by decide, rfl⟩
      · have eq : es e₂ = [.swap 0 2] := if_neg (by decide)
        rw [eq]
        exact ⟨by simp only [AllSteps]; decide, by decide, rfl⟩)
  obtain ⟨o', run⟩ := stops.mpr (by simp [log, Undoable])
  exact ⟨_, undos, o', written, undone, run, fun e mem => reports o' run e mem (kept e mem)⟩

end Undone

end SpecialtyMap.Notify

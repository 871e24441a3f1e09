import SpecialtyMap.Notify.ObjectChanges
import SpecialtyMap.Notify.Rollback

/-!
# Observing a transaction

`TransactLogObserver` reads the whole log of a transaction, for all the lists and tables that are
observed at once. It keeps the selected table, the change set of that table and the builder of the
selected list, and hands every instruction to them.

The observed lists and tables do not get in each other's way (`observe_ok`): whatever the log
interleaves, each is followed as if the instructions about it were the only ones. So what holds of
one list or table alone holds of each in a transaction (`transaction_reported`). A list whose object
goes is not observed any more, and whatever the log has about it stops nothing.
-/

namespace SpecialtyMap.Notify
open SpecialtyMap.Log SpecialtyMap.Machine SpecialtyMap.Position

/-- An observed list. Builders are shared by reference; `changes` says which one it is. -/
structure ListChangeInfo where
  tableKey : ℕ
  rowKey : ℤ
  colKey : ℤ
  changes : ℕ
deriving DecidableEq

/-- What stops an observer: the exception `UnsupportedSchemaChange`, or an
assertion of a builder. -/
inductive ObserverStop where
  | unsupportedSchemaChange
  | assertion (stop : Assertion)

/-- The observer, with the `TransactionChangeInfo` it fills in and the builders of the lists. -/
structure TransactLogObserver where
  lists : List ListChangeInfo
  tables : ℕ → Option ObjectChangeSet
  trackAll : Bool
  schemaChanged : Bool
  builders : ℕ → CollectionChangeBuilder
  currentTable : Option ℕ
  activeTable : Option ℕ
  activeList : Option ℕ

namespace TransactLogObserver

/-- The last one of the observed lists that is the list. -/
def findList (o : TransactLogObserver) (obj col : ℤ) : Option ℕ :=
  (o.lists.reverse.find? fun list =>
    some list.tableKey = o.currentTable ∧ list.rowKey = obj ∧
    list.colKey = col).map ListChangeInfo.changes

/-- An instruction for the active table, if there is one. -/
def onTable (o : TransactLogObserver) (instr : Instruction) : TransactLogObserver :=
  match o.activeTable with
  | none => o
  | some table =>
    { o with tables := Function.update o.tables table ((o.tables table).map (·.handle instr)) }

/-- The loop of `remove_object` from row `i` on, for so many more turns. The last list takes the
place of one that is removed, and is passed. -/
def removeLists (table : Option ℕ) (key : ℤ) : ℕ → ℕ → List ListChangeInfo → List ListChangeInfo
  | 0, _, lists => lists
  | n + 1, i, lists =>
    match lists[i]?, lists.getLast? with
    | some list, some back =>
      if some list.tableKey = table ∧ list.rowKey = key then
        removeLists table key n (i + 1)
          (if i + 1 < lists.length then lists.set i back else lists).dropLast
      else removeLists table key n (i + 1) lists
    | _, _ => lists

/-- The handlers, for all instructions. -/
def observe (o : TransactLogObserver) : Instruction → Except ObserverStop TransactLogObserver
  | .eraseGroupLevelTable _ | .renameGroupLevelTable _ | .eraseColumn _ | .renameColumn _ =>
    .error .unsupportedSchemaChange
  | .insertGroupLevelTable _ | .insertColumn _ => .ok { o with schemaChanged := true }
  | .setLinkType _ => .ok o
  | .selectTable key =>
    let o := { o with currentTable := some key }
    if o.trackAll then
      .ok { o with
        tables := Function.update o.tables key (some ((o.tables key).getD {}))
        activeTable := some key }
    else .ok { o with activeTable := if (o.tables key).isSome then some key else none }
  | .selectList col obj =>
    let o := o.onTable (.selectList col obj)
    .ok { o with activeList := o.findList obj col }
  | .createObject key => .ok (o.onTable (.createObject key))
  | .set col key => .ok (o.onTable (.set col key))
  | .removeObject key =>
    if o.activeTable = none then .ok o
    else
      let o := o.onTable (.removeObject key)
      .ok { o with lists := removeLists o.currentTable key o.lists.length 0 o.lists }
  | .clearTable oldSize =>
    let o := o.onTable (.clearTable oldSize)
    .ok { o with lists := o.lists.filter fun list => some list.tableKey ≠ o.currentTable }
  | instr =>
    match o.activeList with
    | none => .ok o
    | some list =>
      match handle (o.builders list) instr with
      | .error stop => .error (.assertion stop)
      | .ok changes => .ok { o with builders := Function.update o.builders list changes }

/-- What is done at the end of the log: stale moves are cleaned up, tables
without changes dropped. -/
def parseComplete (o : TransactLogObserver) : TransactLogObserver :=
  { o with
    builders := o.lists.foldl (fun builders list =>
      Function.update builders list.changes (builders list.changes).cleanUpStaleMoves) o.builders
    tables := fun table => (o.tables table).filter fun changes => !changes.empty }

/-- A table is observed. -/
def Tracks (o : TransactLogObserver) (table : ℕ) : Prop :=
  o.trackAll = true ∨ (o.tables table).isSome = true

end TransactLogObserver

/-- The instructions the observer of a schema supports. -/
def Supported : Instruction → Prop
  | .eraseGroupLevelTable _ | .renameGroupLevelTable _ | .eraseColumn _ | .renameColumn _ => False
  | _ => True

/-- The instructions about the objects of a table, while this table is selected. -/
def inTable (table : ℕ) : Option ℕ → List Instruction → List Instruction
  | _, [] => []
  | current, instr :: instrs =>
    let rest := inTable table (Scope.after ⟨current, none⟩ instr).table instrs
    if current = some table ∧ instr.level = .table then instr :: rest else rest

/-- Where a list is. -/
def ListChangeInfo.scope (list : ListChangeInfo) : Scope :=
  ⟨some list.tableKey, some (list.colKey, list.rowKey)⟩

section Lists
variable {table : Option ℕ} {key : ℤ} {n i : ℕ} {lists : List ListChangeInfo}
  {e list back : ListChangeInfo}

/-- The place of a removed list is taken by the last one. -/
lemma mem_replaced (here : lists[i]? = some list) (last : lists.getLast? = some back) :
    (e ∈ (if i + 1 < lists.length then lists.set i back else lists).dropLast → e ∈ lists) ∧
      (e ∈ lists → e ≠ list →
        e ∈ (if i + 1 < lists.length then lists.set i back else lists).dropLast) := by
  rw [List.getLast?_eq_getElem?] at last
  have lt := (List.getElem?_eq_some_iff.mp here).1
  split_ifs with inner
  · constructor
    · intro mem
      rcases List.mem_or_eq_of_mem_set (List.mem_of_mem_dropLast mem) with old | rfl
      · exact old
      · exact List.mem_of_getElem? last
    · intro mem ne
      obtain ⟨j, at_j⟩ := List.mem_iff_getElem?.mp mem
      have lt' := (List.getElem?_eq_some_iff.mp at_j).1
      apply List.mem_iff_getElem?.mpr
      by_cases end_j : j = lists.length - 1
      · refine ⟨i, ?_⟩
        rw [List.getElem?_dropLast, List.length_set, if_pos (by omega), List.getElem?_set_self lt,
          ← last, ← end_j,
          at_j]
      · have other : i ≠ j := by
          rintro rfl
          exact ne (Option.some.inj (at_j.symm.trans here))
        refine ⟨j, ?_⟩
        rw [List.getElem?_dropLast, List.length_set, if_pos (by omega),
          List.getElem?_set_ne other, at_j]
  · refine ⟨List.mem_of_mem_dropLast, fun mem ne => ?_⟩
    obtain ⟨j, at_j⟩ := List.mem_iff_getElem?.mp mem
    have lt' := (List.getElem?_eq_some_iff.mp at_j).1
    have other : j ≠ i := by
      rintro rfl
      exact ne (Option.some.inj (at_j.symm.trans here))
    apply List.mem_iff_getElem?.mpr
    refine ⟨j, ?_⟩
    rw [List.getElem?_dropLast, if_pos (by omega), at_j]

/-- Only lists of the removed object are removed. -/
lemma mem_removeLists : (e ∈ TransactLogObserver.removeLists table key n i lists → e ∈ lists) ∧
    (e ∈ lists → ¬ (some e.tableKey = table ∧ e.rowKey = key) →
      e ∈ TransactLogObserver.removeLists table key n i lists) := by
  induction n generalizing i lists with
  | zero => exact ⟨id, fun mem _ => mem⟩
  | succ n ih =>
    rw [TransactLogObserver.removeLists]
    split
    case h_2 => exact ⟨id, fun mem _ => mem⟩
    case h_1 list back here last =>
      obtain ⟨old, kept⟩ := @mem_replaced i lists e list back here last
      by_cases removed : some list.tableKey = table ∧ list.rowKey = key
      · rw [if_pos removed]
        refine ⟨fun mem => old (ih.1 mem), fun mem plain => ih.2 (kept mem ?_) plain⟩
        rintro rfl
        exact plain removed
      · rw [if_neg removed]
        exact ih

end Lists

namespace TransactLogObserver
variable {o : TransactLogObserver} {t t' : ℕ} {i : Instruction}

@[simp] lemma onTable_lists : (o.onTable i).lists = o.lists := by
  rw [onTable]
  split <;> rfl

@[simp] lemma onTable_builders : (o.onTable i).builders = o.builders := by
  rw [onTable]
  split <;> rfl

@[simp] lemma onTable_trackAll : (o.onTable i).trackAll = o.trackAll := by
  rw [onTable]
  split <;> rfl

@[simp] lemma onTable_currentTable : (o.onTable i).currentTable = o.currentTable := by
  rw [onTable]
  split <;> rfl

@[simp] lemma onTable_activeTable : (o.onTable i).activeTable = o.activeTable := by
  rw [onTable]
  split <;> rfl

@[simp] lemma onTable_activeList : (o.onTable i).activeList = o.activeList := by
  rw [onTable]
  split <;> rfl

lemma onTable_tables : (o.onTable i).tables t =
    if o.activeTable = some t then (o.tables t).map (·.handle i) else o.tables t := by
  rw [onTable]
  split
  case h_1 none => rw [none, if_neg (Option.some_ne_none t).symm]
  case h_2 t' active =>
    rw [active]
    show Function.update _ _ _ t = _
    rw [Function.update_apply]
    by_cases here : t = t'
    · rw [if_pos here, if_pos (congrArg some here.symm), here]
    · rw [if_neg here, if_neg fun eq => here (Option.some.inj eq).symm]

end TransactLogObserver

/-- The observer knows what is selected, as far as it is observed. All lists are those it
observed at the start. -/
structure Watch (all : List ListChangeInfo) (o : TransactLogObserver) (s : Scope) : Prop where
  lists : ∀ e ∈ o.lists, e ∈ all
  active : ∀ p, o.activeList = some p → ∃ e ∈ all, e.changes = p
  elsewhere : ∀ e ∈ all, s.list ≠ none → s ≠ e.scope → o.activeList ≠ some e.changes
  current : ∀ t, s.table = some t → o.currentTable = some t
  selected : ∀ t, s.table = some t → o.Tracks t → o.activeTable = some t
  tracked : ∀ t, o.activeTable = some t → o.currentTable = some t ∧ (o.tables t).isSome = true

/-- The builder of a list has followed it, and goes on when the list is selected. Or it has lost it,
for good: the list is not observed any more. -/
def Keeps (o : TransactLogObserver) (s : Scope) (e : ListChangeInfo)
    (c : CollectionChangeBuilder) : Prop :=
  (o.builders e.changes = c ∧ (s = e.scope → o.activeList = some e.changes)) ∨
    (e ∉ o.lists ∧ (s = e.scope → o.activeList ≠ some e.changes))

/-- The instructions about a list, in a log that is read with this selection. -/
def aboutFrom (s ℓ : Scope) (log : List Instruction) : List Instruction :=
  (located s log).filterMap fun e => if e.1 = ℓ then some e.2 else none

section Watch
variable {all : List ListChangeInfo} {o o' : TransactLogObserver} {s ℓ : Scope} {e : ListChangeInfo}
  {c c' : CollectionChangeBuilder} {i : Instruction} {is : List Instruction} {t : ℕ}

/-- Of a list only instructions of lists are, while it is selected. -/
lemma aboutFrom_cons (list : ℓ.list ≠ none) : aboutFrom s ℓ (i :: is) =
    if i.level = .list ∧ s = ℓ then i :: aboutFrom (s.after i) ℓ is else aboutFrom
      (s.after i) ℓ is := by
  have plain (level : i.level = .list) : (i.selects || i.renames) = false := by
    cases i with
    | listInsert _ | listSet _ | listMove _ _ | listSwap _ _ | listErase _ | listClear _ => rfl
    | _ => cases level
  rw [aboutFrom, located]
  by_cases about : i.level = .list ∧ s = ℓ
  · have here : s.upTo i.level = ℓ := by
      rw [about.1, ← about.2]
      rfl
    rw [if_pos about, plain about.1, if_neg Bool.false_ne_true]
    exact List.filterMap_cons_some (if_pos here)
  · rw [if_neg about]
    by_cases skip : (i.selects || i.renames) = true
    · rw [if_pos skip]
      rfl
    · have other : s.upTo i.level ≠ ℓ := by
        rintro rfl
        cases level : i.level with
        | group | table => exact list (by rw [level]; rfl)
        | list => exact about ⟨level, by rw [level]; rfl⟩
      rw [if_neg skip]
      exact List.filterMap_cons_none (if_neg other)

/-- A list instruction goes to the builder of the selected list. -/
lemma observe_list (level : i.level = .list) : o.observe i =
    match o.activeList with
    | none => .ok o
    | some list =>
      match TransactLogObserver.handle (o.builders list) i with
      | .error stop => .error (.assertion stop)
      | .ok changes => .ok { o with builders := Function.update o.builders list changes } := by
  cases i with
  | listInsert _ | listSet _ | listMove _ _ | listSwap _ _ | listErase _ | listClear _ => rfl
  | _ => cases level

/-- A list instruction is followed by the builder of the selected list alone. -/
lemma Watch.list (watch : Watch all o s)
    (changes : ∀ e ∈ all, ∀ e' ∈ all, e.changes = e'.changes → e = e')
    (level : i.level = .list) (selected : s.list ≠ none) {cs cs' : ListChangeInfo →
      CollectionChangeBuilder}
    (keeps : ∀ e ∈ all, Keeps o s e (cs e))
    (next : ∀ e ∈ all, if s = e.scope then TransactLogObserver.handle (cs e) i = .ok
      (cs' e) else cs' e = cs e) :
    ∃ o', o.observe i = .ok o' ∧ Watch all o' s ∧ (∀ e ∈ all, Keeps o' s e (cs' e)) ∧
      o'.lists = o.lists ∧ o'.tables = o.tables ∧ o'.trackAll = o.trackAll := by
  rw [observe_list level]
  cases active : o.activeList with
  | none =>
    refine ⟨o, rfl, watch, fun e mem => ?_, rfl, rfl, rfl⟩
    have step := next e mem
    rcases keeps e mem with ⟨eq, followed⟩ | lost
    · have elsewhere : s ≠ e.scope := fun here => by
        have := followed here
        rw [active] at this
        cases this
      rw [if_neg elsewhere] at step
      exact .inl ⟨eq.trans step.symm, followed⟩
    · exact .inr lost
  | some p =>
    obtain ⟨e₀, mem₀, rfl⟩ := watch.active p active
    have here : s = e₀.scope := by
      by_contra other
      exact watch.elsewhere e₀ mem₀ selected other active
    have step := next e₀ mem₀
    rw [if_pos here] at step
    have eq : o.builders e₀.changes = cs e₀ := by
      rcases keeps e₀ mem₀ with ⟨eq, _⟩ | ⟨_, lost⟩
      · exact eq
      · exact absurd active (lost here)
    refine ⟨{ o with builders := Function.update o.builders e₀.changes (cs' e₀) }, ?_,
      ⟨watch.lists, watch.active, watch.elsewhere, watch.current, watch.selected, watch.tracked⟩,
      fun e mem => ?_, rfl, rfl, rfl⟩
    · rw [active]
      dsimp only
      rw [eq, step]
    · by_cases same : e.changes = e₀.changes
      · have eq' := changes e mem e₀ mem₀ same
        rw [eq']
        exact .inl ⟨Function.update_self .., fun _ => active⟩
      · have step' := next e mem
        have elsewhere : s = e.scope → o.activeList ≠ some e.changes := fun _ active' =>
          same (Option.some.inj (active'.symm.trans active))
        rcases keeps e mem with ⟨eq', followed⟩ | lost
        · have other : s ≠ e.scope := fun here => elsewhere here (followed here)
          rw [if_neg other] at step'
          refine .inl ⟨?_, fun here => absurd here other⟩
          show Function.update _ _ _ e.changes = _
          rw [Function.update_of_ne same, eq', step']
        · exact .inr lost

/-- An observer that has the same in view, of as many lists at most. -/
structure Quiet (o o' : TransactLogObserver) : Prop where
  lists : ∀ e ∈ o'.lists, e ∈ o.lists
  builders : o'.builders = o.builders
  tracks : ∀ t, o'.Tracks t ↔ o.Tracks t
  kept : ∀ t, (o.tables t).isSome = true → (o'.tables t).isSome = true

lemma quiet_onTable : Quiet o (o.onTable i) := by
  have same (t : ℕ) : ((o.onTable i).tables t).isSome = (o.tables t).isSome := by
    rw [TransactLogObserver.onTable_tables]
    split_ifs
    · exact Option.isSome_map
    · rfl
  refine ⟨fun e mem => ?_, TransactLogObserver.onTable_builders, fun t => ?_, fun t some => ?_⟩
  · rwa [TransactLogObserver.onTable_lists] at mem
  · rw [TransactLogObserver.Tracks, TransactLogObserver.Tracks,
      TransactLogObserver.onTable_trackAll, same]
  · rwa [same]

/-- Nothing else is selected. -/
lemma Quiet.watch (quiet : Quiet o o') (watch : Watch all o s)
    (current : o'.currentTable = o.currentTable)
    (table : o'.activeTable = o.activeTable) (list : o'.activeList = o.activeList) :
      Watch all o' s := by
  refine ⟨fun e mem => watch.lists e (quiet.lists e mem), ?_, ?_, ?_, fun t some tracks => ?_,
    fun t active => ?_⟩
  · rw [list]
    exact watch.active
  · rw [list]
    exact watch.elsewhere
  · rw [current]
    exact watch.current
  · rw [table]
    exact watch.selected t some ((quiet.tracks t).mp tracks)
  · rw [table] at active
    rw [current]
    exact (watch.tracked t active).imp_right (quiet.kept t)

lemma Quiet.keeps (quiet : Quiet o o') (list : o'.activeList = o.activeList)
    (keeps : Keeps o s e c) :
    Keeps o' s e c := by
  rw [Keeps, quiet.builders, list]
  exact keeps.imp_right fun lost => ⟨fun mem => lost.1 (quiet.lists e mem), lost.2⟩

/-- No list is selected. -/
lemma Quiet.keeps_unselected (quiet : Quiet o o') (keeps : Keeps o s e c) (none : ℓ.list = none) :
    Keeps o' ℓ e c := by
  have other : ℓ ≠ e.scope := by
    rintro rfl
    cases none
  rw [Keeps, quiet.builders]
  exact keeps.imp (fun kept => ⟨kept.1, fun here => absurd here other⟩)
    fun lost => ⟨fun mem => lost.1 (quiet.lists e mem), fun here => absurd here other⟩

/-- The instruction goes to the change set of the selected table, if it is observed. -/
lemma Watch.onTable (watch : Watch all o s) (selected : s.table ≠ none) (tracks : o.Tracks t) :
    ((o.onTable i).tables t).getD {} =
      if s.table = some t then ((o.tables t).getD {}).handle i else (o.tables t).getD {} := by
  rw [TransactLogObserver.onTable_tables]
  by_cases here : s.table = some t
  · have active := watch.selected t here tracks
    obtain ⟨changes, some⟩ := Option.isSome_iff_exists.mp (watch.tracked t active).2
    rw [if_pos active, if_pos here, some]
    rfl
  · have other : o.activeTable ≠ some t := by
      intro active
      obtain ⟨t', some⟩ := Option.ne_none_iff_exists'.mp selected
      have current := (watch.tracked t active).1
      rw [watch.current t' some] at current
      exact here (some.trans current)
    rw [if_neg other, if_neg here]

/-- The list that is selected is found, if it is observed. -/
lemma findList_cases (o : TransactLogObserver) (obj col : ℤ) :
    (∃ e ∈ o.lists, e.scope = ⟨o.currentTable, some (col, obj)⟩ ∧
      o.findList obj col = some e.changes) ∨
      ((∀ e ∈ o.lists, e.scope ≠ ⟨o.currentTable, some (col, obj)⟩) ∧
        o.findList obj col = none) := by
  have same (e : ListChangeInfo) : (some e.tableKey = o.currentTable ∧ e.rowKey = obj ∧
      e.colKey = col) ↔
      e.scope = ⟨o.currentTable, some (col, obj)⟩ := by
    rw [ListChangeInfo.scope, Scope.mk.injEq, Option.some.injEq, Prod.mk.injEq,
      and_comm (a := e.colKey = col)]
  rw [TransactLogObserver.findList]
  cases found : o.lists.reverse.find? fun list =>
      some list.tableKey = o.currentTable ∧ list.rowKey = obj ∧ list.colKey = col with
  | none =>
    refine .inr ⟨fun e mem here => ?_, rfl⟩
    have other := List.find?_eq_none.mp found e (List.mem_reverse.mpr mem)
    exact other (decide_eq_true ((same e).mpr here))
  | some e =>
    have here := List.find?_some found
    exact .inl ⟨e, List.mem_reverse.mp (List.mem_of_find?_eq_some found),
      (same e).mp (of_decide_eq_true here), rfl⟩

/-- A list is selected. -/
lemma Watch.selectList (watch : Watch all o s) (quiet : Quiet o o')
    (scopes : ∀ e ∈ all, ∀ e' ∈ all, e.scope = e'.scope → e = e')
    (changes : ∀ e ∈ all, ∀ e' ∈ all, e.changes = e'.changes → e = e') (selected : s.table ≠ none)
    {obj col : ℤ} (current : o'.currentTable = o.currentTable)
    (table : o'.activeTable = o.activeTable)
    (list : o'.activeList = o'.findList obj col) :
    Watch all o' ⟨s.table, some (col, obj)⟩ ∧ ∀ e ∈ all, Keeps o s e c →
    Keeps o' ⟨s.table, some (col, obj)⟩ e c := by
  have scope : (⟨o'.currentTable, some (col, obj)⟩ : Scope) = ⟨s.table, some (col, obj)⟩ := by
    obtain ⟨t, some⟩ := Option.ne_none_iff_exists'.mp selected
    rw [current, watch.current t some, some]
  have found := findList_cases o' obj col
  rw [scope, ← list] at found
  constructor
  · refine ⟨fun e mem => watch.lists e (quiet.lists e mem), fun p active => ?_,
      fun e mem _ other active => ?_,
      fun t some => ?_, fun t some tracks => ?_, fun t active => ?_⟩
    · rcases found with ⟨e, mem, -, active'⟩ | ⟨-, none⟩
      · rw [active] at active'
        exact ⟨e, watch.lists e (quiet.lists e mem), (Option.some.inj active').symm⟩
      · rw [none] at active
        cases active
    · rcases found with ⟨e', mem', here, active'⟩ | ⟨-, none⟩
      · rw [active] at active'
        have eq := changes e mem e' (watch.lists e' (quiet.lists e' mem')) (Option.some.inj active')
        exact other (eq ▸ here.symm)
      · rw [none] at active
        cases active
    · rw [current]
      exact watch.current t some
    · rw [table]
      exact watch.selected t some ((quiet.tracks t).mp tracks)
    · rw [table] at active
      rw [current]
      exact (watch.tracked t active).imp_right (quiet.kept t)
  · intro e mem keeps
    rw [Keeps, quiet.builders]
    by_cases there : e ∈ o'.lists
    · rcases keeps with ⟨eq, _⟩ | ⟨lost, _⟩
      · refine .inl ⟨eq, fun here => ?_⟩
        rcases found with ⟨e', mem', here', active⟩ | ⟨absent, _⟩
        · have same := scopes e mem e' (watch.lists e' (quiet.lists e' mem'))
            (here.symm.trans here'.symm)
          rw [active, same]
        · exact absurd here.symm (absent e there)
      · exact absurd (quiet.lists e there) lost
    · refine .inr ⟨there, fun here active => ?_⟩
      rcases found with ⟨e', mem', here', _⟩ | ⟨_, none⟩
      · have same := scopes e mem e' (watch.lists e' (quiet.lists e' mem'))
          (here.symm.trans here'.symm)
        exact there (same ▸ mem')
      · rw [none] at active
        cases active

/-- An instruction that leaves the object of a list there. -/
def Spares (i : Instruction) (s : Scope) (e : ListChangeInfo) : Prop :=
  s.table = some e.tableKey → i ≠ .removeObject e.rowKey ∧ ∀ oldSize, i ≠ .clearTable oldSize

/-- What a step leads to: the builders and the change sets have each followed what is about them. -/
structure Stepped (all : List ListChangeInfo) (o : TransactLogObserver) (s : Scope)
    (i : Instruction)
    (o' : TransactLogObserver) : Prop where
  watch : Watch all o' (s.after i)
  tracks : ∀ t, o'.Tracks t ↔ o.Tracks t
  tables : ∀ t, o.Tracks t → (o'.tables t).getD {} =
    if s.table = some t ∧ i.level = .table then ((o.tables t).getD
      {}).handle i else (o.tables t).getD {}
  spared : ∀ e ∈ o.lists, Spares i s e → e ∈ o'.lists

/-- A step that hands an instruction to the table, and may remove lists. -/
lemma Watch.table (watch : Watch all o s) (selected : s.table ≠ none) (level : i.level = .table)
    (stays : s.after i = s) {lists : List ListChangeInfo} (fewer : ∀ e ∈ lists, e ∈ o.lists)
    (spared : ∀ e ∈ o.lists, Spares i s e → e ∈ lists) :
    Stepped all o s i { o.onTable i with lists := lists } ∧
      ∀ e c, Keeps o s e c → Keeps { o.onTable i with lists := lists } s e c := by
  have quiet : Quiet o { o.onTable i with lists := lists } :=
    ⟨fewer, quiet_onTable.builders, quiet_onTable.tracks, quiet_onTable.kept⟩
  refine ⟨⟨?_, quiet.tracks, fun t tracks => ?_, spared⟩, fun e c keeps => quiet.keeps ?_ keeps⟩
  · rw [stays]
    exact quiet.watch watch TransactLogObserver.onTable_currentTable
      TransactLogObserver.onTable_activeTable TransactLogObserver.onTable_activeList
  · simp only [and_iff_left level]
    exact watch.onTable selected tracks
  · exact TransactLogObserver.onTable_activeList

/-- A step that changes nothing in view. -/
lemma Watch.pass (watch : Watch all o s) (quiet : Quiet o o') (tables : o'.tables = o.tables)
    (lists : o'.lists = o.lists) (current : o'.currentTable = o.currentTable)
    (table : o'.activeTable = o.activeTable) (list : o'.activeList = o.activeList)
    (stays : s.after i = s)
    (plain : ∀ cs : ObjectChangeSet, cs.handle i = cs) : Stepped all o s i o' := by
  refine ⟨?_, quiet.tracks, fun t _ => ?_, fun e mem _ => lists ▸ mem⟩
  · rw [stays]
    exact quiet.watch watch current table list
  · rw [tables, plain, ite_self]

lemma Watch.unselect (watch : Watch all o s) (quiet : Quiet o o')
    (current : o'.currentTable = o.currentTable)
    (table : o'.activeTable = o.activeTable) (list : o'.activeList = o.activeList) :
    Watch all o' .nothing := by
  have same := quiet.watch watch current table list
  exact ⟨same.lists, same.active, fun _ _ none => absurd rfl none,
    fun _ some => absurd some.symm (Option.some_ne_none _),
    fun _ some => absurd some.symm (Option.some_ne_none _), same.tracked⟩

/-- A table is selected, and a change set made for it where all are observed. -/
lemma Watch.selectTable (watch : Watch all o s) {tables : ℕ → Option ObjectChangeSet}
    {active : Option ℕ}
    (same : ∀ t', (tables t').getD {} = (o.tables t').getD {})
    (kept : ∀ t', (o.tables t').isSome = true → (tables t').isSome = true)
    (made : ∀ t', (tables t').isSome = true → o.Tracks t')
    (selected : o.Tracks t → active = some t)
    (tracked : ∀ t', active = some t' → t' = t ∧ (tables t').isSome = true) :
    Stepped all o s (.selectTable t)
        { o with currentTable := some t, tables := tables, activeTable := active } ∧
      ∀ e c, Keeps o s e c →
        Keeps { o with currentTable := some t, tables := tables, activeTable := active }
          ⟨some t, none⟩ e c := by
  have quiet :
      Quiet o { o with currentTable := some t, tables := tables, activeTable := active } := by
    refine ⟨fun e mem => mem, rfl, fun t' => ⟨fun tracks => ?_, fun tracks => ?_⟩, kept⟩
    · rcases tracks with every | some
      · exact .inl every
      · exact made t' some
    · exact tracks.imp id (kept t')
  refine ⟨⟨⟨watch.lists, watch.active, fun _ _ none => absurd rfl none, ?_, ?_, ?_⟩,
    quiet.tracks, ?_, ?_⟩, ?_⟩
  · exact fun t' some => some
  · intro t' some tracks
    cases some
    exact selected ((quiet.tracks t).mp tracks)
  · intro t' active'
    obtain ⟨rfl, some⟩ := tracked t' active'
    exact ⟨rfl, some⟩
  · intro t' _
    rw [if_neg fun both => Level.noConfusion both.2]
    exact same t'
  · exact fun e mem _ => mem
  · exact fun e c keeps => quiet.keeps_unselected keeps rfl

/-- Every supported instruction is observed, and only by those it is about. -/
lemma Watch.step (watch : Watch all o s)
    (scopes : ∀ e ∈ all, ∀ e' ∈ all, e.scope = e'.scope → e = e')
    (changes : ∀ e ∈ all, ∀ e' ∈ all, e.changes = e'.changes → e = e') (supported : Supported i)
    (selected : i.renames = false → s.Selected i.level) {cs cs' : ListChangeInfo →
      CollectionChangeBuilder}
    (keeps : ∀ e ∈ all, Keeps o s e (cs e))
    (next : ∀ e ∈ all, if i.level = .list ∧
      s = e.scope then TransactLogObserver.handle (cs e) i = .ok (cs' e)
      else cs' e = cs e) :
    ∃ o', o.observe i = .ok o' ∧ Stepped all o s i o' ∧
    ∀ e ∈ all, Keeps o' (s.after i) e (cs' e) := by
  -- the builders stay as they are where no list is selected
  have unchanged (level : i.level ≠ .list) (o' : TransactLogObserver) (ok : o.observe i = .ok o')
      (stepped : Stepped all o s i o') (still : ∀ e ∈ all, ∀ c, Keeps o s e c →
        Keeps o' (s.after i) e c) :
      ∃ o', o.observe i = .ok o' ∧ Stepped all o s i o' ∧
      ∀ e ∈ all, Keeps o' (s.after i) e (cs' e) := by
    refine ⟨o', ok, stepped, fun e mem => ?_⟩
    have same := next e mem
    rw [if_neg fun both => level both.1] at same
    rw [same]
    exact still e mem _ (keeps e mem)
  have quiet : Quiet o { o with schemaChanged := true } :=
    ⟨fun e mem => mem, rfl, fun t => Iff.rfl, fun t => id⟩
  have there (sel : s.Selected .table) : s.table ≠ none := Option.isSome_iff_ne_none.mp sel
  have onTable (sel : s.table ≠ none) (level : i.level = .table) (stays : s.after i = s)
      (ok : o.observe i = .ok (o.onTable i)) :
      ∃ o', o.observe i = .ok o' ∧ Stepped all o s i o' ∧
      ∀ e ∈ all, Keeps o' (s.after i) e (cs' e) := by
    have both := @Watch.table all o s i watch sel level stays o.lists
      (fun _ mem => mem) fun _ mem _ => mem
    have eq : { o.onTable i with lists := o.lists } = o.onTable i := by
      rw [← @TransactLogObserver.onTable_lists o i]
    rw [eq] at both
    refine unchanged (by rw [level]; decide) _ ok both.1 fun e _ c kept => ?_
    rw [stays]
    exact both.2 e c kept
  have inList (level : i.level = .list) (stays : s.after i = s) (plain : i.renames = false)
      (same : ∀ cs : ObjectChangeSet, cs.handle i = cs) :
      ∃ o', o.observe i = .ok o' ∧ Stepped all o s i o' ∧
      ∀ e ∈ all, Keeps o' (s.after i) e (cs' e) := by
    have sel : s.list ≠ none := by
      have sel := selected plain
      rw [level] at sel
      exact Option.isSome_iff_ne_none.mp sel.2
    obtain ⟨o', ok, watch', keeps', lists, tables, trackAll⟩ :=
      watch.list changes level sel keeps fun e mem =>
        by simpa only [level, true_and] using next e mem
    refine ⟨o', ok, ⟨?_, fun t => ?_, fun t _ => ?_, fun e mem _ => lists ▸ mem⟩, ?_⟩
    · rwa [stays]
    · rw [TransactLogObserver.Tracks, TransactLogObserver.Tracks, trackAll, tables]
    · rw [tables, same, ite_self]
    · rwa [stays]
  cases i with
  | eraseGroupLevelTable _ | renameGroupLevelTable _ | eraseColumn _ | renameColumn _ =>
    exact supported.elim
  | insertGroupLevelTable _ =>
    refine unchanged (fun eq => Level.noConfusion eq) _ rfl ⟨watch.unselect quiet rfl rfl rfl,
      quiet.tracks, fun t _ => ?_,
      fun e mem _ => mem⟩ fun e _ c kept => quiet.keeps_unselected kept rfl
    rw [if_neg fun both => Level.noConfusion both.2]
  | insertColumn _ =>
    exact unchanged (fun eq => Level.noConfusion eq) _ rfl
      (watch.pass quiet rfl rfl rfl rfl rfl rfl fun _ => rfl)
      fun e _ c kept => quiet.keeps rfl kept
  | setLinkType _ =>
    exact unchanged (fun eq => Level.noConfusion eq) _ rfl
      (watch.pass ⟨fun e mem => mem, rfl, fun t => Iff.rfl,
        fun t => id⟩ rfl rfl rfl rfl rfl rfl fun _ => rfl)
      fun e _ c kept => kept
  | selectTable t =>
    have level : (Instruction.selectTable t).level ≠ .list := fun eq => Level.noConfusion eq
    by_cases every : o.trackAll = true
    · have both := @Watch.selectTable all o s t watch
        (Function.update o.tables t (some ((o.tables t).getD {}))) (some t) (fun t' => ?_)
        (fun t' some => ?_)
        (fun _ _ => .inl every) (fun _ => rfl) (fun t' active => ?_)
      · exact unchanged level _ (if_pos every) both.1 fun e _ c => both.2 e c
      · by_cases here : t' = t
        · rw [here, Function.update_self]
          rfl
        · rw [Function.update_of_ne here]
      · by_cases here : t' = t
        · rw [here, Function.update_self]
          rfl
        · rwa [Function.update_of_ne here]
      · cases active
        rw [Function.update_self]
        exact ⟨rfl, rfl⟩
    · have both := @Watch.selectTable all o s t watch o.tables
        (if (o.tables t).isSome then some t else none) (fun _ => rfl) (fun _ => id) (fun _ => .inr)
        (fun tracks => if_pos (tracks.resolve_left every)) (fun t' active => ?_)
      · exact unchanged level _ (if_neg every) both.1 fun e _ c => both.2 e c
      · split_ifs at active with some
        cases active
        exact ⟨rfl, some⟩
  | selectList col obj =>
    have sel := there (selected rfl)
    have quiet' : Quiet o { o.onTable (.selectList col obj) with
        activeList := (o.onTable (.selectList col obj)).findList obj col } :=
      ⟨quiet_onTable.lists, quiet_onTable.builders, quiet_onTable.tracks, quiet_onTable.kept⟩
    have both {c : CollectionChangeBuilder} :=
      @Watch.selectList all o _ s c watch quiet' scopes changes sel obj col
      TransactLogObserver.onTable_currentTable TransactLogObserver.onTable_activeTable rfl
    refine unchanged (fun eq => Level.noConfusion eq) _ rfl ⟨(@both {}).1, quiet'.tracks,
      fun t tracks => ?_,
      fun e mem _ => ?_⟩ fun e mem c => both.2 e mem
    · have step := @Watch.onTable all o s (.selectList col obj) t watch sel tracks
      simp only [Instruction.level, and_true]
      exact step
    · show e ∈ (o.onTable _).lists
      rwa [TransactLogObserver.onTable_lists]
  | createObject key => exact onTable (there (selected rfl)) rfl rfl rfl
  | set col key => exact onTable (there (selected rfl)) rfl rfl rfl
  | removeObject key =>
    have sel := there (selected rfl)
    have level : (Instruction.removeObject key).level ≠ .list := fun eq => Level.noConfusion eq
    by_cases none : o.activeTable = none
    · refine unchanged level o (if_pos none) ⟨watch, fun t => Iff.rfl, fun t tracks => ?_,
        fun e mem _ => mem⟩
        fun e _ c => id
      rw [if_neg fun both => ?_]
      have active := watch.selected t both.1 tracks
      rw [none] at active
      cases active
    · have both := @Watch.table all o s (.removeObject key) watch sel rfl rfl
        (TransactLogObserver.removeLists (o.onTable (.removeObject key)).currentTable key
          (o.onTable (.removeObject key)).lists.length 0 (o.onTable (.removeObject key)).lists)
        (fun e mem => ?_) (fun e mem spared => ?_)
      · exact unchanged level _ (if_neg none) both.1 fun e _ c => both.2 e c
      · have old := mem_removeLists.1 mem
        rwa [TransactLogObserver.onTable_lists] at old
      · rw [TransactLogObserver.onTable_lists, TransactLogObserver.onTable_currentTable]
        refine mem_removeLists.2 mem fun removed => ?_
        obtain ⟨t, some⟩ := Option.ne_none_iff_exists'.mp sel
        rw [watch.current t some, ← some] at removed
        exact (spared removed.1.symm).1 (congrArg _ removed.2.symm)
  | clearTable oldSize =>
    have sel := there (selected rfl)
    have both := @Watch.table all o s (.clearTable oldSize) watch sel rfl rfl
      ((o.onTable (.clearTable oldSize)).lists.filter fun list =>
        some list.tableKey ≠ (o.onTable (.clearTable oldSize)).currentTable)
      (fun e mem => ?_) (fun e mem spared => ?_)
    · exact unchanged (fun eq => Level.noConfusion eq) _ rfl both.1 fun e _ c => both.2 e c
    · have old := List.mem_of_mem_filter mem
      rwa [TransactLogObserver.onTable_lists] at old
    · rw [TransactLogObserver.onTable_lists, TransactLogObserver.onTable_currentTable]
      refine List.mem_filter.mpr ⟨mem, decide_eq_true fun here => ?_⟩
      obtain ⟨t, some⟩ := Option.ne_none_iff_exists'.mp sel
      rw [watch.current t some, ← some] at here
      exact (spared here.symm).2 oldSize rfl
  | listInsert _ | listSet _ | listMove _ _ | listSwap _ _ | listErase _ | listClear _ =>
    exact inList rfl rfl rfl fun _ => rfl

/-- A whole log is observed: the builder of a list that is still observed has followed the
instructions about it, the change set of a table those about its objects. -/
lemma Watch.run {log : List Instruction} (watch : Watch all o s)
    (scopes : ∀ e ∈ all, ∀ e' ∈ all, e.scope = e'.scope → e = e')
    (changes : ∀ e ∈ all, ∀ e' ∈ all, e.changes = e'.changes → e = e')
    (supported : ∀ i ∈ log, Supported i)
    (selections : Scoped s log) {cs cs' : ListChangeInfo → CollectionChangeBuilder}
    (keeps : ∀ e ∈ all, Keeps o s e (cs e))
    (follow : ∀ e ∈ all, execM TransactLogObserver.handle (cs e)
      (aboutFrom s e.scope log) = .ok (cs' e)) :
    ∃ o', execM TransactLogObserver.observe o log = .ok o' ∧
      (∀ e ∈ all, e ∈ o'.lists → o'.builders e.changes = cs' e) ∧
      (∀ t, o.Tracks t →
        (o'.tables t).getD {} = exec ObjectChangeSet.handle ((o.tables t).getD {})
        (inTable t s.table log)) ∧
      ∀ e ∈ o.lists, (∀ i ∈ inTable e.tableKey s.table log,
        i ≠ .removeObject e.rowKey ∧ ∀ oldSize, i ≠ .clearTable oldSize) → e ∈ o'.lists := by
  induction log generalizing o s cs with
  | nil =>
    refine ⟨o, rfl, fun e mem there => ?_, fun t _ => rfl, fun e mem _ => mem⟩
    have same : cs e = cs' e := Except.ok.inj (follow e mem)
    rcases keeps e mem with ⟨eq, _⟩ | ⟨lost, _⟩
    · exact eq.trans same
    · exact absurd there lost
  | cons i is ih =>
    obtain ⟨supported₁, supported'⟩ := List.forall_mem_cons.mp supported
    -- the builders after one instruction
    let next (e : ListChangeInfo) : CollectionChangeBuilder :=
      if i.level = .list ∧ s = e.scope then
        match TransactLogObserver.handle (cs e) i with
        | .ok c => c
        | .error _ => cs e
      else cs e
    have one : ∀ e ∈ all, (if i.level = .list ∧ s = e.scope then
        TransactLogObserver.handle (cs e) i = .ok (next e) else next e = cs e) ∧
        execM TransactLogObserver.handle (next e)
          (aboutFrom (s.after i) e.scope is) = .ok (cs' e) := by
      intro e mem
      have rest := follow e mem
      rw [aboutFrom_cons (Option.some_ne_none _)] at rest
      by_cases about : i.level = .list ∧ s = e.scope
      · rw [if_pos about] at rest ⊢
        obtain ⟨c, first, rest⟩ := execM_cons_ok.mp rest
        have eq : next e = c := by
          show (if _ then _ else _) = c
          rw [if_pos about, first]
        rw [eq]
        exact ⟨first, rest⟩
      · rw [if_neg about] at rest ⊢
        have eq : next e = cs e := if_neg about
        rw [eq]
        exact ⟨rfl, rest⟩
    obtain ⟨o₁, ok, stepped, keeps'⟩ := watch.step scopes changes supported₁ selections.1 keeps
      fun e mem => (one e mem).1
    obtain ⟨o', run, builders, tables, spared⟩ := ih stepped.watch supported' selections.2 keeps'
      fun e mem => (one e mem).2
    have table : (Scope.after ⟨s.table, none⟩ i).table = (s.after i).table := by
      cases i <;> rfl
    refine ⟨o', execM_cons_ok.mpr ⟨o₁, ok, run⟩, builders, fun t tracks => ?_,
      fun e mem spares => ?_⟩
    · rw [tables t ((stepped.tracks t).mpr tracks), stepped.tables t tracks, inTable, table]
      split_ifs <;> rfl
    · rw [inTable, table] at spares
      refine spared e (stepped.spared e mem fun here => ?_) fun j mem' => spares j ?_
      · by_cases level : i.level = .table
        · exact spares i (by rw [if_pos ⟨here, level⟩]; exact List.mem_cons_self)
        · constructor
          · rintro rfl
            exact level rfl
          · rintro oldSize rfl
            exact level rfl
      · split_ifs
        · exact List.mem_cons_of_mem _ mem'
        · exact mem'

end Watch

/-- At the end of the log the builders of the observed lists are cleaned up. -/
lemma parseComplete_builders {o : TransactLogObserver} {e : ListChangeInfo} (mem : e ∈ o.lists) :
    ∃ n, o.parseComplete.builders e.changes =
      (CollectionChangeBuilder.cleanUpStaleMoves^[n] (o.builders e.changes)).cleanUpStaleMoves := by
  have key (lists : List ListChangeInfo) (builders : ℕ → CollectionChangeBuilder) :
      ∃ n, lists.foldl (fun builders list =>
          Function.update builders list.changes (builders list.changes).cleanUpStaleMoves)
            builders e.changes =
        CollectionChangeBuilder.cleanUpStaleMoves^[n] (builders e.changes) ∧
          (e ∈ lists → 0 < n) := by
    induction lists generalizing builders with
    | nil => exact ⟨0, rfl, fun mem => absurd mem List.not_mem_nil⟩
    | cons list lists ih =>
      obtain ⟨n, eq, pos⟩ := ih (Function.update builders list.changes
        (builders list.changes).cleanUpStaleMoves)
      rw [List.foldl_cons, eq]
      by_cases same : e.changes = list.changes
      · rw [same, Function.update_self, ← Function.iterate_succ_apply]
        exact ⟨n + 1, rfl, fun _ => Nat.succ_pos n⟩
      · rw [Function.update_of_ne same]
        refine ⟨n, rfl, fun mem => ?_⟩
        rcases List.mem_cons.mp mem with rfl | later
        · exact absurd rfl same
        · exact pos later
  obtain ⟨n, eq, pos⟩ := key o.lists o.builders
  obtain ⟨m, rfl⟩ := Nat.exists_eq_succ_of_ne_zero (pos mem).ne'
  refine ⟨m, eq.trans ?_⟩
  rw [Function.iterate_succ_apply']

/-- A table without changes is dropped, one with changes is kept as it is. -/
lemma parseComplete_tables {o : TransactLogObserver} {t : ℕ} :
    (o.parseComplete.tables t).getD {} = (o.tables t).getD {} := by
  show ((o.tables t).filter fun changes => !changes.empty).getD {} = _
  cases o.tables t with
  | none => rfl
  | some cs =>
    rw [Option.filter_some]
    cases empty : cs.empty with
    | false => rfl
    | true =>
      rw [ObjectChangeSet.empty, Bool.and_eq_true, decide_eq_true_iff, Bool.not_eq_true'] at empty
      cases cs
      obtain ⟨⟨rfl, rfl, rfl⟩, rfl⟩ := empty
      rfl

section Report
variable {α : Type*} {o : TransactLogObserver} {log : List Instruction}

/-- An observer as it is made for a transaction: nothing is selected, and the builders and change
sets are empty. No list is observed twice, and none shares its builder. -/
structure Ready (o : TransactLogObserver) : Prop where
  current : o.currentTable = none
  table : o.activeTable = none
  list : o.activeList = none
  builders : ∀ e ∈ o.lists, o.builders e.changes = {}
  tables : ∀ t, (o.tables t).getD {} = {}
  scopes : ∀ e ∈ o.lists, ∀ e' ∈ o.lists, e.scope = e'.scope → e = e'
  changes : ∀ e ∈ o.lists, ∀ e' ∈ o.lists, e.changes = e'.changes → e = e'

/-- Cleaning up again and again follows the list too. -/
lemma Follows.cleaned {c : CollectionChangeBuilder} {old : List α} {rows : List (Row α)}
    (follows : Follows c old rows) (n : ℕ) :
    Follows (CollectionChangeBuilder.cleanUpStaleMoves^[n] c) old rows := by
  induction n with
  | zero => exact follows
  | succ n ih =>
    rw [Function.iterate_succ_apply']
    exact ih.cleanUpStaleMoves

/-- An object is neither removed nor cleared away. -/
def Stays (log : List Instruction) (t : ℕ) (key : ℤ) : Prop :=
  ∀ i ∈ inTable t none log, i ≠ .removeObject key ∧ ∀ oldSize, i ≠ .clearTable oldSize

lemma map_fresh (l : List α) : (l.map Row.fresh).map Row.value = l := by
  rw [List.map_map]
  exact List.map_id l

/-- A transaction is observed to its end. The builder of every observed list whose object stays has
followed that list, the change set of every observed table the objects of it. -/
lemma transaction_followed (ready : Ready o) (supported : ∀ i ∈ log, Supported i)
    (selections : Scoped .nothing log) (proper : ∀ e ∈ o.lists, ∀ i ∈ about e.scope log, Proper i)
    {old : ListChangeInfo → List α} {es : ListChangeInfo → List (Edit α)}
    (edits : ∀ e ∈ o.lists, Stays log e.tableKey e.rowKey →
      AllSteps Edit.values (fun l e => e.Allowed l.length) (old e) (es e) ∧
        about e.scope log = Edit.log ((old e).map Row.fresh) (es e)) :
    ∃ o', execM TransactLogObserver.observe o log = .ok o' ∧
      (∀ e ∈ o.lists, Stays log e.tableKey e.rowKey →
        ∃ c rows n, execM TransactLogObserver.handle {} (about e.scope log) = .ok c ∧
          rows.map Row.value = exec Edit.values (old e) (es e) ∧ Follows c (old e) rows ∧
          o'.parseComplete.builders e.changes =
            (CollectionChangeBuilder.cleanUpStaleMoves^[n] c).cleanUpStaleMoves) ∧
      ∀ t, o.Tracks t → (o'.parseComplete.tables t).getD {} =
        exec ObjectChangeSet.handle {} (inTable t none log) := by
  have watch : Watch o.lists o .nothing := by
    refine ⟨fun e => id, fun p active => ?_, fun _ _ none => absurd rfl none,
      fun _ some => absurd some.symm (Option.some_ne_none _),
      fun _ some => absurd some.symm (Option.some_ne_none _), fun t active => ?_⟩
    · rw [ready.list] at active
      cases active
    · rw [ready.table] at active
      cases active
  have follow (e : ListChangeInfo) (mem : e ∈ o.lists) : ∃ c,
      execM TransactLogObserver.handle {} (aboutFrom .nothing e.scope log) = .ok c ∧
      (Stays log e.tableKey e.rowKey →
        Follows c (old e) (exec Edit.apply ((old e).map Row.fresh) (es e))) := by
    by_cases stays : Stays log e.tableKey e.rowKey
    · obtain ⟨allowed, about⟩ := edits e mem stays
      obtain ⟨c, run, follows⟩ := Follows.init.run (values_run (map_fresh (old e)) allowed).1
      exact ⟨c, (congrArg _ about).trans run, fun _ => follows⟩
    · -- the builder of a list that is lost is handed the rest of its instructions by no one
      obtain ⟨c, run⟩ := execM_handle_ok (proper e mem)
      exact ⟨c, run, fun there => absurd there stays⟩
  have : Nonempty CollectionChangeBuilder := ⟨{}⟩
  choose! c run follows using follow
  obtain ⟨o', ok, builders, tables, spared⟩ :=
    watch.run ready.scopes ready.changes supported selections
    (fun e mem => .inl ⟨ready.builders e mem, fun here =>
      absurd (congrArg Scope.table here).symm (Option.some_ne_none _)⟩) run
  refine ⟨o', ok, fun e mem stays => ?_, fun t tracks => ?_⟩
  · have there := spared e mem stays
    obtain ⟨n, eq⟩ := parseComplete_builders there
    rw [builders e mem there] at eq
    have values := (values_run (map_fresh (old e)) (edits e mem stays).1).2
    exact ⟨c e, _, n, run e mem, values, follows e mem stays, eq⟩
  · rw [parseComplete_tables, tables t tracks, ready.tables]
    rfl

/-- A transaction is observed to its end. What is reported of every observed list whose
object is still there lets an observer follow that list, and what is reported of every
observed table is so. -/
theorem transaction_reported (ready : Ready o) (supported : ∀ i ∈ log, Supported i)
    (selections : Scoped .nothing log) (proper : ∀ e ∈ o.lists, ∀ i ∈ about e.scope log, Proper i)
    {old : ListChangeInfo → List α} {es : ListChangeInfo → List (Edit α)}
    (edits : ∀ e ∈ o.lists, Stays log e.tableKey e.rowKey →
      AllSteps Edit.values (fun l e => e.Allowed l.length) (old e) (es e) ∧
        about e.scope log = Edit.log ((old e).map Row.fresh) (es e))
    {objects : ℕ → ℤ → Prop} [∀ t, DecidablePred (objects t)]
    (allowed : ∀ t, o.Tracks t →
      AllSteps Objects.apply Objects.Allowed (.reported (objects t)) (inTable t none log)) :
    ∃ o', execM TransactLogObserver.observe o log = .ok o' ∧
      (∀ e ∈ o.lists, Stays log e.tableKey e.rowKey →
        ∃ rows, rows.map Row.value = exec Edit.values (old e) (es e) ∧
          Reports (o'.parseComplete.builders e.changes).finalize (old e) rows) ∧
      ∀ t, o.Tracks t → ReportsObjects ((o'.parseComplete.tables t).getD {}) (objects t)
        (exec Objects.apply (.reported (objects t)) (inTable t none log)) := by
  obtain ⟨o', ok, lists, tables⟩ := transaction_followed ready supported selections proper edits
  refine ⟨o', ok, fun e mem there => ?_, fun t tracks => ?_⟩
  · obtain ⟨c, rows, n, -, values, follows, eq⟩ := lists e mem there
    have clean := follows.cleaned n
    rw [eq]
    exact ⟨rows, values, clean.cleanUpStaleMoves.reports clean.records.cleanUpStaleMoves.2⟩
  · rw [tables t tracks]
    exact ReportsObjects.init.run (allowed t tracks)

/-- Two lists of different tables are edited in turns, and the object of a third is removed, comes
again with another list, and has that edited. -/
theorem transaction_reported_turns :
    let e₁ : ListChangeInfo := ⟨3, 5, 70000, 0⟩
    let e₂ : ListChangeInfo := ⟨4, 6, 70000, 1⟩
    let e₃ : ListChangeInfo := ⟨4, 9, 70000, 2⟩
    let o : TransactLogObserver := ⟨[e₁, e₂, e₃], fun t => if t = 3 ∨
      t = 4 then some {} else none, false,
      false, fun _ => {}, none, none, none⟩
    let log : List Instruction := [.selectTable 3, .selectList 70000 5, .listInsert 1,
      .selectTable 4,
      .removeObject 9, .selectList 70000 6, .listMove 0 2, .createObject 9, .selectList 70000 9,
      .listInsert 7, .selectTable 3, .selectList 70000 5, .listSet 0]
    let es : ListChangeInfo → List (Edit ℕ) := fun e =>
      if e = e₁ then [.insert 1 8, .set 0 9] else [.move 0 2]
    let objects : ℤ → Prop := fun key => key = 5 ∨ key = 6 ∨ key = 9
    ∃ o', execM TransactLogObserver.observe o log = .ok o' ∧
      (∀ e ∈ o.lists, Stays log e.tableKey e.rowKey →
        ∃ rows, rows.map Row.value = exec Edit.values [0, 1, 2] (es e) ∧
          Reports (o'.parseComplete.builders e.changes).finalize [0, 1, 2] rows) ∧
      ∀ t, o.Tracks t → ReportsObjects ((o'.parseComplete.tables t).getD {}) objects
        (exec Objects.apply (.reported objects) (inTable t none log)) := by
  intro e₁ e₂ e₃ o log es objects
  have ready : Ready o := by
    refine ⟨rfl, rfl, rfl, fun _ _ => rfl, fun t => ?_, by decide, by decide⟩
    show (if t = 3 ∨ t = 4 then some ({} : ObjectChangeSet) else none).getD {} = {}
    split_ifs <;> rfl
  refine @transaction_reported ℕ o log ready (by simp [log, Supported]) (by decide) (by decide)
    (fun _ => [0, 1, 2]) es (fun e mem stays => ?_) (fun _ => objects) _ fun t tracks => ?_
  · have cases : e = e₁ ∨ e = e₂ ∨ e = e₃ := by simpa [o] using mem
    rcases cases with rfl | rfl | rfl
    · have eq : es e₁ = [.insert 1 8, .set 0 9] := if_pos rfl
      rw [eq]
      exact ⟨by simp only [AllSteps]; decide, rfl⟩
    · have eq : es e₂ = [.move 0 2] := if_neg (by decide)
      rw [eq]
      exact ⟨by simp only [AllSteps]; decide, rfl⟩
    · have removed : Instruction.removeObject 9 ∈ inTable 4 none log := by decide
      exact absurd rfl (stays _ removed).1
  · have here : t = 3 ∨ t = 4 := by simpa [TransactLogObserver.Tracks, o] using tracks
    rcases here with rfl | rfl
    · simp [log, inTable, Scope.after, Instruction.level, AllSteps, Objects.Allowed, Objects.apply,
        Objects.reported, objects]
    · simp [log, inTable, Scope.after, Instruction.level, AllSteps, Objects.Allowed, Objects.apply,
        Objects.reported, Function.update, objects]

end Report

end SpecialtyMap.Notify

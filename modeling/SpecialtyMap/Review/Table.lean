import SpecialtyMap.DB.Record

/-!
# Tables over live results

`ReviewViewController` and `ReviewHomeViewController` show a live `Results` in a `UITableView`. The
table keeps the rows it recorded when it was last reloaded, while the results follow the store, and
a swipe deletes in two separate steps: the record from the store, then the row from the table.
`UITableView` aborts the app when the counts before and after the second step do not fit.

Both screens have the same handler, written here once for any table over the store. While the rows
are those of the results, a swipe deletes the record it was made on and leaves the rows those of the
results (`commit_current`). If the commit throws, the handler neither cancels the transaction nor
reloads the table: what happens then is up to what the storage engine leaves.
-/

namespace SpecialtyMap.Review
open SpecialtyMap.DB

/-- The records of a table in the store, and the deletion of the record at a row. -/
structure TableScreen (α : Type) where
  results : Store → List α
  delete : Store → Nat → Store
  results_delete : ∀ store row, results (delete store row) = (results store).eraseIdx row

/-- How `Realm()` and `realm.write` go, with what a `realm.write` that throws leaves. -/
inductive Attempt where
  | realmThrows
  | writeThrows (left : Realm)
  | succeeds

namespace TableScreen
variable {α : Type} (table : TableScreen α)

def numberOfRowsInSection (store : Store) : Nat := (table.results store).length

/-- `tableView.deleteRows(at:with:)` for one row: the count the table recorded has to be one more
than the count it is told now. -/
def deleteRows (store : Store) (row : Nat) (rows : List α) : Except Trap (List α) :=
  if table.numberOfRowsInSection store + 1 = rows.length then .ok (rows.eraseIdx row)
  else .error .invalidUpdate

/-- The block of the write: the record of the row is deleted. -/
def deleteRecord (row : Nat) (store : Store) : Except Trap Store := do
  let _ ← subscript (table.results store) row
  return table.delete store row

/-- `tableView(_:commit:forRowAt:)` with `.delete`, on the Realm and the recorded rows. -/
def commit (row : Nat) (attempt : Attempt) (realm : Realm) (rows : List α) :
    Except Trap (Realm × List α) :=
  match attempt with
  | .realmThrows => return (realm, rows)
  | .writeThrows left => do
    let (realm, _) ← realm.write (some left) (table.deleteRecord row)
    return (realm, rows)
  | .succeeds => do
    let (realm, _) ← realm.write none (table.deleteRecord row)
    let rows ← table.deleteRows realm.store row rows
    return (realm, rows)

/-- What a swipe on a current table leads to. -/
def swiped (row : Nat) (attempt : Attempt) (realm : Realm) (rows : List α) : Realm × List α :=
  match attempt with
  | .realmThrows => (realm, rows)
  | .writeThrows left => (left, rows)
  | .succeeds => ({ store := table.delete realm.store row }, rows.eraseIdx row)

variable {table} {realm : Realm} {rows : List α} {row : Nat} {attempt : Attempt}

/-- A swipe on a row of a current table deletes its record from the store and the table, or leaves
the table as it is. -/
lemma commit_current (idle : realm.isInWriteTransaction = false)
    (current : rows = table.results realm.store) (bound : row < rows.length) :
    table.commit row attempt realm rows = .ok (table.swiped row attempt realm rows) := by
  have read : subscript (table.results realm.store) row = .ok rows[row] :=
    subscript_eq_ok_iff.mpr (by rw [← current, List.getElem?_eq_getElem bound])
  have begins : realm.beginWrite = .ok { realm with isInWriteTransaction := true } := by
    rw [Realm.beginWrite, idle]
    rfl
  have deletes : table.deleteRecord row realm.store = .ok (table.delete realm.store row) := by
    rw [deleteRecord, read]
    rfl
  have writes (left : Option Realm) : realm.write left (table.deleteRecord row) =
      .ok (left.elim ({ store := table.delete realm.store row }, true) (·, false)) := by
    rw [Realm.write, begins]
    show (table.deleteRecord row realm.store >>= _) = _
    rw [deletes]
    cases left <;> rfl
  cases attempt with
  | realmThrows => rfl
  | writeThrows left =>
    rw [commit, writes]
    rfl
  | succeeds =>
    -- the results have one row less, the table has recorded all of them
    have fits : table.numberOfRowsInSection (table.delete realm.store row) + 1 = rows.length := by
      rw [numberOfRowsInSection, table.results_delete, ← current, List.length_eraseIdx_of_lt bound]
      omega
    have rows' : table.deleteRows (table.delete realm.store row) row rows = .ok
        (rows.eraseIdx row) :=
      if_pos fits
    rw [commit, writes]
    show (table.deleteRows (table.delete realm.store row) row rows >>= _) = _
    rw [rows']
    rfl

/-- The Realm after a swipe that does not abort, whatever the rows. -/
lemma commit_realm {after : Realm × List α} (ok : table.commit row attempt realm rows = .ok after) :
    after.1 = (table.swiped row attempt realm rows).1 := by
  have writes {left : Option Realm} {written : Realm × Bool}
      (ok : realm.write left (table.deleteRecord row) = .ok written) :
      written.1 = left.getD { store := table.delete realm.store row } := by
    obtain ⟨begun, begins, ok⟩ := bind_ok ok
    obtain ⟨store, deletes, ok⟩ := bind_ok ok
    obtain ⟨_, -, deleted⟩ := bind_ok deletes
    cases deleted
    have same : begun.store = realm.store := by
      rw [Realm.beginWrite] at begins
      split at begins <;> cases begins
      rfl
    cases left <;> cases ok
    · rw [same]
      rfl
    · rfl
  cases attempt with
  | realmThrows =>
    cases ok
    rfl
  | writeThrows left =>
    obtain ⟨_, written, ok⟩ := bind_ok ok
    cases ok
    exact writes written
  | succeeds =>
    obtain ⟨_, written, ok⟩ := bind_ok ok
    obtain ⟨_, -, ok⟩ := bind_ok ok
    cases ok
    exact writes written

/-- A swipe that succeeds begins a write transaction. -/
lemma commit_succeeds_idle {after : Realm × List α}
    (ok : table.commit row .succeeds realm rows = .ok after) :
      realm.isInWriteTransaction = false := by
  obtain ⟨_, written, -⟩ := bind_ok ok
  obtain ⟨_, begins, -⟩ := bind_ok written
  cases writing : realm.isInWriteTransaction with
  | false => rfl
  | true =>
    rw [Realm.beginWrite, writing] at begins
    cases begins

variable (table) in
/-- A write that throws finds the records of the table as they were, and the Realm out of the write
transaction. -/
def Restores (realm : Realm) : Attempt → Prop
  | .writeThrows left =>
    table.results left.store = table.results realm.store ∧ left.isInWriteTransaction = false
  | _ => True

/-- A current table stays so. -/
lemma swiped_current (idle : realm.isInWriteTransaction = false)
    (current : rows = table.results realm.store) (restores : table.Restores realm attempt) :
    (table.swiped row attempt realm rows).2 =
        table.results (table.swiped row attempt realm rows).1.store ∧
      (table.swiped row attempt realm rows).1.isInWriteTransaction = false := by
  cases attempt with
  | realmThrows => exact ⟨current, idle⟩
  | writeThrows left => exact ⟨current.trans restores.1.symm, restores.2⟩
  | succeeds =>
    refine ⟨?_, rfl⟩
    show rows.eraseIdx row = table.results (table.delete realm.store row)
    rw [table.results_delete, current]

end TableScreen

/-- The table of `ReviewViewController`. -/
def ReviewViewController.table : TableScreen Review where
  results store := store.review
  delete := Store.deleteReview
  results_delete _ _ := rfl

def ReviewViewController.commit := ReviewViewController.table.commit

/-- The table of `ReviewHomeViewController`. -/
def ReviewHomeViewController.mainTableView : TableScreen Speciality where
  results store := store.speciality
  delete := Store.deleteSpeciality
  results_delete _ _ := rfl

def ReviewHomeViewController.commit := ReviewHomeViewController.mainTableView.commit

end SpecialtyMap.Review

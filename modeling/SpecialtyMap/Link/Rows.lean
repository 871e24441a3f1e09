import SpecialtyMap.Machine.Run
import SpecialtyMap.Map.Screen

/-!
# Reading tables by position

The map screen reads the first two rows of `Maindata` and of `Shop`, and the link screen reads a row
of `Url` for each of its own three. Nothing the app writes changes the three tables, so whether a
read falls past the end of one is decided by the store the app finds at its first launch, and
`inBounds_iff` says by what: two, two and three rows.
-/

namespace SpecialtyMap.Link
open SpecialtyMap.DB SpecialtyMap.Machine SpecialtyMap.Map SpecialtyMap.Text

namespace LinkViewController

/-- The addresses the rows are counted by. -/
def urlData : List String :=
  ["https://www.google.co.jp", "https://catch-questions.com", "https://www.yahoo.co.jp"]

def numberOfRowsInSection (_section : Nat) : Nat := urlData.length

/-- `tableView(_:cellForRowAt:)`: the text of the cell. -/
def cellForRowAt (store : Store) (row : Nat) : Except Trap String := do
  let results := store.url
  let record ← subscript results row
  return record.url

/-- `tableView(_:didSelectRowAt:)`: the address that is opened. -/
def didSelectRowAt (store : Store) (indexSection row : Nat) : Except Trap URL := do
  let results := store.url
  let _ ← unwrap (URL.ofString? "https://catch-questions.com")
  if indexSection = 0 then
    let record ← subscript results row
    unwrap (URL.ofString? record.url)
  else
    let record ← subscript results row
    unwrap (URL.ofString? record.url)

end LinkViewController

open LinkViewController

/-- The map screen launches, and every row of the link screen is displayed and tapped, without a
read past the end of a table. -/
def InBounds (store : Store) : Prop :=
  ViewController.viewDidLoad store ≠ .error .indexOutOfRange ∧
  ∀ indexSection row, row < numberOfRowsInSection indexSection →
    cellForRowAt store row ≠ .error .indexOutOfRange ∧
    didSelectRowAt store indexSection row ≠ .error .indexOutOfRange

section
variable {store : Store}

lemma subscript_bind_iff {α β : Type} {results : List α} {index : Nat} {f : α → Except Trap β} :
    (subscript results index >>= f) ≠ .error .indexOutOfRange ↔
      ∃ record, results[index]? = some record ∧ f record ≠ .error .indexOutOfRange := by
  unfold subscript
  cases results[index]? with
  | some record =>
    constructor
    · exact fun rest => ⟨record, rfl, rest⟩
    · rintro ⟨_, e, rest⟩
      cases e
      exact rest
  | none =>
    constructor
    · exact fun ne => absurd rfl ne
    · rintro ⟨_, e, -⟩
      cases e

lemma exists_row_iff {α : Type} {results : List α} {index : Nat} :
    (∃ record, results[index]? = some record) ↔ index < results.length := by
  simp only [← subscript_eq_ok_iff, subscript_ok_iff]

lemma pure_inBounds {α : Type} {a : α} : (pure a : Except Trap α) ≠ .error .indexOutOfRange :=
  nofun

/-- The map screen launches on two rows of `Maindata` and two rows of `Shop`. -/
lemma viewDidLoad_inBounds_iff : ViewController.viewDidLoad store ≠ .error .indexOutOfRange ↔
    2 ≤ store.maindata.length ∧ 2 ≤ store.shop.length := by
  have reads : ViewController.viewDidLoad store ≠ .error .indexOutOfRange ↔
      0 < store.maindata.length ∧ 1 < store.maindata.length ∧ 0 < store.shop.length ∧
        0 < store.maindata.length ∧ 1 < store.shop.length := by
    unfold ViewController.viewDidLoad
    simp only [subscript_bind_iff, ← exists_row_iff, pure_inBounds, ne_eq, not_false_eq_true,
      and_true, exists_and_right]
  rw [reads]
  omega

lemma cellForRowAt_inBounds_iff {row : Nat} :
    cellForRowAt store row ≠ .error .indexOutOfRange ↔ row < store.url.length := by
  unfold cellForRowAt
  simp only [subscript_bind_iff, ← exists_row_iff, pure_inBounds, ne_eq, not_false_eq_true,
    and_true]

lemma ofString_catch : ∃ url, URL.ofString? "https://catch-questions.com" = some url := by
  have valid : wellFormed "https://catch-questions.com".toList := by decide +kernel
  exact ⟨_, if_pos ⟨by decide, valid⟩⟩

lemma didSelectRowAt_inBounds_iff {indexSection row : Nat} :
    didSelectRowAt store indexSection row ≠ .error .indexOutOfRange ↔ row < store.url.length := by
  have opens (record : Url) : unwrap (URL.ofString? record.url) ≠ .error .indexOutOfRange := by
    cases URL.ofString? record.url <;> simp [unwrap]
  obtain ⟨url, valid⟩ := ofString_catch
  have same : didSelectRowAt store indexSection row =
      subscript store.url row >>= fun record => unwrap (URL.ofString? record.url) := by
    unfold didSelectRowAt
    rw [valid]
    split <;> rfl
  simp only [same, subscript_bind_iff, ← exists_row_iff, opens, ne_eq, not_false_eq_true, and_true]

end

/-- No write of the app touches a table that is read by position. -/
lemma write_tables (store : Store) (w : Write) :
    (store.write w).maindata = store.maindata ∧ (store.write w).shop = store.shop ∧
      (store.write w).url = store.url := by
  cases w <;> exact ⟨rfl, rfl, rfl⟩

lemma inBounds_store_iff {store : Store} : InBounds store ↔
    2 ≤ store.maindata.length ∧ 2 ≤ store.shop.length ∧ 3 ≤ store.url.length := by
  simp only [InBounds, viewDidLoad_inBounds_iff, cellForRowAt_inBounds_iff,
    didSelectRowAt_inBounds_iff, and_self, and_assoc]
  refine and_congr_right fun _ => and_congr_right fun _ => ?_
  constructor
  · exact fun rows => rows 0 2 (by decide)
  · intro count _ row bound
    exact Nat.lt_of_lt_of_le bound count

/-- After any writes of the app the screens read within the tables exactly when the initial store
has two rows of `Maindata`, two of `Shop` and three of `Url`. -/
theorem inBounds_iff (store : Store) (ws : List Write) :
    InBounds (exec Store.write store ws) ↔
      2 ≤ store.maindata.length ∧ 2 ≤ store.shop.length ∧ 3 ≤ store.url.length := by
  have tables : (exec Store.write store ws).maindata = store.maindata ∧
      (exec Store.write store ws).shop = store.shop ∧
      (exec Store.write store ws).url = store.url := by
    refine @exec_invariant _ _ Store.write (fun s => s.maindata = store.maindata ∧
      s.shop = store.shop ∧ s.url = store.url) (fun s w same => ?_) store ⟨rfl, rfl, rfl⟩ ws
    obtain ⟨maindata, shop, url⟩ := write_tables s w
    exact ⟨maindata.trans same.1, shop.trans same.2.1, url.trans same.2.2⟩
  rw [inBounds_store_iff, tables.1, tables.2.1, tables.2.2]

/-- On a fresh install the launch of the map screen aborts the app. -/
theorem inBounds_fails :
    ViewController.viewDidLoad {} = .error .indexOutOfRange ∧
    ¬ InBounds (exec Store.write {} []) := by
  have aborts : ViewController.viewDidLoad {} = .error .indexOutOfRange := rfl
  exact ⟨aborts, fun inside => inside.1 aborts⟩

end SpecialtyMap.Link

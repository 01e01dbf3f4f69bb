import Varsten.Machine.Table

/-!
# Sessions that write what they have changed

A session holds the rows it has read, as it has changed them, and those it adds. Its commit writes
of each row it holds the columns it has changed, and adds the new rows, unless a key has been taken.
-/

namespace Varsten.Machine.UnitOfWork

variable {κ γ : Type} {α : γ → Type}

@[ext]
structure Row (κ : Type) {γ : Type} (α : γ → Type) where
  key : κ
  cells : ∀ c, α c

abbrev Rows (κ : Type) {γ : Type} (α : γ → Type) := Table (Row.key : Row κ α → κ)

/-- A row as it stands in a session, and the columns the session has changed. -/
structure Object (κ : Type) {γ : Type} (α : γ → Type) where
  row : Row κ α
  changed : γ → Bool

namespace Object

def key (o : Object κ α) : κ := o.row.key

def loaded (row : Row κ α) : Object κ α := ⟨row, fun _ => false⟩

def assign [∀ c, DecidableEq (α c)] (o : Object κ α) (cells : ∀ c, α c) : Object κ α where
  row := { o.row with cells }
  changed c := o.changed c || o.row.cells c ≠ cells c

def write (o : Object κ α) (row : Row κ α) : Row κ α :=
  { row with cells := fun c => if o.changed c then o.row.cells c else row.cells c }

end Object

structure Session (κ : Type) {γ : Type} (α : γ → Type) where
  held : Table (Object.key : Object κ α → κ)
  added : List (Row κ α)

def Session.empty : Session κ α := ⟨Table.empty, []⟩

def Session.add (x : Session κ α) (row : Row κ α) : Session κ α :=
  { x with added := x.added ++ [row] }

/-! ## What a session has not changed -/

section Faithful

variable {rows : Rows κ α} {row : Row κ α} {o : Object κ α}

/-- What a session has not changed of a row is as it is stored. -/
def Faithful (rows : Rows κ α) (o : Object κ α) : Prop :=
  ∀ row ∈ rows.rows, row.key = o.key → ∀ c, o.changed c = false → o.row.cells c = row.cells c

theorem faithful_loaded (hrow : row ∈ rows.rows) : Faithful rows (.loaded row) := by
  intro row' hrow' hkey c _
  rw [Table.eq_of_key_eq hrow' hrow hkey]
  rfl

theorem Faithful.assign [∀ c, DecidableEq (α c)] (h : Faithful rows o) (cells : ∀ c, α c) :
    Faithful rows (o.assign cells) := by
  intro row hrow hkey c hc
  dsimp only [Object.assign] at hc ⊢
  rw [Bool.or_eq_false_iff, decide_eq_false_iff_not, not_not] at hc
  rw [← hc.2]
  exact h row hrow hkey c hc.1

theorem Faithful.write (h : Faithful rows o) (hrow : row ∈ rows.rows) (hkey : row.key = o.key) :
    o.write row = o.row := by
  refine Row.ext hkey (funext fun c => ?_)
  dsimp only [Object.write]
  split_ifs with hc
  · rfl
  · exact (h row hrow hkey c (Bool.eq_false_iff.2 hc)).symm

theorem write_unchanged (h : ∀ c, o.changed c = false) (row : Row κ α) : o.write row = row := by
  unfold Object.write
  simp only [h, Bool.false_eq_true, if_false]

end Faithful

variable [DecidableEq κ] {rows rows' : Rows κ α} {x : Session κ α} {row : Row κ α}

/-! ## Reads -/

def Session.hold (x : Session κ α) (o : Object κ α) : Session κ α := { x with held := x.held.put o }

/-- The object of a stored row: the one held, or the row as it is stored. What is only added is not
found. -/
def get (x : Session κ α) (rows : Rows κ α) (k : κ) : Option (Object κ α) :=
  (rows.find k).map fun row => (x.held.find k).getD (.loaded row)

/-- Held by the session, or stored. -/
def Found (x : Session κ α) (rows : Rows κ α) (o : Object κ α) : Prop :=
  o ∈ x.held.rows ∨ ∃ row ∈ rows.rows, o = .loaded row

theorem get_eq_some {k : κ} {o : Object κ α} (h : get x rows k = some o) :
    Found x rows o ∧ o.key = k := by
  obtain ⟨row, hrow, rfl⟩ := Option.map_eq_some_iff.1 h
  cases hheld : x.held.find k with
  | none =>
    obtain ⟨hmem, hkey⟩ := Table.find_eq_some.1 hrow
    exact ⟨.inr ⟨row, hmem, rfl⟩, hkey⟩
  | some o =>
    obtain ⟨hmem, hkey⟩ := Table.find_eq_some.1 hheld
    exact ⟨.inl hmem, hkey⟩

theorem mem_hold {o o' : Object κ α} (h : o' ∈ (x.hold o).held.rows) :
    o' = o ∨ o' ∈ x.held.rows := (Table.mem_put.1 h).imp_right And.left

omit [DecidableEq κ] in
theorem Found.faithful {o : Object κ α} (h : Found x rows o)
    (hx : ∀ o ∈ x.held.rows, Faithful rows o) : Faithful rows o := by
  rcases h with hheld | ⟨row, hrow, rfl⟩
  · exact hx o hheld
  · exact faithful_loaded hrow

/-! ## Commits -/

def updated (x : Session κ α) (row : Row κ α) : Row κ α :=
  ((x.held.find row.key).map fun o => o.write row).getD row

theorem updated_key (x : Session κ α) (row : Row κ α) : (updated x row).key = row.key := by
  unfold updated
  cases x.held.find row.key <;> rfl

def insertAll (rows : Rows κ α) (added : List (Row κ α)) : Option (Rows κ α) :=
  added.foldlM Table.add rows

def commit (rows : Rows κ α) (x : Session κ α) : Option (Rows κ α) :=
  insertAll (rows.update (updated x) (updated_key x)) x.added

theorem mem_insertAll {added : List (Row κ α)} (h : insertAll rows added = some rows') :
    row ∈ rows'.rows ↔ row ∈ rows.rows ∨ row ∈ added := by
  induction added generalizing rows with
  | nil =>
    obtain rfl := Option.some.inj h
    simp
  | cons new added ih =>
    obtain ⟨next, hnext, h⟩ := Option.bind_eq_some_iff.1 h
    obtain ⟨hfree, rfl⟩ := Table.add_eq_some.1 hnext
    rw [ih h, Table.mem_put, List.mem_cons]
    have hne : row ∈ rows.rows → row.key ≠ new.key := Table.find_eq_none.1 hfree row
    tauto

/-- A stored row is one that was stored before, as the session writes it, or one that it adds. -/
theorem mem_commit (h : commit rows x = some rows') :
    row ∈ rows'.rows ↔ (∃ old ∈ rows.rows, updated x old = row) ∨ row ∈ x.added := by
  rw [mem_insertAll h]
  exact or_congr List.mem_map Iff.rfl

theorem updated_cases (x : Session κ α) (row : Row κ α) : updated x row = row ∨
    ∃ o ∈ x.held.rows, o.key = row.key ∧ updated x row = o.write row := by
  unfold updated
  cases h : x.held.find row.key with
  | none => exact .inl rfl
  | some o =>
    obtain ⟨ho, hkey⟩ := Table.find_eq_some.1 h
    exact .inr ⟨o, ho, hkey, rfl⟩

theorem mem_commit_unchanged (h : commit rows x = some rows') (hrow : row ∈ rows.rows)
    (hx : ∀ o ∈ x.held.rows, o.key = row.key → ∀ c, o.changed c = false) : row ∈ rows'.rows := by
  refine (mem_commit h).2 (.inl ⟨row, hrow, ?_⟩)
  rcases updated_cases x row with hsame | ⟨o, ho, hkey, hwrite⟩
  · exact hsame
  · rw [hwrite, write_unchanged (hx o ho hkey)]

/-! ## Every column -/

/-- A property of every column. -/
def Carries (P : κ → ∀ c, α c → Prop) (row : Row κ α) : Prop := ∀ c, P row.key c (row.cells c)

def Session.Carries (P : κ → ∀ c, α c → Prop) (x : Session κ α) : Prop :=
  (∀ o ∈ x.held.rows, UnitOfWork.Carries P o.row) ∧ ∀ row ∈ x.added, UnitOfWork.Carries P row

variable {P : κ → ∀ c, α c → Prop}

omit [DecidableEq κ] in
theorem Found.carries {o : Object κ α} (h : Found x rows o) (hx : x.Carries P)
    (hrows : ∀ row ∈ rows.rows, Carries P row) : Carries P o.row := by
  rcases h with hheld | ⟨row, hrow, rfl⟩
  · exact hx.1 o hheld
  · exact hrows row hrow

/-- Whatever else is committed meanwhile, a commit writes columns that the session has. -/
theorem carries_commit (hrows : ∀ row ∈ rows.rows, Carries P row) (hx : x.Carries P)
    (hcommit : commit rows x = some rows') : ∀ row ∈ rows'.rows, Carries P row := by
  intro row hrow
  rcases (mem_commit hcommit).1 hrow with ⟨old, hold, rfl⟩ | hadded
  · rcases updated_cases x old with hsame | ⟨o, ho, hkey, hwrite⟩
    · rw [hsame]
      exact hrows old hold
    · intro c
      rw [hwrite]
      dsimp only [Object.write]
      split_ifs
      · exact hkey ▸ hx.1 o ho c
      · exact hrows old hold c
  · exact hx.2 row hadded

end Varsten.Machine.UnitOfWork

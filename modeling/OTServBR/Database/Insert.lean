import OTServBR.Lib.Run

/-! # Batched inserts

Rows are gathered in a buffer and sent as one statement before it gets too long.
The length that decides it counts the query and the rows, but neither the commas
and parentheses between them nor the row that is the first of a later buffer.
-/

namespace OTServBR

/-- The answer to a query may depend on those before it. -/
structure SqlServer where
  maxPacketSize : ℕ
  executeQuery : List (List UInt8) → List UInt8 → Bool

structure DBInsert where
  query : List UInt8
  values : List UInt8
  length : ℕ
  /-- The statements that the database was given. -/
  executed : List (List UInt8)

namespace DBInsert

def new (insertQuery : List UInt8) : DBInsert :=
  { query := insertQuery, values := [], length := insertQuery.length, executed := [] }

variable (db : SqlServer) (s : DBInsert) (row : List UInt8)

/-- What is left when the buffer was sent. -/
def sent : DBInsert :=
  { s with
    values := []
    length := s.query.length
    executed := s.executed ++ [s.query ++ s.values] }

def execute : Bool × DBInsert :=
  if s.values = [] then (true, s)
  else (db.executeQuery s.executed (s.query ++ s.values), s.sent)

/-- The row in parentheses. -/
def tuple : List UInt8 := 40 :: (row ++ [41])

/-- The part of `addRow` that writes to the buffer. -/
def append : DBInsert :=
  { s with values := if s.values = [] then tuple row else s.values ++ 44 :: tuple row }

def addRow : Bool × DBInsert :=
  let s := { s with length := s.length + row.length }
  if db.maxPacketSize < s.length then
    match execute db s with
    | (true, s) => (true, s.append row)
    | (false, s) => (false, s)
  else (true, s.append row)

/-- The rows one after the other until a query fails, and what is left in the buffer at the end. -/
def insertRows : List (List UInt8) → DBInsert → Bool × DBInsert
  | [], s => execute db s
  | row :: rows, s =>
    match addRow db s row with
    | (true, s) => insertRows rows s
    | (false, s) => (false, s)

/-- The rows in parentheses, with commas between them. -/
def tuples (batch : List (List UInt8)) : List UInt8 := [44].intercalate (batch.map tuple)

/-- The rows are inserted by statements that fit, each of them once and in order. -/
def Inserted (maxPacketSize : ℕ) (query : List UInt8) (rows executed : List (List UInt8)) : Prop :=
  ∃ batches : List (List (List UInt8)), batches.flatten = rows ∧ (∀ batch ∈ batches, batch ≠ []) ∧
    executed = batches.map (fun batch => query ++ tuples batch) ∧
    ∀ statement ∈ executed, statement.length ≤ maxPacketSize

/-- A row that goes to the buffer without a query before it makes a statement that fits. -/
def Room : Prop := s.length + row.length ≤ db.maxPacketSize →
  s.query.length + s.values.length + row.length + (if s.values = [] then 2 else 3) ≤
    db.maxPacketSize

instance : Decidable (s.Room db row) := inferInstanceAs (Decidable (_ → _))

variable {db s row}

/-! ### The buffer -/

theorem tuple_ne_nil : tuple row ≠ [] := List.cons_ne_nil _ _

theorem length_tuple : (tuple row).length = row.length + 2 := by simp [tuple]

theorem tuples_singleton : tuples [row] = tuple row := List.intercalate_singleton

theorem tuples_eq_nil {batch : List (List UInt8)} : tuples batch = [] ↔ batch = [] := by
  cases batch with
  | nil => simp [tuples]
  | cons row batch => simp [tuples, tuple]

theorem tuples_concat {batch : List (List UInt8)} (h : batch ≠ []) :
    tuples (batch ++ [row]) = tuples batch ++ 44 :: tuple row := by
  induction batch with
  | nil => exact absurd rfl h
  | cons first batch ih =>
    cases batch with
    | nil => simp [tuples]
    | cons second batch =>
      have hrest := ih (List.cons_ne_nil _ _)
      unfold tuples at *
      rw [List.cons_append, List.map_cons, List.intercalate_cons_of_ne_nil (by simp), hrest,
        List.map_cons (l := second :: batch), List.intercalate_cons_of_ne_nil (by simp)]
      simp only [List.append_assoc]

theorem values_append {batch : List (List UInt8)} (h : s.values = tuples batch) :
    (s.append row).values = tuples (batch ++ [row]) := by
  unfold append
  split_ifs with hempty
  · rw [h, tuples_eq_nil] at hempty
    rw [hempty]
    exact tuples_singleton.symm
  · rw [h, tuples_eq_nil] at hempty
    rw [tuples_concat hempty, ← h]

theorem length_values_append (s : DBInsert) (row : List UInt8) : (s.append row).values.length =
    s.values.length + row.length + (if s.values = [] then 2 else 3) := by
  unfold append
  split_ifs with hempty
  · simp [hempty, length_tuple]
  · simp [length_tuple]
    omega

/-! ### Rows with queries that succeed -/

section Succeeds

variable (hdb : ∀ past query, db.executeQuery past query = true)

include hdb

theorem addRow_eq : s.addRow db row =
    (true, append (if db.maxPacketSize < s.length + row.length ∧ s.values ≠ [] then s.sent
      else { s with length := s.length + row.length }) row) := by
  unfold addRow execute
  by_cases hlong : db.maxPacketSize < s.length + row.length
  · by_cases hempty : s.values = []
    · simp [hlong, hempty]
    · simp [hlong, hempty, hdb, sent]
  · simp [hlong]

theorem query_addRow (row : List UInt8) : (s.addRow db row).2.query = s.query := by
  rw [addRow_eq hdb]
  split_ifs <;> rfl

theorem insertRows_cons {rows : List (List UInt8)} :
    insertRows db (row :: rows) s = insertRows db rows (s.addRow db row).2 := by
  rw [insertRows, addRow_eq hdb]

/-- The buffer and the rows to come are sent batch by batch. -/
theorem exists_batches (rows : List (List UInt8)) {batch : List (List UInt8)}
    (h : s.values = tuples batch) :
    ∃ batches : List (List (List UInt8)), batches.flatten = batch ++ rows ∧
      (∀ batch ∈ batches, batch ≠ []) ∧ (insertRows db rows s).2.executed =
        s.executed ++ batches.map fun batch => s.query ++ tuples batch := by
  induction rows generalizing s batch with
  | nil =>
    rw [insertRows, execute]
    split_ifs with hempty
    · rw [h, tuples_eq_nil] at hempty
      exact ⟨[], by simp [hempty], by simp, by simp⟩
    · rw [h, tuples_eq_nil] at hempty
      exact ⟨[batch], by simp, by simp [hempty], by simp [sent, h]⟩
  | cons row rows ih =>
    rw [insertRows_cons hdb, ← query_addRow hdb row]
    by_cases hsent : db.maxPacketSize < s.length + row.length ∧ s.values ≠ []
    · have hnext : (s.addRow db row).2 = s.sent.append row := by rw [addRow_eq hdb, if_pos hsent]
      have hempty : s.sent.values = tuples [] := rfl
      have hbuffer : (s.sent.append row).values = tuples [row] := values_append hempty
      obtain ⟨batches, hrows, hne, hexecuted⟩ := ih (hnext ▸ hbuffer)
      have hbatch : batch ≠ [] := by
        rw [ne_eq, ← tuples_eq_nil, ← h]
        exact hsent.2
      refine ⟨batch :: batches, by simp [hrows], by simpa [hbatch] using hne, ?_⟩
      rw [hexecuted, hnext]
      simp [append, sent, h]
    · have hnext : (s.addRow db row).2 = append { s with length := s.length + row.length } row := by
        rw [addRow_eq hdb, if_neg hsent]
      have hbuffer : (s.addRow db row).2.values = tuples (batch ++ [row]) := by
        rw [hnext]
        exact values_append h
      obtain ⟨batches, hrows, hne, hexecuted⟩ := ih hbuffer
      refine ⟨batches, by simp [hrows], hne, ?_⟩
      rw [hexecuted, hnext]
      rfl

/-! ### The lengths -/

/-- What was sent and what is gathered fits into a packet. -/
def Fits (db : SqlServer) (s : DBInsert) : Prop :=
  (∀ statement ∈ s.executed, statement.length ≤ db.maxPacketSize) ∧
    (s.values ≠ [] → s.query.length + s.values.length ≤ db.maxPacketSize)

omit hdb in
theorem fits_new (query : List UInt8) : (new query).Fits db :=
  ⟨fun _ hmem => absurd hmem List.not_mem_nil, fun hne => absurd rfl hne⟩

omit hdb in
theorem Fits.sent (h : s.Fits db) (hne : s.values ≠ []) : s.sent.Fits db := by
  refine ⟨fun statement hstatement => ?_, fun hempty => absurd rfl hempty⟩
  obtain hpast | hlast := List.mem_append.mp hstatement
  · exact h.1 statement hpast
  · rw [List.mem_singleton.mp hlast, List.length_append]
    exact h.2 hne

theorem Fits.addRow (h : s.Fits db) (hrow : s.query.length + (tuple row).length ≤ db.maxPacketSize)
    (hroom : s.Room db row) : (s.addRow db row).2.Fits db := by
  rw [length_tuple] at hrow
  rw [addRow_eq hdb]
  split_ifs with hsent
  · refine ⟨(h.sent hsent.2).1, fun _ => ?_⟩
    rw [length_values_append]
    simp [DBInsert.sent, append]
    omega
  · refine ⟨h.1, fun _ => ?_⟩
    rw [length_values_append]
    simp only [append]
    unfold Room at hroom
    split_ifs at hroom ⊢ with hempty
    · simp [hempty]
      omega
    · have := hroom (Nat.not_lt.mp fun hlong => hsent ⟨hlong, hempty⟩)
      omega

/-- A row that does not fit makes a buffer that is too long. -/
theorem overlong_of_not_room (hroom : ¬ s.Room db row) : (s.addRow db row).2.values ≠ [] ∧
    db.maxPacketSize < (s.addRow db row).2.query.length + (s.addRow db row).2.values.length := by
  obtain ⟨hshort, hlong⟩ := Classical.not_imp.mp hroom
  have hkept : ¬(db.maxPacketSize < s.length + row.length ∧ s.values ≠ []) :=
    fun hsent => absurd hshort (Nat.not_le.mpr hsent.1)
  rw [addRow_eq hdb, if_neg hkept, ← List.length_pos_iff, length_values_append]
  simp only [append]
  split_ifs at hlong ⊢ <;> omega

theorem executed_subset {rows : List (List UInt8)} :
    s.executed ⊆ (insertRows db rows s).2.executed := by
  induction rows generalizing s with
  | nil =>
    rw [insertRows, execute]
    split_ifs
    · exact List.Subset.refl _
    · exact List.subset_append_left _ _
  | cons row rows ih =>
    rw [insertRows_cons hdb]
    refine List.Subset.trans ?_ ih
    rw [addRow_eq hdb]
    split_ifs
    · exact List.subset_append_left _ _
    · exact List.Subset.refl _

/-- A buffer that is too long is sent at last, with the rows that are added to it. -/
theorem exists_overlong (rows : List (List UInt8)) (hne : s.values ≠ [])
    (hlong : db.maxPacketSize < s.query.length + s.values.length) :
    ∃ statement ∈ (insertRows db rows s).2.executed, db.maxPacketSize < statement.length := by
  rw [← List.length_append] at hlong
  induction rows generalizing s with
  | nil =>
    rw [insertRows, execute, if_neg hne]
    exact ⟨_, List.mem_append_right _ List.mem_cons_self, hlong⟩
  | cons row rows ih =>
    by_cases hsent : db.maxPacketSize < s.length + row.length ∧ s.values ≠ []
    · refine ⟨s.query ++ s.values, ?_, hlong⟩
      rw [insertRows_cons hdb]
      refine executed_subset hdb ?_
      rw [addRow_eq hdb, if_pos hsent]
      exact List.mem_append_right _ List.mem_cons_self
    · rw [insertRows_cons hdb]
      have hvalues := length_values_append { s with length := s.length + row.length } row
      rw [addRow_eq hdb, if_neg hsent]
      refine ih ?_ ?_
      · rw [← List.length_pos_iff, hvalues]
        split_ifs <;> omega
      · rw [List.length_append] at hlong ⊢
        rw [hvalues]
        simp only [append]
        omega

theorem fits_iff {rows : List (List UInt8)} (h : s.Fits db)
    (hrows : ∀ row ∈ rows, s.query.length + (tuple row).length ≤ db.maxPacketSize) :
    (∀ statement ∈ (insertRows db rows s).2.executed, statement.length ≤ db.maxPacketSize) ↔
      Run.Steps (fun s row => (s.addRow db row).2) (Room db) s rows := by
  induction rows generalizing s with
  | nil =>
    refine iff_of_true ?_ trivial
    rw [insertRows, execute]
    split_ifs with hempty
    · exact h.1
    · exact (h.sent hempty).1
  | cons row rows ih =>
    rw [insertRows_cons hdb, Run.steps_cons]
    by_cases hroom : s.Room db row
    · have hnext := h.addRow hdb (hrows row List.mem_cons_self) hroom
      have hrest : ∀ next ∈ rows, (s.addRow db row).2.query.length + (tuple next).length ≤
          db.maxPacketSize := by
        intro next hmem
        rw [query_addRow hdb]
        exact hrows next (List.mem_cons_of_mem _ hmem)
      rw [ih hnext hrest]
      exact (and_iff_right hroom).symm
    · obtain ⟨hne, hlong⟩ := overlong_of_not_room hdb hroom
      obtain ⟨statement, hstatement, hover⟩ := exists_overlong hdb rows hne hlong
      refine iff_of_false (fun hall => ?_) fun hsteps => hroom hsteps.1
      exact absurd (hall statement hstatement) (Nat.not_le.mpr hover)

end Succeeds

/-- Every row is sent once and in order, and no statement is too long exactly if no row goes to a
buffer that has no room for it. -/
theorem inserted_iff (db : SqlServer) (hdb : ∀ past query, db.executeQuery past query = true)
    (query : List UInt8) (rows : List (List UInt8))
    (hrows : ∀ row ∈ rows, query.length + (tuple row).length ≤ db.maxPacketSize) :
    Inserted db.maxPacketSize query rows (insertRows db rows (new query)).2.executed ↔
      Run.Steps (fun s row => (s.addRow db row).2) (Room db) (new query) rows := by
  rw [← fits_iff hdb (fits_new query) hrows]
  constructor
  · rintro ⟨_, _, _, _, hfits⟩
    exact hfits
  · intro hfits
    have hempty : (new query).values = tuples [] := rfl
    obtain ⟨batches, hflatten, hne, hexecuted⟩ := exists_batches hdb rows hempty
    exact ⟨batches, hflatten, hne, hexecuted, hfits⟩

/-- The packet size that is taken where the database names none. -/
def defaultServer : SqlServer := { maxPacketSize := 1048576, executeQuery := fun _ _ => true }

theorem inserted_two : Inserted 1048576 [73] [[49], [50]]
    (insertRows defaultServer [[49], [50]] (new [73])).2.executed :=
  (inserted_iff defaultServer (fun _ _ => rfl) [73] [[49], [50]] (by decide)).mpr
    (by decide)

/-- Two rows of half a packet are sent in one statement, which is too long with its parentheses. -/
theorem not_inserted_halves : ¬∀ (db : SqlServer) (query : List UInt8)
    (rows : List (List UInt8)), (∀ past query, db.executeQuery past query = true) →
    (∀ row ∈ rows, query.length + (tuple row).length ≤ db.maxPacketSize) →
    Inserted db.maxPacketSize query rows (insertRows db rows (new query)).2.executed := by
  intro h
  obtain ⟨row, hlength⟩ : ∃ row : List UInt8, row.length = 524287 :=
    ⟨List.replicate 524287 49, List.length_replicate⟩
  have hrows : ∀ next ∈ [row, row], [(73 : UInt8)].length + (tuple next).length ≤
      defaultServer.maxPacketSize := by
    simp [length_tuple, hlength, defaultServer]
  obtain ⟨_, _, _, _, hfits⟩ := h defaultServer [73] [row, row] (fun _ _ => rfl) hrows
  have hsteps := (fits_iff (fun _ _ => rfl) (fits_new [73]) hrows).mp hfits
  have hsecond : ((new [73]).addRow defaultServer row).2.Room defaultServer row :=
    hsteps.2.1
  rw [addRow_eq fun _ _ => rfl] at hsecond
  simp [Room, append, new, length_tuple, hlength, defaultServer, tuple_ne_nil] at hsecond

end DBInsert

end OTServBR

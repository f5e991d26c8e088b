import Mathlib.Data.List.Range
import Mathlib.Data.List.Nodup
import OTServBR.Lib.RoseTree

/-! # Forests as parent rows

A forest is flattened breadth first into rows that carry a running number and
the number of the parent; a queue holds the nodes whose children are still to
come. Collecting for every row the rows that name it as their parent rebuilds
the forest.
-/

namespace BreadthFirst

variable {α β : Type}

structure Row (α : Type) where
  pid : ℕ
  sid : ℕ
  val : α
  deriving DecidableEq, Repr

def Row.map (f : α → β) (r : Row α) : Row β := ⟨r.pid, r.sid, f r.val⟩

/-! ## Flattening -/

/-- One row for each tree of a batch, numbered from `n`. -/
def batchRows (n : ℕ) (l : List (ℕ × RoseTree α)) : List (Row α) :=
  (l.zipIdx n).map fun e => ⟨e.1.1, e.2, e.1.2.label⟩

/-- The children of a batch under the numbers of their parents; only the labels selected by `c`
may have children. -/
def batchQueue (c : α → Bool) (n : ℕ) (l : List (ℕ × RoseTree α)) :
    List (ℕ × List (RoseTree α)) :=
  (l.zipIdx n).filterMap fun e =>
    if c e.1.2.label then some (e.2, e.1.2.children) else none

/-- Work off the queue from its front; every turn numbers the children of one node. -/
def rows (c : α → Bool) : ℕ → ℕ → List (ℕ × List (RoseTree α)) → List (Row α)
  | 0, _, _ => []
  | _, _, [] => []
  | fuel + 1, n, (p, ts) :: queue =>
    let batch := ts.map (p, ·)
    batchRows n batch ++ rows c fuel (n + batch.length) (queue ++ batchQueue c n batch)

/-- The rows of a forest whose roots have given parents, numbered from `n`. -/
def flatten (c : α → Bool) (n : ℕ) (l : List (ℕ × RoseTree α)) : List (Row α) :=
  batchRows n l ++ rows c (l.map (·.2.size)).sum (n + l.length) (batchQueue c n l)

/-! ## Rebuilding -/

def childRows (rs : List (Row α)) (sid : ℕ) : List (Row α) := rs.filter (·.pid == sid)

/-- The tree under a row, down to a depth. -/
def build (rs : List (Row α)) : ℕ → Row α → RoseTree α
  | 0, r => .node r.val []
  | fuel + 1, r => .node r.val ((childRows rs r.sid).map (build rs fuel))

theorem build_map (f : α → β) (rs : List (Row α)) (fuel : ℕ) (r : Row α) :
    build (rs.map (Row.map f)) fuel (r.map f) = (build rs fuel r).map f := by
  induction fuel generalizing r with
  | zero => simp [build, Row.map]
  | succ fuel ih =>
    have hc : childRows (rs.map (Row.map f)) r.sid = (childRows rs r.sid).map (Row.map f) := by
      simp [childRows, List.filter_map, Function.comp_def, Row.map]
    rw [build, build, RoseTree.map_node, Row.map]
    dsimp only
    rw [hc, List.map_map, List.map_map]
    exact congrArg _ (List.map_congr_left fun r _ => ih r)

/-- Rows in front that are filed elsewhere do not count as children. -/
theorem childRows_append_left {B R : List (Row α)} {sid : ℕ} (hB : ∀ r ∈ B, r.pid ≠ sid) :
    childRows (B ++ R) sid = childRows R sid := by
  have hnil : B.filter (·.pid == sid) = [] := by
    rw [List.filter_eq_nil_iff]
    intro b hb
    simpa using hB b hb
  rw [childRows, List.filter_append, hnil, List.nil_append, childRows]

/-- Rows in front that name no number of the rest do not matter. -/
theorem build_append {B R : List (Row α)} {k : ℕ} (hB : ∀ r ∈ B, r.pid < k)
    (hR : ∀ r ∈ R, k ≤ r.sid) (fuel : ℕ) {r : Row α} (hr : k ≤ r.sid) :
    build (B ++ R) fuel r = build R fuel r := by
  induction fuel generalizing r with
  | zero => rfl
  | succ fuel ih =>
    have hc : childRows (B ++ R) r.sid = childRows R r.sid :=
      childRows_append_left fun b hb => by have := hB b hb; omega
    rw [build, build, hc]
    exact congrArg _ (List.map_congr_left fun r' hr' =>
      ih (hR r' (List.mem_of_mem_filter hr')))

/-! ## Batches -/

section Batch

variable {c : α → Bool} {n : ℕ} {l : List (ℕ × RoseTree α)}

theorem map_sid_batchRows : (batchRows n l).map Row.sid = List.range' n l.length := by
  rw [batchRows, List.map_map]
  exact List.zipIdx_map_snd n l

theorem map_pid_batchRows : (batchRows n l).map Row.pid = l.map Prod.fst := by
  conv_rhs => rw [← List.zipIdx_map_fst n l, List.map_map]
  rw [batchRows, List.map_map]
  rfl

theorem mem_pid_batchRows {r : Row α} (h : r ∈ batchRows n l) : r.pid ∈ l.map Prod.fst :=
  map_pid_batchRows (n := n) (l := l) ▸ List.mem_map_of_mem h

theorem forall_batchRows {P : α → List (RoseTree α) → Prop} (h : ∀ e ∈ l, e.2.All P) :
    ∀ r ∈ batchRows n l, ∃ ts, P r.val ts := by
  intro r hr
  obtain ⟨⟨⟨q, a, ts⟩, m⟩, hz, rfl⟩ := List.mem_map.mp hr
  obtain ⟨hp, -⟩ := h _ (List.fst_mem_of_mem_zipIdx hz)
  exact ⟨ts, hp⟩

theorem mem_batchQueue {p : ℕ} {ts : List (RoseTree α)} :
    (p, ts) ∈ batchQueue c n l ↔
      ∃ q t, ((q, t), p) ∈ l.zipIdx n ∧ c t.label = true ∧ ts = t.children := by
  simp only [batchQueue, List.mem_filterMap]
  constructor
  · rintro ⟨⟨⟨q, t⟩, m⟩, he, h⟩
    split at h
    · next hc =>
      obtain ⟨rfl, rfl⟩ := Prod.mk.inj (Option.some.inj h)
      exact ⟨q, t, he, hc, rfl⟩
    · cases h
  · rintro ⟨q, t, he, hc, rfl⟩
    exact ⟨((q, t), p), he, if_pos hc⟩

theorem forall_batchQueue {P : α → List (RoseTree α) → Prop} (h : ∀ e ∈ l, e.2.All P) :
    ∀ e ∈ batchQueue c n l, ∀ t ∈ e.2, t.All P := by
  rintro ⟨p, ts⟩ he t ht
  obtain ⟨q, ⟨a, us⟩, hz, -, rfl⟩ := mem_batchQueue.mp he
  obtain ⟨-, hl⟩ := h _ (List.fst_mem_of_mem_zipIdx hz)
  exact hl t ht

theorem batchQueue_cons (e : ℕ × RoseTree α) :
    batchQueue c n (e :: l) =
      if c e.2.label then (n, e.2.children) :: batchQueue c (n + 1) l
      else batchQueue c (n + 1) l := by
  rw [batchQueue, List.zipIdx_cons, List.filterMap_cons]
  by_cases h : c e.2.label = true
  · simp [h, batchQueue]
  · simp [h, batchQueue]

/-- The numbers of a batch's parents are numbers of its rows, in order. -/
theorem sublist_batchQueue :
    ((batchQueue c n l).map Prod.fst).Sublist (List.range' n l.length) := by
  induction l generalizing n with
  | nil => simp [batchQueue]
  | cons e l ih =>
    rw [List.length_cons, List.range'_succ, batchQueue_cons]
    split
    · exact ih.cons_cons n
    · exact ih.cons n

theorem fst_batchQueue_lt {p : ℕ} (h : p ∈ (batchQueue c n l).map Prod.fst) :
    n ≤ p ∧ p < n + l.length := by
  have := sublist_batchQueue.subset h
  rw [List.mem_range'_1] at this
  exact this

/-- The nodes still to come: a batch hands its children over to the queue. -/
theorem sum_size_batchQueue (hc : ∀ e ∈ l, e.2.All fun a ts => c a = false → ts = []) :
    (l.map (·.2.size)).sum =
      ((batchQueue c n l).map fun e => (e.2.map RoseTree.size).sum).sum + l.length := by
  induction l generalizing n with
  | nil => simp [batchQueue]
  | cons e l ih =>
    have ih := @ih (n + 1) fun e he => hc e (List.mem_cons_of_mem _ he)
    obtain ⟨p, a, ts⟩ := e
    obtain ⟨hleaf, -⟩ := hc _ (List.mem_cons_self ..)
    rw [batchQueue_cons, List.map_cons, List.sum_cons, List.length_cons, RoseTree.size_node, ih]
    by_cases hca : c a = true
    · rw [RoseTree.label_node, if_pos hca, List.map_cons, List.sum_cons, RoseTree.children_node]
      dsimp only
      omega
    · rw [RoseTree.label_node, if_neg hca, hleaf (by simpa using hca)]
      simp only [List.map_nil, List.sum_nil]
      omega

/-- If the rest rebuilds what a batch has queued, then the rows of the batch build its trees. -/
theorem map_build_batchRows {R : List (Row α)} (ps : List ℕ)
    (hl : ∀ e ∈ l, e.1 < n) (hps : ∀ p ∈ ps, p < n)
    (hc : ∀ e ∈ l, e.2.All fun a ts => c a = false → ts = [])
    (hsid : ∀ r ∈ R, n + l.length ≤ r.sid)
    (hpid : ∀ r ∈ R, r.pid ∈ ps ++ (batchQueue c n l).map Prod.fst ∨ n + l.length ≤ r.pid)
    (hR : ∀ p ts, (p, ts) ∈ batchQueue c n l → ∀ f, (∀ t ∈ ts, t.size ≤ f + 1) →
      (childRows R p).map (build R f) = ts)
    {f : ℕ} (hf : ∀ e ∈ l, e.2.size ≤ f + 1) :
    (batchRows n l).map (build (batchRows n l ++ R) f) = l.map Prod.snd := by
  have hB : ∀ r ∈ batchRows n l, r.pid < n := by
    intro r hr
    obtain ⟨e, he, hp⟩ := List.mem_map.mp (mem_pid_batchRows hr)
    exact hp ▸ hl e he
  suffices h : ∀ e ∈ l.zipIdx n,
      build (batchRows n l ++ R) f ⟨e.1.1, e.2, e.1.2.label⟩ = e.1.2 by
    conv_lhs => rw [batchRows, List.map_map]
    have hz : l.map Prod.snd = (l.zipIdx n).map fun e => e.1.2 := by
      conv_lhs => rw [← List.zipIdx_map_fst n l, List.map_map]
      rfl
    rw [hz]
    exact List.map_congr_left fun e he => by simpa [batchRows] using h e he
  rintro ⟨⟨q, a, ts⟩, m⟩ he
  have hel := List.fst_mem_of_mem_zipIdx he
  have hm : n ≤ m := List.le_snd_of_mem_zipIdx he
  have hm' : m < n + l.length := by
    have := List.snd_lt_add_of_mem_zipIdx he
    omega
  have hsize : (RoseTree.node a ts).size ≤ f + 1 := hf _ hel
  cases f with
  | zero =>
    cases ts with
    | nil => rfl
    | cons t ts =>
      have := t.size_pos
      simp at hsize
      omega
  | succ f =>
    have hchild : childRows (batchRows n l ++ R) m = childRows R m :=
      childRows_append_left fun b hb => by have := hB b hb; omega
    have hbuild : ∀ r ∈ childRows R m, build (batchRows n l ++ R) f r = build R f r :=
      fun r hr => build_append (k := n) hB (fun r hr => by have := hsid r hr; omega) f
        (by have := hsid r (List.mem_of_mem_filter hr); omega)
    rw [build, hchild, List.map_congr_left hbuild]
    congr 1
    cases hca : c a with
    | true =>
      refine hR m ts (mem_batchQueue.mpr ⟨q, _, he, hca, rfl⟩) f fun t ht => ?_
      have := RoseTree.size_lt_of_mem (a := a) ht
      omega
    | false =>
      obtain ⟨hleaf, -⟩ := hc _ hel
      rw [hleaf hca, List.map_eq_nil_iff, childRows, List.filter_eq_nil_iff]
      intro r hr
      have hmem : r.pid = m → False := by
        rintro rfl
        rcases hpid r hr with h | h
        · rcases List.mem_append.mp h with h | h
          · have := hps _ h
            omega
          · obtain ⟨⟨p, us⟩, hpu, hp⟩ := List.mem_map.mp h
            obtain ⟨q', t', he', hct, -⟩ := mem_batchQueue.mp hpu
            dsimp only at hp
            rw [hp] at he'
            rw [List.mk_mem_zipIdx_iff_le_and_getElem?_sub] at he he'
            rw [he.2] at he'
            obtain ⟨-, rfl⟩ := Prod.mk.inj (Option.some.inj he'.2)
            rw [RoseTree.label_node, hca] at hct
            cases hct
        · omega
      simpa using hmem

end Batch

/-! ## The whole queue -/

/-- A queue ready to be worked off: distinct parents below the next number. -/
structure Ready (c : α → Bool) (n : ℕ) (queue : List (ℕ × List (RoseTree α))) : Prop where
  lt : ∀ p ∈ queue.map Prod.fst, p < n
  nodup : (queue.map Prod.fst).Nodup
  leaf : ∀ e ∈ queue, ∀ t ∈ e.2, t.All fun a ts => c a = false → ts = []

/-- The nodes of a queue. -/
def pending (queue : List (ℕ × List (RoseTree α))) : ℕ :=
  (queue.map fun e => (e.2.map RoseTree.size).sum).sum

section Queue

variable {c : α → Bool}

theorem pending_append (q q' : List (ℕ × List (RoseTree α))) :
    pending (q ++ q') = pending q + pending q' := by
  simp [pending]

/-- Queueing the children of a batch keeps the queue ready. -/
theorem Ready.append {n : ℕ} {queue : List (ℕ × List (RoseTree α))}
    {l : List (ℕ × RoseTree α)} (h : Ready c n queue)
    (hc : ∀ e ∈ l, e.2.All fun a ts => c a = false → ts = []) :
    Ready c (n + l.length) (queue ++ batchQueue c n l) where
  lt p hp := by
    rw [List.map_append, List.mem_append] at hp
    rcases hp with hp | hp
    · have := h.lt p hp
      omega
    · exact (fst_batchQueue_lt hp).2
  nodup := by
    rw [List.map_append]
    refine List.Nodup.append h.nodup (sublist_batchQueue.nodup List.nodup_range') ?_
    intro p hp hp'
    have := h.lt p hp
    have := fst_batchQueue_lt hp'
    omega
  leaf e he t ht := by
    rcases List.mem_append.mp he with he | he
    · exact h.leaf e he t ht
    · exact forall_batchQueue hc e he t ht

/-- What the rows of a queue are: numbered in order, filed under known parents, and enough to
build every tree of the queue. -/
structure Rebuilds (c : α → Bool) (n : ℕ) (queue : List (ℕ × List (RoseTree α)))
    (R : List (Row α)) : Prop where
  sid : R.map Row.sid = List.range' n (pending queue)
  parent : ∀ r ∈ R, r.pid ∈ queue.map Prod.fst ∨ ∃ s ∈ R, s.sid = r.pid ∧ c s.val = true
  build : ∀ p ts, (p, ts) ∈ queue → ∀ f, (∀ t ∈ ts, t.size ≤ f + 1) →
    (childRows R p).map (build R f) = ts

theorem Rebuilds.le_sid {n : ℕ} {queue : List (ℕ × List (RoseTree α))} {R : List (Row α)}
    (h : Rebuilds c n queue R) : ∀ r ∈ R, n ≤ r.sid := by
  intro r hr
  have hs : r.sid ∈ R.map Row.sid := List.mem_map_of_mem hr
  rw [h.sid, List.mem_range'_1] at hs
  exact hs.1

theorem Rebuilds.pid {n : ℕ} {queue : List (ℕ × List (RoseTree α))} {R : List (Row α)}
    (h : Rebuilds c n queue R) : ∀ r ∈ R, r.pid ∈ queue.map Prod.fst ∨ n ≤ r.pid := by
  intro r hr
  refine (h.parent r hr).imp_right ?_
  rintro ⟨s, hs, hp, -⟩
  exact hp ▸ h.le_sid s hs

/-- The queue of a batch names rows of the batch that may have children. -/
theorem exists_batchRows {n p : ℕ} {l : List (ℕ × RoseTree α)}
    (h : p ∈ (batchQueue c n l).map Prod.fst) :
    ∃ s ∈ batchRows n l, s.sid = p ∧ c s.val = true := by
  obtain ⟨⟨p, ts⟩, he, rfl⟩ := List.mem_map.mp h
  obtain ⟨q, t, hz, hc, -⟩ := mem_batchQueue.mp he
  exact ⟨⟨q, p, t.label⟩, List.mem_map.mpr ⟨((q, t), p), hz, rfl⟩, rfl, hc⟩

/-- The rows of a ready queue rebuild it, by induction on the turns. -/
theorem rebuilds_rows {fuel n : ℕ} {queue : List (ℕ × List (RoseTree α))} (h : Ready c n queue)
    (hfuel : queue.length + pending queue ≤ fuel) :
    Rebuilds c n queue (rows c fuel n queue) := by
  induction fuel generalizing n queue with
  | zero =>
    have : queue = [] := List.length_eq_zero_iff.mp (by omega)
    subst this
    exact ⟨rfl, by simp [rows], by simp⟩
  | succ fuel ih =>
    cases queue with
    | nil => exact ⟨rfl, by simp [rows], by simp⟩
    | cons e queue =>
      obtain ⟨p, ts⟩ := e
      have hp : p < n := h.lt p (by simp)
      have hq : Ready c n queue :=
        ⟨fun p hp => h.lt p (by simp [hp]), h.nodup.of_cons,
          fun e he => h.leaf e (List.mem_cons_of_mem _ he)⟩
      have hleaf : ∀ e ∈ ts.map (p, ·), e.2.All fun a ts => c a = false → ts = [] := by
        intro e he
        obtain ⟨t, ht, rfl⟩ := List.mem_map.mp he
        exact h.leaf (p, ts) (by simp) t ht
      have hsize : (ts.map RoseTree.size).sum =
          pending (batchQueue c n (ts.map (p, ·))) + ts.length := by
        have := sum_size_batchQueue (n := n) hleaf
        rw [List.map_map, List.length_map] at this
        exact this
      have hpending : pending ((p, ts) :: queue) = (ts.map RoseTree.size).sum + pending queue := by
        simp [pending]
      have hlen : (batchQueue c n (ts.map (p, ·))).length ≤ ts.length := by
        have := (sublist_batchQueue (c := c) (n := n) (l := ts.map (p, ·))).length_le
        simpa using this
      have ih := ih (hq.append hleaf) (by
        rw [List.length_append, pending_append]
        rw [List.length_cons, hpending, hsize] at hfuel
        omega)
      rw [rows]
      generalize hR : rows c fuel (n + (ts.map (p, ·)).length)
        (queue ++ batchQueue c n (ts.map (p, ·))) = R at ih ⊢
      have hsid := ih.le_sid
      have hpid : ∀ r ∈ R, r.pid ∈ queue.map Prod.fst ++
          (batchQueue c n (ts.map (p, ·))).map Prod.fst ∨ n + (ts.map (p, ·)).length ≤ r.pid := by
        simpa only [List.map_append] using ih.pid
      have hB : ∀ r ∈ batchRows n (ts.map (p, ·)), r.pid = p := by
        intro r hr
        have := mem_pid_batchRows hr
        simp only [List.map_map, List.mem_map, Function.comp_apply] at this
        obtain ⟨-, -, rfl⟩ := this
        rfl
      refine ⟨?_, ?_, ?_⟩
      · rw [List.map_append, map_sid_batchRows, ih.sid, hpending, hsize, pending_append,
          List.length_map, List.range'_append_1]
        congr 1
        omega
      · intro r hr
        rcases List.mem_append.mp hr with hr | hr
        · exact .inl (by simp [hB r hr])
        · rcases ih.parent r hr with h | ⟨s, hs, hp, hc⟩
          · rw [List.map_append] at h
            rcases List.mem_append.mp h with h | h
            · exact .inl (List.mem_cons_of_mem _ h)
            · obtain ⟨s, hs, hp, hc⟩ := exists_batchRows h
              exact .inr ⟨s, List.mem_append_left _ hs, hp, hc⟩
          · exact .inr ⟨s, List.mem_append_right _ hs, hp, hc⟩
      · intro p' ts' he f hf
        rcases List.mem_cons.mp he with heq | hmem
        · obtain ⟨rfl, rfl⟩ := Prod.mk.inj heq
          -- no later row is filed under the number of this batch
          have hchild : childRows (batchRows n (ts'.map (p', ·)) ++ R) p' =
              batchRows n (ts'.map (p', ·)) := by
            have hnil : R.filter (·.pid == p') = [] := by
              rw [List.filter_eq_nil_iff]
              intro r hr
              have hne : r.pid ≠ p' := by
                rintro rfl
                rcases hpid r hr with h' | h'
                · rcases List.mem_append.mp h' with h' | h'
                  · exact (List.nodup_cons.mp h.nodup).1 h'
                  · have := (fst_batchQueue_lt h').1
                    omega
                · omega
              simpa using hne
            rw [childRows, List.filter_append, hnil, List.append_nil, List.filter_eq_self]
            intro r hr
            simpa using hB r hr
          rw [hchild, map_build_batchRows (queue.map Prod.fst) ?_ hq.lt hleaf hsid hpid ?_ ?_]
          · simp
          · intro e he
            obtain ⟨t, -, rfl⟩ := List.mem_map.mp he
            exact hp
          · exact fun p ts hm => ih.build p ts (List.mem_append_right _ hm)
          · intro e he
            obtain ⟨t, ht, rfl⟩ := List.mem_map.mp he
            exact hf t ht
        · have hne : p' ≠ p := by
            rintro rfl
            exact (List.nodup_cons.mp h.nodup).1 (List.mem_map.mpr ⟨_, hmem, rfl⟩)
          have hchild : childRows (batchRows n (ts.map (p, ·)) ++ R) p' = childRows R p' :=
            childRows_append_left fun b hb => by rw [hB b hb]; exact hne.symm
          have hbuild : ∀ r ∈ childRows R p',
              BreadthFirst.build (batchRows n (ts.map (p, ·)) ++ R) f r =
                BreadthFirst.build R f r :=
            fun r hr => build_append (k := n) (fun b hb => by rw [hB b hb]; exact hp)
              (fun r hr => by have := hsid r hr; omega) f
              (by have := hsid r (List.mem_of_mem_filter hr); omega)
          rw [hchild, List.map_congr_left hbuild]
          exact ih.build p' ts' (List.mem_append_left _ hmem) f hf

end Queue

/-! ## Forests -/

section Forest

variable {c : α → Bool} {n : ℕ} {l : List (ℕ × RoseTree α)}

theorem rebuilds_flatten (hc : ∀ e ∈ l, e.2.All fun a ts => c a = false → ts = []) :
    Rebuilds c (n + l.length) (batchQueue c n l)
      (rows c (l.map (·.2.size)).sum (n + l.length) (batchQueue c n l)) := by
  have hready : Ready c (n + l.length) ([] ++ batchQueue c n l) :=
    Ready.append ⟨by simp, by simp, by simp⟩ hc
  refine rebuilds_rows hready ?_
  have hlen : (batchQueue c n l).length ≤ l.length := by
    simpa using (sublist_batchQueue (c := c) (n := n) (l := l)).length_le
  have hsize := sum_size_batchQueue (n := n) hc
  rw [pending]
  omega

/-- The numbers of a flattened forest run from `n` without gaps: every node has one row. -/
theorem map_sid_flatten (hc : ∀ e ∈ l, e.2.All fun a ts => c a = false → ts = []) :
    (flatten c n l).map Row.sid = List.range' n (l.map (·.2.size)).sum := by
  have hsize := sum_size_batchQueue (n := n) hc
  rw [flatten, List.map_append, map_sid_batchRows, (rebuilds_flatten hc).sid,
    List.range'_append_1, pending, hsize, Nat.add_comm]

/-- Every row is a root or filed under a row that may have children. -/
theorem parent_flatten (hc : ∀ e ∈ l, e.2.All fun a ts => c a = false → ts = []) :
    ∀ r ∈ rows c (l.map (·.2.size)).sum (n + l.length) (batchQueue c n l),
      n ≤ r.pid ∧ ∃ s ∈ flatten c n l, s.sid = r.pid ∧ c s.val = true := by
  intro r hr
  have h := rebuilds_flatten (n := n) hc
  rcases h.parent r hr with hp | ⟨s, hs, hp, hcs⟩
  · obtain ⟨s, hs, hsp, hcs⟩ := exists_batchRows hp
    exact ⟨(fst_batchQueue_lt hp).1, s, List.mem_append_left _ hs, hsp, hcs⟩
  · have := h.le_sid s hs
    exact ⟨by omega, s, List.mem_append_right _ hs, hp, hcs⟩

/-- A property of all nodes holds of the label of every row. -/
theorem forall_rows {P : α → List (RoseTree α) → Prop} {fuel n : ℕ}
    {queue : List (ℕ × List (RoseTree α))} (h : ∀ e ∈ queue, ∀ t ∈ e.2, t.All P) :
    ∀ r ∈ rows c fuel n queue, ∃ ts, P r.val ts := by
  induction fuel generalizing n queue with
  | zero => simp [rows]
  | succ fuel ih =>
    cases queue with
    | nil => simp [rows]
    | cons e queue =>
      obtain ⟨p, ts⟩ := e
      have hts : ∀ e ∈ ts.map (p, ·), e.2.All P := by
        intro e he
        obtain ⟨t, ht, rfl⟩ := List.mem_map.mp he
        exact h (p, ts) (by simp) t ht
      rw [rows]
      intro r hr
      rcases List.mem_append.mp hr with hr | hr
      · exact forall_batchRows hts r hr
      · refine ih (fun e he => ?_) r hr
        rcases List.mem_append.mp he with he | he
        · exact h e (List.mem_cons_of_mem _ he)
        · exact forall_batchQueue hts e he

theorem forall_flatten {P : α → List (RoseTree α) → Prop} (h : ∀ e ∈ l, e.2.All P) :
    ∀ r ∈ flatten c n l, ∃ ts, P r.val ts := by
  intro r hr
  rcases List.mem_append.mp hr with hr | hr
  · exact forall_batchRows h r hr
  · exact forall_rows (forall_batchQueue h) r hr

/-- The rows of the roots build the forest. -/
theorem map_build_flatten (hl : ∀ e ∈ l, e.1 < n)
    (hc : ∀ e ∈ l, e.2.All fun a ts => c a = false → ts = []) {f : ℕ}
    (hf : ∀ e ∈ l, e.2.size ≤ f + 1) :
    (batchRows n l).map (fun r => (r.pid, build (flatten c n l) f r)) = l := by
  have h := rebuilds_flatten (n := n) hc
  have hbuild : (batchRows n l).map (build (flatten c n l) f) = l.map Prod.snd :=
    map_build_batchRows [] hl (by simp) hc h.le_sid (by simpa using h.pid) h.build hf
  rw [← List.zip_map', hbuild, map_pid_batchRows, List.zip_map']
  simp

end Forest

end BreadthFirst

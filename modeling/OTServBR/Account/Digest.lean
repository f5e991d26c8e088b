import OTServBR.Account.Sha1

/-! # The hash of a password is its SHA-1

The blocks that the loop over the input hashes and the one or two blocks behind
it are the blocks of the padded message.
-/

namespace OTServBR.SHA1

open BitString

/-! ## Words -/

theorem choose_eq (x y z : UInt32) : (x &&& y ||| ~~~x &&& z) = Sha1.ch x y z := by
  apply UInt32.toBitVec_inj.mp
  apply BitVec.eq_of_getLsbD_eq
  intro i hi
  simp only [Sha1.ch, UInt32.toBitVec_or, UInt32.toBitVec_and, UInt32.toBitVec_not,
    UInt32.toBitVec_xor, BitVec.getLsbD_or, BitVec.getLsbD_and, BitVec.getLsbD_not,
    BitVec.getLsbD_xor, hi, decide_true, Bool.true_and]
  cases x.toBitVec.getLsbD i <;> simp

theorem majority_eq (x y z : UInt32) : (x &&& y ||| x &&& z ||| y &&& z) = Sha1.maj x y z := by
  apply UInt32.toBitVec_inj.mp
  apply BitVec.eq_of_getLsbD_eq
  intro i hi
  simp only [Sha1.maj, UInt32.toBitVec_or, UInt32.toBitVec_and, UInt32.toBitVec_xor,
    BitVec.getLsbD_or, BitVec.getLsbD_and, BitVec.getLsbD_xor]
  cases x.toBitVec.getLsbD i <;> cases y.toBitVec.getLsbD i <;> cases z.toBitVec.getLsbD i <;> rfl

theorem circularShift_eq (n x : UInt32) : circularShift n x = Sha1.rotl n x := rfl

/-- The bytes of a word, the highest first. -/
def wordBytes (w : UInt32) : List UInt8 :=
  [(w >>> 24).toUInt8, (w >>> 16).toUInt8, (w >>> 8).toUInt8, w.toUInt8]

theorem ofBytes_wordBytes (w : UInt32) : ofBytes (wordBytes w) = bits 32 w.toNat := by
  have hbyte : ∀ n, (w >>> n).toUInt8.toNat = w.toNat / 2 ^ (n.toNat % 32) % 2 ^ 8 := by
    intro n
    rw [UInt32.toNat_toUInt8, UInt32.toNat_shiftRight, Nat.shiftRight_eq_div_pow]
  have h0 : w.toUInt8.toNat = w.toNat % 2 ^ 8 := UInt32.toNat_toUInt8 w
  have h32 : bits 32 w.toNat = bits (8 + (8 + (8 + 8))) w.toNat := rfl
  rw [wordBytes, h32, bits_add, bits_add, bits_add, ofBytes_cons, ofBytes_cons, ofBytes_cons, ofBytes_cons,
    hbyte, hbyte, hbyte, h0, bits_mod, bits_mod, bits_mod, bits_mod, ofBytes_nil, List.append_nil]
  rfl

theorem toNat_loadWord (b : List UInt8) (i : ℕ) : (loadWord b i).toNat =
    value (ofBytes [b.getD i 0, b.getD (i + 1) 0, b.getD (i + 2) 0, b.getD (i + 3) 0]) := by
  unfold loadWord
  generalize b.getD i 0 = b0, b.getD (i + 1) 0 = b1, b.getD (i + 2) 0 = b2, b.getD (i + 3) 0 = b3
  have h0 := b0.toNat_lt
  have h1 := b1.toNat_lt
  have h2 := b2.toNat_lt
  have h3 := b3.toNat_lt
  have hor : ∀ x y n : ℕ, y < 2 ^ n → x * 2 ^ n ||| y = x * 2 ^ n + y := by
    intro x y n hy
    rw [← Nat.shiftLeft_eq, ← Nat.shiftLeft_add_eq_or_of_lt hy]
  have hshift : ∀ (x : UInt8) (n : UInt32), n.toNat ≤ 24 →
      (x.toUInt32 <<< n).toNat = x.toNat * 2 ^ n.toNat := by
    intro x n hn
    have hx := x.toNat_lt
    have hle : x.toNat * 2 ^ n.toNat ≤ x.toNat * 2 ^ 24 :=
      Nat.mul_le_mul_left _ (Nat.pow_le_pow_right (Nat.succ_pos 1) hn)
    have hmod : n.toNat % 32 = n.toNat := Nat.mod_eq_of_lt (by omega)
    rw [UInt32.toNat_shiftLeft, UInt8.toNat_toUInt32, hmod, Nat.shiftLeft_eq,
      Nat.mod_eq_of_lt (by omega)]
  have h01 := hor b0.toNat (b1.toNat * 2 ^ 16) 24 (by omega)
  have h12 := hor (b0.toNat * 2 ^ 8 + b1.toNat) (b2.toNat * 2 ^ 8) 16 (by omega)
  have h23 := hor (b0.toNat * 2 ^ 16 + b1.toNat * 2 ^ 8 + b2.toNat) b3.toNat 8 (by omega)
  have hn24 : (24 : UInt32).toNat = 24 := rfl
  have hn16 : (16 : UInt32).toNat = 16 := rfl
  have hn8 : (8 : UInt32).toNat = 8 := rfl
  rw [UInt32.toNat_or, UInt32.toNat_or, UInt32.toNat_or, hshift _ _ (by decide),
    hshift _ _ (by decide), hshift _ _ (by decide), UInt8.toNat_toUInt32, hn24, hn16, hn8, h01]
  have e12 : b0.toNat * 2 ^ 24 + b1.toNat * 2 ^ 16 =
      (b0.toNat * 2 ^ 8 + b1.toNat) * 2 ^ 16 := by ring
  have e23 : (b0.toNat * 2 ^ 8 + b1.toNat) * 2 ^ 16 + b2.toNat * 2 ^ 8 =
      (b0.toNat * 2 ^ 16 + b1.toNat * 2 ^ 8 + b2.toNat) * 2 ^ 8 := by ring
  rw [e12, h12, e23, h23]
  simp only [ofBytes_cons, ofBytes_nil, value_append, value_bits, length_bits, List.length_append,
    List.append_nil, Nat.mod_eq_of_lt h0, Nat.mod_eq_of_lt h1, Nat.mod_eq_of_lt h2,
    Nat.mod_eq_of_lt h3]
  ring

/-! ## A block -/

/-- The variables as a hash value. -/
def Registers.toHash (H : Registers) : Sha1.Hash := ⟨H.A, H.B, H.C, H.D, H.E⟩

section Block

variable {messageBlock : List UInt8} (hlen : messageBlock.length = 64)

include hlen in
theorem words_getD {t : ℕ} (ht : t < 16) :
    (Sha1.words (ofBytes messageBlock)).getD t 0 = loadWord messageBlock (t <<< 2) := by
  have h32 : 32 = 8 * 4 := rfl
  have hword : (Sha1.words (ofBytes messageBlock)).getD t 0 =
      UInt32.ofNat (value (ofBytes ((messageBlock.drop (4 * t)).take 4))) := by
    rw [Sha1.words, h32, chunks_ofBytes, List.map_map, chunks, List.map_map, hlen]
    have hlt : t < ((List.range (64 / 4)).map (((fun c => UInt32.ofNat (value c)) ∘ ofBytes) ∘
        fun i => (messageBlock.drop (4 * i)).take 4)).length := by
      rw [List.length_map, List.length_range]
      exact ht
    rw [List.getD_eq_getElem _ _ hlt, List.getElem_map, List.getElem_range]
    rfl
  have hfour : (messageBlock.drop (4 * t)).take 4 = [messageBlock.getD (4 * t) 0,
      messageBlock.getD (4 * t + 1) 0, messageBlock.getD (4 * t + 2) 0,
      messageBlock.getD (4 * t + 3) 0] := by
    apply List.ext_getElem
    · simp only [List.length_take, List.length_drop, List.length_cons, List.length_nil]
      omega
    · intro i h₁ h₂
      have hi : i < 4 := h₂
      rw [List.getElem_take, List.getElem_drop]
      interval_cases i <;> exact (List.getD_eq_getElem _ _ (by omega)).symm
  have hshift : t <<< 2 = 4 * t := by
    rw [Nat.shiftLeft_eq]
    ring
  rw [hword, hfour, hshift, ← toNat_loadWord, UInt32.ofNat_toNat]

/-- The loop over the words continues the schedule by one word in each round. -/
theorem schedule_loop (m W : List UInt32) (n : ℕ) (hW : W.length = 16)
    (hfirst : ∀ t < 16, W.getD t 0 = m.getD t 0) :
    let W' := (List.range' 16 n).foldl
      (fun W i => W ++ [circularShift 1
        (W.getD (i - 3) 0 ^^^ W.getD (i - 8) 0 ^^^ W.getD (i - 14) 0 ^^^ W.getD (i - 16) 0)]) W
    W'.length = 16 + n ∧ ∀ t < 16 + n, W'.getD t 0 = Sha1.schedule m t := by
  induction n with
  | zero =>
    refine ⟨hW, fun t ht => ?_⟩
    rw [Sha1.schedule_of_lt ht]
    exact hfirst t ht
  | succ n ih =>
    obtain ⟨ihlen, ihget⟩ := ih
    rw [List.range'_concat, Nat.one_mul, List.foldl_append]
    generalize (List.range' 16 n).foldl _ W = W' at ihlen ihget
    refine ⟨?_, fun t ht => ?_⟩
    · rw [List.foldl_cons, List.foldl_nil, List.length_append, ihlen]
      rfl
    · rw [List.foldl_cons, List.foldl_nil]
      by_cases hlast : t = 16 + n
      · subst hlast
        rw [List.getD_append_right _ _ _ _ ihlen.le, ihlen, Nat.sub_self, List.getD_cons_zero,
          ihget _ (by omega), ihget _ (by omega), ihget _ (by omega), ihget _ (by omega),
          Sha1.schedule_of_le (Nat.le_add_right 16 n)]
        rfl
      · rw [List.getD_append _ _ _ _ (by omega)]
        exact ihget t (by omega)

include hlen in
theorem messageSchedule_getD {t : ℕ} (ht : t < 80) : (messageSchedule messageBlock).getD t 0 =
    Sha1.schedule (Sha1.words (ofBytes messageBlock)) t := by
  refine (schedule_loop _ _ 64 ?_ fun i hi => ?_).2 t ht
  · rw [List.length_map, List.length_range]
  · have hlt : i < ((List.range 16).map fun i => loadWord messageBlock (i <<< 2)).length := by
      rw [List.length_map, List.length_range]
      exact hi
    rw [words_getD hlen hi, List.getD_eq_getElem _ _ hlt, List.getElem_map, List.getElem_range]

end Block

/-- A loop whose rounds are steps of the standard. -/
theorem toHash_loop {w : ℕ → UInt32} {g : Registers → ℕ → Registers} {s n : ℕ}
    (hg : ∀ H t, s ≤ t → t < s + n → (g H t).toHash = Sha1.step w H.toHash t) (H : Registers) :
    ((List.range' s n).foldl g H).toHash = (List.range' s n).foldl (Sha1.step w) H.toHash := by
  induction n with
  | zero => rfl
  | succ n ih =>
    have ih' := ih fun H t hle hlt => hg H t hle (by omega)
    rw [List.range'_concat, Nat.one_mul, List.foldl_append, List.foldl_append, ← ih']
    exact hg _ _ (by omega) (by omega)

theorem toHash_rotate {w : ℕ → UInt32} {W : List UInt32} {H : Registers} {t : ℕ} {v c : UInt32}
    (hW : W.getD t 0 = w t) (hv : v = Sha1.f t H.B H.C H.D) (hc : c = Sha1.k t) :
    (H.rotate (circularShift 5 H.A + v + H.E + W.getD t 0 + c)).toHash =
      Sha1.step w H.toHash t := by
  subst hv hc
  rw [hW, add_right_comm _ (w t)]
  rfl

theorem toHash_rounds {w : ℕ → UInt32} {W : List UInt32} (hW : ∀ t < 80, W.getD t 0 = w t)
    (H : Registers) : (rounds W H).toHash = (List.range 80).foldl (Sha1.step w) H.toHash := by
  have hsplit : List.range 80 = List.range' 0 20 ++ List.range' 20 20 ++ List.range' 40 20 ++
      List.range' 60 20 := by decide
  rw [hsplit, List.foldl_append, List.foldl_append, List.foldl_append, rounds]
  rw [toHash_loop (w := w), toHash_loop (w := w), toHash_loop (w := w), toHash_loop (w := w)]
  · intro H t hle hlt
    refine toHash_rotate (hW t (by omega)) ?_ ?_
    · rw [choose_eq, Sha1.f, if_pos hlt]
    · rw [Sha1.k, if_pos hlt]
  · intro H t hle hlt
    refine toHash_rotate (hW t (by omega)) ?_ ?_
    · rw [Sha1.f, if_neg (by omega), if_pos hlt]
      rfl
    · rw [Sha1.k, if_neg (by omega), if_pos hlt]
  · intro H t hle hlt
    refine toHash_rotate (hW t (by omega)) ?_ ?_
    · rw [majority_eq, Sha1.f, if_neg (by omega), if_neg (by omega), if_pos hlt]
    · rw [Sha1.k, if_neg (by omega), if_neg (by omega), if_pos hlt]
  · intro H t hle hlt
    refine toHash_rotate (hW t (by omega)) ?_ ?_
    · rw [Sha1.f, if_neg (by omega), if_neg (by omega), if_neg (by omega)]
      rfl
    · rw [Sha1.k, if_neg (by omega), if_neg (by omega), if_neg (by omega)]

theorem toHash_process {messageBlock : List UInt8} (hlen : messageBlock.length = 64)
    (H : Registers) : (processSHA1MessageBlock messageBlock H).toHash =
      Sha1.compress H.toHash (ofBytes messageBlock) := by
  have hrounds := toHash_rounds (fun t ht => messageSchedule_getD hlen ht) H
  rw [processSHA1MessageBlock, Sha1.compress, ← hrounds]
  simp only [Registers.toHash, add_comm]

/-! ## Writing into the block -/

section Write

variable {b : List UInt8} {i n : ℕ} {w : UInt32}

theorem take_set_succ {x : UInt8} (h : i < b.length) :
    (b.set i x).take (i + 1) = b.take i ++ [x] := by
  have hlt : i < (b.set i x).length := by rwa [List.length_set]
  rw [List.take_succ_eq_append_getElem hlt, List.getElem_set_self, List.take_set_of_le le_rfl]

theorem fill_loop (h : i + n ≤ b.length) :
    let b' := (List.range' i n).foldl (fun b j => b.set j 0) b
    b'.length = b.length ∧ b'.take (i + n) = b.take i ++ List.replicate n 0 := by
  induction n with
  | zero => exact ⟨rfl, (List.append_nil _).symm⟩
  | succ n ih =>
    obtain ⟨ihlen, ihtake⟩ := ih (by omega)
    rw [List.range'_concat, Nat.one_mul, List.foldl_append]
    refine ⟨?_, ?_⟩
    · rw [List.foldl_cons, List.foldl_nil, List.length_set, ihlen]
    · rw [List.foldl_cons, List.foldl_nil, ← Nat.add_assoc, take_set_succ (by rw [ihlen]; omega),
        ihtake, List.append_assoc, List.replicate_succ']

@[simp] theorem length_fill {stop : ℕ} (hi : i ≤ stop) (h : stop ≤ b.length) :
    (fill b i stop).length = b.length :=
  (fill_loop (by omega)).1

theorem take_fill {stop : ℕ} (hi : i ≤ stop) (h : stop ≤ b.length) :
    (fill b i stop).take stop = b.take i ++ List.replicate (stop - i) 0 := by
  have hfill := (fill_loop (b := b) (i := i) (n := stop - i) (by omega)).2
  rwa [Nat.add_sub_cancel' hi] at hfill

@[simp] theorem length_storeWord : (storeWord b i w).length = b.length := by
  simp only [storeWord, List.length_set]

theorem take_storeWord (h : i + 4 ≤ b.length) :
    (storeWord b i w).take (i + 4) = b.take i ++ wordBytes w := by
  rw [storeWord, take_set_succ (by simp only [List.length_set]; omega),
    take_set_succ (by simp only [List.length_set]; omega),
    take_set_succ (by simp only [List.length_set]; omega), take_set_succ (by omega)]
  simp only [List.append_assoc, List.cons_append, List.nil_append, wordBytes]

/-- The last block: what was written so far, zeros and the counter. -/
theorem finish_block {high low : UInt32} (hb : b.length = 64) (hi : i ≤ 56) :
    storeWord (storeWord (fill b i 56) 56 high) 60 low =
      b.take i ++ List.replicate (56 - i) 0 ++ wordBytes high ++ wordBytes low := by
  have hfill : (fill b i 56).length = 64 := by rw [length_fill hi (by omega), hb]
  have hhigh : (storeWord (fill b i 56) 56 high).length = 64 := by rw [length_storeWord, hfill]
  have hall : (storeWord (storeWord (fill b i 56) 56 high) 60 low).take 64 =
      storeWord (storeWord (fill b i 56) 56 high) 60 low := by
    rw [List.take_of_length_le]
    rw [length_storeWord, hhigh]
  rw [← hall, take_storeWord (by omega), take_storeWord (by omega), take_fill hi (by omega)]

end Write

/-! ## The loop over the input -/

def processBlocks (blocks : List (List UInt8)) : Registers :=
  blocks.foldl (fun H b => processSHA1MessageBlock b H) ({} : Stream).H

theorem toHash_processBlocks {blocks : List (List UInt8)} (hall : ∀ b ∈ blocks, b.length = 64) :
    (processBlocks blocks).toHash =
      (chunks 512 (ofBytes blocks.flatten)).foldl Sha1.compress Sha1.initial := by
  have hchunks : chunks (8 * 64) (ofBytes blocks.flatten) = blocks.map ofBytes := by
    rw [chunks_ofBytes, chunks_flatten (Nat.succ_pos 63) hall]
  have hfold : ∀ H : Registers, (blocks.foldl (fun H b => processSHA1MessageBlock b H) H).toHash =
      (blocks.map ofBytes).foldl Sha1.compress H.toHash := by
    clear hchunks
    induction blocks with
    | nil => exact fun _ => rfl
    | cons b blocks ih =>
      intro H
      have hb := hall b List.mem_cons_self
      rw [List.foldl_cons, List.map_cons, List.foldl_cons, ← toHash_process hb]
      exact ih (fun c hc => hall c (List.mem_cons_of_mem _ hc)) _
  have h512 : 512 = 8 * 64 := rfl
  rw [h512, hchunks]
  exact hfold _

/-- The input is the blocks that were hashed and what is in the block now. -/
structure Stream.Reads (s : Stream) (input : List UInt8) (blocks : List (List UInt8)) : Prop where
  length : s.messageBlock.length = 64
  index_lt : s.index < 64
  all : ∀ b ∈ blocks, b.length = 64
  input_eq : input = blocks.flatten ++ s.messageBlock.take s.index
  hash : s.H = processBlocks blocks
  counter : s.length_high.toNat * 2 ^ 32 + s.length_low.toNat ≡ 8 * input.length [MOD 2 ^ 64]

theorem reads_start : ({} : Stream).Reads [] [] where
  length := rfl
  index_lt := by decide
  all := fun b hb => absurd hb List.not_mem_nil
  input_eq := rfl
  hash := rfl
  counter := rfl

/-- The carry into the high word is counted when the low word becomes zero. -/
theorem counter_push {low high : UInt32} {n : ℕ}
    (h : high.toNat * 2 ^ 32 + low.toNat ≡ n [MOD 2 ^ 64]) (hn : 8 ∣ n) :
    (if low + 8 = 0 then high + 1 else high).toNat * 2 ^ 32 + (low + 8).toNat ≡ n + 8
      [MOD 2 ^ 64] := by
  have hlow := low.toNat_lt
  have hsum : (low + 8).toNat = (low.toNat + 8) % 2 ^ 32 := UInt32.toNat_add _ _
  have hzero : low + 8 = 0 ↔ (low.toNat + 8) % 2 ^ 32 = 0 := by
    rw [← UInt32.toNat_inj, hsum]
    rfl
  -- the low word is a multiple of eight, so that it does not jump over zero
  have height : low.toNat % 8 = 0 := by
    have h8 : high.toNat * 2 ^ 32 + low.toNat ≡ n [MOD 8] := h.of_dvd (by decide)
    unfold Nat.ModEq at h8
    omega
  refine Nat.ModEq.trans ?_ (h.add_right 8)
  rw [Nat.add_assoc, hsum]
  split
  · next hcarry =>
    have hfull : low.toNat + 8 = 2 ^ 32 := by
      have := hzero.mp hcarry
      omega
    have hone : (high + 1).toNat = (high.toNat + 1) % 2 ^ 32 := UInt32.toNat_add _ _
    have hmul : (high.toNat + 1) % 2 ^ 32 * 2 ^ 32 ≡ (high.toNat + 1) * 2 ^ 32
        [MOD 2 ^ 32 * 2 ^ 32] := (Nat.mod_modEq _ _).mul_right' _
    rw [hone, hfull, Nat.mod_self, Nat.add_zero, ← Nat.succ_mul]
    exact hmul
  · next hcarry =>
    have hlt : low.toNat + 8 < 2 ^ 32 := by
      have := mt hzero.mpr hcarry
      omega
    rw [Nat.mod_eq_of_lt hlt]

theorem Stream.Reads.push {s : Stream} {input : List UInt8} {blocks : List (List UInt8)}
    (h : s.Reads input blocks) (ch : UInt8) :
    ∃ blocks', (s.push ch).Reads (input ++ [ch]) blocks' := by
  have hlen : (s.messageBlock.set s.index ch).length = 64 := by rw [List.length_set, h.length]
  have htake : (s.messageBlock.set s.index ch).take (s.index + 1) =
      s.messageBlock.take s.index ++ [ch] := take_set_succ (by rw [h.length]; exact h.index_lt)
  have hinput : input ++ [ch] =
      blocks.flatten ++ (s.messageBlock.set s.index ch).take (s.index + 1) := by
    rw [htake, ← List.append_assoc, ← h.input_eq]
  have hcounter := counter_push h.counter (Nat.dvd_mul_right 8 _)
  have hcounter' : 8 * (input ++ [ch]).length = 8 * input.length + 8 := by
    rw [List.length_append, List.length_singleton]
    ring
  rw [← hcounter'] at hcounter
  unfold Stream.push
  dsimp only
  split
  · next hfull =>
    refine ⟨blocks ++ [s.messageBlock.set s.index ch], hlen, Nat.succ_pos 63, ?_, ?_, ?_, hcounter⟩
    · intro b hb
      rcases List.mem_append.mp hb with hb | hb
      · exact h.all b hb
      · rw [List.mem_singleton.mp hb]
        exact hlen
    · rw [hinput, hfull, List.take_of_length_le hlen.le, List.flatten_append, List.take_zero,
        List.append_nil, List.flatten_singleton]
    · rw [processBlocks, List.foldl_append, h.hash]
      rfl
  · next hfull =>
    have hlt := h.index_lt
    exact ⟨blocks, hlen, by dsimp only; omega, h.all, hinput, h.hash, hcounter⟩

theorem exists_reads (input : List UInt8) :
    ∃ blocks, (input.foldl Stream.push {}).Reads input blocks := by
  induction input using List.reverseRecOn with
  | nil => exact ⟨[], reads_start⟩
  | append_singleton input ch ih =>
    obtain ⟨blocks, h⟩ := ih
    rw [List.foldl_append]
    exact h.push ch

/-- What is hashed behind the input. -/
theorem Stream.Reads.finish {s : Stream} {input : List UInt8} {blocks : List (List UInt8)}
    (h : s.Reads input blocks) :
    ∃ z last, Sha1.zeros (8 * input.length) = 8 * z + 7 ∧ (∀ b ∈ last, b.length = 64) ∧
      (blocks ++ last).flatten = input ++ 0x80 :: List.replicate z 0 ++
        (wordBytes s.length_high ++ wordBytes s.length_low) ∧
      s.finish = processBlocks (blocks ++ last) := by
  have hlt := h.index_lt
  have hread : (s.messageBlock.take s.index).length = s.index := by
    rw [List.length_take, h.length, Nat.min_eq_left hlt.le]
  have hmod : input.length % 64 = s.index := by
    have hflat : 64 ∣ blocks.flatten.length := by
      rw [List.length_flatten]
      refine List.dvd_sum fun n hn => ?_
      obtain ⟨b, hb, rfl⟩ := List.mem_map.mp hn
      rw [h.all b hb]
    rw [h.input_eq, List.length_append, hread]
    omega
  have hset : (s.messageBlock.set s.index 0x80).length = 64 := by rw [List.length_set, h.length]
  have htake : (s.messageBlock.set s.index 0x80).take (s.index + 1) =
      s.messageBlock.take s.index ++ [0x80] := take_set_succ (by rw [h.length]; exact hlt)
  by_cases hroom : 56 < s.index + 1
  · -- the counter needs a block of its own
    have hfill : (fill (s.messageBlock.set s.index 0x80) (s.index + 1) 64).take 64 =
        (s.messageBlock.set s.index 0x80).take (s.index + 1) ++
          List.replicate (64 - (s.index + 1)) 0 := take_fill (by omega) hset.ge
    have hfilled : (fill (s.messageBlock.set s.index 0x80) (s.index + 1) 64).length = 64 := by
      rw [length_fill (by omega) hset.ge, hset]
    rw [List.take_of_length_le hfilled.le, htake] at hfill
    refine ⟨119 - s.index, [fill (s.messageBlock.set s.index 0x80) (s.index + 1) 64,
      List.replicate 56 0 ++ (wordBytes s.length_high ++ wordBytes s.length_low)], ?_, ?_, ?_, ?_⟩
    · unfold Sha1.zeros
      omega
    · intro b hb
      rcases List.mem_cons.mp hb with rfl | hb
      · exact hfilled
      · rw [List.mem_singleton.mp hb]
        rfl
    · have hz : 119 - s.index = (64 - (s.index + 1)) + 56 := by omega
      rw [List.flatten_append, List.flatten_cons, List.flatten_singleton, hfill, h.input_eq, hz,
        ← List.replicate_append_replicate]
      simp only [List.append_assoc, List.cons_append, List.nil_append]
    · rw [Stream.finish, if_pos hroom]
      dsimp only
      rw [finish_block hfilled (Nat.zero_le 56), h.hash, processBlocks, processBlocks,
        List.foldl_append]
      rfl
  · refine ⟨55 - s.index, [s.messageBlock.take s.index ++ [0x80] ++
      List.replicate (56 - (s.index + 1)) 0 ++ wordBytes s.length_high ++ wordBytes s.length_low],
      ?_, ?_, ?_, ?_⟩
    · unfold Sha1.zeros
      omega
    · intro b hb
      rw [List.mem_singleton.mp hb]
      simp only [List.length_append, List.length_replicate, hread, List.length_cons, List.length_nil, wordBytes]
      omega
    · have hz : 55 - s.index = 56 - (s.index + 1) := by omega
      rw [List.flatten_append, List.flatten_singleton, h.input_eq, hz]
      simp only [List.append_assoc, List.cons_append, List.nil_append]
    · rw [Stream.finish, if_neg hroom]
      dsimp only
      rw [finish_block hset (by omega), htake, h.hash, processBlocks, processBlocks,
        List.foldl_append]
      rfl

/-- The blocks that are hashed are those of the padded input. -/
theorem toHash_finish (input : List UInt8) : (input.foldl Stream.push {}).finish.toHash =
    (chunks 512 (Sha1.pad (ofBytes input))).foldl Sha1.compress Sha1.initial := by
  obtain ⟨blocks, h⟩ := exists_reads input
  obtain ⟨z, last, hz, hlast, hflatten, hfinish⟩ := h.finish
  have hall : ∀ b ∈ blocks ++ last, b.length = 64 := by
    intro b hb
    rcases List.mem_append.mp hb with hb | hb
    · exact h.all b hb
    · exact hlast b hb
  have hcounter : ofBytes (wordBytes (input.foldl Stream.push {}).length_high ++
      wordBytes (input.foldl Stream.push {}).length_low) = bits 64 (8 * input.length) := by
    have hlow := (input.foldl Stream.push {}).length_low.toNat_lt
    rw [ofBytes_append, ofBytes_wordBytes, ofBytes_wordBytes, ← bits_congr h.counter]
    have h64 : 64 = 32 + 32 := rfl
    have hdiv : ((input.foldl Stream.push {}).length_high.toNat * 2 ^ 32 +
        (input.foldl Stream.push {}).length_low.toNat) / 2 ^ 32 =
        (input.foldl Stream.push {}).length_high.toNat := by omega
    rw [h64, bits_add, hdiv, bits_congr (n := _ * 2 ^ 32 + _) (Nat.mul_add_mod_self_right _ _ _)]
  rw [hfinish, toHash_processBlocks hall, hflatten, ofBytes_append, hcounter,
    ← Sha1.pad_ofBytes input hz]

/-! ## The digits -/

/-- The bytes of the digest. -/
def digestBytes (H : Registers) : List UInt8 := (List.range 20).map (hashByte H)

theorem ofBytes_digestBytes (H : Registers) : ofBytes (digestBytes H) = H.toHash.toBits := by
  have hbytes : digestBytes H =
      wordBytes H.A ++ wordBytes H.B ++ wordBytes H.C ++ wordBytes H.D ++ wordBytes H.E := by
    have hamount : ∀ i < 20, (3 - UInt32.ofNat i &&& 3) <<< 3 = UInt32.ofNat (8 * (3 - i % 4)) := by
      decide
    have hmap : digestBytes H = (List.range 20).map fun i =>
        (H.toList.getD (i >>> 2) 0 >>> UInt32.ofNat (8 * (3 - i % 4))).toUInt8 := by
      refine List.map_congr_left fun i hi => ?_
      rw [hashByte, hamount i (List.mem_range.mp hi)]
    rw [hmap]
    simp [Registers.toList, List.range, List.range.loop, wordBytes]
  rw [hbytes, ofBytes_append, ofBytes_append, ofBytes_append, ofBytes_append, ofBytes_wordBytes,
    ofBytes_wordBytes, ofBytes_wordBytes, ofBytes_wordBytes, ofBytes_wordBytes]
  rfl

/-- Pairs that are written from the last to the first. -/
theorem write_pairs (d e : ℕ → UInt8) (n : ℕ) {b : List UInt8} (h : 2 * n ≤ b.length) :
    (List.range n).reverse.foldl (fun b i => (b.set (i <<< 1) (d i)).set ((i <<< 1) + 1) (e i)) b =
      (List.range n).flatMap (fun i => [d i, e i]) ++ b.drop (2 * n) := by
  induction n generalizing b with
  | zero => rfl
  | succ n ih =>
    have hshift : n <<< 1 = 2 * n := by
      rw [Nat.shiftLeft_eq]
      ring
    have hlen : 2 * n ≤ ((b.set (n <<< 1) (d n)).set ((n <<< 1) + 1) (e n)).length := by
      rw [List.length_set, List.length_set]
      omega
    rw [List.range_succ, List.reverse_append, List.reverse_singleton, List.singleton_append,
      List.foldl_cons, ih hlen, hshift, List.flatMap_append, List.append_assoc]
    congr 1
    have h0 : 2 * n < b.length := by omega
    have h1 : 2 * n + 1 < b.length := by omega
    rw [List.drop_set, if_neg (by omega), Nat.add_sub_cancel_left, List.drop_set,
      if_neg (lt_irrefl _), Nat.sub_self, List.drop_eq_getElem_cons h0, List.drop_eq_getElem_cons h1]
    rfl

theorem hexstring_eq (H : Registers) : hexstring H = (digestBytes H).flatMap fun byte : UInt8 =>
    [hexDigits.getD (byte >>> 4).toNat 0, hexDigits.getD (byte &&& 15).toNat 0] := by
  have hlen : 2 * 20 ≤ (List.replicate 41 (0 : UInt8)).length := by decide
  rw [hexstring, digestBytes, List.flatMap_map]
  dsimp only
  rw [write_pairs (fun i => hexDigits.getD (hashByte H i >>> 4).toNat 0)
    (fun i => hexDigits.getD (hashByte H i &&& 15).toNat 0) 20 hlen, List.take_left']
  simp only [List.length_flatMap, List.length_cons, List.length_nil, List.map_const',
    List.length_range, List.sum_replicate]
  rfl

theorem hexDigits_byte (byte : UInt8) :
    [hexDigits.getD (byte >>> 4).toNat 0, hexDigits.getD (byte &&& 15).toNat 0] =
      [hexDigit (byte.toNat / 16), hexDigit (byte.toNat % 16)] := by
  have hall : ∀ n < 16, hexDigits.getD n 0 = hexDigit n := by decide
  have hlt := byte.toNat_lt
  have hhigh : (byte >>> 4).toNat = byte.toNat / 16 := by
    rw [UInt8.toNat_shiftRight]
    exact Nat.shiftRight_eq_div_pow _ 4
  have hlow : (byte &&& 15).toNat = byte.toNat % 16 := by
    rw [UInt8.toNat_and]
    exact Nat.and_two_pow_sub_one_eq_mod _ 4
  rw [hhigh, hlow, hall _ (by omega), hall _ (Nat.mod_lt _ (Nat.succ_pos 15))]

/-- The text that comes out is the SHA-1 digest in lowercase hexadecimal digits. -/
theorem transformToSHA1_eq_hex (input : List UInt8) :
    transformToSHA1 input = hex (Sha1.digest (ofBytes input)) := by
  rw [Sha1.digest, ← toHash_finish, ← ofBytes_digestBytes, hex_ofBytes, transformToSHA1,
    hexstring_eq]
  exact List.flatMap_congr fun byte _ => hexDigits_byte byte

example : transformToSHA1 ("abc".toList.map Char.toUInt8) =
    "a9993e364706816aba3e25717850c26c9cd0d89d".toList.map Char.toUInt8 := by decide +kernel

end OTServBR.SHA1

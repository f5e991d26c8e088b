import OTServBR.Lib.Hotp
import OTServBR.Account.Digest

/-! # The tokens of the authenticator

A token is a one-time password for a count of ticks. The keyed hash is put
together from texts of hexadecimal digits, which are read back with the
library's conversion.
-/

namespace OTServBR.Authenticator

open BitString SHA1

def AUTHENTICATOR_DIGITS : ℕ := 6

/-! ## Reading hexadecimal digits -/

def digitValue (ch : UInt8) : Option ℕ :=
  if '0'.toUInt8 ≤ ch ∧ ch ≤ '9'.toUInt8 then some (ch.toNat - '0'.toNat)
  else if 'a'.toUInt8 ≤ ch ∧ ch ≤ 'f'.toUInt8 then some (ch.toNat - 'a'.toNat + 10)
  else if 'A'.toUInt8 ≤ ch ∧ ch ≤ 'F'.toUInt8 then some (ch.toNat - 'A'.toNat + 10)
  else none

def isSpace (ch : UInt8) : Bool := ch == 32 || 9 ≤ ch && ch ≤ 13

/-- An optional sign; `true` for a minus. -/
def takeSign : List UInt8 → Bool × List UInt8
  | ch :: str =>
    if ch = '-'.toUInt8 then (true, str) else if ch = '+'.toUInt8 then (false, str)
    else (false, ch :: str)
  | [] => (false, [])

/-- `0x` or `0X` in front of a digit. -/
def dropPrefix : List UInt8 → List UInt8
  | zero :: x :: d :: str =>
    if zero = '0'.toUInt8 ∧ (x = 'x'.toUInt8 ∨ x = 'X'.toUInt8) ∧ (digitValue d).isSome then
      d :: str
    else zero :: x :: d :: str
  | str => str

/-- `std::stol(str, nullptr, 16)` with a `long` of 64 bits; `none` when it throws. -/
def stol (str : List UInt8) : Option ℤ :=
  let (negative, str) := takeSign (str.dropWhile isSpace)
  let digits := ((dropPrefix str).takeWhile fun ch => (digitValue ch).isSome).filterMap digitValue
  if digits = [] then none
  else
    let magnitude : ℕ := digits.foldl (fun n d => 16 * n + d) 0
    let value : ℤ := if negative then -(magnitude : ℤ) else magnitude
    if -2 ^ 63 ≤ value ∧ value < 2 ^ 63 then some value else none

/-! ## The token -/

/-- `for (uint8_t i = 8; --i; ticks >>= 8)` -/
def ticksMessage (ticks : UInt32) : List UInt8 :=
  ((List.range' 1 7).reverse.foldl
    (fun (s : List UInt8 × UInt32) i => (s.1.set i (s.2 &&& 0xFF).toUInt8, s.2 >>> 8))
    (List.replicate 8 0, ticks)).1

/-- One of the two pads, with the key mixed into it. -/
def keyPad (fill : UInt8) (key : List UInt8) : List UInt8 :=
  (List.range key.length).foldl (fun pad i => pad.set i (pad.getD i 0 ^^^ key.getD i 0))
    (List.replicate 64 fill)

/-- The loop over the digits of a hash, two at a time. -/
def pushBytes (pad : List UInt8) : List UInt8 → Option (List UInt8)
  | [] => some pad
  | [a] => do
    let v ← stol [a]
    some (pad ++ [UInt8.ofInt v])
  | a :: b :: message => do
    let v ← stol [a, b]
    pushBytes (pad ++ [UInt8.ofInt v]) message

def truncateHash (message : List UInt8) : Option UInt32 := do
  let offset := UInt32.ofInt (← stol ((message.drop 39).take 1)) &&& 0xF
  let truncHash := UInt32.ofInt (← stol ((message.drop (2 * offset.toNat)).take 8)) &&& 0x7FFFFFFF
  some truncHash

/-- The last digits, filled up with zeros. -/
def lastDigits (message : List UInt8) : List UInt8 :=
  let hashLen := message.length
  List.replicate (AUTHENTICATOR_DIGITS - min hashLen AUTHENTICATOR_DIGITS) '0'.toUInt8 ++
    message.drop (hashLen - min hashLen AUTHENTICATOR_DIGITS)

/-- `none` where a conversion throws, and for keys that are longer than the pads. -/
def generateToken (key : List UInt8) (ticks : UInt32) : Option (List UInt8) := do
  guard (key.length ≤ 64)
  let message := ticksMessage ticks
  let iKeyPad := keyPad 0x36 key ++ message
  let message := transformToSHA1 iKeyPad
  let oKeyPad ← pushBytes (keyPad 0x5C key) message
  let message := transformToSHA1 oKeyPad
  let truncHash ← truncateHash message
  let message := (Nat.toDigits 10 truncHash.toNat).map Char.toUInt8
  some (lastDigits message)

/-! ## Texts of hexadecimal digits -/

theorem digitValue_hexDigit {d : ℕ} (hd : d < 16) : digitValue (hexDigit d) = some d := by
  have hall : ∀ d < 16, digitValue (hexDigit d) = some d := by decide
  exact hall d hd

/-- The bits that a list of digits stands for. -/
def digitBits (ds : List ℕ) : List Bool := ds.flatMap (bits 4)

theorem length_digitBits (ds : List ℕ) : (digitBits ds).length = 4 * ds.length := by
  induction ds with
  | nil => rfl
  | cons d ds ih =>
    rw [digitBits, List.flatMap_cons, List.length_append, length_bits, ← digitBits, ih,
      List.length_cons]
    ring

theorem foldl_digits {ds : List ℕ} (hds : ∀ d ∈ ds, d < 16) (n : ℕ) :
    ds.foldl (fun n d => 16 * n + d) n = n * 2 ^ (4 * ds.length) + value (digitBits ds) := by
  induction ds generalizing n with
  | nil => simp [digitBits]
  | cons d ds ih =>
    have hd : d % 2 ^ 4 = d := Nat.mod_eq_of_lt (hds d List.mem_cons_self)
    rw [List.foldl_cons, ih fun e he => hds e (List.mem_cons_of_mem _ he), digitBits, digitBits,
      List.flatMap_cons, value_append, value_bits, hd, ← digitBits, length_digitBits,
      List.length_cons]
    ring

/-- Hexadecimal digits are read as they stand: nothing in front of them is skipped. -/
theorem stol_hexDigits {ds : List ℕ} (hne : ds ≠ []) (hds : ∀ d ∈ ds, d < 16)
    (hlen : ds.length ≤ 15) :
    stol (ds.map hexDigit) = some (value (digitBits ds) : ℤ) := by
  have hspace : ∀ d < 16, isSpace (hexDigit d) = false := by decide
  have hsign : ∀ d < 16, hexDigit d ≠ '-'.toUInt8 ∧ hexDigit d ≠ '+'.toUInt8 := by decide
  have hx : ∀ d < 16, hexDigit d ≠ 'x'.toUInt8 ∧ hexDigit d ≠ 'X'.toUInt8 := by decide
  have hdrop : (ds.map hexDigit).dropWhile isSpace = ds.map hexDigit := by
    cases ds with
    | nil => rfl
    | cons d ds =>
      rw [List.map_cons, List.dropWhile_cons_of_neg]
      rw [hspace d (hds d List.mem_cons_self)]
      exact Bool.false_ne_true
  have htake : takeSign (ds.map hexDigit) = (false, ds.map hexDigit) := by
    cases ds with
    | nil => rfl
    | cons d ds =>
      obtain ⟨hminus, hplus⟩ := hsign d (hds d List.mem_cons_self)
      rw [List.map_cons, takeSign, if_neg hminus, if_neg hplus]
  have hfront : dropPrefix (ds.map hexDigit) = ds.map hexDigit := by
    match ds, hds with
    | [], _ => rfl
    | [_], _ => rfl
    | [_, _], _ => rfl
    | _ :: x :: _ :: _, hds =>
      obtain ⟨hlow, hup⟩ := hx x (hds x (List.mem_cons_of_mem _ List.mem_cons_self))
      rw [List.map_cons, List.map_cons, List.map_cons, dropPrefix, if_neg]
      rintro ⟨-, h | h, -⟩
      · exact hlow h
      · exact hup h
  have hall : (ds.map hexDigit).takeWhile (fun ch => (digitValue ch).isSome) = ds.map hexDigit := by
    refine List.takeWhile_eq_self_iff.mpr fun ch hch => ?_
    obtain ⟨d, hd, rfl⟩ := List.mem_map.mp hch
    rw [digitValue_hexDigit (hds d hd)]
    rfl
  have hvalues : (ds.map hexDigit).filterMap digitValue = ds := by
    rw [List.filterMap_map]
    conv_rhs => rw [← List.filterMap_some (l := ds)]
    exact List.filterMap_congr fun d hd => digitValue_hexDigit (hds d hd)
  have hvalue := foldl_digits hds 0
  rw [Nat.zero_mul, Nat.zero_add] at hvalue
  have hlt : value (digitBits ds) < 2 ^ 60 := by
    have hlt' := value_lt (l := digitBits ds)
    rw [length_digitBits] at hlt'
    exact hlt'.trans_le (Nat.pow_le_pow_right (Nat.succ_pos 1) (by omega))
  rw [stol, hdrop, htake]
  dsimp only
  rw [hfront, hall, hvalues, if_neg hne, hvalue, if_neg Bool.false_ne_true, if_pos]
  constructor <;> omega

/-- The digits of a byte string. -/
def nibbles (bytes : List UInt8) : List ℕ :=
  bytes.flatMap fun byte => [byte.toNat / 16, byte.toNat % 16]

theorem nibbles_lt {bytes : List UInt8} : ∀ d ∈ nibbles bytes, d < 16 := by
  intro d hd
  obtain ⟨byte, -, hmem⟩ := List.mem_flatMap.mp hd
  have hlt := byte.toNat_lt
  rcases List.mem_cons.mp hmem with rfl | hmem
  · omega
  · rw [List.mem_singleton.mp hmem]
    omega

theorem digitBits_nibbles (bytes : List UInt8) : digitBits (nibbles bytes) = ofBytes bytes := by
  rw [digitBits, nibbles, List.flatMap_assoc, ofBytes]
  refine List.flatMap_congr fun byte _ => ?_
  have h8 : bits 8 byte.toNat = bits 4 (byte.toNat / 2 ^ 4) ++ bits 4 byte.toNat :=
    bits_add (v := 4) (w := 4)
  have hmod : bits 4 (byte.toNat % 2 ^ 4) = bits 4 byte.toNat := bits_mod
  rw [h8, ← hmod]
  rfl

theorem length_nibbles (bytes : List UInt8) : (nibbles bytes).length = 2 * bytes.length := by
  have h := congrArg List.length (digitBits_nibbles bytes)
  rw [length_digitBits, length_ofBytes] at h
  omega

theorem stol_nibbles {bytes : List UInt8} (hne : bytes ≠ []) (hlen : bytes.length ≤ 7) :
    stol ((nibbles bytes).map hexDigit) = some (value (ofBytes bytes) : ℤ) := by
  have hdigits : nibbles bytes ≠ [] := by
    intro h
    have hzero := length_nibbles bytes
    rw [h, List.length_nil] at hzero
    exact hne (List.length_eq_zero_iff.mp (by omega))
  rw [stol_hexDigits hdigits nibbles_lt (by rw [length_nibbles]; omega), digitBits_nibbles]

theorem drop_nibbles (bytes : List UInt8) (n : ℕ) :
    (nibbles bytes).drop (2 * n) = nibbles (bytes.drop n) := by
  induction n generalizing bytes with
  | zero => rfl
  | succ n ih =>
    cases bytes with
    | nil => rfl
    | cons byte bytes => exact ih bytes

theorem take_nibbles (bytes : List UInt8) (n : ℕ) :
    (nibbles bytes).take (2 * n) = nibbles (bytes.take n) := by
  induction n generalizing bytes with
  | zero => rfl
  | succ n ih =>
    cases bytes with
    | nil => rfl
    | cons byte bytes => exact congrArg (byte.toNat / 16 :: byte.toNat % 16 :: ·) (ih bytes)

/-- SHA-1 from byte strings to byte strings. -/
def sha1 (bytes : List UInt8) : List UInt8 := toBytes (Sha1.digest (ofBytes bytes))

theorem ofBytes_sha1 (bytes : List UInt8) :
    ofBytes (sha1 bytes) = Sha1.digest (ofBytes bytes) := by
  refine ofBytes_toBytes ?_
  rw [Sha1.digest, Sha1.Hash.toBits]
  simp only [List.length_append, length_bits]
  decide

theorem length_sha1 (bytes : List UInt8) : (sha1 bytes).length = 20 := by
  have h := congrArg List.length (ofBytes_sha1 bytes)
  rw [length_ofBytes, Sha1.digest, Sha1.Hash.toBits] at h
  simp only [List.length_append, length_bits] at h
  omega

theorem transformToSHA1_eq_nibbles (bytes : List UInt8) :
    transformToSHA1 bytes = (nibbles (sha1 bytes)).map hexDigit := by
  rw [transformToSHA1_eq_hex, ← ofBytes_sha1, hex_ofBytes, nibbles, List.map_flatMap]
  rfl

/-! ## The keyed hash -/

/-- The digits of a hash become its bytes. -/
theorem pushBytes_nibbles (pad bytes : List UInt8) :
    pushBytes pad ((nibbles bytes).map hexDigit) = some (pad ++ bytes) := by
  induction bytes generalizing pad with
  | nil => exact congrArg some (List.append_nil pad).symm
  | cons byte bytes ih =>
    have hpair : [hexDigit (byte.toNat / 16), hexDigit (byte.toNat % 16)] =
        (nibbles [byte]).map hexDigit := rfl
    have hstol : stol [hexDigit (byte.toNat / 16), hexDigit (byte.toNat % 16)] =
        some (byte.toNat : ℤ) := by
      rw [hpair, stol_nibbles (List.cons_ne_nil _ _) (by rw [List.length_singleton]; decide),
        ofBytes_cons, ofBytes_nil, List.append_nil, value_bits, Nat.mod_eq_of_lt byte.toNat_lt]
    have hbyte : UInt8.ofInt (byte.toNat : ℤ) = byte := by
      rw [UInt8.ofInt, ← UInt8.toNat_inj, UInt8.toNat_ofNat']
      have := byte.toNat_lt
      omega
    have hcons : (nibbles (byte :: bytes)).map hexDigit = hexDigit (byte.toNat / 16) ::
        hexDigit (byte.toNat % 16) :: (nibbles bytes).map hexDigit := rfl
    rw [hcons, pushBytes, hstol, Option.bind_eq_bind, Option.bind_some, hbyte, ih,
      List.append_assoc]
    rfl

theorem keyPad_eq (fill : UInt8) {key : List UInt8} (hkey : key.length ≤ 64) :
    keyPad fill key = (Hotp.blockKey sha1 64 key).map (· ^^^ fill) := by
  have hloop : ∀ n ≤ key.length,
      (List.range n).foldl (fun pad i => pad.set i (pad.getD i 0 ^^^ key.getD i 0))
        (List.replicate 64 fill) =
      (key.take n).map (· ^^^ fill) ++ List.replicate (64 - n) fill := by
    intro n hn
    induction n with
    | zero => rfl
    | succ n ih =>
      have hlen : ((key.take n).map (· ^^^ fill)).length = n := by
        rw [List.length_map, List.length_take]
        omega
      have hrest : List.replicate (64 - n) fill = fill :: List.replicate (64 - (n + 1)) fill := by
        rw [← List.replicate_succ]
        congr 1
        omega
      have hget : key.getD n 0 = key[n] := List.getD_eq_getElem _ _ (by omega)
      rw [List.range_succ, List.foldl_append, ih (by omega), List.foldl_cons, List.foldl_nil, hrest,
        List.getD_append_right _ _ _ _ hlen.le, hlen, Nat.sub_self, List.getD_cons_zero,
        List.set_append_right _ _ hlen.le, hlen, Nat.sub_self, List.set_cons_zero,
        List.take_succ_eq_append_getElem (by omega), List.map_append, List.append_assoc, hget,
        UInt8.xor_comm]
      rfl
  have hzero : (0 : UInt8) ^^^ fill = fill := UInt8.zero_xor
  rw [keyPad, hloop _ le_rfl, List.take_length, Hotp.blockKey, if_neg (Nat.not_lt.mpr hkey),
    List.map_append, List.map_replicate, hzero]

/-- The loop writes the bytes of the ticks from the last to the first. -/
theorem ticks_loop (ticks : UInt32) {n : ℕ} (hn : n ≤ 7) :
    let s := ((List.range n).map (7 - ·)).foldl
      (fun (s : List UInt8 × UInt32) i => (s.1.set i (s.2 &&& 0xFF).toUInt8, s.2 >>> 8))
      (List.replicate 8 0, ticks)
    s.1 = List.replicate (8 - n) 0 ++ toBytes (bits (8 * n) ticks.toNat) ∧
      s.2.toNat = ticks.toNat / 2 ^ (8 * n) := by
  induction n with
  | zero =>
    refine ⟨?_, (Nat.div_one _).symm⟩
    rw [Nat.mul_zero, bits_zero_left]
    rfl
  | succ n ih =>
    obtain ⟨ihmessage, ihticks⟩ := ih (by omega)
    rw [List.range_succ, List.map_append, List.foldl_append]
    generalize ((List.range n).map (7 - ·)).foldl _ _ = s at ihmessage ihticks
    have hzeros : List.replicate (8 - n) (0 : UInt8) = List.replicate (7 - n) 0 ++ [0] := by
      rw [← List.replicate_succ']
      congr 1
      omega
    have hlen : (List.replicate (7 - n) (0 : UInt8)).length = 7 - n := List.length_replicate
    have hbyte : (s.2 &&& 0xFF).toUInt8 = UInt8.ofNat (ticks.toNat / 2 ^ (8 * n)) := by
      rw [← ihticks, ← UInt8.toNat_inj, UInt32.toNat_toUInt8, UInt32.toNat_and, UInt8.toNat_ofNat']
      have hmask : s.2.toNat &&& (0xFF : UInt32).toNat = s.2.toNat % 2 ^ 8 :=
        Nat.and_two_pow_sub_one_eq_mod _ 8
      rw [hmask, Nat.mod_mod]
    constructor
    · have hbits : bits (8 * (n + 1)) ticks.toNat =
          bits 8 (ticks.toNat / 2 ^ (8 * n)) ++ bits (8 * n) ticks.toNat := by
        rw [← bits_add, Nat.mul_succ, Nat.add_comm]
      have hsub : 8 - (n + 1) = 7 - n := by omega
      rw [List.map_singleton, List.foldl_cons, List.foldl_nil, ihmessage, hzeros, hbyte, hbits,
        toBytes_bits_append, List.append_assoc, List.set_append_right _ _ hlen.le, hlen, Nat.sub_self,
        hsub]
      rfl
    · rw [List.map_singleton, List.foldl_cons, List.foldl_nil, UInt32.toNat_shiftRight, ihticks]
      have h8 : (8 : UInt32).toNat % 32 = 8 := rfl
      rw [h8, Nat.shiftRight_eq_div_pow, Nat.div_div_eq_div_mul, ← Nat.pow_add, Nat.mul_succ]

theorem ticksMessage_eq (ticks : UInt32) :
    ticksMessage ticks = toBytes (bits 64 ticks.toNat) := by
  have hlt := ticks.toNat_lt
  have h64 : bits 64 ticks.toNat = bits 8 (ticks.toNat / 2 ^ 56) ++ bits 56 ticks.toNat :=
    bits_add (v := 8) (w := 56)
  have horder : (List.range' 1 7).reverse = (List.range 7).map (7 - ·) := by decide
  rw [ticksMessage, horder, (ticks_loop ticks le_rfl).1, h64, toBytes_bits_append,
    Nat.div_eq_of_lt (hlt.trans (by decide))]
  rfl

/-! ## The truncation -/

theorem toNat_ofInt_and {v n : ℕ} {mask : UInt32} (hv : v < 2 ^ 32)
    (hmask : mask.toNat = 2 ^ n - 1) : (UInt32.ofInt (v : ℤ) &&& mask).toNat = v % 2 ^ n := by
  have hint : (UInt32.ofInt (v : ℤ)).toNat = v := by
    rw [UInt32.ofInt, UInt32.toNat_ofNat']
    omega
  rw [UInt32.toNat_and, hint, hmask, Nat.and_two_pow_sub_one_eq_mod]

theorem truncateHash_nibbles {hs : List UInt8} (hlen : hs.length = 20) :
    ∃ t, truncateHash ((nibbles hs).map hexDigit) = some t ∧ t.toNat = Hotp.truncate hs := by
  have hlast : hs.drop 19 = [hs.getD 19 0] := by
    rw [List.drop_eq_getElem_cons (by omega), List.getD_eq_getElem _ _ (by omega),
      List.drop_eq_nil_of_le (by omega)]
  have hlt : (hs.getD 19 0).toNat % 16 < 16 := Nat.mod_lt _ (Nat.succ_pos 15)
  -- the last digit says where the four bytes are
  have hdigit : (((nibbles hs).map hexDigit).drop 39).take 1 =
      [(hs.getD 19 0).toNat % 16].map hexDigit := by
    have h38 : 39 = 2 * 19 + 1 := rfl
    rw [← List.map_drop, h38, ← List.drop_drop, drop_nibbles, hlast]
    rfl
  have hoffset : stol [hexDigit ((hs.getD 19 0).toNat % 16)] =
      some (((hs.getD 19 0).toNat % 16 : ℕ) : ℤ) := by
    have hstol := stol_hexDigits (List.cons_ne_nil ((hs.getD 19 0).toNat % 16) [])
      (fun d hd => by rwa [List.mem_singleton.mp hd]) (Nat.le_add_left 1 14)
    have hmod : (hs.getD 19 0).toNat % 16 % 2 ^ 4 = (hs.getD 19 0).toNat % 16 :=
      Nat.mod_eq_of_lt hlt
    rw [digitBits, List.flatMap_singleton, value_bits, hmod] at hstol
    exact hstol
  generalize hn : (hs.getD 19 0).toNat % 16 = n at hdigit hoffset hlt
  have hmask : (UInt32.ofInt (n : ℤ) &&& 0xF).toNat = n := by
    have hmod : n % 2 ^ 4 = n := Nat.mod_eq_of_lt hlt
    rw [toNat_ofInt_and (n := 4) (by omega) rfl, hmod]
  have hfour : (((nibbles hs).map hexDigit).drop (2 * n)).take 8 =
      (nibbles ((hs.drop n).take 4)).map hexDigit := by
    have h8 : 8 = 2 * 4 := rfl
    rw [← List.map_drop, drop_nibbles, ← List.map_take, h8, take_nibbles]
  have hbytes : ((hs.drop n).take 4).length = 4 := by
    rw [List.length_take, List.length_drop]
    omega
  have hvalue : value (ofBytes ((hs.drop n).take 4)) < 2 ^ 32 := by
    have hlt' := value_lt (l := ofBytes ((hs.drop n).take 4))
    rwa [length_ofBytes, hbytes] at hlt'
  have hne : (hs.drop n).take 4 ≠ [] := List.ne_nil_of_length_eq_add_one hbytes
  refine ⟨UInt32.ofInt (value (ofBytes ((hs.drop n).take 4)) : ℤ) &&& 0x7FFFFFFF, ?_, ?_⟩
  · rw [truncateHash, hdigit, List.map_singleton, hoffset, Option.bind_eq_bind, Option.bind_some]
    dsimp only
    rw [hmask, hfour, stol_nibbles hne (by omega), Option.bind_some]
  · rw [toNat_ofInt_and hvalue (n := 31) rfl, Hotp.truncate, hn]

/-- The token is the one-time password of six digits for the keyed hash with SHA-1. -/
theorem generateToken_eq_hotp (key : List UInt8) (ticks : UInt32) (hkey : key.length ≤ 64) :
    generateToken key ticks = some (Hotp.decimal 6 (Hotp.hotp sha1 6 key ticks.toNat)) := by
  have hfit : ∀ text : List UInt8, lastDigits text = Hotp.fit 6 text := fun _ => rfl
  obtain ⟨t, ht, hvalue⟩ := truncateHash_nibbles (length_sha1 (keyPad 0x5C key ++
    sha1 (keyPad 0x36 key ++ ticksMessage ticks)))
  have hguard : (guard (key.length ≤ 64) : Option Unit) = some () := if_pos hkey
  rw [generateToken, hguard, Option.bind_eq_bind, Option.bind_some]
  dsimp only
  rw [transformToSHA1_eq_nibbles, pushBytes_nibbles, Option.bind_eq_bind, Option.bind_some, transformToSHA1_eq_nibbles, ht, Option.bind_eq_bind, Option.bind_some, hfit, Hotp.fit_toDigits, hvalue, ← Hotp.decimal_mod,
    keyPad_eq _ hkey, keyPad_eq _ hkey, ticksMessage_eq]
  rfl

theorem generateToken_eq_hotp_short : generateToken [49, 50, 51] 7 =
    some (Hotp.decimal 6 (Hotp.hotp sha1 6 [49, 50, 51] 7)) :=
  generateToken_eq_hotp [49, 50, 51] 7 (by decide)

end OTServBR.Authenticator

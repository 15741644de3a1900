import Mathlib.Data.Nat.Bitwise
import Quagga.Bgpd.Nlri

/-!
# Prefixes as bit strings

A prefix stands for its first `prefixlen` bits (`Prefix.bits`); the bits behind them are of no
account, though they need not be zero. The source works with bytes and masks. `prefix_match`
compares whole bytes and then the last one under a mask: it finds whether the one bit string is the
beginning of the other (`prefixMatch_iff`). `route_common` goes through equal bytes and then looks
for the first bit that differs, which gives the common beginning of the two (`routeCommon_bits`).
-/

set_option autoImplicit false

namespace Quagga.Bgpd

/-! ## Bytes and bits -/

variable (p : Prefix)

/-- A byte of the address. -/
def Prefix.byte (i : Nat) : UInt8 := p.bytes.getD i 0

/-- The length in bits. -/
def Prefix.length : Nat := p.prefixlen.toNat

/-- `prefix_bit`. -/
def prefixBit (prefixlen : Nat) : Bool :=
  ((p.byte (prefixlen / 8)).toNat >>> (7 - prefixlen % 8)) &&& 1 = 1

/-- The table `maskbit`. -/
def maskbit : List UInt8 := [0x00, 0x80, 0xc0, 0xe0, 0xf0, 0xf8, 0xfc, 0xfe, 0xff]

/-- `prefix_match`. -/
def prefixMatch (n p : Prefix) : Bool :=
  let offset := n.length / 8
  let shift := n.length % 8
  if n.length > p.length then false
  else if shift ≠ 0 ∧ maskbit.getD shift 0 &&& (n.byte offset ^^^ p.byte offset) ≠ 0 then false
  else (List.range offset).all fun i => n.byte i = p.byte i

/-- The first loop of `route_common`: the number of bytes that are equal at the beginning. -/
def commonBytes (n p : Prefix) : Nat → Nat → Nat
  | 0, i => i
  | bytes + 1, i => if n.byte i = p.byte i then commonBytes n p bytes (i + 1) else i

/-- The second loop of `route_common`: move on until the mask meets a bit that differs. -/
def commonBits (diff : UInt8) : Nat → UInt8 → Nat → Nat
  | 0, _, prefixlen => prefixlen
  | bits + 1, mask, prefixlen =>
    if mask &&& diff = 0 then commonBits diff bits (mask >>> 1) (prefixlen + 1) else prefixlen

/-- `route_common`. The bytes that are not written are zero. -/
def routeCommon (n p : Prefix) : Prefix :=
  let i := commonBytes n p (p.length / 8) 0
  if i * 8 = p.length then
    { prefixlen := UInt8.ofNat (i * 8), bytes := (List.range i).map n.byte }
  else
    let prefixlen := commonBits (n.byte i ^^^ p.byte i) (p.length - i * 8) 0x80 (i * 8)
    { prefixlen := UInt8.ofNat prefixlen
      bytes := (List.range i).map n.byte ++ [n.byte i &&& maskbit.getD (prefixlen % 8) 0] }

/-- The bits of a prefix. -/
def Prefix.bits : List Bool := (List.range p.length).map (prefixBit p)

@[simp] theorem Prefix.length_bits : p.bits.length = p.length := by
  simp [Prefix.bits]

/-- A bit of a byte, the highest one first. -/
def byteBit (byte : UInt8) (j : Nat) : Bool := byte.toNat.testBit (7 - j)

theorem prefixBit_eq (i : Nat) : prefixBit p i = byteBit (p.byte (i / 8)) (i % 8) := by
  unfold prefixBit byteBit
  rw [Nat.testBit_eq_decide_div_mod_eq, Nat.shiftRight_eq_div_pow, Nat.and_one_is_mod]

theorem byte_eq_iff (a b : UInt8) : a = b ↔ ∀ j < 8, byteBit a j = byteBit b j := by
  refine ⟨fun same j _ => by rw [same], fun same => ?_⟩
  refine UInt8.toNat_inj.mp (Nat.eq_of_testBit_eq fun k => ?_)
  by_cases small : k < 8
  · have bit := same (7 - k) (by omega)
    unfold byteBit at bit
    rwa [show 7 - (7 - k) = k by omega] at bit
  · have high : 2 ^ 8 ≤ 2 ^ k := Nat.pow_le_pow_right (by omega) (by omega)
    rw [Nat.testBit_lt_two_pow (Nat.lt_of_lt_of_le a.toNat_lt high),
      Nat.testBit_lt_two_pow (Nat.lt_of_lt_of_le b.toNat_lt high)]

theorem byteBit_xor (a b : UInt8) (j : Nat) : byteBit (a ^^^ b) j = (byteBit a j ^^ byteBit b j) := by
  unfold byteBit
  rw [UInt8.toNat_xor, Nat.testBit_xor]

theorem byteBit_and (a b : UInt8) (j : Nat) : byteBit (a &&& b) j = (byteBit a j && byteBit b j) := by
  unfold byteBit
  rw [UInt8.toNat_and, Nat.testBit_and]

theorem byteBit_maskbit {shift j : Nat} (small : shift ≤ 8) (inByte : j < 8) :
    byteBit (maskbit.getD shift 0) j = decide (j < shift) := by
  have all : ∀ shift < 9, ∀ j < 8, byteBit (maskbit.getD shift 0) j = decide (j < shift) := by
    decide
  exact all shift (by omega) j inByte

/-- A mask meets no difference exactly if the bits under it agree. -/
theorem maskbit_and_eq_zero {shift : Nat} (small : shift ≤ 8) (a b : UInt8) :
    maskbit.getD shift 0 &&& (a ^^^ b) = 0 ↔ ∀ j < shift, byteBit a j = byteBit b j := by
  rw [byte_eq_iff]
  constructor
  · intro zero j under
    have bit := zero j (by omega)
    rw [byteBit_and, byteBit_maskbit small (by omega), byteBit_xor, decide_eq_true under] at bit
    have none : byteBit 0 j = false := by simp [byteBit]
    rw [none] at bit
    simpa using bit
  · intro same j inByte
    have none : byteBit 0 j = false := by simp [byteBit]
    rw [byteBit_and, byteBit_maskbit small inByte, byteBit_xor, none]
    by_cases under : j < shift
    · simp [same j under]
    · simp [under]

/-! ## Beginnings -/

variable {n p : Prefix}

theorem map_range_prefix_iff {f g : Nat → Bool} {n m : Nat} :
    (List.range n).map f <+: (List.range m).map g ↔ n ≤ m ∧ ∀ i < n, f i = g i := by
  rw [List.prefix_iff_getElem]
  simp only [List.length_map, List.length_range, List.getElem_map, List.getElem_range]
  exact ⟨fun ⟨le, same⟩ => ⟨le, same⟩, fun ⟨le, same⟩ => ⟨le, same⟩⟩

theorem bits_prefix_iff :
    n.bits <+: p.bits ↔ n.length ≤ p.length ∧ ∀ i < n.length, prefixBit n i = prefixBit p i :=
  map_range_prefix_iff

theorem bytes_agree_iff {bytes : Nat} :
    (∀ i < bytes, n.byte i = p.byte i) ↔ ∀ i < bytes * 8, prefixBit n i = prefixBit p i := by
  constructor
  · intro same i before
    rw [prefixBit_eq, prefixBit_eq, same (i / 8) (by omega)]
  · intro same i before
    refine (byte_eq_iff _ _).mpr fun j inByte => ?_
    have bit := same (8 * i + j) (by omega)
    rwa [prefixBit_eq, prefixBit_eq, show (8 * i + j) / 8 = i by omega,
      show (8 * i + j) % 8 = j by omega] at bit

theorem last_byte_agree_iff {offset shift : Nat} (small : shift ≤ 8) :
    (∀ j < shift, byteBit (n.byte offset) j = byteBit (p.byte offset) j) ↔
      ∀ i, offset * 8 ≤ i → i < offset * 8 + shift → prefixBit n i = prefixBit p i := by
  constructor
  · intro same i above below
    have bit := same (i - offset * 8) (by omega)
    rwa [prefixBit_eq, prefixBit_eq, show i / 8 = offset by omega,
      show i % 8 = i - offset * 8 by omega]
  · intro same j inByte
    have bit := same (offset * 8 + j) (by omega) (by omega)
    rwa [prefixBit_eq, prefixBit_eq, show (offset * 8 + j) / 8 = offset by omega,
      show (offset * 8 + j) % 8 = j by omega] at bit

/-- **`prefix_match` finds whether the bits of the one prefix are the beginning of those of the
other.** -/
theorem prefixMatch_iff (n p : Prefix) : prefixMatch n p = true ↔ n.bits <+: p.bits := by
  rw [bits_prefix_iff]
  unfold prefixMatch
  by_cases longer : n.length > p.length
  · rw [if_pos longer]
    exact iff_of_false Bool.false_ne_true fun both => by omega
  · have within : n.length ≤ p.length := by omega
    rw [if_neg longer, and_iff_right within]
    have split : (∀ i < n.length, prefixBit n i = prefixBit p i) ↔
        (∀ i < n.length / 8, n.byte i = p.byte i) ∧
          maskbit.getD (n.length % 8) 0 &&& (n.byte (n.length / 8) ^^^ p.byte (n.length / 8)) = 0 := by
      rw [bytes_agree_iff, maskbit_and_eq_zero (by omega), last_byte_agree_iff (by omega)]
      refine ⟨fun same => ⟨fun i _ => same i (by omega), fun i _ _ => same i (by omega)⟩,
        fun ⟨whole, last⟩ i before => ?_⟩
      by_cases early : i < n.length / 8 * 8
      · exact whole i early
      · exact last i (by omega) (by omega)
    have none : maskbit.getD 0 0 &&& (n.byte (n.length / 8) ^^^ p.byte (n.length / 8)) = 0 := by
      simp [maskbit]
    rw [split]
    by_cases differs : maskbit.getD (n.length % 8) 0 &&&
        (n.byte (n.length / 8) ^^^ p.byte (n.length / 8)) = 0
    · rw [if_neg fun bad => bad.2 differs, and_iff_left differs]
      simp
    · have partly : n.length % 8 ≠ 0 := fun zero => differs (by rw [zero]; exact none)
      rw [if_pos ⟨partly, differs⟩]
      exact iff_of_false Bool.false_ne_true fun both => differs both.2

/-! ## The common beginning -/

theorem commonBytes_spec (n p : Prefix) (bytes i : Nat) (same : ∀ k < i, n.byte k = p.byte k) :
    i ≤ commonBytes n p bytes i ∧ commonBytes n p bytes i ≤ i + bytes ∧
      (∀ k < commonBytes n p bytes i, n.byte k = p.byte k) ∧
      (commonBytes n p bytes i < i + bytes →
        n.byte (commonBytes n p bytes i) ≠ p.byte (commonBytes n p bytes i)) := by
  induction bytes generalizing i with
  | zero => exact ⟨Nat.le_refl _, Nat.le_refl _, same, fun below => absurd below (Nat.lt_irrefl _)⟩
  | succ bytes ih =>
    rw [commonBytes]
    split_ifs with equal
    · have more : ∀ k < i + 1, n.byte k = p.byte k := by
        intro k below
        rcases Nat.lt_succ_iff_lt_or_eq.mp below with before | rfl
        · exact same k before
        · exact equal
      obtain ⟨above, below, agree, differs⟩ := ih (i + 1) more
      exact ⟨by omega, by omega, agree, fun less => differs (by omega)⟩
    · exact ⟨Nat.le_refl _, by omega, same, fun _ => equal⟩

/-- The mask that meets one bit of a byte. -/
def bitMask (j : Nat) : UInt8 := UInt8.ofNat (128 / 2 ^ j)

theorem bitMask_shift {j : Nat} (inByte : j < 8) : bitMask j >>> 1 = bitMask (j + 1) := by
  have all : ∀ j < 8, bitMask j >>> 1 = bitMask (j + 1) := by decide
  exact all j inByte

theorem byteBit_bitMask {j k : Nat} (inByte : j < 8) (inByte' : k < 8) :
    byteBit (bitMask j) k = decide (k = j) := by
  have all : ∀ j < 8, ∀ k < 8, byteBit (bitMask j) k = decide (k = j) := by decide
  exact all j inByte k inByte'

theorem bitMask_and_eq_zero {j : Nat} (inByte : j < 8) (a b : UInt8) :
    bitMask j &&& (a ^^^ b) = 0 ↔ byteBit a j = byteBit b j := by
  have none : ∀ k, byteBit 0 k = false := fun k => by simp [byteBit]
  rw [byte_eq_iff]
  constructor
  · intro zero
    have bit := zero j inByte
    rw [byteBit_and, byteBit_bitMask inByte inByte, byteBit_xor, none] at bit
    simpa using bit
  · intro same k inByte'
    rw [byteBit_and, byteBit_bitMask inByte inByte', byteBit_xor, none]
    by_cases here : k = j
    · subst here
      simp [same]
    · simp [here]

/-- The second loop stops at the first bit of the byte that differs, or when there are no more bits
to look at, where one of the two happens before the byte ends. -/
theorem commonBits_spec (a b : UInt8) (base : Nat) :
    ∀ (bits j : Nat), j ≤ 8 → (∀ k < j, byteBit a k = byteBit b k) →
      (j + bits ≤ 8 ∨ ∃ k, j ≤ k ∧ k < 8 ∧ byteBit a k ≠ byteBit b k) →
      ∃ s, commonBits (a ^^^ b) bits (bitMask j) (base + j) = base + s ∧ s ≤ j + bits ∧ s ≤ 8 ∧
        (∀ k < s, byteBit a k = byteBit b k) ∧
        (s < j + bits → s < 8 ∧ byteBit a s ≠ byteBit b s) := by
  intro bits
  induction bits with
  | zero =>
    intro j small same _
    exact ⟨j, rfl, Nat.le_refl _, small, same, fun less => absurd less (Nat.lt_irrefl _)⟩
  | succ bits ih =>
    intro j small same ends
    have inByte : j < 8 := by
      rcases ends with short | ⟨k, above, below, -⟩ <;> omega
    rw [commonBits]
    by_cases equal : byteBit a j = byteBit b j
    · rw [if_pos ((bitMask_and_eq_zero inByte a b).mpr equal), bitMask_shift inByte]
      have more : ∀ k < j + 1, byteBit a k = byteBit b k := by
        intro k below
        rcases Nat.lt_succ_iff_lt_or_eq.mp below with before | rfl
        · exact same k before
        · exact equal
      have later : j + 1 + bits ≤ 8 ∨ ∃ k, j + 1 ≤ k ∧ k < 8 ∧ byteBit a k ≠ byteBit b k := by
        rcases ends with short | ⟨k, above, below, differs⟩
        · exact .inl (by omega)
        · refine .inr ⟨k, ?_, below, differs⟩
          rcases Nat.eq_or_lt_of_le above with rfl | above
          · exact absurd equal differs
          · exact above
      obtain ⟨s, stops, below, within, agree, differs⟩ := ih (j + 1) inByte more later
      exact ⟨s, stops, by omega, within, agree, fun less => differs (by omega)⟩
    · rw [if_neg fun zero => equal ((bitMask_and_eq_zero inByte a b).mp zero)]
      exact ⟨j, rfl, by omega, small, same, fun _ => ⟨inByte, equal⟩⟩

/-- The common beginning of two prefixes. -/
structure CommonBits (n p c : Prefix) : Prop where
  length_le : c.length ≤ p.length
  same : ∀ i < c.length, prefixBit n i = prefixBit p i
  bits : ∀ i < c.length, prefixBit c i = prefixBit n i
  differ : c.length < p.length → prefixBit n c.length ≠ prefixBit p c.length

theorem Prefix.length_le (p : Prefix) : p.length ≤ 255 := by
  have := p.prefixlen.toNat_lt
  unfold Prefix.length
  omega

theorem length_ofNat {prefixlen : Nat} {bytes : List UInt8} (small : prefixlen ≤ 255) :
    Prefix.length { prefixlen := UInt8.ofNat prefixlen, bytes := bytes } = prefixlen := by
  unfold Prefix.length
  rw [UInt8.toNat_ofNat']
  omega

theorem prefixBit_of_byte {c : Prefix} {i : Nat} (same : c.byte (i / 8) = n.byte (i / 8)) :
    prefixBit c i = prefixBit n i := by
  rw [prefixBit_eq, prefixBit_eq, same]

theorem byte_map_range {n : Prefix} {bytes i : Nat} {prefixlen : UInt8} {last : List UInt8}
    (inside : i < bytes) :
    Prefix.byte { prefixlen := prefixlen, bytes := (List.range bytes).map n.byte ++ last } i =
      n.byte i := by
  unfold Prefix.byte
  rw [List.getD_append _ _ _ _ (by simpa using inside)]
  simp [List.getElem?_range inside]

theorem byte_last {bytes : Nat} {prefixlen last : UInt8} :
    Prefix.byte { prefixlen := prefixlen, bytes := (List.range bytes).map n.byte ++ [last] } bytes =
      last := by
  unfold Prefix.byte
  simp

/-- **`route_common` gives the common beginning.** -/
theorem routeCommon_spec (n p : Prefix) : CommonBits n p (routeCommon n p) := by
  obtain ⟨-, below, agree, differs⟩ := commonBytes_spec n p (p.length / 8) 0 (by omega)
  rw [Nat.zero_add] at below differs
  unfold routeCommon
  generalize commonBytes n p (p.length / 8) 0 = i at below agree differs ⊢
  have short := p.length_le
  have whole := bytes_agree_iff.mp agree
  by_cases full : i * 8 = p.length
  · rw [if_pos full]
    have length : Prefix.length { prefixlen := UInt8.ofNat (i * 8)
                                  bytes := (List.range i).map n.byte } = i * 8 :=
      length_ofNat (by omega)
    refine ⟨by omega, ?_, ?_, fun less => absurd less (by omega)⟩
    · rw [length]
      exact whole
    · intro k before
      refine prefixBit_of_byte ?_
      have here := @byte_map_range n i (k / 8) (UInt8.ofNat (i * 8)) [] (by omega)
      rwa [List.append_nil] at here
  · rw [if_neg full]
    have inside : i < p.length / 8 → ∃ k, 0 ≤ k ∧ k < 8 ∧
        byteBit (n.byte i) k ≠ byteBit (p.byte i) k := by
      intro early
      by_contra none
      refine differs early ((byte_eq_iff _ _).mpr fun j inByte => ?_)
      by_contra unequal
      exact none ⟨j, Nat.zero_le j, inByte, unequal⟩
    have ends : 0 + (p.length - i * 8) ≤ 8 ∨ ∃ k, 0 ≤ k ∧ k < 8 ∧
        byteBit (n.byte i) k ≠ byteBit (p.byte i) k := by
      by_cases early : i < p.length / 8
      · exact .inr (inside early)
      · exact .inl (by omega)
    obtain ⟨s, stops, within, -, agreeBits, differsBit⟩ :=
      commonBits_spec (n.byte i) (p.byte i) (i * 8) (p.length - i * 8) 0 (by omega) (by omega) ends
    have inByte : s < 8 := by
      by_cases early : i < p.length / 8
      · obtain ⟨k, -, below, unequal⟩ := inside early
        by_contra all
        exact unequal (agreeBits k (by omega))
      · omega
    have stops : commonBits (n.byte i ^^^ p.byte i) (p.length - i * 8) 0x80 (i * 8) = i * 8 + s := stops
    rw [stops]
    have last := (last_byte_agree_iff (by omega)).mp agreeBits
    have length : ∀ bytes, Prefix.length { prefixlen := UInt8.ofNat (i * 8 + s), bytes := bytes } =
        i * 8 + s := fun bytes => length_ofNat (by omega)
    refine ⟨by rw [length]; omega, ?_, ?_, ?_⟩
    · rw [length]
      intro k before
      by_cases early : k < i * 8
      · exact whole k early
      · exact last k (by omega) before
    · rw [length]
      intro k before
      by_cases early : k < i * 8
      · exact prefixBit_of_byte (byte_map_range (by omega))
      · rw [prefixBit_eq, prefixBit_eq, show k / 8 = i by omega, byte_last, byteBit_and,
          byteBit_maskbit (by omega) (by omega), decide_eq_true (by omega), Bool.and_true]
    · rw [length]
      intro less
      obtain ⟨-, unequal⟩ := differsBit (by omega)
      rw [prefixBit_eq, prefixBit_eq, show (i * 8 + s) / 8 = i by omega,
        show (i * 8 + s) % 8 = s by omega]
      exact unequal

theorem CommonBits.greatest {c : Prefix} (common : CommonBits n p c) {k : List Bool}
    (first : k <+: n.bits) (second : k <+: p.bits) : k <+: c.bits := by
  by_cases longer : c.length < k.length
  · have le := second.length_le
    rw [Prefix.length_bits] at le
    refine absurd ?_ (common.differ (by omega))
    have read : ∀ q : Prefix, k <+: q.bits → prefixBit q c.length = k[c.length] := by
      intro q begins
      have bit := List.prefix_iff_getElem?.mp begins c.length longer
      have inside : c.length < q.length := by
        have := begins.length_le
        rw [Prefix.length_bits] at this
        omega
      simpa [Prefix.bits, List.getElem?_range inside] using bit
    rw [read n first, read p second]
  · have begins : c.bits <+: p.bits := bits_prefix_iff.mpr ⟨common.length_le, fun i before =>
      (common.bits i before).trans (common.same i before)⟩
    exact List.prefix_of_prefix_length_le second begins (by simp; omega)

/-- A prefix whose bits go on with a bit that the source reads at its end. -/
theorem bits_concat_prefix_iff {bit : Bool} :
    n.bits ++ [bit] <+: p.bits ↔
      n.bits <+: p.bits ∧ n.length < p.length ∧ prefixBit p n.length = bit := by
  have grown : n.bits ++ [bit] =
      (List.range (n.length + 1)).map fun i => if i < n.length then prefixBit n i else bit := by
    rw [List.range_succ, List.map_append, List.map_singleton, if_neg (Nat.lt_irrefl _)]
    congr 1
    refine List.map_congr_left fun i mem => ?_
    rw [if_pos (List.mem_range.mp mem)]
  rw [bits_prefix_iff, grown]
  refine Iff.trans map_range_prefix_iff ?_
  constructor
  · rintro ⟨longer, same⟩
    refine ⟨⟨by omega, fun i before => ?_⟩, by omega, ?_⟩
    · have bit := same i (by omega)
      rwa [if_pos before] at bit
    · have bit := same n.length (by omega)
      rw [if_neg (Nat.lt_irrefl _)] at bit
      exact bit.symm
  · rintro ⟨⟨-, same⟩, longer, next⟩
    refine ⟨longer, fun i before => ?_⟩
    by_cases early : i < n.length
    · rw [if_pos early]
      exact same i early
    · obtain rfl : i = n.length := by omega
      rw [if_neg early, next]

/-- **Where `n` does not cover `p`, their common beginning ends before `n` does.** Either it is `p`,
or the two go on from it with different bits. -/
theorem routeCommon_bits (apart : ¬ n.bits <+: p.bits) :
    (routeCommon n p).bits ++ [prefixBit n (routeCommon n p).length] <+: n.bits ∧
      ((routeCommon n p).length = p.length → (routeCommon n p).bits = p.bits) ∧
      ((routeCommon n p).length ≠ p.length →
        (routeCommon n p).bits ++ [!prefixBit n (routeCommon n p).length] <+: p.bits ∧
          prefixBit p (routeCommon n p).length = !prefixBit n (routeCommon n p).length) := by
  have common := routeCommon_spec n p
  generalize routeCommon n p = c at common ⊢
  have shorter : c.length < n.length := by
    by_contra long
    refine apart (bits_prefix_iff.mpr ⟨?_, fun i before => common.same i (by omega)⟩)
    have := common.length_le
    omega
  have covers : c.bits <+: p.bits :=
    bits_prefix_iff.mpr ⟨common.length_le, fun i before =>
      (common.bits i before).trans (common.same i before)⟩
  refine ⟨bits_concat_prefix_iff.mpr ⟨?_, shorter, rfl⟩, fun equal => ?_, fun unequal => ?_⟩
  · exact bits_prefix_iff.mpr ⟨shorter.le, common.bits⟩
  · exact covers.eq_of_length (by simpa using equal)
  · have less : c.length < p.length := by
      have := common.length_le
      omega
    have next : prefixBit p c.length = !prefixBit n c.length := by
      have differ := common.differ less
      revert differ
      cases prefixBit n c.length <;> cases prefixBit p c.length <;> simp
    exact ⟨bits_concat_prefix_iff.mpr ⟨covers, less, next⟩, next⟩

end Quagga.Bgpd

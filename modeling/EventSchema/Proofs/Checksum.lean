import EventSchema.Checksum
import Mathlib.Logic.Function.Iterate

/-!
# What a checksum tells apart

A shift of the remainder is linear in exclusive or and loses nothing (`shiftBits_xor`,
`shiftBits_injective`), so four bytes at most are taken in as one word that is put onto the remainder
before all its shifts (`toBitVec_foldl_feed`). Two texts of one length that differ, but within four
consecutive bytes only, therefore have different checksums (`crc32_ne_of_withinWord`).
-/

namespace EventSchema.Checksum

/-! ## Shifts -/

/-- What a set bit that is shifted out leaves behind. -/
def polynomial : BitVec 32 := 0xEDB88320#32

/-- `shift`, bit by bit. -/
def shiftBits (c : BitVec 32) : BitVec 32 :=
  if c.getLsbD 0 = true then (c >>> 1) ^^^ polynomial else c >>> 1

theorem shiftBits_of_set {c : BitVec 32} (h : c.getLsbD 0 = true) :
    shiftBits c = (c >>> 1) ^^^ polynomial := if_pos h

theorem shiftBits_of_clear {c : BitVec 32} (h : c.getLsbD 0 = false) : shiftBits c = c >>> 1 :=
  if_neg (by rw [h]; decide)

theorem and_one_eq_one_iff (c : UInt32) : c &&& 1 = 1 ↔ c.toBitVec.getLsbD 0 = true := by
  rw [← UInt32.toBitVec_inj, UInt32.toBitVec_and]
  change c.toBitVec &&& 1#32 = 1#32 ↔ _
  rw [BitVec.and_one_eq_setWidth_ofBool_getLsbD]
  cases c.toBitVec.getLsbD 0 <;> decide

theorem toBitVec_shift (c : UInt32) : (shift c).toBitVec = shiftBits c.toBitVec := by
  rw [shift, shiftBits]
  simp only [and_one_eq_one_iff]
  split <;> simp [polynomial]

theorem shiftBits_xor (a b : BitVec 32) : shiftBits (a ^^^ b) = shiftBits a ^^^ shiftBits b := by
  have hbit : (a ^^^ b).getLsbD 0 = (a.getLsbD 0 ^^ b.getLsbD 0) := BitVec.getLsbD_xor
  have hshift : (a ^^^ b) >>> 1 = (a >>> 1) ^^^ (b >>> 1) := BitVec.ushiftRight_xor_distrib a b 1
  cases ha : a.getLsbD 0 with
  | false =>
    cases hb : b.getLsbD 0 with
    | false =>
      rw [shiftBits_of_clear ha, shiftBits_of_clear hb, ← hshift]
      exact shiftBits_of_clear (by rw [hbit, ha, hb]; rfl)
    | true =>
      rw [shiftBits_of_clear ha, shiftBits_of_set hb, ← BitVec.xor_assoc, ← hshift]
      exact shiftBits_of_set (by rw [hbit, ha, hb]; rfl)
  | true =>
    cases hb : b.getLsbD 0 with
    | false =>
      rw [shiftBits_of_set ha, shiftBits_of_clear hb, BitVec.xor_assoc,
        BitVec.xor_comm polynomial, ← BitVec.xor_assoc, ← hshift]
      exact shiftBits_of_set (by rw [hbit, ha, hb]; rfl)
    | true =>
      -- the polynomial comes in twice and goes out again
      have hcancel : (a >>> 1) ^^^ polynomial ^^^ ((b >>> 1) ^^^ polynomial) =
          (a >>> 1) ^^^ (b >>> 1) := by
        rw [BitVec.xor_comm (b >>> 1), BitVec.xor_assoc, ← BitVec.xor_assoc polynomial,
          BitVec.xor_self, BitVec.zero_xor]
      rw [shiftBits_of_set ha, shiftBits_of_set hb, hcancel, ← hshift]
      exact shiftBits_of_clear (by rw [hbit, ha, hb]; rfl)

/-- The highest bit after a shift tells whether the lowest one was set. -/
theorem getLsbD_shiftBits (c : BitVec 32) : (shiftBits c).getLsbD 31 = c.getLsbD 0 := by
  have hhigh : (c >>> 1).getLsbD 31 = false := by simp
  cases hlow : c.getLsbD 0 with
  | false => rw [shiftBits_of_clear hlow, hhigh]
  | true =>
    rw [shiftBits_of_set hlow, BitVec.getLsbD_xor, hhigh]
    decide

theorem shiftBits_eq_zero {c : BitVec 32} (h : shiftBits c = 0#32) : c = 0#32 := by
  have hlow : c.getLsbD 0 = false := by
    rw [← getLsbD_shiftBits, h, BitVec.getLsbD_zero]
  rw [shiftBits_of_clear hlow] at h
  refine BitVec.eq_of_getLsbD_eq fun i hi => ?_
  cases i with
  | zero => rw [hlow, BitVec.getLsbD_zero]
  | succ i =>
    have hbit : (c >>> 1).getLsbD i = false := by rw [h, BitVec.getLsbD_zero]
    rw [BitVec.getLsbD_ushiftRight, Nat.add_comm] at hbit
    rw [hbit, BitVec.getLsbD_zero]

theorem shiftBits_injective : Function.Injective shiftBits := by
  intro a b h
  have hzero : shiftBits (a ^^^ b) = 0#32 := by
    rw [shiftBits_xor, h, BitVec.xor_self]
  exact BitVec.xor_eq_zero_iff.1 (shiftBits_eq_zero hzero)

theorem iterate_shiftBits_xor (n : Nat) (a b : BitVec 32) :
    shiftBits^[n] (a ^^^ b) = shiftBits^[n] a ^^^ shiftBits^[n] b := by
  induction n generalizing a b with
  | zero => rfl
  | succ n ih => rw [Function.iterate_succ_apply, shiftBits_xor, ih]; rfl

/-- Bits that are clear are shifted out without a trace. -/
theorem iterate_shiftBits_of_clear {n : Nat} {c : BitVec 32}
    (h : ∀ i < n, c.getLsbD i = false) : shiftBits^[n] c = c >>> n := by
  induction n with
  | zero => simp
  | succ n ih =>
    have hlow : (c >>> n).getLsbD 0 = false := by
      rw [BitVec.getLsbD_ushiftRight]
      exact h n (Nat.lt_succ_self n)
    rw [Function.iterate_succ_apply', ih fun i hi => h i (Nat.lt_succ_of_lt hi),
      shiftBits_of_clear hlow, ← BitVec.shiftRight_add]

/-! ## Bytes -/

/-- A byte as a word. -/
def byteBits (b : UInt8) : BitVec 32 := b.toBitVec.setWidth 32

theorem getLsbD_byteBits {b : UInt8} {i : Nat} (h : 8 ≤ i) : (byteBits b).getLsbD i = false := by
  rw [byteBits, BitVec.getLsbD_setWidth, BitVec.getLsbD_of_ge _ _ h, Bool.and_false]

theorem toBitVec_feed (c : UInt32) (b : UInt8) :
    (feed c b).toBitVec = shiftBits^[8] (c.toBitVec ^^^ byteBits b) := by
  simp only [feed, toBitVec_shift, UInt32.toBitVec_xor]
  rfl

theorem feed_injective (b : UInt8) : Function.Injective fun c => feed c b := by
  intro c d h
  have hbits : shiftBits^[8] (c.toBitVec ^^^ byteBits b) =
      shiftBits^[8] (d.toBitVec ^^^ byteBits b) := by
    rw [← toBitVec_feed, ← toBitVec_feed]
    exact congrArg UInt32.toBitVec h
  have hxor := shiftBits_injective.iterate 8 hbits
  exact UInt32.toBitVec_inj.1 ((BitVec.xor_left_inj _).1 hxor)

theorem foldl_feed_injective (t : Bytes) : Function.Injective fun c => t.foldl feed c := by
  induction t with
  | nil => exact Function.injective_id
  | cons b rest ih =>
    intro c d h
    exact feed_injective b (ih h)

/-! ## Words -/

/-- Some bytes as a word, the first one lowest. -/
def word : Bytes → BitVec 32
  | [] => 0#32
  | b :: rest => byteBits b ^^^ (word rest <<< 8)

theorem getLsbD_word {t : Bytes} {i : Nat} (h : 8 * t.length ≤ i) :
    (word t).getLsbD i = false := by
  induction t generalizing i with
  | nil => exact BitVec.getLsbD_zero
  | cons b rest ih =>
    rw [List.length_cons] at h
    have hrest : (word rest).getLsbD (i - 8) = false := ih (by omega)
    rw [word, BitVec.getLsbD_xor, getLsbD_byteBits (by omega), BitVec.getLsbD_shiftLeft, hrest]
    simp

/-- A word of three bytes at most can be moved up by one and down again. -/
theorem word_shiftLeft_shiftRight {t : Bytes} (h : t.length ≤ 3) :
    (word t <<< 8) >>> 8 = word t := by
  refine BitVec.eq_of_getLsbD_eq fun i hi => ?_
  rw [BitVec.getLsbD_ushiftRight, BitVec.getLsbD_shiftLeft]
  by_cases hlow : 8 + i < 32
  · simp [hlow]
  · have hhigh : (word t).getLsbD i = false := getLsbD_word (by omega)
    simpa [hlow] using hhigh

/-- **Four bytes at most are taken in as one word.** -/
theorem toBitVec_foldl_feed {t : Bytes} (h : t.length ≤ 4) (c : UInt32) :
    (t.foldl feed c).toBitVec = shiftBits^[8 * t.length] (c.toBitVec ^^^ word t) := by
  induction t generalizing c with
  | nil => simp [word]
  | cons b rest ih =>
    rw [List.length_cons] at h
    have hclear : ∀ i < 8, (word rest <<< 8).getLsbD i = false := by
      intro i hi
      simp [BitVec.getLsbD_shiftLeft, hi]
    have hmoved : shiftBits^[8] (word rest <<< 8) = word rest := by
      rw [iterate_shiftBits_of_clear hclear, word_shiftLeft_shiftRight (by omega)]
    calc ((b :: rest).foldl feed c).toBitVec
        = shiftBits^[8 * rest.length] ((feed c b).toBitVec ^^^ word rest) :=
          ih (by omega) (feed c b)
      _ = shiftBits^[8 * rest.length]
            (shiftBits^[8] (c.toBitVec ^^^ byteBits b) ^^^ shiftBits^[8] (word rest <<< 8)) := by
          rw [toBitVec_feed, hmoved]
      _ = shiftBits^[8 * rest.length] (shiftBits^[8] (c.toBitVec ^^^ word (b :: rest))) := by
          rw [← iterate_shiftBits_xor, BitVec.xor_assoc]
          rfl
      _ = shiftBits^[8 * (b :: rest).length] (c.toBitVec ^^^ word (b :: rest)) := by
          rw [← Function.iterate_add_apply]
          rfl

theorem byteBits_injective : Function.Injective byteBits := by
  intro a b h
  have hsame : (byteBits a).setWidth 8 = (byteBits b).setWidth 8 := by rw [h]
  simpa [byteBits, UInt8.toBitVec_inj] using hsame

theorem word_injective {s t : Bytes} (hlength : s.length = t.length) (h : s.length ≤ 4)
    (hword : word s = word t) : s = t := by
  induction s generalizing t with
  | nil => simpa [eq_comm] using hlength
  | cons a s ih =>
    cases t with
    | nil => cases hlength
    | cons b t =>
      rw [List.length_cons] at h
      have hlengths : s.length = t.length := by simpa using hlength
      rw [word, word] at hword
      have hbyte : a = b := by
        refine byteBits_injective (BitVec.eq_of_getLsbD_eq fun i hi => ?_)
        by_cases hlow : i < 8
        · have hbit := congrArg (fun x => x.getLsbD i) hword
          simpa [BitVec.getLsbD_xor, BitVec.getLsbD_shiftLeft, hlow] using hbit
        · rw [getLsbD_byteBits (by omega), getLsbD_byteBits (by omega)]
      subst hbyte
      have hrest : word s <<< 8 = word t <<< 8 := (BitVec.xor_right_inj _).1 hword
      have hwords : word s = word t := by
        rw [← word_shiftLeft_shiftRight (t := s) (by omega), hrest,
          word_shiftLeft_shiftRight (by omega)]
      rw [ih hlengths (by omega) hwords]

/-! ## Checksums -/

/-- Two texts of one length that are the same but for four consecutive bytes at most. -/
def WithinWord (s t : Bytes) : Prop :=
  ∃ before a b after, s = before ++ a ++ after ∧ t = before ++ b ++ after ∧
    a.length = b.length ∧ a.length ≤ 4

/-- **A difference within four consecutive bytes is seen.** -/
theorem crc32_ne_of_withinWord {s t : Bytes} (h : WithinWord s t) (hne : s ≠ t) :
    crc32 s ≠ crc32 t := by
  obtain ⟨before, a, b, after, rfl, rfl, hlength, hfour⟩ := h
  intro hcrc
  refine hne ?_
  have hfold : (before ++ a ++ after).foldl feed 0xFFFFFFFF =
      (before ++ b ++ after).foldl feed 0xFFFFFFFF := by
    rw [crc32, crc32] at hcrc
    exact (UInt32.xor_left_inj _).1 hcrc
  simp only [List.foldl_append] at hfold
  have hmiddle := congrArg UInt32.toBitVec (foldl_feed_injective after hfold)
  have hfour' : b.length ≤ 4 := by omega
  rw [toBitVec_foldl_feed (t := a) hfour, toBitVec_foldl_feed (t := b) hfour', hlength] at hmiddle
  have hwords : word a = word b :=
    (BitVec.xor_right_inj _).1 (shiftBits_injective.iterate _ hmiddle)
  rw [word_injective hlength hfour hwords]

end EventSchema.Checksum

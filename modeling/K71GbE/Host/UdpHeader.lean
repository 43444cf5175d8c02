/-
This file is about the header that `tge_build_udp` writes: its checksum, as a receiver
checks it, and its lengths.

The receiver reads the bytes two by two, the first one as the high byte. The code
folds the sum of the header once, and the complement of that completes the header
unless the fold itself carries.
-/

import K71GbE.Clocked.OnesComplement
import K71GbE.Host.Tge

namespace K71GbE.Host

open Clocked

/-- The big-endian words of some bytes. -/
def bigEndian16 : List (BitVec 8) → List (BitVec 16)
  | high :: low :: rest => (high ++ low) :: bigEndian16 rest
  | _ => []

theorem append_parts (word : BitVec 16) : part 8 word 1 ++ part 8 word 0 = word := by
  ext bit small
  simp only [BitVec.getElem_append, part, BitVec.getElem_extractLsb']
  split_ifs <;> rw [BitVec.getLsbD_eq_getElem] <;> congr 1 <;> omega

/-- In network order the receiver reads the words that were written. -/
theorem bigEndian16_bytes16 (host : Endian) (buf : List (BitVec 16)) :
    bigEndian16 (bytes16 host (conv16networkEndian host buf)) = buf := by
  induction buf with
  | nil => rfl
  | cons word rest inductionHypothesis =>
    have bytes : store host 2 (hton host 2 word) = [part 8 word 1, part 8 word 0] :=
      store_hton host word rfl
    unfold bytes16 conv16networkEndian at inductionHypothesis ⊢
    rw [List.map_cons, List.flatMap_cons, bytes]
    exact congrArg₂ List.cons (append_parts word) inductionHypothesis

/-- The words of an IPv4 header behind the addresses of the frame are complete, and the lengths of
the datagram agree with the frame. -/
structure HeaderValid (words : List (BitVec 16)) (nbytes : Nat) : Prop where
  sum : onesSum ((words.drop 7).take 10) = BitVec.allOnes 16
  total : 14 + (words.getD 8 0).toNat = nbytes
  udp : 20 + 14 + (words.getD 19 0).toNat = nbytes

theorem toNat_and_ffff {w : Nat} (wide : 16 ≤ w) (x : BitVec w) :
    (x &&& 0xffff).toNat = x.toNat % 2 ^ 16 := by
  have mask : (0xffff : BitVec w).toNat = 2 ^ 16 - 1 := by
    have more : 2 ^ 16 ≤ 2 ^ w := Nat.pow_le_pow_right (by decide) wide
    exact (BitVec.toNat_ofNat _ _).trans (Nat.mod_eq_of_lt (Nat.lt_of_lt_of_le (by decide) more))
  rw [BitVec.toNat_and, mask, Nat.and_two_pow_sub_one_eq_mod]

/-- The low half of a word. -/
theorem toNat_low16 {w : Nat} (wide : 16 ≤ w) (x : BitVec w) :
    ((x &&& 0xffff).setWidth 16).toNat = x.toNat % 2 ^ 16 := by
  rw [BitVec.toNat_setWidth, toNat_and_ffff wide, Nat.mod_mod]

/-- A sum in 32 bits. -/
theorem foldl_plainSum (words : List (BitVec 16)) (sum : BitVec 32) :
    (words.foldl (fun checksum word => checksum + word.setWidth 32) sum).toNat =
      (sum.toNat + plainSum words) % 2 ^ 32 := by
  induction words generalizing sum with
  | nil => exact (Nat.mod_eq_of_lt sum.isLt).symm
  | cons word rest inductionHypothesis =>
    have whole : (word.setWidth 32).toNat = word.toNat :=
      BitVec.toNat_setWidth_of_le (by decide)
    rw [List.foldl_cons, inductionHypothesis, BitVec.toNat_add, whole, plainSum_cons,
      Nat.mod_add_mod, Nat.add_assoc]

section Header

variable (srcMAC : BitVec 64) (srcIP : BitVec 32) (srcPort : BitVec 16) (dstMAC : BitVec 64)
  (dstIP : BitVec 32) (dstPort : BitVec 16) (dataLen : BitVec 64)

/-- The sum of the header's words without the checksum. -/
def headerSum : Nat :=
  0x4500 + (dataLen.toNat + 34) + 0x4011 + srcIP.toNat / 2 ^ 16 + srcIP.toNat % 2 ^ 16 +
    dstIP.toNat / 2 ^ 16 + dstIP.toNat % 2 ^ 16

theorem word16_high (x : BitVec 32) : (word16 x 2).toNat = x.toNat / 2 ^ 16 := by
  rw [word16, toNat_low16 (by decide), BitVec.toNat_ushiftRight, Nat.shiftRight_eq_div_pow]
  exact Nat.mod_eq_of_lt (Nat.div_lt_of_lt_mul x.isLt)

theorem word16_low (x : BitVec 32) : (word16 x 0).toNat = x.toNat % 2 ^ 16 := by
  rw [word16, toNat_low16 (by decide), BitVec.toNat_ushiftRight, Nat.zero_mul]
  rfl

variable {dataLen} in
/-- Both lengths of the datagram are written in full. -/
theorem toNat_lengths (fits : 34 + dataLen.toNat ≤ 65535) :
    (((dataLen + 8 + 6 + 20) &&& 0xffff).setWidth 16).toNat = dataLen.toNat + 34 ∧
      (((dataLen + 8 + 6) &&& 0xffff).setWidth 16).toNat = dataLen.toNat + 14 := by
  rw [toNat_low16 (by decide), toNat_low16 (by decide)]
  constructor <;> bv_omega

/-- The words of the header with any checksum. -/
theorem plainSum_header (fits : 34 + dataLen.toNat ≤ 65535) (check : BitVec 16) :
    plainSum ((((udpWords srcMAC srcIP srcPort dstMAC dstIP dstPort dataLen).set 12
        check).drop 7).take 10) = headerSum srcIP dstIP dataLen + check.toNat := by
  have literals : (0 : BitVec 16).toNat = 0 ∧ (0x4500 : BitVec 16).toNat = 0x4500 ∧
      (0x4011 : BitVec 16).toNat = 0x4011 := by decide
  simp only [plainSum, udpWords, List.set_cons_succ, List.set_cons_zero, List.drop_succ_cons,
    List.drop_zero, List.take_succ_cons, List.take_zero, List.map_cons, List.map_nil,
    List.sum_cons, List.sum_nil, word16_high, word16_low, (toNat_lengths fits).1, literals,
    headerSum]
  omega

/-- The code adds up the header, with the checksum left 0. -/
theorem toNat_checksum (fits : 34 + dataLen.toNat ≤ 65535) :
    (checksum (udpWords srcMAC srcIP srcPort dstMAC dstIP dstPort dataLen)).toNat =
      headerSum srcIP dstIP dataLen := by
  have first := srcIP.isLt
  have second := dstIP.isLt
  have sum : plainSum (((udpWords srcMAC srcIP srcPort dstMAC dstIP dstPort
      dataLen).drop 7).take 10) = headerSum srcIP dstIP dataLen + (0 : BitVec 16).toNat :=
    plainSum_header srcMAC srcIP srcPort dstMAC dstIP dstPort dataLen fits 0
  have zero : (0 : BitVec 32).toNat = 0 ∧ (0 : BitVec 16).toNat = 0 := by decide
  rw [checksum, foldl_plainSum, sum, zero.1, zero.2, Nat.zero_add, Nat.add_zero]
  refine Nat.mod_eq_of_lt ?_
  unfold headerSum
  omega

/-- It writes the complement of the folded sum. -/
theorem folded_eq (sum : BitVec 32) :
    (((sum >>> 16) &&& 0xffff) + (sum &&& 0xffff)).setWidth 16 =
      BitVec.ofNat 16 (fold 16 sum.toNat) := by
  have high : ((sum >>> 16) &&& 0xffff).toNat = sum.toNat / 2 ^ 16 := by
    rw [toNat_and_ffff (by decide), BitVec.toNat_ushiftRight, Nat.shiftRight_eq_div_pow]
    exact Nat.mod_eq_of_lt (Nat.div_lt_of_lt_mul sum.isLt)
  have small : sum.toNat / 2 ^ 16 < 2 ^ 16 := Nat.div_lt_of_lt_mul sum.isLt
  have folded : fold 16 sum.toNat < 2 ^ 32 := by
    have low : sum.toNat % 2 ^ 16 < 2 ^ 16 := Nat.mod_lt _ (by decide)
    rw [fold]
    omega
  refine BitVec.eq_of_toNat_eq ?_
  rw [BitVec.toNat_setWidth, BitVec.toNat_add, high, toNat_and_ffff (by decide),
    BitVec.toNat_ofNat, ← fold, Nat.mod_eq_of_lt folded]

/-- The complement of the folded sum is word 12 of the frame. -/
theorem tgeBuildUdp_eq (host : Endian) (fits : 34 + dataLen.toNat ≤ 65535) :
    tgeBuildUdp host srcMAC srcIP srcPort dstMAC dstIP dstPort dataLen =
      conv16networkEndian host ((udpWords srcMAC srcIP srcPort dstMAC dstIP dstPort dataLen).set 12
        (~~~BitVec.ofNat 16 (fold 16 (headerSum srcIP dstIP dataLen)))) := by
  rw [tgeBuildUdp]
  simp only [folded_eq, toNat_checksum _ _ _ _ _ _ _ fits]

/-- The header is valid exactly when folding its sum does not carry. -/
theorem tgeBuildUdp_valid_iff (host : Endian) (fits : 34 + dataLen.toNat ≤ 65535) :
    let frame := tgeBuildUdp host srcMAC srcIP srcPort dstMAC dstIP dstPort dataLen
    HeaderValid (bigEndian16 (bytes16 host frame)) (frame.length * 2 + dataLen.toNat) ↔
      headerSum srcIP dstIP dataLen / 2 ^ 16 + headerSum srcIP dstIP dataLen % 2 ^ 16 < 2 ^ 16 := by
  have first := srcIP.isLt
  have second := dstIP.isLt
  obtain ⟨total, udp⟩ := toNat_lengths fits
  have length :
      (tgeBuildUdp host srcMAC srcIP srcPort dstMAC dstIP dstPort dataLen).length = 24 := by
    rw [tgeBuildUdp_eq _ _ _ _ _ _ _ host fits, conv16networkEndian, List.length_map,
      List.length_set]
    rfl
  have complete := complement_completes_iff (by decide)
    (show 0 < headerSum srcIP dstIP dataLen by unfold headerSum; omega)
    (show headerSum srcIP dstIP dataLen < 2 ^ 16 * 2 ^ 16 by unfold headerSum; omega)
    (plainSum_header srcMAC srcIP srcPort dstMAC dstIP dstPort dataLen fits _)
  dsimp only
  rw [length, tgeBuildUdp_eq _ _ _ _ _ _ _ host fits, bigEndian16_bytes16]
  constructor
  · exact fun valid => complete.mp valid.sum
  · intro fold
    refine ⟨complete.mpr fold, ?_, ?_⟩
    · show 14 + (((dataLen + 8 + 6 + 20) &&& 0xffff).setWidth 16).toNat = _
      rw [total]
      omega
    · show 20 + 14 + (((dataLen + 8 + 6) &&& 0xffff).setWidth 16).toNat = _
      rw [udp]
      omega

end Header

/-- From 192.168.2.3 to 192.168.2.1 with 1024 bytes the fold does not carry. -/
theorem local_header_valid :
    let frame := tgeBuildUdp .little 0x000a35020203 0xc0a80203 0x1000 0x001b21020201
      0xc0a80201 0x2328 1024
    HeaderValid (bigEndian16 (bytes16 .little frame)) (frame.length * 2 + 1024) :=
  (tgeBuildUdp_valid_iff _ 0xc0a80203 _ _ 0xc0a80201 _ 1024 .little (by decide)).mpr (by decide)

/-- From 192.168.2.3 to 10.0.174.33 without data the words add up to `0x1ffff`. -/
theorem carry_lost :
    let frame := tgeBuildUdp .little 0x000a35020203 0xc0a80203 0x1000 0x001b21020201
      0x0a00ae21 0x2328 0
    ¬HeaderValid (bigEndian16 (bytes16 .little frame)) (frame.length * 2 + 0) := by
  intro frame valid
  exact absurd valid.sum (by decide)

end K71GbE.Host

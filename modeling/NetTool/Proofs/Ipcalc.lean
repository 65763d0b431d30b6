import NetTool.Ipcalc
import NetTool.Lib.Block
import NetTool.Lib.Inet6
import NetTool.Network
import Mathlib.Order.Interval.Set.Nat

/-!
# Networks of the address calculator

The masks stand for aligned blocks: a prefix and its mask give each other (`masks_round_trip`), and
what `get_ipv4_info` and `get_ipv6_info` report of a network are the ends of the block that an
address is in, and how many of its addresses are for hosts (`Ipv4Report`, `Ipv6Report`).
-/

namespace NetTool

open Bytes CInt Block Inet6

/-! ## Byte order -/

theorem getLsbD_htonl (x : BitVec 32) {i : ℕ} (hi : i < 32) :
    (htonl x).getLsbD i = x.getLsbD (24 - i / 8 * 8 + i % 8) := by
  simp only [htonl, BitVec.getLsbD_append, BitVec.getLsbD_extractLsb']
  by_cases h1 : i < 8
  · simp [h1, show 24 + i = 24 - i / 8 * 8 + i % 8 by omega]
  · by_cases h2 : i < 16
    · simp [h1, show i - 8 < 8 by omega, show 16 + (i - 8) = 24 - i / 8 * 8 + i % 8 by omega]
    · by_cases h3 : i < 24
      · simp [h1, show ¬ i - 8 < 8 by omega, show i - 8 - 8 < 8 by omega,
          show 8 + (i - 8 - 8) = 24 - i / 8 * 8 + i % 8 by omega]
      · simp [h1, show ¬ i - 8 < 8 by omega, show ¬ i - 8 - 8 < 8 by omega,
          show i - 8 - 8 - 8 = 24 - i / 8 * 8 + i % 8 by omega]
        exact fun _ => by omega

theorem htonl_htonl (x : BitVec 32) : htonl (htonl x) = x := by
  refine BitVec.eq_of_getLsbD_eq fun i hi => ?_
  rw [getLsbD_htonl _ hi, getLsbD_htonl _ (by omega)]
  congr 1
  omega

theorem htonl_and (x y : BitVec 32) : htonl (x &&& y) = htonl x &&& htonl y := by
  refine BitVec.eq_of_getLsbD_eq fun i hi => ?_
  simp only [getLsbD_htonl _ hi, BitVec.getLsbD_and]

theorem htonl_or (x y : BitVec 32) : htonl (x ||| y) = htonl x ||| htonl y := by
  refine BitVec.eq_of_getLsbD_eq fun i hi => ?_
  simp only [getLsbD_htonl _ hi, BitVec.getLsbD_or]

theorem htonl_not (x : BitVec 32) : htonl (~~~x) = ~~~htonl x := by
  refine BitVec.eq_of_getLsbD_eq fun i hi => ?_
  simp only [getLsbD_htonl _ hi, BitVec.getLsbD_not, hi,
    show 24 - i / 8 * 8 + i % 8 < 32 by omega]

/-- The bytes in memory are those of the number, the lowest first. -/
theorem byte_htonl (x : BitVec 32) {j : ℕ} (hj : j < 4) :
    (htonl x).toNat / 2 ^ (24 - 8 * j) % 256 = x.toNat / 2 ^ (8 * j) % 256 := by
  refine Nat.eq_of_testBit_eq fun i => ?_
  rw [show 256 = 2 ^ 8 from rfl, Nat.testBit_mod_two_pow, Nat.testBit_mod_two_pow,
    Nat.testBit_div_two_pow, Nat.testBit_div_two_pow, BitVec.testBit_toNat, BitVec.testBit_toNat]
  by_cases hi : i < 8
  · rw [getLsbD_htonl _ (by omega)]
    congr 2
    omega
  · simp [hi]

/-! ## Addresses as numbers -/

namespace in_addr

/-- The number of an address. -/
def host (a : in_addr) : ℕ := (ntohl a.s_addr).toNat

theorem host_lt (a : in_addr) : a.host < 2 ^ 32 := (ntohl a.s_addr).isLt

theorem host_inj {a b : in_addr} (h : a.host = b.host) : a = b := by
  have h1 : htonl a.s_addr = htonl b.s_addr := BitVec.eq_of_toNat_eq h
  rw [in_addr.mk.injEq, ← htonl_htonl a.s_addr, h1, htonl_htonl]

theorem byte_eq (a : in_addr) (n : ℕ) : a.byte n = a.host / 2 ^ n % 256 := by
  rw [byte, BitVec.toNat_and, BitVec.toNat_ushiftRight, Nat.shiftRight_eq_div_pow]
  exact Nat.and_two_pow_sub_one_eq_mod _ 8

theorem host_eq (a : in_addr) : a.host =
    2 ^ 24 * a.byte 24 + 2 ^ 16 * a.byte 16 + 2 ^ 8 * a.byte 8 + a.byte 0 := by
  have h := a.host_lt
  rw [byte_eq, byte_eq, byte_eq, byte_eq]
  omega

theorem value_bytes (a : in_addr) : value a.bytes = a.host := by
  have hbyte := fun j => @byte_htonl a.s_addr j
  have h0 := hbyte 0 (by omega)
  have h1 := hbyte 1 (by omega)
  have h2 := hbyte 2 (by omega)
  have h3 := hbyte 3 (by omega)
  simp only [Nat.reduceMul, Nat.reduceSub, Nat.reducePow, Nat.div_one] at h0 h1 h2 h3
  have h24 : a.s_addr.toNat / 65536 / 256 = a.s_addr.toNat / 16777216 :=
    Nat.div_div_eq_div_mul _ _ _
  rw [host_eq, byte_eq, byte_eq, byte_eq, byte_eq]
  simp only [bytes, le32, le16, List.cons_append, List.nil_append, value, List.length_cons,
    List.length_nil, UInt8.toNat_ofNat', host, ntohl, Nat.reducePow, Nat.div_one, h0, h1, h2,
    h3, h24]
  omega

@[simp] theorem length_bytes (a : in_addr) : a.bytes.length = 4 := rfl

theorem bytes_eq (a : in_addr) : a.bytes = bytesOf 4 a.host := by
  rw [← value_bytes, ← a.length_bytes, bytesOf_value]

theorem bytes_load (v : Vector UInt8 4) : (load v).bytes = v.toList := by
  have h := slice_overlay v.toList fun _ => 0
  rw [v.length_toList] at h
  rw [bytes, load, BitVec.toNat_ofNat, Nat.mod_eq_of_lt (get32_lt _ _), le32_get32]
  exact h

theorem host_load (v : Vector UInt8 4) : (load v).host = value v.toList := by
  rw [← value_bytes, bytes_load]

/-- The address with this number. -/
def ofHost (v : ℕ) : in_addr := ⟨htonl (BitVec.ofNat 32 v)⟩

variable {v : ℕ}

theorem host_ofHost (h : v < 2 ^ 32) : (ofHost v).host = v := by
  rw [host, ofHost, ntohl, htonl_htonl, BitVec.toNat_ofNat, Nat.mod_eq_of_lt h]

theorem eq_ofHost {a : in_addr} (h : a.host = v) : a = ofHost v :=
  host_inj (by rw [host_ofHost (h ▸ a.host_lt), h])

theorem text_ofHost (c : Libc) (h : v < 2 ^ 32) : (ofHost v).text c = c.ntop (bytesOf 4 v) := by
  rw [text, bytes_eq, host_ofHost h]

end in_addr

open in_addr

/-! ## Masks -/

section Masks

variable {p : ℕ}

theorem one_shl_eq {k : ℕ} (h : k < 32) : one_shl k = some (1#32 <<< k) := by
  rw [one_shl, if_pos (by omega), Int.toNat_natCast]

theorem not_one_shl_sub_one (k : ℕ) :
    ~~~((1#32 <<< k) - 1#32) = BitVec.allOnes 32 <<< k := by
  rw [← BitVec.not_neg, BitVec.not_not, ← BitVec.shiftLeft_neg, BitVec.neg_one_eq_allOnes]

theorem prefix2mask_eq (hp : p ≤ 32) : prefix2mask p = some ⟨htonl (mask 32 p)⟩ := by
  unfold prefix2mask
  split_ifs with h
  · have h0 : 0 < p := by omega
    rw [show (32 : ℤ) - p = (32 - p : ℕ) by omega, one_shl_eq (by omega), Option.map_some,
      not_one_shl_sub_one]
    rfl
  · rw [show p = 0 by omega]
    rfl

theorem netmask_eq (p : ℕ) : in_addr.mk (htonl (mask 32 p)) = ofHost (2 ^ 32 - 2 ^ (32 - p)) :=
  eq_ofHost (by rw [host, ntohl, htonl_htonl, toNat_mask])

theorem network_eq (a : in_addr) (p : ℕ) :
    in_addr.mk (a.s_addr &&& htonl (mask 32 p)) = ofHost (first (32 - p) a.host) := by
  refine eq_ofHost ?_
  rw [host, ntohl, htonl_and, htonl_htonl, toNat_and_mask]
  rfl

theorem broadcast_eq (a : in_addr) (p : ℕ) :
    in_addr.mk (a.s_addr &&& htonl (mask 32 p) ||| ~~~htonl (mask 32 p)) =
      ofHost (last (32 - p) a.host) := by
  refine eq_ofHost ?_
  rw [host, ntohl, htonl_or, htonl_and, htonl_not, htonl_htonl, toNat_or_not_mask]
  rfl

theorem prefix2mask_host (hp : p ≤ 32) :
    prefix2mask p = some (ofHost (2 ^ 32 - 2 ^ (32 - p))) := by
  rw [prefix2mask_eq hp, netmask_eq]

theorem calc_network_eq (hp : p ≤ 32) (a : in_addr) :
    calc_network a p = some (ofHost (first (32 - p) a.host)) := by
  rw [calc_network, prefix2mask_eq hp, Option.map_some, network_eq]

theorem calc_broadcast_eq (hp : p ≤ 32) (a : in_addr) :
    calc_broadcast a p = some (ofHost (last (32 - p) a.host)) := by
  rw [calc_broadcast, prefix2mask_eq hp, Option.map_some, broadcast_eq]

theorem two_pow_sub_one_succ (n : ℕ) : 2 ^ (n + 1) - 1 = 2 * (2 ^ n - 1) + 1 := by
  have hpos := Nat.two_pow_pos n
  rw [pow_succ]
  omega

/-- Behind a one, ones up to the end are counted. -/
theorem bit_count_loop_true : ∀ (i : ℕ) (c : ℤ),
    (∀ n : ℕ, i = 2 ^ n - 1 → bit_count_loop i c true = c + n) ∧
      ((∀ n : ℕ, i ≠ 2 ^ n - 1) → bit_count_loop i c true = -1) := by
  intro i
  induction i using Nat.strong_induction_on with
  | _ i ih =>
    intro c
    rw [bit_count_loop, Nat.shiftRight_one, Nat.and_one_is_mod, if_pos rfl]
    split_ifs with h0 h1
    · obtain ⟨hc, hn⟩ := ih (i / 2) (by omega) (c + 1)
      refine ⟨fun n h => ?_, fun h => hn fun n he => h (n + 1) ?_⟩
      · rcases n with _ | n
        · rw [pow_zero] at h
          omega
        · rw [two_pow_sub_one_succ] at h
          rw [hc n (by omega)]
          omega
      · rw [two_pow_sub_one_succ]
        omega
    · refine ⟨fun n h => ?_, fun _ => rfl⟩
      rcases n with _ | n
      · rw [pow_zero] at h
        omega
      · rw [two_pow_sub_one_succ] at h
        omega
    · refine ⟨fun n h => ?_, fun h => absurd (show i = 2 ^ 0 - 1 by rw [pow_zero]; omega) (h 0)⟩
      rcases n with _ | n
      · simp
      · rw [two_pow_sub_one_succ] at h
        omega

theorem bit_count_loop_false : ∀ (i : ℕ) (c : ℤ),
    (∀ n : ℕ, Ones n i → bit_count_loop i c false = c + n) ∧
      ((∀ n : ℕ, ¬ Ones n i) → bit_count_loop i c false = -1) := by
  intro i
  induction i using Nat.strong_induction_on with
  | _ i ih =>
    intro c
    rw [bit_count_loop, Nat.shiftRight_one, Nat.and_one_is_mod, if_neg Bool.false_ne_true]
    split_ifs with h0 h1
    · obtain ⟨hc, hn⟩ := bit_count_loop_true (i / 2) (c + 1)
      have hones : ∀ n, Ones n i ↔ 0 < n ∧ i / 2 = 2 ^ (n - 1) - 1 := fun n => by
        rw [← ones_two_mul_add_one, show 2 * (i / 2) + 1 = i by omega]
      refine ⟨fun n h => ?_, fun h => hn fun n he => h (n + 1) ((hones _).2 ⟨Nat.succ_pos n, he⟩)⟩
      obtain ⟨hpos, he⟩ := (hones n).1 h
      rw [hc (n - 1) he]
      omega
    · obtain ⟨hc, hn⟩ := ih (i / 2) (by omega) c
      have hones : ∀ n, Ones n i ↔ Ones n (i / 2) := fun n => by
        rw [← ones_two_mul (a := i / 2), show 2 * (i / 2) = i by omega]
      exact ⟨fun n h => hc n ((hones n).1 h), fun h => hn fun n hr => h n ((hones n).2 hr)⟩
    · obtain rfl : i = 0 := by omega
      refine ⟨fun n h => ?_, fun h => absurd ones_zero (h 0)⟩
      rw [ones_eq_zero.1 h]
      exact (add_zero c).symm

theorem bit_count_eq_iff {i : BitVec 32} {n : ℕ} : bit_count i = n ↔ Ones n i.toNat := by
  obtain ⟨hc, hn⟩ := bit_count_loop_false i.toNat 0
  refine ⟨fun h => ?_, fun h => by rw [bit_count, hc n h, zero_add]⟩
  by_contra hno
  by_cases hex : ∃ k, Ones k i.toNat
  · obtain ⟨k, hk⟩ := hex
    rw [bit_count, hc k hk, zero_add, Int.natCast_inj] at h
    exact hno (h ▸ hk)
  · rw [bit_count, hn fun k hk => hex ⟨k, hk⟩] at h
    omega

theorem bit_count_eq_neg_one_iff {i : BitVec 32} :
    bit_count i = -1 ↔ ¬ ∃ n, Ones n i.toNat := by
  refine ⟨?_, fun h => (bit_count_loop_false i.toNat 0).2 fun n hn => h ⟨n, hn⟩⟩
  rintro h ⟨n, hn⟩
  rw [bit_count_eq_iff.2 hn] at h
  omega

theorem mask2prefix_eq_iff {m : in_addr} {n : ℕ} : mask2prefix m = n ↔ Ones n m.host :=
  bit_count_eq_iff

/-- The prefix of a mask is the number of its ones where they stand together, at the front or not.
It gives the mask back just where they stand at the front. -/
theorem masks_round_trip :
    (∀ p : ℕ, p ≤ 32 → (prefix2mask p).map mask2prefix = some (p : ℤ)) ∧
      (∀ m n, mask2prefix m = (n : ℕ) ↔ Ones n m.host) ∧
      (∀ m, mask2prefix m = -1 ↔ ¬ ∃ n, Ones n m.host) ∧
      ∀ m, (prefix2mask <| mask2prefix m) = some m ↔
        ∃ p ≤ 32, m.host = 2 ^ 32 - 2 ^ (32 - p) := by
  have hback : ∀ p ≤ 32, mask2prefix (ofHost (2 ^ 32 - 2 ^ (32 - p))) = (p : ℕ) := by
    intro p hp
    rw [mask2prefix_eq_iff, host_ofHost (Nat.sub_lt (Nat.two_pow_pos 32) (Nat.two_pow_pos _))]
    exact ones_netmask hp
  refine ⟨fun p hp => ?_, fun m n => mask2prefix_eq_iff, fun m => bit_count_eq_neg_one_iff,
    fun m => ⟨fun h => ?_, ?_⟩⟩
  · rw [prefix2mask_host hp, Option.map_some, hback p hp]
  · by_cases hones : ∃ n, Ones n m.host
    · obtain ⟨n, hn⟩ := hones
      have hle : n ≤ 32 := hn.le m.host_lt
      rw [mask2prefix_eq_iff.2 hn, prefix2mask_host hle, Option.some_inj] at h
      refine ⟨n, hle, ?_⟩
      rw [← h, host_ofHost (Nat.sub_lt (Nat.two_pow_pos 32) (Nat.two_pow_pos _))]
    · rw [show mask2prefix m = -1 from bit_count_eq_neg_one_iff.2 hones] at h
      cases h
  · rintro ⟨p, hp, hm⟩
    rw [eq_ofHost hm, hback p hp, prefix2mask_host hp]

end Masks

theorem pow2_eq : pow2 = (List.range 128).map fun n => toString (2 ^ n) := by rfl

theorem p2_table_eq {n : ℕ} (h : n ≤ 127) : p2_table n = toString (2 ^ n) := by
  rw [p2_table, if_pos h, pow2_eq, List.getD_eq_getElem?_getD, List.getElem?_map,
    List.getElem?_range (by omega)]
  rfl

/-! ## The report of an IPv4 network -/

/-- The addresses for hosts: all but the first and the last, where there are more than two. -/
def usable (k a : ℕ) : Set ℕ := if 2 ≤ k then block k a \ {first k a, last k a} else block k a

/-- The report is about the network of `p` leading digits of the `n`-byte address `a`. -/
structure NetworkReport (c : Libc) (n p a : ℕ) (info : ip_info) : Prop where
  ip : info.ip = c.ntop (bytesOf n a)
  prefix_ : info.prefix_ = p
  netmask : info.netmask = c.ntop (bytesOf n (2 ^ (8 * n) - 2 ^ (8 * n - p)))
  network : info.network = c.ntop (bytesOf n (first (8 * n - p) a))

structure Ipv4Report (c : Libc) (p a : ℕ) (info : ip_info) : Prop
    extends NetworkReport c 4 p a info where
  broadcast : info.broadcast = some (c.ntop (bytesOf 4 (last (32 - p) a)))
  hosts : ∃ lo hi, info.hostmin = c.ntop (bytesOf 4 lo) ∧
    info.hostmax = c.ntop (bytesOf 4 hi) ∧ Set.Icc lo hi = usable (32 - p) a
  count : info.hosts = toString (usable (32 - p) a).ncard
  names : ∃ network broadcast : in_addr, network.host = first (32 - p) a ∧
    broadcast.host = last (32 - p) a ∧
    info.reverse_dns = calc_reverse_dns4 network p network broadcast ∧
    info.type = ipv4_net_to_type network ∧ info.class_ = some (ipv4_net_to_class network)

theorem usable_eq_Icc {p a : ℕ} (hp : p ≤ 32) : usable (32 - p) a =
    Set.Icc (if p ≤ 30 then first (32 - p) a + 1 else first (32 - p) a)
      (if p ≤ 30 then last (32 - p) a - 1 else last (32 - p) a) := by
  unfold usable
  by_cases h : p ≤ 30
  · rw [if_pos (by omega), if_pos h, if_pos h, block_diff_ends]
  · rw [if_neg (by omega), if_neg h, if_neg h, block_eq_Icc]

theorem ncard_usable {p a : ℕ} (hp : p ≤ 32) : (usable (32 - p) a).ncard =
    if p ≤ 30 then 2 ^ (32 - p) - 2 else 2 ^ (32 - p) := by
  have hpos := Nat.two_pow_pos (32 - p)
  rw [usable_eq_Icc hp, Set.ncard_Icc_nat, last]
  split_ifs with h
  · have hpow : 2 ^ 2 ≤ 2 ^ (32 - p) := Nat.pow_le_pow_right Nat.two_pos (by omega)
    omega
  · omega

section Ipv4

variable {p : ℕ} (hp : p ≤ 32) (a : in_addr)
include hp

theorem ipv4_minhost_eq : ipv4_minhost (ofHost (first (32 - p) a.host)) p =
    ofHost (if p ≤ 30 then first (32 - p) a.host + 1 else first (32 - p) a.host) := by
  have hlt : first (32 - p) a.host < 2 ^ 32 := first_lt a.host_lt
  unfold ipv4_minhost
  by_cases h : p ≤ 30
  · have hor := Nat.two_pow_add_eq_or_of_lt (Nat.one_lt_two_pow (n := 32 - p) (by omega))
      (a.host / 2 ^ (32 - p))
    rw [Nat.mul_comm, ← first] at hor
    rw [if_pos (by omega), if_pos (by omega), if_pos h, hor]
    refine eq_ofHost ?_
    rw [host, ntohl, htonl_htonl, BitVec.toNat_or, ← host, host_ofHost hlt]
    rfl
  · rw [if_neg h, if_neg (c := (p : ℤ) ≤ 30) (by omega), ite_self]

theorem ipv4_maxhost_eq :
    ipv4_maxhost (ofHost (first (32 - p) a.host)) (ofHost (2 ^ 32 - 2 ^ (32 - p))) p =
      ofHost (if p ≤ 30 then last (32 - p) a.host - 1 else last (32 - p) a.host) := by
  have hlast : last (32 - p) a.host < 2 ^ 32 := last_lt a.host_lt (Nat.sub_le _ _)
  unfold ipv4_maxhost
  by_cases h32 : p = 32
  · rw [if_neg (by omega), if_neg (by omega), h32, Nat.sub_self, first_zero, last_zero]
  · have hbroadcast : (ofHost (first (32 - p) a.host)).s_addr |||
        ~~~(ofHost (2 ^ 32 - 2 ^ (32 - p))).s_addr = (ofHost (last (32 - p) a.host)).s_addr := by
      rw [← network_eq, ← netmask_eq, ← broadcast_eq]
    rw [if_pos (by omega)]
    dsimp only
    rw [hbroadcast]
    by_cases h : p ≤ 30
    · rw [if_pos (by omega), if_pos h]
      refine eq_ofHost ?_
      have hpow : 2 ^ 2 ≤ 2 ^ (32 - p) := Nat.pow_le_pow_right Nat.two_pos (by omega)
      have hpos : 1 ≤ last (32 - p) a.host := by
        unfold last
        omega
      have hle : 1#32 ≤ ntohl (ofHost (last (32 - p) a.host)).s_addr := by
        rw [BitVec.le_def, ← host, host_ofHost hlast]
        exact hpos
      rw [host, ntohl, htonl_htonl, BitVec.toNat_sub_of_le hle, ← host, host_ofHost hlast]
      rfl
    · rw [if_neg (by omega), if_neg h]

theorem ipv4_hosts_eq (hpos : 0 < p) (a : ℕ) :
    ipv4_hosts p = some (toString (usable (32 - p) a).ncard) := by
  rw [ncard_usable hp]
  unfold ipv4_hosts
  by_cases h : p ≤ 30
  · rw [if_neg (by omega), if_pos h, show (32 : ℤ) - p = (32 - p : ℕ) by omega,
      one_shl_eq (by omega), Option.map_some]
    have hpow : 2 ^ (32 - p) < 2 ^ 32 := Nat.pow_lt_pow_right Nat.one_lt_two (by omega)
    have hpow2 : 2 ^ 2 ≤ 2 ^ (32 - p) := Nat.pow_le_pow_right Nat.two_pos (by omega)
    have hshift : (1#32 <<< (32 - p)).toNat = 2 ^ (32 - p) := by
      rw [BitVec.toNat_shiftLeft, Nat.shiftLeft_eq, BitVec.toNat_ofNat, Nat.one_mod, Nat.one_mul,
        Nat.mod_eq_of_lt hpow]
    rw [BitVec.toNat_sub_of_le (by rw [BitVec.le_def, hshift]; exact Nat.le_trans (by simp) hpow2),
      hshift]
    rfl
  · rw [if_pos (by omega), if_neg h, show u32 (32 - p) = 32 - p by unfold u32; omega,
      p2_table_eq (by omega)]

end Ipv4

/-- No result is the shift by 32. -/
theorem ipv4_hosts_zero : ipv4_hosts 0 = none := rfl

/-- The prefix a report is about where none is given. -/
def ipv4_prefix_of (bits : ℤ) (flags : ℕ) (ip : in_addr) : ℤ :=
  if 0 ≤ bits then bits
  else if flags &&& FLAG_ASSUME_CLASS_PREFIX ≠ 0 then default_ipv4_prefix ip
  else 32

section

variable (c : Libc) (dns : Dns) (beSilent : Bool) (ipStr : String) (bits : ℤ) (flags : ℕ)

theorem resolve_host_ok_iff {family : ℕ} {addr : List UInt8} :
    (∃ hostname, resolve_host dns beSilent family addr ipStr flags = .ok hostname) ↔
      (flags &&& FLAG_RESOLVE_HOST ≠ 0 → (dns.getnameinfo family addr).isSome) := by
  unfold resolve_host
  split_ifs with h
  · cases dns.getnameinfo family addr <;> simp [h]
  · simp [h]

theorem get_ipv4_info_eq {v : Vector UInt8 4} {p : ℕ} (hv : c.pton4 ipStr = some v)
    (hp : ipv4_prefix_of bits flags (.load v) = p) (hpos : 0 < p) (hle : p ≤ 32) :
    get_ipv4_info c dns beSilent ipStr bits flags =
      some ((resolve_host dns beSilent AF_INET v.toList
        (if 0 ≤ bits then cidr_text ipStr else ipStr) flags).map fun hostname =>
          { ip := (load v).text c
            expanded_ip := none
            expanded_network := none
            reverse_dns := calc_reverse_dns4 (ofHost (first (32 - p) (load v).host)) p
              (ofHost (first (32 - p) (load v).host)) (ofHost (last (32 - p) (load v).host))
            network := c.ntop (bytesOf 4 (first (32 - p) (load v).host))
            broadcast := some (c.ntop (bytesOf 4 (last (32 - p) (load v).host)))
            netmask := c.ntop (bytesOf 4 (2 ^ 32 - 2 ^ (32 - p)))
            hostname := hostname
            hosts := toString (usable (32 - p) (load v).host).ncard
            prefix_ := p
            hostmin := (ofHost (if p ≤ 30 then first (32 - p) (load v).host + 1
              else first (32 - p) (load v).host)).text c
            hostmax := (ofHost (if p ≤ 30 then last (32 - p) (load v).host - 1
              else last (32 - p) (load v).host)).text c
            type := ipv4_net_to_type (ofHost (first (32 - p) (load v).host))
            class_ := some (ipv4_net_to_class (ofHost (first (32 - p) (load v).host))) }) := by
  have hu : u32 p = p := by
    unfold u32
    omega
  have hmask : 2 ^ 32 - 2 ^ (32 - p) < 2 ^ 32 :=
    Nat.sub_lt (Nat.two_pow_pos 32) (Nat.two_pow_pos _)
  unfold get_ipv4_info
  unfold ipv4_prefix_of at hp
  rw [hv]
  dsimp only
  rw [hp, if_neg (by omega), prefix2mask_host hle, calc_broadcast_eq hle, calc_network_eq hle,
    ipv4_hosts_eq hle hpos (load v).host]
  dsimp only [Option.bind_eq_bind, Option.bind_some]
  rw [ipv4_minhost_eq hle, ipv4_maxhost_eq hle, hu, bytes_load, text_ofHost c hmask,
    text_ofHost c (first_lt (load v).host_lt),
    text_ofHost c (last_lt (load v).host_lt (Nat.sub_le _ _))]

theorem ipv4_prefix_of_nonneg (ip : in_addr) : 0 ≤ ipv4_prefix_of bits flags ip := by
  unfold ipv4_prefix_of
  split_ifs <;> omega

theorem get_ipv4_info_bad_addr (hv : c.pton4 ipStr = none) :
    get_ipv4_info c dns beSilent ipStr bits flags =
      some (.error (complain beSilent "ipcalc: bad IPv4 address: %s\n" [.str ipStr])) := by
  rw [get_ipv4_info, hv]

theorem get_ipv4_info_long {v : Vector UInt8 4} (hv : c.pton4 ipStr = some v)
    (hlt : 32 < ipv4_prefix_of bits flags (.load v)) :
    get_ipv4_info c dns beSilent ipStr bits flags =
      some (.error (complain beSilent "ipcalc: bad IPv4 prefix %d\n"
        [.int (ipv4_prefix_of bits flags (.load v))])) := by
  unfold get_ipv4_info
  rw [hv]
  dsimp only
  rw [← ipv4_prefix_of, if_pos hlt]

/-- An empty prefix is a shift by 32. -/
theorem get_ipv4_info_zero {v : Vector UInt8 4} (hv : c.pton4 ipStr = some v)
    (hzero : ipv4_prefix_of bits flags (.load v) = 0) :
    get_ipv4_info c dns beSilent ipStr bits flags = none := by
  unfold get_ipv4_info
  rw [hv]
  dsimp only
  rw [← ipv4_prefix_of, hzero, if_neg (by omega), ipv4_hosts_zero]
  rfl

/-- There is no report without an address, and none for a prefix that is too long or empty. -/
theorem get_ipv4_info_ok {info : ip_info}
    (h : get_ipv4_info c dns beSilent ipStr bits flags = some (.ok info)) :
    ∃ v, c.pton4 ipStr = some v ∧ 0 < ipv4_prefix_of bits flags (.load v) ∧
      ipv4_prefix_of bits flags (.load v) ≤ 32 := by
  cases hv : c.pton4 ipStr with
  | none =>
    rw [get_ipv4_info_bad_addr c dns beSilent ipStr bits flags hv] at h
    cases h
  | some v =>
    refine ⟨v, rfl, lt_of_le_of_ne (ipv4_prefix_of_nonneg bits flags _) fun hzero => ?_,
      not_lt.1 fun hlt => ?_⟩
    · rw [get_ipv4_info_zero c dns beSilent ipStr bits flags hv hzero.symm] at h
      cases h
    · rw [get_ipv4_info_long c dns beSilent ipStr bits flags hv hlt] at h
      cases h

theorem Ipv4Report.of_get_ipv4_info {info : ip_info} {v : Vector UInt8 4} {p : ℕ}
    (hv : c.pton4 ipStr = some v) (hp : ipv4_prefix_of bits flags (.load v) = p) (hpos : 0 < p)
    (hle : p ≤ 32) (h : get_ipv4_info c dns beSilent ipStr bits flags = some (.ok info)) :
    Ipv4Report c p (value v.toList) info := by
  rw [get_ipv4_info_eq c dns beSilent ipStr bits flags hv hp hpos hle] at h
  cases hr : resolve_host dns beSilent AF_INET v.toList
      (if 0 ≤ bits then cidr_text ipStr else ipStr) flags with
  | error e =>
    rw [hr] at h
    cases h
  | ok hostname =>
    have hhost := host_load v
    have hfirst : first (32 - p) (load v).host < 2 ^ 32 := first_lt (load v).host_lt
    have hlast : last (32 - p) (load v).host < 2 ^ 32 := last_lt (load v).host_lt (Nat.sub_le _ _)
    rw [hr] at h
    obtain rfl := Except.ok.inj (Option.some.inj h)
    rw [← hhost]
    refine ⟨⟨by rw [text, bytes_eq], rfl, rfl, rfl⟩, rfl, ⟨_, _, text_ofHost c ?_, text_ofHost c ?_,
      (usable_eq_Icc hle).symm⟩, rfl,
      ⟨_, _, host_ofHost hfirst, host_ofHost hlast, rfl, rfl, rfl⟩⟩
    · split_ifs with h30
      · have hpow : 2 ^ 2 ≤ 2 ^ (32 - p) := Nat.pow_le_pow_right Nat.two_pos (by omega)
        rw [last] at hlast
        omega
      · exact hfirst
    · split_ifs <;> omega

theorem exists_get_ipv4_info {v : Vector UInt8 4} (hv : c.pton4 ipStr = some v)
    (hpos : 0 < ipv4_prefix_of bits flags (.load v)) (hle : ipv4_prefix_of bits flags (.load v) ≤ 32)
    (hres : flags &&& FLAG_RESOLVE_HOST ≠ 0 → (dns.getnameinfo AF_INET v.toList).isSome) :
    ∃ info, get_ipv4_info c dns beSilent ipStr bits flags = some (.ok info) := by
  obtain ⟨p, hp⟩ := Int.eq_ofNat_of_zero_le (Int.le_of_lt hpos)
  obtain ⟨hostname, hr⟩ := (resolve_host_ok_iff dns beSilent
    (if 0 ≤ bits then cidr_text ipStr else ipStr) flags).2 hres
  rw [get_ipv4_info_eq c dns beSilent ipStr bits flags hv hp (by omega) (by omega), hr]
  exact ⟨_, rfl⟩

/-- An IPv4 report is made just of an address with a prefix from 1 to 32 whose name, where it is
asked for, is known; and it is right. -/
theorem get_ipv4_info_reports :
    ((∃ info, get_ipv4_info c dns beSilent ipStr bits flags = some (.ok info)) ↔
      ∃ v, c.pton4 ipStr = some v ∧ 0 < ipv4_prefix_of bits flags (.load v) ∧
        ipv4_prefix_of bits flags (.load v) ≤ 32 ∧
        (flags &&& FLAG_RESOLVE_HOST ≠ 0 → (dns.getnameinfo AF_INET v.toList).isSome)) ∧
    ∀ info v, c.pton4 ipStr = some v →
      get_ipv4_info c dns beSilent ipStr bits flags = some (.ok info) →
      Ipv4Report c (ipv4_prefix_of bits flags (.load v)).toNat (value v.toList) info := by
  refine ⟨⟨?_, ?_⟩, fun info v hv h => ?_⟩
  · rintro ⟨info, h⟩
    obtain ⟨v, hv, hpos, hle⟩ := get_ipv4_info_ok c dns beSilent ipStr bits flags h
    refine ⟨v, hv, hpos, hle, ?_⟩
    obtain ⟨p, hp⟩ := Int.eq_ofNat_of_zero_le (Int.le_of_lt hpos)
    rw [get_ipv4_info_eq c dns beSilent ipStr bits flags hv hp (by omega) (by omega)] at h
    refine (resolve_host_ok_iff dns beSilent (if 0 ≤ bits then cidr_text ipStr else ipStr)
      flags).1 ?_
    cases hr : resolve_host dns beSilent AF_INET v.toList
        (if 0 ≤ bits then cidr_text ipStr else ipStr) flags with
    | error e =>
      rw [hr] at h
      cases h
    | ok hostname => exact ⟨hostname, rfl⟩
  · rintro ⟨v, hv, hpos, hle, hres⟩
    exact exists_get_ipv4_info c dns beSilent ipStr bits flags hv hpos hle hres
  · obtain ⟨v', hv', hpos, hle⟩ := get_ipv4_info_ok c dns beSilent ipStr bits flags h
    obtain rfl : v = v' := Option.some.inj (hv.symm.trans hv')
    obtain ⟨p, hp⟩ := Int.eq_ofNat_of_zero_le (Int.le_of_lt hpos)
    rw [hp, Int.toNat_natCast]
    exact .of_get_ipv4_info c dns beSilent ipStr bits flags hv hp (by omega) (by omega) h

end

/-! ## The report of an IPv6 network -/

theorem ipv6_mask_byte_eq (q : ℕ) (i : ℤ) (h : i.toNat = q) :
    ipv6_mask_byte i = UInt8.ofBitVec (mask 8 q) := by
  have hsmall : ∀ q < 8, 0 < q →
      UInt8.ofNat (0xff <<< (8 - q)) = UInt8.ofBitVec (mask 8 q) := by decide
  unfold ipv6_mask_byte
  split_ifs with hpos hge
  · rw [mask, Nat.sub_eq_zero_of_le (by omega)]
    rfl
  · rw [show (8 - i).toNat = 8 - q by omega]
    exact hsmall q (by omega) (by omega)
  · rw [show q = 0 by omega]
    rfl

section Ipv6

variable {p : ℕ}

theorem ipv6_prefix_to_mask_eq (hp : p ≤ 128) :
    ∃ m, ipv6_prefix_to_mask p = some m ∧ m.toList = maskBytes 16 p := by
  rw [ipv6_prefix_to_mask, if_neg (Nat.not_lt.2 hp)]
  refine ⟨_, rfl, List.ext_getElem? fun i => ?_⟩
  rw [Vector.getElem?_toList]
  by_cases hi : i < 16
  · rw [getElem?_maskBytes p hi, Vector.getElem?_ofFn, dif_pos hi,
      ipv6_mask_byte_eq (p - 8 * i) _ (by dsimp only; omega)]
  · rw [Vector.getElem?_eq_none (by omega), List.getElem?_eq_none (by rw [length_maskBytes]; omega)]

theorem zipWith_or_not (bs ms : List UInt8) :
    List.zipWith (fun n m => n ||| ~~~m) (List.zipWith (· &&& ·) bs ms) ms =
      List.zipWith (fun b m => b &&& m ||| ~~~m) bs ms := by
  induction bs generalizing ms with
  | nil => rfl
  | cons b bs ih =>
    cases ms with
    | nil => rfl
    | cons m ms => rw [List.zipWith_cons_cons, List.zipWith_cons_cons, ih, List.zipWith_cons_cons]

theorem value_network (ip6 : in6_addr) {m : in6_addr} (hm : m.toList = maskBytes 16 p) :
    value (Vector.zipWith (· &&& ·) ip6 m).toList = first (128 - p) (value ip6.toList) := by
  have hvalue := value_and_mask ip6.toList p
  rw [ip6.length_toList] at hvalue
  rw [Vector.toList_zipWith, hm, hvalue]

theorem value_hostmax (ip6 : in6_addr) {m : in6_addr} (hm : m.toList = maskBytes 16 p) :
    value (Vector.zipWith (fun n m => n ||| ~~~m) (Vector.zipWith (· &&& ·) ip6 m) m).toList =
      last (128 - p) (value ip6.toList) := by
  have hvalue := value_or_not_mask ip6.toList p
  rw [ip6.length_toList] at hvalue
  rw [Vector.toList_zipWith, Vector.toList_zipWith, hm, zipWith_or_not, hvalue]

theorem toList_eq_bytesOf {n v : ℕ} {a : Vector UInt8 n} (h : value a.toList = v) :
    a.toList = bytesOf n v := by
  have hbytes := bytesOf_value a.toList
  rw [a.length_toList, h] at hbytes
  exact hbytes.symm

end Ipv6

/-- The report is right for the network of `p` leading digits of the address `a`. The number of its
addresses has no text where it is `2 ^ 128`. -/
structure Ipv6Report (c : Libc) (p a : ℕ) (info : ip_info) : Prop
    extends NetworkReport c 16 p a info where
  hostmin : info.hostmin = c.ntop (bytesOf 16 (first (128 - p) a))
  hostmax : info.hostmax = c.ntop (bytesOf 16 (last (128 - p) a))
  count : info.hosts = if p = 0 then "" else toString (block (128 - p) a).ncard
  expanded_ip : ∃ s t, info.expanded_ip = some s ∧ argBytes s = V6Text.text t ∧
    value t.addr.toList = a
  expanded_network : ∃ s t, info.expanded_network = some s ∧ argBytes s = V6Text.text t ∧
    value t.addr.toList = first (128 - p) a
  names : ∃ network : in6_addr, value network.toList = first (128 - p) a ∧
    info.reverse_dns = calc_reverse_dns6 network p ∧ info.type = ipv6_net_to_type network p

theorem argBytes_ofList {cs : List Char} (h : ∀ c ∈ cs, c.toNat < 128) :
    argBytes (String.ofList cs) = cs.map Char.toUInt8 := by
  have hchar : ∀ c ∈ cs, String.utf8EncodeChar c = [c.toUInt8] := fun c hc =>
    String.utf8EncodeChar_eq_singleton
      (Char.utf8Size_eq_one_iff.2 (UInt32.le_iff_toNat_le.2 (Nat.le_of_lt_succ (h c hc))))
  have henc : cs.flatMap String.utf8EncodeChar = cs.map Char.toUInt8 := by
    rw [List.map_eq_flatMap]
    exact List.flatMap_congr hchar
  rw [argBytes, String.toByteArray_ofList, List.utf8Encode, henc, List.data_toByteArray]

theorem hexchar_lt : ∀ {v : ℕ}, v < 16 → (hexchar v).toNat < 128 := by decide

theorem hexchar_toUInt8 : ∀ {v : ℕ}, v < 16 → (hexchar v).toUInt8 = Hex.lower v := by decide

theorem value_lt_addr (a : in6_addr) : value a.toList < 2 ^ 128 := by
  have h := value_lt a.toList
  rwa [a.length_toList] at h

theorem s6_addr_lt (a : in6_addr) (i : ℕ) : a.s6_addr i < 256 := UInt8.toNat_lt _

theorem expand_str_lt (a : in6_addr) : ∀ c ∈ expand_str a, c.toNat < 128 := by
  intro c hc
  obtain ⟨i, -, hc⟩ := List.mem_flatMap.1 hc
  have hlt := s6_addr_lt a i
  rw [List.mem_append, List.mem_cons, List.mem_singleton] at hc
  rcases hc with (rfl | rfl) | hc
  · exact hexchar_lt (by omega)
  · exact hexchar_lt (Nat.mod_lt _ (Nat.succ_pos 15))
  · split_ifs at hc
    · rw [List.mem_singleton.1 hc]
      decide
    · cases hc

theorem expand_ipv6_text (a : in6_addr) :
    argBytes (expand_ipv6 a) = (V6Text.ofAddr a).text := by
  have hmap : (expand_str a).map Char.toUInt8 = (List.range 16).flatMap fun i =>
      [Hex.lower (a.s6_addr i / 16), Hex.lower (a.s6_addr i % 16)] ++
        if i % 2 ≠ 0 ∧ i ≠ 15 then [colon] else [] := by
    rw [expand_str, List.map_flatMap]
    refine List.flatMap_congr fun i _ => ?_
    have hlt := s6_addr_lt a i
    rw [List.map_append, List.map_cons, List.map_singleton, hexchar_toUInt8 (by omega),
      hexchar_toUInt8 (Nat.mod_lt _ (Nat.succ_pos 15))]
    split_ifs <;> rfl
  rw [expand_ipv6, argBytes_ofList (expand_str_lt a), hmap]
  rfl

section

variable (c : Libc) (dns : Dns) (beSilent : Bool) (ipStr : String) (bits : ℤ) (flags : ℕ)

/-- The prefix of an IPv6 report. -/
def ipv6_prefix_of (bits : ℤ) : ℕ := if bits < 0 then 128 else bits.toNat

theorem get_ipv6_info_bad_addr (hv : c.pton6 ipStr = none) :
    get_ipv6_info c dns beSilent ipStr bits flags =
      .error (complain beSilent "ipcalc: bad IPv6 address: %s\n" [.str ipStr]) := by
  rw [get_ipv6_info, hv]

theorem get_ipv6_info_long {v : Vector UInt8 16} (hv : c.pton6 ipStr = some v)
    (hlt : 128 < bits) : get_ipv6_info c dns beSilent ipStr bits flags =
      .error (complain beSilent "ipcalc: bad IPv6 prefix: %d\n" [.int bits]) := by
  unfold get_ipv6_info
  rw [hv]
  dsimp only
  rw [if_pos hlt]

theorem get_ipv6_info_ok {info : ip_info}
    (h : get_ipv6_info c dns beSilent ipStr bits flags = .ok info) :
    ∃ v, c.pton6 ipStr = some v ∧ bits ≤ 128 := by
  cases hv : c.pton6 ipStr with
  | none =>
    rw [get_ipv6_info_bad_addr c dns beSilent ipStr bits flags hv] at h
    cases h
  | some v =>
    refine ⟨v, rfl, not_lt.1 fun hlt => ?_⟩
    rw [get_ipv6_info_long c dns beSilent ipStr bits flags hv hlt] at h
    cases h

theorem hosts_eq {p : ℕ} (hp : p ≤ 128) (a : ℕ) : p2_table (u32 (128 - p)) =
    if p = 0 then "" else toString (block (128 - p) a).ncard := by
  rw [show u32 (128 - p) = 128 - p by unfold u32; omega, ncard_block]
  split_ifs with h
  · rw [h]
    rfl
  · exact p2_table_eq (by omega)

/-- With an address and a prefix only the name may be missing, and the report is right. -/
theorem get_ipv6_info_eq {v : Vector UInt8 16} (hv : c.pton6 ipStr = some v)
    (hle : bits ≤ 128) : ∃ report : Option String → ip_info,
      get_ipv6_info c dns beSilent ipStr bits flags =
        (resolve_host dns beSilent AF_INET6 v.toList ipStr flags).map report ∧
      ∀ hostname, Ipv6Report c (ipv6_prefix_of bits) (value v.toList) (report hostname) := by
  obtain ⟨p, hp, hp128⟩ : ∃ p : ℕ, (if bits < 0 then 128 else bits) = (p : ℤ) ∧ p ≤ 128 := by
    split_ifs with h
    · exact ⟨128, rfl, le_rfl⟩
    · exact ⟨bits.toNat, by omega, by omega⟩
  have hpre : ipv6_prefix_of bits = p := by
    unfold ipv6_prefix_of
    split_ifs at hp ⊢ <;> omega
  have hu : u32 p = p := by
    unfold u32
    omega
  obtain ⟨m, hm, hmask⟩ := ipv6_prefix_to_mask_eq hp128
  have hnetwork := value_network v hmask
  have hhostmax := value_hostmax v hmask
  have hnetmask : value m.toList = 2 ^ 128 - 2 ^ (128 - p) := by
    rw [hmask, value_maskBytes]
  unfold get_ipv6_info
  rw [hv]
  dsimp only
  rw [if_neg (not_lt.2 hle), hp, hu, hm]
  refine ⟨_, rfl, fun hostname => ?_⟩
  rw [hpre]
  refine ⟨⟨congrArg c.ntop (toList_eq_bytesOf rfl), rfl,
    congrArg c.ntop (toList_eq_bytesOf hnetmask), congrArg c.ntop (toList_eq_bytesOf hnetwork)⟩,
    congrArg c.ntop (toList_eq_bytesOf hnetwork), ?_, hosts_eq hp128 _,
    ⟨_, _, rfl, expand_ipv6_text v, by rw [V6Text.addr_ofAddr]⟩,
    ⟨_, _, rfl, expand_ipv6_text _, by rw [V6Text.addr_ofAddr, hnetwork]⟩,
    ⟨_, hnetwork, rfl, rfl⟩⟩
  dsimp only
  split_ifs with h
  · exact congrArg c.ntop (toList_eq_bytesOf hhostmax)
  · refine congrArg c.ntop (toList_eq_bytesOf (hnetwork.trans ?_))
    rw [show 128 - p = 0 by omega, first_zero, last_zero]

theorem Ipv6Report.of_get_ipv6_info {info : ip_info} {v : Vector UInt8 16}
    (hv : c.pton6 ipStr = some v) (h : get_ipv6_info c dns beSilent ipStr bits flags = .ok info) :
    Ipv6Report c (ipv6_prefix_of bits) (value v.toList) info := by
  obtain ⟨v', hv', hle⟩ := get_ipv6_info_ok c dns beSilent ipStr bits flags h
  obtain rfl : v = v' := Option.some.inj (hv.symm.trans hv')
  obtain ⟨report, heq, hreport⟩ := get_ipv6_info_eq c dns beSilent ipStr bits flags hv hle
  rw [heq] at h
  cases hr : resolve_host dns beSilent AF_INET6 v.toList ipStr flags with
  | error e =>
    rw [hr] at h
    cases h
  | ok hostname =>
    rw [hr] at h
    obtain rfl := Except.ok.inj h
    exact hreport hostname

theorem exists_get_ipv6_info {v : Vector UInt8 16} (hv : c.pton6 ipStr = some v)
    (hle : bits ≤ 128)
    (hres : flags &&& FLAG_RESOLVE_HOST ≠ 0 → (dns.getnameinfo AF_INET6 v.toList).isSome) :
    ∃ info, get_ipv6_info c dns beSilent ipStr bits flags = .ok info := by
  obtain ⟨report, heq, -⟩ := get_ipv6_info_eq c dns beSilent ipStr bits flags hv hle
  obtain ⟨hostname, hr⟩ := (resolve_host_ok_iff dns beSilent ipStr flags).2 hres
  exact ⟨report hostname, by rw [heq, hr]; rfl⟩

/-- An IPv6 report is made just of an address with a prefix of at most 128 whose name, where it is
asked for, is known; and it is right. -/
theorem get_ipv6_info_reports :
    ((∃ info, get_ipv6_info c dns beSilent ipStr bits flags = .ok info) ↔
      ∃ v, c.pton6 ipStr = some v ∧ bits ≤ 128 ∧
        (flags &&& FLAG_RESOLVE_HOST ≠ 0 → (dns.getnameinfo AF_INET6 v.toList).isSome)) ∧
    ∀ info v, c.pton6 ipStr = some v →
      get_ipv6_info c dns beSilent ipStr bits flags = .ok info →
      Ipv6Report c (ipv6_prefix_of bits) (value v.toList) info := by
  refine ⟨⟨?_, ?_⟩, fun info v hv h =>
    .of_get_ipv6_info c dns beSilent ipStr bits flags hv h⟩
  · rintro ⟨info, h⟩
    obtain ⟨v, hv, hle⟩ := get_ipv6_info_ok c dns beSilent ipStr bits flags h
    obtain ⟨report, heq, -⟩ := get_ipv6_info_eq c dns beSilent ipStr bits flags hv hle
    refine ⟨v, hv, hle, (resolve_host_ok_iff dns beSilent ipStr flags).1 ?_⟩
    rw [heq] at h
    cases hr : resolve_host dns beSilent AF_INET6 v.toList ipStr flags with
    | error e =>
      rw [hr] at h
      cases h
    | ok hostname => exact ⟨hostname, rfl⟩
  · rintro ⟨v, hv, hle, hres⟩
    exact exists_get_ipv6_info c dns beSilent ipStr bits flags hv hle hres

end

/-! ## Some addresses -/

/-- A machine that reads this dotted quad and writes all of them. -/
def Libc.reads (text : String) (v : Vector UInt8 4) : Libc :=
  { Libc.bare with
    ntop := fun bs => ".".intercalate (bs.map fun b => toString b.toNat)
    pton4 := fun t => if t = text then some v else none }

theorem reads_pton4 (text : String) (v : Vector UInt8 4) :
    (Libc.reads text v).pton4 text = some v := if_pos rfl

/-- `10.1.2.3` -/
def Libc.tenth : Libc := .reads "10.1.2.3" #v[10, 1, 2, 3]

def Dns.empty : Dns := ⟨fun _ _ => none, fun _ _ => [], ""⟩

theorem tenth_info : ∃ info, get_ipv4_info .tenth .empty false "10.1.2.3" 12 0 = some (.ok info) :=
  exists_get_ipv4_info .tenth .empty false "10.1.2.3" 12 0 (reads_pton4 _ _) (by decide) (by decide)
    fun h => absurd rfl h

end NetTool

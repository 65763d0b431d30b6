import NetTool.Proofs.Ipcalc

/-!
# Reverse names of networks

A name in `in-addr.arpa` is a zone: the bytes of an address, the highest last, where the lowest may
be a range. The name of a network of at least eight digits is a zone that covers its addresses and
no others (`reverse_dns4_covers`). A name in `ip6.arpa` is the end of the names of a network's
addresses and of no others (`reverse_dns6_covers`).
-/

namespace NetTool

open CInt Block in_addr

/-! ## `in-addr.arpa` -/

inductive Label
  | octet (n : ℕ)
  | range (lo hi : ℕ)

def Label.text : Label → String
  | octet n => toString n
  | range lo hi => toString lo ++ "-" ++ toString hi

def Label.Has : Label → ℕ → Prop
  | octet m, n => n = m
  | range lo hi, n => lo ≤ n ∧ n ≤ hi

/-- The labels of a name, the last one first. -/
abbrev Zone := List Label

namespace Zone

def text (z : Zone) : String :=
  String.join (z.reverse.map fun l => l.text ++ ".") ++ "in-addr.arpa."

/-- The bytes of the address, from the highest, are those of the labels. -/
def Covers (z : Zone) (b : ℕ) : Prop :=
  ∀ (i : ℕ) (l : Label), z[i]? = some l → l.Has (digit 8 (3 - i) b)

/-- The zone of the network of `p` leading digits. -/
def ofNetwork (p a : ℕ) : Zone :=
  ((List.range (p / 8)).map fun i => .octet (digit 8 (3 - i) a)) ++
    if p % 8 = 0 then []
    else [.range (first (8 - p % 8) (digit 8 (3 - p / 8) a))
      (last (8 - p % 8) (digit 8 (3 - p / 8) a))]

theorem covers_append {z z' : Zone} {b : ℕ} : Covers (z ++ z') b ↔
    Covers z b ∧ ∀ (i : ℕ) (l : Label), z'[i]? = some l → l.Has (digit 8 (3 - (z.length + i)) b) := by
  refine ⟨fun h => ⟨fun i l hi => h i l ?_, fun i l hi => h _ l ?_⟩, fun ⟨h, h'⟩ i l hi => ?_⟩
  · rw [List.getElem?_append_left (List.getElem?_eq_some_iff.1 hi).1, hi]
  · rw [List.getElem?_append_right (Nat.le_add_right _ _), Nat.add_sub_cancel_left, hi]
  · rcases Nat.lt_or_ge i z.length with hlt | hge
    · exact h i l (by rwa [List.getElem?_append_left hlt] at hi)
    · rw [List.getElem?_append_right hge] at hi
      have hhas := h' (i - z.length) l hi
      rwa [Nat.add_sub_cancel' hge] at hhas

theorem covers_octets {n a b : ℕ} :
    Covers ((List.range n).map fun i => .octet (digit 8 (3 - i) a)) b ↔
      ∀ i < n, digit 8 (3 - i) b = digit 8 (3 - i) a := by
  refine ⟨fun h i hi => h i (.octet (digit 8 (3 - i) a)) ?_, fun h i l hl => ?_⟩
  · rw [List.getElem?_map, List.getElem?_range hi]
    rfl
  · rw [List.getElem?_map] at hl
    obtain ⟨j, hj, rfl⟩ := Option.map_eq_some_iff.1 hl
    obtain ⟨hlt, hij⟩ := List.getElem?_eq_some_iff.1 hj
    rw [List.getElem_range] at hij
    rw [List.length_range] at hlt
    rw [← hij]
    exact h i hlt

theorem covers_ofNetwork {p a b : ℕ} (hp : p ≤ 32) (ha : a < 2 ^ 32) (hb : b < 2 ^ 32) :
    Covers (ofNetwork p a) b ↔ b ∈ block (32 - p) a := by
  have hdigits : ∀ n ≤ 4, (∀ i < n, digit 8 (3 - i) b = digit 8 (3 - i) a) ↔
      b ∈ block (8 * (4 - n)) a := by
    intro n hn
    rw [mem_block_iff_digits (Nat.sub_le 4 n) hb ha]
    refine ⟨fun h i hi hle => ?_, fun h i hi => h _ (by omega) (by omega)⟩
    have hdigit := h (3 - i) (by omega)
    rwa [show 3 - (3 - i) = i by omega] at hdigit
  unfold ofNetwork
  rw [covers_append, covers_octets, hdigits _ (by omega), List.length_map, List.length_range]
  by_cases h : p % 8 = 0
  · rw [if_pos h, show 8 * (4 - p / 8) = 32 - p by omega]
    exact ⟨fun h => h.1, fun h => ⟨h, fun i l hl => by cases hl⟩⟩
  · rw [if_neg h, show 32 - p = 8 * (3 - p / 8) + (8 - p % 8) by omega,
      mem_block_iff_range (Nat.sub_le 8 (p % 8)), show 3 - p / 8 + 1 = 4 - p / 8 by omega]
    refine and_congr_right fun _ => ⟨fun h => h 0 _ rfl, fun h i l hl => ?_⟩
    obtain ⟨hlt, rfl⟩ := List.getElem?_eq_some_iff.1 hl
    obtain rfl : i = 0 := Nat.lt_one_iff.1 hlt
    exact h

end Zone

theorem byte_eq_digit (a : in_addr) (j : ℕ) : a.byte (8 * j) = digit 8 j a.host := a.byte_eq _

section

variable {p : ℕ} {a : ℕ}

theorem byte_network (ha : a < 2 ^ 32) {j : ℕ} (hj : j < 4) (h : 32 - p ≤ 8 * j) :
    (ofHost (first (32 - p) a)).byte (8 * j) = digit 8 j a := by
  rw [byte_eq_digit, host_ofHost (first_lt ha)]
  have hmem : first (32 - p) a ∈ block (8 * j) a := block_subset h first_mem
  exact (mem_block_iff_digits (Nat.le_of_lt hj) (first_lt ha) ha).1 hmem j hj le_rfl

theorem byte_network_range (ha : a < 2 ^ 32) {j : ℕ} (h : 32 - p = 8 * j + (8 - p % 8)) :
    (ofHost (first (32 - p) a)).byte (8 * j) = first (8 - p % 8) (digit 8 j a) := by
  rw [byte_eq_digit, host_ofHost (first_lt ha), h, digit_first (Nat.sub_le _ _)]

theorem byte_broadcast_range (ha : a < 2 ^ 32) {j : ℕ} (h : 32 - p = 8 * j + (8 - p % 8)) :
    (ofHost (last (32 - p) a)).byte (8 * j) = last (8 - p % 8) (digit 8 j a) := by
  rw [byte_eq_digit, host_ofHost (last_lt ha (Nat.sub_le _ _)), h, digit_last (Nat.sub_le _ _)]

theorem calc_reverse_dns4_eq (ha : a < 2 ^ 32) (hp : p ≤ 32) (h8 : 8 ≤ p) :
    calc_reverse_dns4 (ofHost (first (32 - p) a)) p (ofHost (first (32 - p) a))
      (ofHost (last (32 - p) a)) = some (Zone.ofNetwork p a).text := by
  have hbyte : ∀ j < 4, 32 - p ≤ 8 * j → (ofHost (first (32 - p) a)).byte (8 * j) = digit 8 j a :=
    fun j => @byte_network p a ha j
  have hrange : ∀ j, 32 - p = 8 * j + (8 - p % 8) →
      (ofHost (first (32 - p) a)).byte (8 * j) = first (8 - p % 8) (digit 8 j a) ∧
        (ofHost (last (32 - p) a)).byte (8 * j) = last (8 - p % 8) (digit 8 j a) :=
    fun j h => ⟨byte_network_range ha h, byte_broadcast_range ha h⟩
  have hstr : ∀ s : String, toString s = s := fun _ => rfl
  unfold calc_reverse_dns4
  dsimp only
  rw [hbyte 3 (by omega) (by omega)]
  split_ifs with h32 h24 h16 h8' hgt24 hgt16
  · rw [hbyte 0 (by omega) (by omega), hbyte 1 (by omega) (by omega),
      hbyte 2 (by omega) (by omega), h32]
    simp [Zone.ofNetwork, Zone.text, Label.text, String.append_assoc, List.range_succ, hstr]
  · rw [hbyte 1 (by omega) (by omega), hbyte 2 (by omega) (by omega), h24]
    simp [Zone.ofNetwork, Zone.text, Label.text, String.append_assoc, List.range_succ, hstr]
  · rw [hbyte 2 (by omega) (by omega), h16]
    simp [Zone.ofNetwork, Zone.text, Label.text, String.append_assoc, List.range_succ, hstr]
  · rw [h8']
    simp [Zone.ofNetwork, Zone.text, Label.text, String.append_assoc, List.range_succ, hstr]
  · obtain ⟨hmin, hmax⟩ := hrange 0 (by omega)
    rw [hbyte 1 (by omega) (by omega), hbyte 2 (by omega) (by omega), hmin, hmax]
    simp [Zone.ofNetwork, Zone.text, Label.text, String.append_assoc, List.range_succ, hstr,
      show p / 8 = 3 by omega, show p % 8 ≠ 0 by omega]
  · obtain ⟨hmin, hmax⟩ := hrange 1 (by omega)
    rw [hbyte 2 (by omega) (by omega), hmin, hmax]
    simp [Zone.ofNetwork, Zone.text, Label.text, String.append_assoc, List.range_succ, hstr,
      show p / 8 = 2 by omega, show p % 8 ≠ 0 by omega]
  · obtain ⟨hmin, hmax⟩ := hrange 2 (by omega)
    rw [hmin, hmax]
    simp [Zone.ofNetwork, Zone.text, Label.text, String.append_assoc, List.range_succ, hstr,
      show p / 8 = 1 by omega, show p % 8 ≠ 0 by omega]
  · omega

theorem calc_reverse_dns4_none {ip network broadcast : in_addr} (h : p < 8) :
    calc_reverse_dns4 ip p network broadcast = none := by
  unfold calc_reverse_dns4
  dsimp only
  rw [if_neg (by omega), if_neg (by omega), if_neg (by omega), if_neg (by omega),
    if_neg (by omega), if_neg (by omega), if_neg (by omega)]

end

/-- The reverse name in a report is missing below eight digits. Otherwise it is a zone that covers
the addresses of the network and no others. -/
theorem reverse_dns4_covers {c : Libc} {dns : Dns} {beSilent : Bool} {ipStr : String} {bits : ℤ}
    {flags : ℕ} {info : ip_info} {v : Vector UInt8 4} (hv : c.pton4 ipStr = some v)
    (h : get_ipv4_info c dns beSilent ipStr bits flags = some (.ok info)) :
    (info.reverse_dns = none ↔ info.prefix_ < 8) ∧
      ∀ s, info.reverse_dns = some s → ∃ z : Zone, s = z.text ∧
        ∀ b < 2 ^ 32, z.Covers b ↔ b ∈ block (32 - info.prefix_) (value v.toList) := by
  obtain ⟨v', hv', hpos, hle⟩ := get_ipv4_info_ok c dns beSilent ipStr bits flags h
  obtain rfl : v = v' := Option.some.inj (hv.symm.trans hv')
  obtain ⟨p, hp⟩ := Int.eq_ofNat_of_zero_le (Int.le_of_lt hpos)
  have hp32 : p ≤ 32 := by omega
  have hreport := Ipv4Report.of_get_ipv4_info c dns beSilent ipStr bits flags hv hp (by omega)
    hp32 h
  obtain ⟨network, broadcast, hnet, hbc, hname, -⟩ := hreport.names
  have hlt : value v.toList < 2 ^ 32 := host_load v ▸ (load v).host_lt
  rw [hname, hreport.prefix_, eq_ofHost hnet, eq_ofHost hbc]
  by_cases h8 : p < 8
  · rw [calc_reverse_dns4_none h8]
    exact ⟨iff_of_true rfl h8, fun s hs => absurd hs nofun⟩
  · rw [calc_reverse_dns4_eq hlt hp32 (not_lt.1 h8)]
    exact ⟨iff_of_false nofun h8, fun s hs => ⟨.ofNetwork p (value v.toList),
      (Option.some.inj hs).symm, fun b hb => Zone.covers_ofNetwork hp32 hlt hb⟩⟩

/-- The name of `10.0.0.0/12` covers the addresses `10.0` to `10.15`. -/
theorem tenth_reverse : ∃ info, get_ipv4_info .tenth .empty false "10.1.2.3" 12 0 =
      some (.ok info) ∧ (info.reverse_dns = none ↔ info.prefix_ < 8) ∧
    ∀ s, info.reverse_dns = some s → ∃ z : Zone, s = z.text ∧
      ∀ b < 2 ^ 32, z.Covers b ↔ b ∈ block (32 - info.prefix_) (value [10, 1, 2, 3]) := by
  obtain ⟨info, h⟩ := tenth_info
  exact ⟨info, h, reverse_dns4_covers (reads_pton4 _ _) h⟩

/-! ## `ip6.arpa` -/

theorem s6_addr_eq (a : in6_addr) {i : ℕ} (hi : i < 16) :
    a.s6_addr i = digit 8 (15 - i) (value a.toList) := by
  have hget : a.toList[i]? = some a[i] := by
    rw [Vector.getElem?_toList, Vector.getElem?_eq_getElem hi]
  have hdigit := toNat_eq_digit hget
  rw [a.length_toList] at hdigit
  rw [in6_addr.s6_addr, Vector.getElem?_eq_getElem hi, Option.getD_some, hdigit]

/-- `::1` and the loopback network's mask. -/
def Libc.loop6 : Libc :=
  { Libc.bare with
    ntop := fun bs => if bs = List.replicate 16 255 then
      "ffff:ffff:ffff:ffff:ffff:ffff:ffff:ffff" else "::1"
    pton6 := fun t => if t = "::1" then some #v[0, 0, 0, 0, 0, 0, 0, 0, 0, 0, 0, 0, 0, 0, 0, 1]
      else none }

end NetTool

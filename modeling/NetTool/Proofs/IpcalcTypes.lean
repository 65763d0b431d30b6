import NetTool.Proofs.IpcalcMain
import NetTool.Proofs.IpcalcReverse

/-!
# Address spaces

`ipv4_net_to_type` and `ipv6_net_to_type` look an address up in a table of aligned blocks of their
own (`ipv4_net_to_type_eq`, `ipv6_net_to_type_eq`). So what they say of a network's first address
they say of each of its addresses alone, unless the network has one of these blocks in it
(`network_type`, `network_type6`). A network made at random is private as a whole just from eight
digits on, of IPv6 from seven (`random_isPrivate`).
-/

namespace NetTool

open CInt Block in_addr

/-! ## The table -/

/-- The addresses that agree with `base` in all but their last `k` digits. -/
structure Space where
  k : ℕ
  base : ℕ
  name : String

def Space.addrs (s : Space) : Set ℕ := block s.k s.base

instance (s : Space) (a : ℕ) : Decidable (a ∈ s.addrs) :=
  inferInstanceAs (Decidable (a / 2 ^ s.k = s.base / 2 ^ s.k))

def dotted (byte1 byte2 byte3 byte4 : ℕ) : ℕ :=
  byte1 * 2 ^ 24 + byte2 * 2 ^ 16 + byte3 * 2 ^ 8 + byte4

/-- The blocks that `ipv4_net_to_type` asks for, in its order. They are its own: it has TEST-NET-1
at 192.2.0.0/24 and TEST-NET-2 at 192.51.100.0/24. -/
def ipv4Spaces : List Space :=
  [⟨24, dotted 0 0 0 0, "This host on this network"⟩,
    ⟨24, dotted 10 0 0 0, "Private Use"⟩,
    ⟨22, dotted 100 64 0 0, "Shared Address Space"⟩,
    ⟨24, dotted 127 0 0 0, "Loopback"⟩,
    ⟨16, dotted 169 254 0 0, "Link Local"⟩,
    ⟨20, dotted 172 16 0 0, "Private Use"⟩,
    ⟨8, dotted 192 0 0 0, "IETF Protocol Assignments"⟩,
    ⟨8, dotted 192 2 0 0, "Documentation (TEST-NET-1)"⟩,
    ⟨8, dotted 192 51 100 0, "Documentation (TEST-NET-2)"⟩,
    ⟨8, dotted 203 0 113 0, "Documentation (TEST-NET-3)"⟩,
    ⟨8, dotted 192 88 99 0, "6 to 4 Relay Anycast (Deprecated)"⟩,
    ⟨8, dotted 192 52 193 0, "AMT"⟩,
    ⟨16, dotted 192 168 0 0, "Private Use"⟩,
    ⟨0, dotted 255 255 255 255, "Limited Broadcast"⟩,
    ⟨17, dotted 198 18 0 0, "Benchmarking"⟩,
    ⟨28, dotted 224 0 0 0, "Multicast"⟩,
    ⟨28, dotted 240 0 0 0, "Reserved"⟩]

/-- The name of the first space an address is in. -/
def spaceName (spaces : List Space) (other : String) (a : ℕ) : String :=
  spaces.foldr (fun s name => if a ∈ s.addrs then s.name else name) other

set_option maxRecDepth 4000 in
theorem and_high_bits : ∀ b < 256, (b &&& 0xc0 = 64 ↔ b / 64 = 1) ∧ (b &&& 0xf0 = 16 ↔ b / 16 = 1) ∧
    (b &&& 0xfe = 18 ↔ b / 2 = 9) ∧ (b &&& 0xf0 = 240 ↔ b / 16 = 15) := by decide

theorem mem_addrs {s : Space} {a : ℕ} : a ∈ s.addrs ↔ a / 2 ^ s.k = s.base / 2 ^ s.k := Iff.rfl

theorem ipv4_net_to_type_eq (a : in_addr) : ipv4_net_to_type a = spaceName ipv4Spaces "Internet" a.host := by
  have hlt := a.host_lt
  have hbits := fun n => and_high_bits (a.host / 2 ^ n % 256) (Nat.mod_lt _ (Nat.succ_pos 255))
  obtain ⟨h64, h16, h18, -⟩ := hbits 16
  obtain ⟨-, -, -, h240⟩ := hbits 24
  unfold ipv4_net_to_type spaceName ipv4Spaces
  simp only [byte_eq, List.foldr_cons, List.foldr_nil, h64, h16, h18, h240]
  repeat' refine if_congr ?_ rfl ?_
  all_goals try rfl
  all_goals
    rw [mem_addrs]
    simp only [dotted, Nat.reducePow, Nat.reduceMul, Nat.reduceAdd, Nat.reduceDiv, Nat.div_one]
    omega

theorem spaceName_congr {spaces : List Space} {a b : ℕ} (other : String)
    (h : ∀ s ∈ spaces, b ∈ s.addrs ↔ a ∈ s.addrs) :
    spaceName spaces other b = spaceName spaces other a := by
  unfold spaceName
  induction spaces with
  | nil => rfl
  | cons s spaces ih =>
    rw [List.foldr_cons, List.foldr_cons, ih fun x hx => h x (List.mem_cons_of_mem s hx)]
    exact if_congr (h s List.mem_cons_self) rfl rfl

/-- In a block that has no space in it all addresses are in the same spaces. -/
theorem spaceName_eq {spaces : List Space} {k a b : ℕ} (other : String) (hb : b ∈ block k a)
    (h : ∀ s ∈ spaces, ¬ (s.k < k ∧ s.addrs ⊆ block k a)) :
    spaceName spaces other b = spaceName spaces other a := by
  refine spaceName_congr other fun s hs => ?_
  rcases Nat.lt_or_ge s.k k with hlt | hge
  · have hdisj := (nested_or_disjoint (Nat.le_of_lt hlt) s.base a).resolve_left
      fun hsub => h s hs ⟨hlt, hsub⟩
    exact iff_of_false (fun hb' => Set.disjoint_left.1 hdisj hb' hb)
      fun ha => Set.disjoint_left.1 hdisj ha mem_block_self
  · have hsame : b / 2 ^ s.k = a / 2 ^ s.k := block_subset hge hb
    rw [mem_addrs, mem_addrs, hsame]

/-- An address is told to be in the first space of the code's table that it is in. What a report
says of the network's type is what is told of each of its addresses alone, unless there is one of
the spaces in the network. -/
theorem network_type {c : Libc} {dns : Dns} {beSilent : Bool} {ipStr : String} {bits : ℤ}
    {flags : ℕ} {info : ip_info} {v : Vector UInt8 4} (hv : c.pton4 ipStr = some v)
    (h : get_ipv4_info c dns beSilent ipStr bits flags = some (.ok info)) :
    (∀ b : in_addr, ipv4_net_to_type b = spaceName ipv4Spaces "Internet" b.host) ∧
    ((∀ b : in_addr, b.host ∈ block (32 - info.prefix_) (value v.toList) →
      ipv4_net_to_type b = info.type) ∨
    ∃ s ∈ ipv4Spaces, s.k < 32 - info.prefix_ ∧
      s.addrs ⊆ block (32 - info.prefix_) (value v.toList)) := by
  obtain ⟨v', hv', hpos, hle⟩ := get_ipv4_info_ok c dns beSilent ipStr bits flags h
  obtain rfl : v = v' := Option.some.inj (hv.symm.trans hv')
  obtain ⟨p, hp⟩ := Int.eq_ofNat_of_zero_le (Int.le_of_lt hpos)
  have hreport := Ipv4Report.of_get_ipv4_info c dns beSilent ipStr bits flags hv hp (by omega)
    (by omega) h
  obtain ⟨network, -, hnet, -, -, htype, -⟩ := hreport.names
  rw [hreport.prefix_]
  refine ⟨ipv4_net_to_type_eq, ?_⟩
  by_cases hspace : ∃ s ∈ ipv4Spaces, s.k < 32 - p ∧ s.addrs ⊆ block (32 - p) (value v.toList)
  · exact .inr hspace
  · refine .inl fun b hb => ?_
    have hno : ∀ s ∈ ipv4Spaces, ¬ (s.k < 32 - p ∧ s.addrs ⊆ block (32 - p) (value v.toList)) :=
      fun s hs hin => hspace ⟨s, hs, hin⟩
    rw [htype, ipv4_net_to_type_eq, ipv4_net_to_type_eq, hnet, spaceName_eq _ hb hno,
      spaceName_eq _ first_mem hno]

theorem tenth_type : ∃ info, get_ipv4_info .tenth .empty false "10.1.2.3" 12 0 = some (.ok info) ∧
    (∀ b : in_addr, ipv4_net_to_type b = spaceName ipv4Spaces "Internet" b.host) ∧
    ((∀ b : in_addr, b.host ∈ block (32 - info.prefix_) (value [10, 1, 2, 3]) →
      ipv4_net_to_type b = info.type) ∨
    ∃ s ∈ ipv4Spaces, s.k < 32 - info.prefix_ ∧
      s.addrs ⊆ block (32 - info.prefix_) (value [10, 1, 2, 3])) := by
  obtain ⟨info, h⟩ := tenth_info
  exact ⟨info, h, network_type (reads_pton4 _ _) h⟩

/-! ## The IPv6 table -/

/-- The blocks that `ipv6_net_to_type` asks for and can tell, in its order, as it has them. -/
def ipv6Spaces : List Space :=
  [⟨0, 1, "Loopback Address"⟩,
    ⟨0, 0, "Unspecified Address"⟩,
    ⟨32, 0xffff * 2 ^ 32, "IPv4-mapped Address"⟩,
    ⟨32, 0x64ff9b * 2 ^ 96, "IPv4-IPv6 Translat."⟩,
    ⟨32, 0x1000 * 2 ^ 112, "Discard-Only Address Block"⟩,
    ⟨125, 0x2000 * 2 ^ 112, "Global Unicast"⟩,
    ⟨121, 0xfc00 * 2 ^ 112, "Unique Local Unicast"⟩,
    ⟨118, 0xfe80 * 2 ^ 112, "Link-Scoped Unicast"⟩,
    ⟨120, 0xff00 * 2 ^ 112, "Multicast"⟩]

/-- A network of `p` digits is looked up in the space: in a small one only if it fits into it. -/
def Space.Asked (p : ℕ) (s : Space) : Prop := s.k ≤ 32 → 128 ≤ p + s.k

instance (p : ℕ) (s : Space) : Decidable (s.Asked p) :=
  inferInstanceAs (Decidable (s.k ≤ 32 → 128 ≤ p + s.k))

theorem asked_iff {p k x : ℕ} {name : String} :
    Space.Asked p ⟨k, x, name⟩ ↔ (k ≤ 32 → 128 ≤ p + k) := Iff.rfl

/-- The name of the first space asked that an address is in. -/
def askedName (p : ℕ) (a : ℕ) : String :=
  ipv6Spaces.foldr (fun s name => if s.Asked p ∧ a ∈ s.addrs then s.name else name) "Reserved"

/-- The first two bytes. -/
theorem word_eq (a : in6_addr) :
    a.s6_addr 0 <<< 8 ||| a.s6_addr 1 = value a.toList / 2 ^ 112 := by
  have hlt := value_lt_addr a
  rw [← Nat.shiftLeft_add_eq_or_of_lt (show a.s6_addr 1 < 2 ^ 8 from s6_addr_lt a 1), Nat.shiftLeft_eq,
    s6_addr_eq a (by omega), s6_addr_eq a (by omega), digit, digit]
  omega

theorem take_eq_iff (a : in6_addr) {n : ℕ} {bs : List UInt8} (hl : (a.toList.take n).length = bs.length) :
    a.toList.take n = bs ↔ value a.toList / 2 ^ (8 * (16 - n)) = value bs := by
  have htake := value_take a.toList n
  rw [a.length_toList] at htake
  rw [← htake]
  exact ⟨congrArg value, value_inj hl⟩

/-- Two of the conditions never decide: one compares a number without its last digit with an odd
one, and the addresses of the other are all global. -/
theorem ipv6_net_to_type_eq (a : in6_addr) {p : ℕ} (hp : p ≤ 128) :
    ipv6_net_to_type a p = askedName p (value a.toList) := by
  have hlt := value_lt_addr a
  have hword := word_eq a
  have hw : value a.toList / 2 ^ 112 < 2 ^ 16 := by omega
  have hs0 : a.s6_addr 0 = value a.toList / 2 ^ 120 := by
    rw [s6_addr_eq a (by omega), digit]
    omega
  have hs0lt : value a.toList / 2 ^ 120 < 2 ^ 8 := by omega
  have hsmall : ∀ {bs : List UInt8} {x : ℕ} (name : String), bs.length = 16 → value bs = x →
      ((p : ℤ) = 128 ∧ a.toList = bs ↔ Space.Asked p ⟨0, x, name⟩ ∧ value a.toList ∈ block 0 x) := by
    rintro bs x name hl rfl
    have hinj : a.toList = bs ↔ value a.toList = value bs :=
      ⟨congrArg value, value_inj (a.length_toList.trans hl.symm)⟩
    rw [hinj, asked_iff, block, Set.mem_ofPred_eq, pow_zero, Nat.div_one, Nat.div_one]
    exact and_congr_left fun _ => ⟨fun h _ => by omega, fun h => by have := h (by omega); omega⟩
  have hmedium : ∀ {bs : List UInt8} {x : ℕ} (name : String), bs.length = 12 → value bs * 2 ^ 32 = x →
      ((96 : ℤ) ≤ p ∧ a.toList.take 12 = bs ↔
        Space.Asked p ⟨32, x, name⟩ ∧ value a.toList ∈ block 32 x) := by
    rintro bs x name hl rfl
    have hlen : (a.toList.take 12).length = bs.length := by
      rw [List.length_take, a.length_toList, hl]
      rfl
    have htake := take_eq_iff a hlen
    rw [htake, asked_iff, block, Set.mem_ofPred_eq, Nat.mul_div_cancel _ (Nat.two_pow_pos 32)]
    exact and_congr_left fun _ => ⟨fun h _ => by omega, fun h => by have := h (by omega); omega⟩
  unfold ipv6_net_to_type askedName ipv6Spaces
  simp only [List.foldr_cons, List.foldr_nil, hword]
  simp only [hs0]
  refine if_congr (hsmall _ rfl rfl) rfl (if_congr (hsmall _ rfl rfl) rfl
    (if_congr (hmedium _ rfl rfl) rfl (if_congr (hmedium _ rfl rfl) rfl
      (if_congr (hmedium _ rfl rfl) rfl ?_))))
  have h3 : value a.toList / 2 ^ 112 &&& 0xe000 = value a.toList / 2 ^ 112 / 2 ^ 13 * 2 ^ 13 :=
    and_high (p := 3) hw
  have h10 : value a.toList / 2 ^ 112 &&& 0xffc0 = value a.toList / 2 ^ 112 / 2 ^ 6 * 2 ^ 6 :=
    and_high (p := 10) hw
  have h15 : value a.toList / 2 ^ 112 &&& 0xfffe = value a.toList / 2 ^ 112 / 2 ^ 1 * 2 ^ 1 :=
    and_high (p := 15) hw
  have h7 : value a.toList / 2 ^ 120 &&& 0xfe = value a.toList / 2 ^ 120 / 2 ^ 1 * 2 ^ 1 :=
    and_high (p := 7) hs0lt
  have h8 : value a.toList / 2 ^ 120 &&& 0xff = value a.toList / 2 ^ 120 / 2 ^ 0 * 2 ^ 0 :=
    and_high (p := 8) hs0lt
  have hlarge : ∀ {k x : ℕ} (name : String), 32 < k →
      (Space.Asked p ⟨k, x, name⟩ ∧ value a.toList ∈ block k x ↔ value a.toList / 2 ^ k = x / 2 ^ k) :=
    fun name hk => and_iff_right_of_imp fun _ => asked_iff.2 fun h => by omega
  rw [if_neg fun h => by omega]
  refine ite_congr (propext ((?_ : _ ↔ _).trans (hlarge _ (by omega)).symm)) (fun _ => rfl)
    fun hglobal => if_congr ((?_ : _ ↔ _).trans (hlarge _ (by omega)).symm) rfl
      (if_congr ((?_ : _ ↔ _).trans (hlarge _ (by omega)).symm) rfl
        (if_congr ((?_ : _ ↔ _).trans (hlarge _ (by omega)).symm) rfl
          (if_neg fun h6to4 => hglobal ((hlarge _ (by omega)).2 ?_))))
  all_goals omega

theorem askedName_mem (p a : ℕ) : askedName p a ∈ "Reserved" :: ipv6Spaces.map Space.name := by
  have hmem : ∀ spaces : List Space,
      spaces.foldr (fun s name => if s.Asked p ∧ a ∈ s.addrs then s.name else name) "Reserved" ∈
        "Reserved" :: spaces.map Space.name := by
    intro spaces
    induction spaces with
    | nil => exact List.mem_cons_self
    | cons s spaces ih =>
      rw [List.foldr_cons, List.map_cons]
      split_ifs
      · exact List.mem_cons_of_mem _ List.mem_cons_self
      · rcases List.mem_cons.1 ih with h | h
        · rw [h]
          exact List.mem_cons_self
        · exact List.mem_cons_of_mem _ (List.mem_cons_of_mem _ h)
  exact hmem ipv6Spaces

/-- Where an address is in no space that is not asked, its name is that of the first space. -/
theorem askedName_eq {p a : ℕ} (h : ∀ s ∈ ipv6Spaces, a ∈ s.addrs → s.Asked p) :
    askedName p a = spaceName ipv6Spaces "Reserved" a := by
  unfold askedName spaceName
  generalize ipv6Spaces = spaces at h
  induction spaces with
  | nil => rfl
  | cons s spaces ih =>
    rw [List.foldr_cons, List.foldr_cons, ih fun x hx => h x (List.mem_cons_of_mem s hx)]
    exact if_congr (and_iff_right_of_imp (h s List.mem_cons_self)) rfl rfl

theorem ipv6_net_to_type_alone (b : in6_addr) :
    ipv6_net_to_type b 128 = spaceName ipv6Spaces "Reserved" (value b.toList) := by
  have hall : ∀ s ∈ ipv6Spaces, value b.toList ∈ s.addrs → s.Asked 128 := fun s _ _ _ =>
    Nat.le_add_right 128 s.k
  rw [show ((128 : ℤ)) = (128 : ℕ) from rfl, ipv6_net_to_type_eq b (Nat.le_refl 128),
    askedName_eq hall]

/-- An address alone is told to be in the first space of the code's table that it is in. What a
report says of the network's type is what is told of each of its addresses alone, unless there is
one of the spaces in the network. Two of the types are never told. -/
theorem network_type6 {c : Libc} {dns : Dns} {beSilent : Bool} {ipStr : String} {bits : ℤ}
    {flags : ℕ} {info : ip_info} {v : Vector UInt8 16} (hv : c.pton6 ipStr = some v)
    (h : get_ipv6_info c dns beSilent ipStr bits flags = .ok info) :
    (∀ b : in6_addr, ipv6_net_to_type b 128 = spaceName ipv6Spaces "Reserved" (value b.toList)) ∧
    ((∀ b : in6_addr, value b.toList ∈ block (128 - info.prefix_) (value v.toList) →
      ipv6_net_to_type b 128 = info.type) ∨
    ∃ s ∈ ipv6Spaces, s.k < 128 - info.prefix_ ∧
      s.addrs ⊆ block (128 - info.prefix_) (value v.toList)) ∧
    info.type ≠ "IETF Protocol Assignments" ∧ info.type ≠ "6to4" := by
  obtain ⟨v', hv', hle⟩ := get_ipv6_info_ok c dns beSilent ipStr bits flags h
  obtain rfl : v = v' := Option.some.inj (hv.symm.trans hv')
  have hreport := Ipv6Report.of_get_ipv6_info c dns beSilent ipStr bits flags hv h
  have hp128 : ipv6_prefix_of bits ≤ 128 := by
    unfold ipv6_prefix_of
    split_ifs <;> omega
  obtain ⟨network, hnet, -, htype⟩ := hreport.names
  rw [htype, hreport.prefix_, ipv6_net_to_type_eq network hp128]
  generalize ipv6_prefix_of bits = p at hnet hp128
  refine ⟨ipv6_net_to_type_alone, ?_, fun hname => ?_, fun hname => ?_⟩
  · by_cases hspace : ∃ s ∈ ipv6Spaces, s.k < 128 - p ∧ s.addrs ⊆ block (128 - p) (value v.toList)
    · exact .inr hspace
    · refine .inl fun b hb => ?_
      have hno : ∀ s ∈ ipv6Spaces, ¬ (s.k < 128 - p ∧ s.addrs ⊆ block (128 - p) (value v.toList)) :=
        fun s hs hin => hspace ⟨s, hs, hin⟩
      have hall : ∀ s ∈ ipv6Spaces, value network.toList ∈ s.addrs → s.Asked p := by
        intro s hs hmem hk
        by_contra hlt
        refine hno s hs ⟨by omega, ?_⟩
        rw [Space.addrs, ← block_congr hmem, hnet, ← block_congr (first_mem (k := 128 - p))]
        exact block_subset (by omega)
      rw [ipv6_net_to_type_alone, askedName_eq hall, hnet, spaceName_eq _ hb hno,
        spaceName_eq _ first_mem hno]
  · exact absurd (hname ▸ askedName_mem p (value network.toList)) (by decide)
  · exact absurd (hname ▸ askedName_mem p (value network.toList)) (by decide)

theorem loop6_type : ∃ info, get_ipv6_info .loop6 .empty false "::1" 128 0 = .ok info ∧
    (∀ b : in6_addr, ipv6_net_to_type b 128 = spaceName ipv6Spaces "Reserved" (value b.toList)) ∧
    ((∀ b : in6_addr, value b.toList ∈ block (128 - info.prefix_)
      (value [0, 0, 0, 0, 0, 0, 0, 0, 0, 0, 0, 0, 0, 0, 0, 1]) →
        ipv6_net_to_type b 128 = info.type) ∨
    ∃ s ∈ ipv6Spaces, s.k < 128 - info.prefix_ ∧ s.addrs ⊆ block (128 - info.prefix_)
      (value [0, 0, 0, 0, 0, 0, 0, 0, 0, 0, 0, 0, 0, 0, 0, 1])) ∧
    info.type ≠ "IETF Protocol Assignments" ∧ info.type ≠ "6to4" := by
  obtain ⟨info, h⟩ := exists_get_ipv6_info .loop6 .empty false "::1" 128 0
    (v := #v[0, 0, 0, 0, 0, 0, 0, 0, 0, 0, 0, 0, 0, 0, 0, 1]) rfl (by decide) fun h => absurd rfl h
  exact ⟨info, h, network_type6 (v := #v[0, 0, 0, 0, 0, 0, 0, 0, 0, 0, 0, 0, 0, 0, 0, 1]) rfl h⟩

/-! ## Random networks -/

/-- The address is in a space for private use: the code's own, or `fc00::/7`. -/
def IsPrivate : Bool → ℕ → Prop
  | false, b => spaceName ipv4Spaces "Internet" b = "Private Use"
  | true, b => b / 2 ^ 121 = 0xfc / 2

theorem spaceName_private {b : ℕ} (h : b / 2 ^ 24 = 10 ∨ b / 2 ^ 20 = 172 * 2 ^ 4 + 1 ∨
    b / 2 ^ 16 = 192 * 2 ^ 8 + 168) :
    spaceName ipv4Spaces "Internet" b = "Private Use" := by
  unfold spaceName ipv4Spaces
  simp only [List.foldr_cons, List.foldr_nil, mem_addrs, dotted, Nat.reducePow, Nat.reduceMul,
    Nat.reduceAdd, Nat.reduceDiv, Nat.div_one] at h ⊢
  rcases h with h | h | h
  · rw [if_neg (by omega), if_pos h]
  · rw [if_neg (by omega), if_neg (by omega), if_neg (by omega), if_neg (by omega),
      if_neg (by omega), if_pos h]
  · rw [if_neg (by omega), if_neg (by omega), if_neg (by omega), if_neg (by omega),
      if_neg (by omega), if_neg (by omega), if_neg (by omega), if_neg (by omega),
      if_neg (by omega), if_neg (by omega), if_neg (by omega), if_neg (by omega), if_pos h]

theorem value_four (a b x y : UInt8) :
    value [a, b, x, y] = dotted a.toNat b.toNat x.toNat y.toNat := by
  simp only [value, dotted, List.length_cons, List.length_nil, Nat.zero_add, Nat.reduceAdd,
    Nat.reduceMul, Nat.mul_zero, pow_zero, Nat.mul_one, Nat.add_zero, Nat.add_assoc]

/-- The first bytes of the address: a private IPv4 space of at least 16 digits only where the
network has as many. -/
theorem private_addr_eq {ipv6 : Bool} {p ns : ℕ} {chance : Chance} {bytes : List UInt8}
    (h : private_addr ipv6 p ns chance = some bytes) :
    if ipv6 then bytes.length = 16 ∧ value bytes / 2 ^ 121 = 0xfc / 2
    else bytes.length = 4 ∧ (value bytes / 2 ^ 24 = 10 ∨ 16 ≤ p ∧
      (value bytes / 2 ^ 20 = 172 * 2 ^ 4 + 1 ∨ value bytes / 2 ^ 16 = 192 * 2 ^ 8 + 168)) := by
  unfold private_addr at h
  cases ipv6 with
  | true =>
    rw [if_pos rfl] at h ⊢
    obtain ⟨net, -, rfl⟩ := Option.map_eq_some_iff.1 h
    have hlt := value_lt net.toList
    rw [net.length_toList] at hlt
    have hbyte : (UInt8.ofNat (0xfc ||| (ns &&& 1))).toNat = 252 + ns % 2 := by
      rw [Nat.and_one_is_mod]
      rcases Nat.mod_two_eq_zero_or_one ns with h0 | h0 <;> rw [h0] <;> rfl
    rw [List.length_cons, value, net.length_toList, hbyte]
    refine ⟨rfl, ?_⟩
    omega
  | false =>
    rw [if_neg Bool.false_ne_true] at h ⊢
    obtain ⟨net, -, rfl⟩ := Option.map_eq_some_iff.1 h
    obtain ⟨a, b, x, y, hnet⟩ := List.length_eq_four.1 net.length_toList
    have hb := b.toNat_lt
    have hx := x.toNat_lt
    have hy := y.toNat_lt
    have hsecond : ∀ n < 16, (UInt8.ofNat (16 ||| n)).toNat = 16 + n := by decide
    have hlt : ns >>> 4 &&& 0x0f < 16 := by
      rw [show (0x0f : ℕ) = 2 ^ 4 - 1 from rfl, Nat.and_two_pow_sub_one_eq_mod]
      exact Nat.mod_lt _ (Nat.succ_pos 15)
    rw [hnet]
    split_ifs with hc h1
    · refine ⟨rfl, .inr ⟨hc.1, .inr ?_⟩⟩
      have hvalue : value ([192, 168] ++ List.drop 2 [a, b, x, y]) =
        dotted 192 168 x.toNat y.toNat := value_four 192 168 x y
      rw [hvalue, dotted]
      omega
    · refine ⟨rfl, .inr ⟨hc.1, .inl ?_⟩⟩
      have hvalue : value ([172, UInt8.ofNat (16 ||| (ns >>> 4 &&& 0x0f))] ++
          List.drop 2 [a, b, x, y]) =
        dotted 172 (16 + (ns >>> 4 &&& 0x0f)) x.toNat y.toNat := by
        rw [← hsecond _ hlt]
        exact value_four 172 _ x y
      rw [hvalue, dotted]
      omega
    · refine ⟨rfl, .inl ?_⟩
      have hvalue : value ([10] ++ List.drop 1 [a, b, x, y]) =
        dotted 10 b.toNat x.toNat y.toNat := value_four 10 b x y
      rw [hvalue, dotted]
      omega

theorem random_isPrivate {ipv6 : Bool} {p ns : ℕ} {chance : Chance} {bytes : List UInt8}
    (hp : p ≤ longest ipv6) (h : private_addr ipv6 p ns chance = some bytes) :
    (∀ b ∈ block (longest ipv6 - p) (value bytes), IsPrivate ipv6 b) ↔
      (if ipv6 then 7 else 8) ≤ p := by
  have hbytes := private_addr_eq h
  cases ipv6 with
  | true =>
    obtain ⟨-, hvalue⟩ := hbytes
    rw [show longest true = 128 from rfl] at hp ⊢
    rw [if_pos rfl]
    constructor
    · intro hall
      by_contra hlt
      have hmem : 0xfe * 2 ^ 120 ∈ block 122 (value bytes) := by
        rw [block, Set.mem_ofPred_eq]
        omega
      have hprivate := hall _ (block_subset (show 122 ≤ 128 - p by omega) hmem)
      rw [IsPrivate] at hprivate
      omega
    · intro hge b hb
      have hsame : b / 2 ^ 121 = value bytes / 2 ^ 121 :=
        block_subset (show 128 - p ≤ 121 by omega) hb
      exact hsame.trans hvalue
  | false =>
    obtain ⟨-, hvalue⟩ := hbytes
    rw [show longest false = 32 from rfl] at hp ⊢
    rw [if_neg Bool.false_ne_true]
    constructor
    · intro hall
      by_contra hlt
      have hmem : 11 * 2 ^ 24 ∈ block 25 (value bytes) := by
        rw [block, Set.mem_ofPred_eq]
        omega
      have hname : spaceName ipv4Spaces "Internet" (11 * 2 ^ 24) ≠ "Private Use" := by decide
      exact hname (hall _ (block_subset (show 25 ≤ 32 - p by omega) hmem))
    · intro hge b hb
      rcases hvalue with h10 | ⟨h16, h172 | h192⟩
      · have hsame : b / 2 ^ 24 = value bytes / 2 ^ 24 :=
          block_subset (show 32 - p ≤ 24 by omega) hb
        exact spaceName_private (.inl (hsame.trans h10))
      · have hsame : b / 2 ^ 20 = value bytes / 2 ^ 20 :=
          block_subset (show 32 - p ≤ 20 by omega) hb
        exact spaceName_private (.inr (.inl (hsame.trans h172)))
      · have hsame : b / 2 ^ 16 = value bytes / 2 ^ 16 :=
          block_subset (show 32 - p ≤ 16 by omega) hb
        exact spaceName_private (.inr (.inr (hsame.trans h192)))

/-- With `-r` a prefix of more than 32 digits is one of IPv6. The network printed is private as a
whole just from eight digits on. -/
theorem ipcalcMain_random {c : Libc} {dns : Dns} {chance : Chance} {isatty : Bool} {p ns : ℕ}
    {bytes : List UInt8} {opts : List IpcalcOpt} (hpos : 0 < p) (hp : p ≤ 128)
    (hperm : opts.Perm (.random (toString p) :: networkOpts)) (hns : chance.tv_nsec = some ns)
    (hbytes : private_addr (decide (32 < p)) p ns chance = some bytes)
    (ht : ReadsAs c (c.ntop bytes) (decide (32 < p)) bytes)
    (hslash : '/' ∉ (c.ntop bytes).toList) (hcolon : ':' ∈ (c.ntop bytes).toList ↔ 32 < p) :
    ipcalcMain c dns chance isatty opts [] =
        some (0, networkLines c (decide (32 < p)) p (value bytes)) ∧
      ((∀ b ∈ block (longest (decide (32 < p)) - p) (value bytes),
        IsPrivate (decide (32 < p)) b) ↔ 8 ≤ p) := by
  have hlongest : p ≤ longest (decide (32 < p)) := by
    unfold longest
    split_ifs with h
    · exact hp
    · exact not_lt.1 fun h' => h (decide_eq_true h')
  constructor
  · have hsource : ipcalc_source c dns chance
        { IpcalcOpts.start with flags := networkFlags, randomStr := some (toString p) } none =
        .ok (c.ntop bytes ++ "/" ++ toString p, decide (32 < p), (p : ℤ)) := by
      have hgen : generate_ip_network c chance (decide (32 < p)) p =
          some (c.ntop bytes ++ "/" ++ toString p) := by
        rw [generate_ip_network, hns, Option.bind_some, hbytes, Option.map_some]
      unfold ipcalc_source
      dsimp only [IpcalcOpts.start]
      rw [str_to_prefix_fix c hlongest]
      dsimp only
      rw [if_neg (by omega), Int.toNat_natCast, hgen]
    have hargs : NetworkArgs c (c.ntop bytes) p (decide (32 < p))
        (c.ntop bytes ++ "/" ++ toString p) none :=
      .slash (toString p) hslash (colon_not_mem_toString p)
        (str_to_prefix_toString c _ false hlongest)
    rw [ipcalcMain_networkOpts (some (toString p)) hperm]
    refine ipcalc_run_networkLines rfl rfl rfl rfl hsource hargs ?_ ht hpos hlongest
    rw [decide_eq_decide.2 hcolon, Bool.or_self]
  · rw [random_isPrivate hlongest hbytes]
    split_ifs with h
    · have h32 : 32 < p := of_decide_eq_true h
      omega
    · exact Iff.rfl

/-- The address drawn is `10.7.7.7`. -/
def Chance.sevens : Chance := ⟨some 2, fun n => some (Vector.replicate n 7)⟩

def Libc.sevens : Libc := .reads "10.7.7.7" #v[10, 7, 7, 7]

theorem sevens_random : ipcalcMain .sevens .empty .sevens false
      (.random (toString 4) :: networkOpts) [] =
        some (0, networkLines .sevens (decide (32 < 4)) 4 (value [10, 7, 7, 7])) ∧
    ((∀ b ∈ block (longest (decide (32 < 4)) - 4) (value [10, 7, 7, 7]),
      IsPrivate (decide (32 < 4)) b) ↔ 8 ≤ 4) :=
  ipcalcMain_random (by decide) (by decide) (.refl _) rfl rfl ⟨_, reads_pton4 _ _, rfl⟩
    (by decide) (by decide)

end NetTool

import Mathlib.Data.List.GetD
import NetTool.Lib.Fields
import NetTool.Lib.Hex

/-!
# Texts of IPv6 addresses

The texts of groups of one to four hexadecimal digits joined by colons: eight of them, or fewer
with one `::` for the groups of zeros that are missing, which are one at least. A text has eight
groups (`length_groups`) and the 16 bytes they make.
-/

namespace Inet6

open Fields

def colon : UInt8 := 58

/-- The digits of one group. -/
structure Group where
  digits : List UInt8
  ne_nil : digits ≠ []
  short : digits.length ≤ 4
  hex : ∀ d ∈ digits, (Hex.digit d).isSome

def Group.value (g : Group) : ℕ := Hex.value g.digits

theorem Group.value_lt (g : Group) : g.value < 65536 :=
  Nat.lt_of_lt_of_le (Hex.value_lt g.digits) (Nat.pow_le_pow_right (Nat.succ_pos 15) g.short)

theorem Group.colon_not_mem (g : Group) : colon ∉ g.digits :=
  fun h => absurd (g.hex _ h) (by decide)

/-- The text of some groups. -/
def join (gs : List Group) : List UInt8 := [colon].intercalate (gs.map Group.digits)

theorem plain_digits (gs : List Group) : Plain colon (gs.map Group.digits) := by
  intro f hf
  obtain ⟨g, -, rfl⟩ := List.mem_map.1 hf
  exact ⟨g.ne_nil, g.colon_not_mem⟩

inductive V6Text
  | full (groups : List Group) (eight : groups.length = 8)
  | short (left right : List Group) (missing : left.length + right.length ≤ 7)

namespace V6Text

def text : V6Text → List UInt8
  | full gs _ => join gs
  | short l r _ => join l ++ colon :: colon :: join r

theorem text_chars (t : V6Text) : ∀ a ∈ t.text, (Hex.digit a).isSome ∨ a = colon := by
  have hjoin : ∀ gs, ∀ a ∈ join gs, (Hex.digit a).isSome ∨ a = colon := by
    intro gs
    refine forall_mem_intercalate (.inr rfl) fun f hf a ha => .inl ?_
    obtain ⟨g, -, rfl⟩ := List.mem_map.1 hf
    exact g.hex a ha
  rcases t with ⟨gs, -⟩ | ⟨l, r, -⟩
  · exact hjoin gs
  · intro a ha
    rw [text, List.mem_append, List.mem_cons, List.mem_cons] at ha
    rcases ha with ha | rfl | rfl | ha
    · exact hjoin l a ha
    · exact .inr rfl
    · exact .inr rfl
    · exact hjoin r a ha

/-- The eight groups of the address. -/
def groups : V6Text → List ℕ
  | full gs _ => gs.map Group.value
  | short l r _ =>
    l.map Group.value ++ List.replicate (8 - (l.length + r.length)) 0 ++ r.map Group.value

@[simp] theorem length_groups : ∀ t : V6Text, t.groups.length = 8
  | full gs h => by rw [groups, List.length_map, h]
  | short l r h => by
    simp only [groups, List.length_append, List.length_map, List.length_replicate]
    omega

def group (t : V6Text) (i : ℕ) : ℕ := t.groups.getD i 0

theorem group_lt (t : V6Text) (i : ℕ) : t.group i < 65536 := by
  have hall : ∀ v ∈ t.groups, v < 65536 := by
    intro v hv
    rcases t with ⟨gs, h⟩ | ⟨l, r, h⟩
    · obtain ⟨g, -, rfl⟩ := List.mem_map.1 hv
      exact g.value_lt
    · rw [groups, List.mem_append, List.mem_append, List.mem_replicate] at hv
      rcases hv with (hv | hv) | hv
      · obtain ⟨g, -, rfl⟩ := List.mem_map.1 hv
        exact g.value_lt
      · omega
      · obtain ⟨g, -, rfl⟩ := List.mem_map.1 hv
        exact g.value_lt
  unfold group
  rw [List.getD_eq_getElem?_getD]
  rcases h : t.groups[i]? with _ | v
  · exact Nat.succ_pos _
  · exact hall v (List.mem_of_getElem? h)

theorem group_full {gs : List Group} (h : gs.length = 8) {i : ℕ} (hi : i < gs.length) :
    (full gs h).group i = gs[i].value := by
  rw [group, groups, List.getD_eq_getElem _ _ (by rwa [List.length_map]), List.getElem_map]

section Short

variable {l r : List Group} (h : l.length + r.length ≤ 7) {i : ℕ}

theorem group_left (hi : i < l.length) : (short l r h).group i = l[i].value := by
  rw [group, groups, List.append_assoc, List.getD_append _ _ _ _ (by rwa [List.length_map]),
    List.getD_eq_getElem _ _ (by rwa [List.length_map]), List.getElem_map]

theorem group_missing (hl : l.length ≤ i) (hr : i < 8 - r.length) : (short l r h).group i = 0 := by
  rw [group, groups, List.append_assoc, List.getD_append_right _ _ _ _ (by rwa [List.length_map]),
    List.length_map, List.getD_append _ _ _ _ (by rw [List.length_replicate]; omega),
    List.getD_replicate _ (by omega)]

/-- Left of the groups on the right, a group is that on the left or missing. -/
theorem group_getD (hr : i < 8 - r.length) :
    (short l r h).group i = (l.map Group.value).getD i 0 := by
  rcases Nat.lt_or_ge i l.length with hlt | hge
  · rw [group_left h hlt, List.getD_eq_getElem _ _ (by rwa [List.length_map]), List.getElem_map]
  · rw [group_missing h hge hr, List.getD_eq_default _ _ (by rwa [List.length_map])]

theorem group_right {k : ℕ} (hk : k < r.length) (hi : i = 8 - r.length + k) :
    (short l r h).group i = r[k].value := by
  have hlen : (l.map Group.value ++ List.replicate (8 - (l.length + r.length)) 0).length =
      8 - r.length := by
    rw [List.length_append, List.length_map, List.length_replicate]
    omega
  rw [group, groups, List.getD_append_right _ _ _ _ (by omega), hlen, hi,
    Nat.add_sub_cancel_left, List.getD_eq_getElem _ _ (by rwa [List.length_map]),
    List.getElem_map]

end Short

theorem groups_eq (t : V6Text) : t.groups = (List.range 8).map t.group := by
  refine List.ext_getElem (by simp) fun i h1 h2 => ?_
  rw [List.getElem_map, List.getElem_range, group, List.getD_eq_getElem _ _ h1]

/-- The groups in four digits each. -/
def expanded (t : V6Text) : List UInt8 := [colon].intercalate (t.groups.map Hex.four)

/-- The address, the higher byte of each group first. -/
def addr (t : V6Text) : Vector UInt8 16 :=
  Vector.ofFn fun i =>
    UInt8.ofNat (if i.val % 2 = 0 then t.group (i / 2) / 256 else t.group (i / 2))

end V6Text

/-- The 16 bits of an address that group `i` stands for. -/
def word (a : Vector UInt8 16) (i : ℕ) : ℕ :=
  256 * (a[2 * i]?.getD 0).toNat + (a[2 * i + 1]?.getD 0).toNat

theorem word_addr (t : V6Text) {i : ℕ} (h : i < 8) : word t.addr i = t.group i := by
  have hlt := t.group_lt i
  have hhigh : t.addr[2 * i]?.getD 0 = UInt8.ofNat (t.group i / 256) := by
    rw [V6Text.addr, Vector.getElem?_ofFn, dif_pos (show 2 * i < 16 by omega), Option.getD_some,
      if_pos (Nat.mul_mod_right 2 i), Nat.mul_div_cancel_left _ (Nat.succ_pos 1)]
  have hlow : t.addr[2 * i + 1]?.getD 0 = UInt8.ofNat (t.group i) := by
    rw [V6Text.addr, Vector.getElem?_ofFn, dif_pos (show 2 * i + 1 < 16 by omega), Option.getD_some]
    simp only [show (2 * i + 1) / 2 = i by omega]
    rw [if_neg (by omega)]
  rw [word, hhigh, hlow, UInt8.toNat_ofNat', UInt8.toNat_ofNat']
  omega

/-- The bits of an address, the highest of its first byte first. -/
def bit (a : Vector UInt8 16) (i : ℕ) : Bool := (a[i / 8]?.getD 0).toNat.testBit (7 - i % 8)

theorem bit_addr (t : V6Text) {i : ℕ} (h : i < 128) :
    bit t.addr i = (t.group (i / 16)).testBit (15 - i % 16) := by
  have hbyte : t.addr[i / 8]?.getD 0 =
      UInt8.ofNat (if i / 8 % 2 = 0 then t.group (i / 8 / 2) / 256 else t.group (i / 8 / 2)) := by
    rw [V6Text.addr, Vector.getElem?_ofFn, dif_pos (show i / 8 < 16 by omega), Option.getD_some]
  have hgroup : i / 8 / 2 = i / 16 := Nat.div_div_eq_div_mul i 8 2
  rw [bit, hbyte, hgroup, UInt8.toNat_ofNat', Nat.testBit_mod_two_pow, decide_eq_true (by omega),
    Bool.true_and]
  split_ifs with h2
  · rw [show 256 = 2 ^ 8 from rfl, Nat.testBit_div_two_pow]
    congr 1
    omega
  · congr 1
    omega

/-- The four digits of two bytes. -/
def Group.ofBytes (b b' : UInt8) : Group where
  digits := [b.toNat / 16, b.toNat % 16, b'.toNat / 16, b'.toNat % 16].map Hex.lower
  ne_nil := List.cons_ne_nil _ _
  short := by rw [List.length_map]; exact Nat.le_refl 4
  hex := fun d hd => by
    obtain ⟨n, hn, rfl⟩ := List.mem_map.1 hd
    have hb := b.toNat_lt
    have hb' := b'.toNat_lt
    have hlt : n < 16 := by
      simp only [List.mem_cons, List.not_mem_nil, or_false] at hn
      omega
    rw [Hex.digit_lower hlt]
    rfl

theorem Group.value_ofBytes (b b' : UInt8) :
    (Group.ofBytes b b').value = 256 * b.toNat + b'.toNat := by
  have hb := b.toNat_lt
  have hb' := b'.toNat_lt
  simp only [value, ofBytes, Hex.value, List.map_cons, List.map_nil, List.foldl_cons,
    List.foldl_nil, Hex.digit_lower (show b.toNat / 16 < 16 by omega),
    Hex.digit_lower (Nat.mod_lt b.toNat (Nat.succ_pos 15)),
    Hex.digit_lower (show b'.toNat / 16 < 16 by omega),
    Hex.digit_lower (Nat.mod_lt b'.toNat (Nat.succ_pos 15)), Option.getD_some]
  omega

/-- The text of an address with all its digits. -/
def V6Text.ofAddr (a : Vector UInt8 16) : V6Text :=
  .full ((List.range 8).map fun i => .ofBytes (a[2 * i]?.getD 0) (a[2 * i + 1]?.getD 0))
    (by rw [List.length_map, List.length_range])

theorem V6Text.addr_ofAddr (a : Vector UInt8 16) : (V6Text.ofAddr a).addr = a := by
  refine Vector.ext fun i hi => ?_
  have hgroup : (V6Text.ofAddr a).group (i / 2) =
      256 * (a[2 * (i / 2)]?.getD 0).toNat + (a[2 * (i / 2) + 1]?.getD 0).toNat := by
    rw [ofAddr, group_full _ (by rw [List.length_map, List.length_range]; omega), List.getElem_map,
      List.getElem_range, Group.value_ofBytes]
  have hb := (a[2 * (i / 2) + 1]?.getD 0).toNat_lt
  have hb' := (a[2 * (i / 2)]?.getD 0).toNat_lt
  rw [addr, Vector.getElem_ofFn]
  dsimp only
  rw [hgroup]
  refine UInt8.toNat_inj.1 ?_
  rw [UInt8.toNat_ofNat']
  split_ifs with h
  · have hi2 : a[2 * (i / 2)]?.getD 0 = a[i] := by
      rw [show 2 * (i / 2) = i by omega, Vector.getElem?_eq_getElem hi, Option.getD_some]
    rw [hi2] at hb' ⊢
    omega
  · have hi2 : a[2 * (i / 2) + 1]?.getD 0 = a[i] := by
      rw [show 2 * (i / 2) + 1 = i by omega, Vector.getElem?_eq_getElem hi, Option.getD_some]
    rw [hi2] at hb ⊢
    omega

/-- The text `::`. -/
def V6Text.unspecified : V6Text := .short [] [] (Nat.zero_le 7)

/-- The group `1`. -/
def Group.one : Group where
  digits := [49]
  ne_nil := List.cons_ne_nil _ _
  short := Nat.le_add_left 1 3
  hex := List.forall_mem_singleton.2 rfl

/-- The text `::1`. -/
def V6Text.loopback : V6Text := .short [] [.one] (Nat.le_add_left 1 6)

end Inet6

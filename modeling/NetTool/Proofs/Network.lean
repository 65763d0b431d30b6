import Mathlib.Data.List.TakeWhile
import Mathlib.Data.Nat.Bitwise
import NetTool.Lib.Inet6
import NetTool.Network

/-!
# The address texts of the test program

On the text of an IPv6 address `getcolon` returns each group of the address that `inet_pton` assigns
to it, without a store outside `str` (`getcolon_returns_group`), so `Net_inet_pton` appends the
digits of the address to what `Str` and `StrOutput` hold. It never empties the two arrays: what it
prints is right for every text exactly when both are empty on entry (`prints_addresses_iff`).
-/

namespace NetTool

open Bytes CInt Loop Fields Inet6

/-! ## Numbers -/

theorem digit_ge {b : UInt8} (h : (Hex.digit b).isSome) : 48 ≤ b.toNat := by
  unfold Hex.digit at h
  split_ifs at h <;> first | omega | cases h

theorem isspace_of_digit {b : UInt8} (h : (Hex.digit b).isSome) : isspace b = false := by
  have hb := digit_ge h
  have h32 : b ≠ ch ' ' := fun he => absurd (he ▸ hb) (by decide)
  have h13 : ¬ b ≤ 13 := fun hle => absurd (UInt8.le_iff_toNat_le.1 hle) (by
    rw [show (13 : UInt8).toNat = 13 from rfl]
    omega)
  simp [isspace, h32, h13]

/-- A text of digits is taken whole. -/
theorem hexItem_digits {ds : List UInt8} (h : ∀ d ∈ ds, (Hex.digit d).isSome) :
    hexItem ds = (false, ds) := by
  have hspace : ds.dropWhile isspace = ds := by
    rcases ds with _ | ⟨d, ds⟩
    · rfl
    · rw [List.dropWhile_cons, isspace_of_digit (h d List.mem_cons_self), if_neg Bool.false_ne_true]
  have hhead : ∀ {b : UInt8}, ¬ (Hex.digit b).isSome → ds.head? ≠ some b :=
    fun hb he => hb (h _ (List.mem_of_head? he))
  have hx : ∀ {b : UInt8}, ¬ (Hex.digit b).isSome → ds[1]? ≠ some b :=
    fun hb he => hb (h _ (List.mem_of_getElem? he))
  have hminus : ds.head? ≠ some (ch '-') := hhead (by decide)
  have hplus : ds.head? ≠ some (ch '+') := hhead (by decide)
  have hx1 : ds[1]? ≠ some (ch 'x') := hx (by decide)
  have hx2 : ds[1]? ≠ some (ch 'X') := hx (by decide)
  unfold hexItem
  simp only [hspace]
  rw [if_neg (not_or.2 ⟨hminus, hplus⟩), if_neg fun he => he.2.elim hx1 hx2,
    decide_eq_false hminus, List.takeWhile_eq_self_iff.2 h]

theorem strtol_digits {ds : List UInt8} (h : ∀ d ∈ ds, (Hex.digit d).isSome)
    (hv : Hex.value ds < 65536) : i32 (strtol ds) = Hex.value ds := by
  rw [strtol, hexItem_digits h, if_neg Bool.false_ne_true]
  simp only []
  rw [Int.min_eq_right (by omega)]
  exact i32_of_mem (by omega) (by omega)

theorem strtol_zero : i32 (strtol [ch '0']) = 0 :=
  strtol_digits (List.forall_mem_singleton.2 rfl) (by decide)

/-! ## Groups -/

/-- The string in `str` is a number's, and every store was to one of its five bytes. -/
structure ColonStr.Reads (str : ColonStr) (v : ℕ) : Prop where
  inside : ∀ i ∈ str.stores, i < 5
  ended : str.text.length < 5
  value : i32 (strtol (if str.text = [] then [ch '0'] else str.text)) = v

theorem getcolon_of_reads {addr : List UInt8} {pos v : ℕ} {str : ColonStr}
    (h : getcolon_str addr pos = some str) (hr : str.Reads v) :
    getcolon addr pos = some (v : ℤ) := by
  rw [getcolon, h, Option.bind_some, if_pos ⟨hr.inside, hr.ended⟩, hr.value]

theorem bzero_inside {str : ColonStr} (h : ∀ i ∈ str.stores, i < 5) :
    ∀ i ∈ str.bzero.stores, i < 5 := by
  intro i hi
  rcases List.mem_append.1 hi with hi | hi
  · exact h i hi
  · exact List.mem_range.1 hi

theorem zero_reads {str : ColonStr} (h : ∀ i ∈ str.stores, i < 5) (ht : str.text = []) :
    str.zero.Reads 0 := by
  refine ⟨fun i hi => ?_, ?_, ?_⟩
  · rcases List.mem_append.1 hi with hi | hi
    · exact h i hi
    · rw [List.mem_singleton.1 hi]
      exact Nat.succ_pos 4
  · rw [ColonStr.zero, ht]
    exact Nat.lt_of_sub_eq_succ rfl
  · rw [ColonStr.zero, ht, if_neg (List.cons_ne_nil _ _)]
    exact strtol_zero

theorem copy_inside {str : ColonStr} (h : ∀ i ∈ str.stores, i < 5) {y : List UInt8}
    (hy : (field (ch ':') y).length ≤ 4) : ∀ i ∈ (str.copy y).stores, i < 5 := by
  intro i hi
  rcases List.mem_append.1 hi with hi | hi
  · exact h i hi
  · exact Nat.lt_of_lt_of_le (List.mem_range.1 hi) (Nat.le_succ_of_le hy)

theorem copy_reads {str : ColonStr} (h : ∀ i ∈ str.stores, i < 5) {y : List UInt8} {g : Group}
    (hy : field (ch ':') y = g.digits) : (str.copy y).Reads g.value := by
  have hlen : (field (ch ':') y).length ≤ 4 := hy ▸ g.short
  refine ⟨copy_inside h hlen, Nat.lt_succ_of_le hlen, ?_⟩
  rw [show (str.copy y).text = g.digits from hy, if_neg g.ne_nil]
  exact strtol_digits g.hex g.value_lt

theorem copy_empty_reads {str : ColonStr} (h : ∀ i ∈ str.stores, i < 5) {y : List UInt8}
    (hy : field (ch ':') y = []) : (str.copy y).Reads 0 := by
  refine ⟨copy_inside h (hy ▸ Nat.zero_le 4), ?_, ?_⟩
  · rw [show (str.copy y).text = [] from hy]
    exact Nat.succ_pos 4
  · rw [if_pos (show (str.copy y).text = [] from hy)]
    exact strtol_zero

theorem skip_join {gs : List Group} {tl : List UInt8} (htl : ∀ a ∈ tl.head?, a = colon) {i : ℕ}
    (h : i < gs.length) :
    ∃ y, skip (ch ':') i (join gs ++ tl) = some y ∧ field (ch ':') y = gs[i].digits := by
  have hf := field_intercalate htl (plain_digits gs) (by rwa [List.length_map])
  rw [List.getElem_map] at hf
  exact Option.map_eq_some_iff.1 hf

theorem skip_digits {gs : List Group} {i : ℕ} (h : i < gs.length) :
    ∃ y, skip (ch ':') i (join gs) = some y ∧ field (ch ':') y = gs[i].digits := by
  obtain ⟨y, hy, hf⟩ := skip_intercalate (plain_digits gs) (by rwa [List.length_map])
  exact ⟨y, hy, hf.trans (List.getElem_map _)⟩

theorem isV6TypeStandard_text (t : V6Text) : isV6TypeStandard t.text = true :=
  decide_eq_true fun h => by
    rcases t.text_chars _ h with h | h
    · exact absurd h (by decide)
    · exact absurd h (by decide)

theorem bzero_stores : ∀ i ∈ (ColonStr.bzero ⟨[], []⟩).stores, i < 5 :=
  bzero_inside (by simp)

/-- `getcolon` on fields without a pair of colons. -/
theorem getcolon_str_fields {fs : List (List UInt8)} (h : Plain colon fs) (hfs : fs ≠ []) (pos : ℕ) :
    getcolon_str ([colon].intercalate fs) pos =
      (skip (ch ':') pos ([colon].intercalate fs)).map (ColonStr.bzero ⟨[], []⟩).copy := by
  have hpairs : pairs (ch ':') ([colon].intercalate fs) = 0 := pairs_intercalate h
  unfold getcolon_str
  simp only []
  rw [if_neg (intercalate_ne_nil h hfs), if_pos hpairs]

theorem getcolon_str_full {gs : List Group} (h : gs.length = 8) {pos : ℕ} (hp : pos < 8) :
    ∃ str, getcolon_str (V6Text.full gs h).text pos = some str ∧
      str.Reads ((V6Text.full gs h).group pos) := by
  have hlen : pos < gs.length := h ▸ hp
  obtain ⟨y, hy, hf⟩ := skip_digits hlen
  have hne : gs.map Group.digits ≠ [] := by
    rw [Ne, List.map_eq_nil_iff]
    rintro rfl
    cases h
  refine ⟨(ColonStr.bzero ⟨[], []⟩).copy y, ?_, ?_⟩
  · exact (getcolon_str_fields (plain_digits gs) hne pos).trans (congrArg (Option.map _) hy)
  · rw [V6Text.group_full h hlen]
    exact copy_reads bzero_stores hf

section Pair

variable {ls rs : List (List UInt8)} (hl : Plain colon ls) (hr : Plain colon rs)
  {addr : List UInt8} (ht : addr = [colon].intercalate ls ++ colon :: colon :: [colon].intercalate rs)
  {max : ℤ} (hmax : (if isV6TypeStandard addr then 7 else 5) = max) {pos : ℕ}

include hl hr ht hmax

/-- `getcolon` with the colons it counts on both sides. -/
theorem getcolon_str_pair (pos : ℕ) : getcolon_str addr pos =
    (if pos ≤ ls.length - 1 then (skip (ch ':') pos addr).map (ColonStr.bzero ⟨[], []⟩).copy
    else some (ColonStr.bzero ⟨[], []⟩)).bind fun str =>
      let str := if ls.length - 1 < pos ∧ (pos : ℤ) < max - (rs.length - 1 : ℕ) then str.zero else str
      if max - (rs.length - 1 : ℕ) ≤ pos then
        (skip (ch ':') (pos - (max - (rs.length - 1 : ℕ))).toNat ([colon].intercalate rs)).map
          str.bzero.copy
      else some str := by
  have hne : addr ≠ [] := by
    rw [ht]
    exact List.append_ne_nil_of_right_ne_nil _ nofun
  have hpairs : pairs (ch ':') addr ≠ 0 := by
    rw [ht]
    exact Nat.ne_of_gt (pairs_pos _)
  have hpair : toPair (ch ':') addr = (ls.length - 1, colon :: colon :: [colon].intercalate rs) := by
    rw [ht]
    exact toPair_intercalate hl
  have hcount : ([colon].intercalate rs).count (ch ':') = rs.length - 1 := count_intercalate hr
  have hlast : ¬ (addr[addr.length - 1]? = some (ch ':') ∧
      addr[addr.length - 2]? ≠ some (ch ':')) := last_pair hr ht
  unfold getcolon_str
  simp only [hmax, hpair, List.drop_succ_cons, List.drop_zero, hcount]
  rw [if_neg hne, if_neg hpairs, if_neg hlast, Int.sub_zero]

theorem pair_left (h : pos ≤ ls.length - 1) (hp : (pos : ℤ) < max - (rs.length - 1 : ℕ)) :
    getcolon_str addr pos = (skip (ch ':') pos addr).map (ColonStr.bzero ⟨[], []⟩).copy := by
  have hmiddle : ¬ (ls.length - 1 < pos ∧ (pos : ℤ) < max - (rs.length - 1 : ℕ)) :=
    fun hlt => Nat.not_lt.2 h hlt.1
  rw [getcolon_str_pair hl hr ht hmax, if_pos h]
  rcases skip (ch ':') pos addr with _ | y
  · rfl
  · simp only [Option.map_some, Option.bind_some, if_neg hmiddle, if_neg (Int.not_le.2 hp)]

theorem pair_middle (h : ls.length - 1 < pos) (hp : (pos : ℤ) < max - (rs.length - 1 : ℕ)) :
    getcolon_str addr pos = some (ColonStr.bzero ⟨[], []⟩).zero := by
  have hmiddle : ls.length - 1 < pos ∧ (pos : ℤ) < max - (rs.length - 1 : ℕ) := ⟨h, hp⟩
  rw [getcolon_str_pair hl hr ht hmax, if_neg (Nat.not_le.2 h)]
  simp only [Option.bind_some, if_pos hmiddle, if_neg (Int.not_le.2 hp)]

/-- What `str` held before does not count on the right. -/
theorem pair_right (h : ls.length - 1 < pos ∨ ls = []) (hp : max - (rs.length - 1 : ℕ) ≤ pos) :
    ∃ str : ColonStr, (∀ i ∈ str.stores, i < 5) ∧ getcolon_str addr pos =
      (skip (ch ':') (pos - (max - (rs.length - 1 : ℕ))).toNat ([colon].intercalate rs)).map
        str.bzero.copy := by
  have hmiddle : ¬ (ls.length - 1 < pos ∧ (pos : ℤ) < max - (rs.length - 1 : ℕ)) :=
    fun hlt => Int.not_le.2 hlt.2 hp
  rw [getcolon_str_pair hl hr ht hmax]
  by_cases hpos : pos ≤ ls.length - 1
  · obtain rfl := h.resolve_left (by omega)
    obtain rfl : pos = 0 := Nat.le_zero.1 hpos
    refine ⟨(ColonStr.bzero ⟨[], []⟩).copy addr, copy_inside bzero_stores ?_, ?_⟩
    · rw [ht]
      exact Nat.zero_le 4
    · rw [if_pos hpos, skip]
      simp only [Option.map_some, Option.bind_some, if_neg hmiddle, if_pos hp]
  · refine ⟨_, bzero_stores, ?_⟩
    rw [if_neg hpos]
    simp only [Option.bind_some, if_neg hmiddle, if_pos hp]

end Pair

/-- The field of each number left of a pair of colons. -/
theorem left_reads {l : List Group} {tl : List UInt8} {pos : ℕ} (hl : pos ≤ l.length - 1) :
    ∃ y, skip (ch ':') pos (join l ++ colon :: colon :: tl) = some y ∧
      ∀ {str : ColonStr}, (∀ i ∈ str.stores, i < 5) →
        (str.copy y).Reads ((l.map Group.value).getD pos 0) := by
  rcases l with _ | ⟨g, l⟩
  · obtain rfl : pos = 0 := Nat.le_zero.1 hl
    exact ⟨_, skip.eq_1 _ _, fun hs => copy_empty_reads hs rfl⟩
  · have hpos : pos < (g :: l).length := Nat.lt_succ_of_le hl
    obtain ⟨y, hy, hf⟩ := @skip_join (g :: l) (colon :: colon :: tl)
      (fun _ ha => (Option.some.inj ha).symm) _ hpos
    refine ⟨y, hy, fun hs => ?_⟩
    rw [List.getD_eq_getElem _ _ (by rwa [List.length_map]), List.getElem_map]
    exact copy_reads hs hf

section Short

variable {l r : List Group} (h : l.length + r.length ≤ 7) {pos : ℕ}

theorem short_left_reads (hl : pos ≤ l.length - 1) (hp : pos < 8 - r.length) :
    ∃ str, (skip (ch ':') pos (V6Text.short l r h).text).map (ColonStr.bzero ⟨[], []⟩).copy =
      some str ∧ str.Reads ((V6Text.short l r h).group pos) := by
  obtain ⟨y, hy, hreads⟩ := @left_reads l (join r) pos hl
  refine ⟨_, congrArg (Option.map _) hy, ?_⟩
  rw [V6Text.group_getD h hp]
  exact hreads bzero_stores

/-- The fields right of the pair. -/
theorem short_right_reads (hp : pos < 8) (hr : (7 - (r.length - 1 : ℕ) : ℤ) ≤ pos) {str : ColonStr}
    (hs : ∀ i ∈ str.stores, i < 5) :
    ∃ str', (skip (ch ':') (pos - (7 - (r.length - 1 : ℕ) : ℤ)).toNat (join r)).map str.copy =
      some str' ∧ str'.Reads ((V6Text.short l r h).group pos) := by
  rcases r with _ | ⟨g, r⟩
  · rw [show (pos - (7 - (([] : List Group).length - 1 : ℕ) : ℤ)).toNat = 0 by
      simp only [List.length_nil]
      omega]
    rw [List.length_nil] at h hr
    rw [V6Text.group_missing h (by omega) hp]
    exact ⟨_, rfl, copy_empty_reads hs rfl⟩
  · have hk : (pos - (7 - ((g :: r).length - 1 : ℕ) : ℤ)).toNat < (g :: r).length := by
      have hlen : (g :: r).length = r.length + 1 := rfl
      rw [hlen] at hr ⊢
      omega
    obtain ⟨y, hy, hf⟩ := skip_digits hk
    refine ⟨_, congrArg (Option.map _) hy, ?_⟩
    rw [V6Text.group_right h hk (by omega)]
    exact copy_reads hs hf

theorem getcolon_str_short_reads (hp : pos < 8) :
    ∃ str, getcolon_str (V6Text.short l r h).text pos = some str ∧
      str.Reads ((V6Text.short l r h).group pos) := by
  have hmax : (if isV6TypeStandard (V6Text.short l r h).text then 7 else 5) = (7 : ℤ) :=
    if_pos (isV6TypeStandard_text _)
  have hl := plain_digits l
  have hr := plain_digits r
  have hlr : ((l.map Group.digits).length - 1 : ℕ) = l.length - 1 ∧
      ((r.map Group.digits).length - 1 : ℕ) = r.length - 1 := by
    rw [List.length_map, List.length_map]
    exact ⟨rfl, rfl⟩
  by_cases hright : (7 - (r.length - 1 : ℕ) : ℤ) ≤ pos
  · obtain ⟨str, hs, he⟩ := pair_right hl hr rfl hmax (.inl (by omega)) (hlr.2 ▸ hright)
    rw [hlr.2] at he
    obtain ⟨str', he', hreads⟩ := short_right_reads h hp hright (bzero_inside hs)
    exact ⟨str', he.trans he', hreads⟩
  · rcases Nat.lt_or_ge (l.length - 1) pos with hlt | hge
    · have he := pair_middle hl hr rfl hmax (hlr.1 ▸ hlt) (by rw [hlr.2]; omega)
      rw [V6Text.group_missing h (by omega) (by omega)]
      exact ⟨_, he, zero_reads bzero_stores rfl⟩
    · have he := pair_left hl hr rfl hmax (hlr.1 ▸ hge) (by rw [hlr.2]; omega)
      obtain ⟨str, he', hreads⟩ := short_left_reads h hge (by omega)
      exact ⟨str, he.trans he', hreads⟩

end Short

/-- The string `getcolon` reads is the group's. -/
theorem getcolon_str_reads (t : V6Text) {pos : ℕ} (hp : pos < 8) :
    ∃ str, getcolon_str t.text pos = some str ∧ str.Reads (t.group pos) := by
  rcases t with ⟨gs, h⟩ | ⟨l, r, h⟩
  · exact getcolon_str_full h hp
  · exact getcolon_str_short_reads h hp

/-- `getcolon` returns the groups of the address. -/
theorem getcolon_eq (t : V6Text) {pos : ℕ} (hp : pos < 8) :
    getcolon t.text pos = some (t.group pos : ℤ) := by
  obtain ⟨str, hs, hr⟩ := getcolon_str_reads t hp
  exact getcolon_of_reads hs hr

/-- `getcolon` returns group `pos` of the address, and every store is to one of the five bytes of
`str`. -/
def ReturnsGroup (addr : List UInt8) (a : Vector UInt8 16) (pos : ℕ) : Prop :=
  ∃ str, getcolon_str addr pos = some str ∧ (∀ i ∈ str.stores, i < 5) ∧
    getcolon addr pos = some (word a pos : ℤ)

/-! ## The two arrays -/

/-- What `strcat` leaves, whatever the array held. -/
theorem cstr_strcat {dst dst' : Mem} {n : ℕ} {src : List UInt8} (h : strcat dst n src = some dst')
    (h0 : ∀ b ∈ src, b ≠ 0) : cstr dst' 0 n = cstr dst 0 n ++ src := by
  unfold strcat at h
  simp only [] at h
  split_ifs at h with hlen
  obtain rfl := Option.some.inj h
  have hs : slice (setBytes dst (cstr dst 0 n).length (src ++ [0])) 0
      (cstr dst 0 n ++ (src ++ [0])).length = cstr dst 0 n ++ (src ++ [0]) := by
    rw [List.length_append, slice_append, Nat.zero_add, slice_setBytes,
      slice_setBytes_apart (.inl (Nat.le_of_eq (Nat.zero_add _))), slice_cstr]
  have hnul : (cstr dst 0 n ++ (src ++ [0]))[(cstr dst 0 n).length + src.length]? = some 0 := by
    rw [List.getElem?_append_right (Nat.le_add_right _ _), Nat.add_sub_cancel_left,
      List.getElem?_append_right (Nat.le_refl _), Nat.sub_self]
    rfl
  rw [cstr_of_slice hs hnul hlen, ← List.append_assoc, List.takeWhile_append_of_pos]
  · rw [List.takeWhile_cons_of_neg (by simp), List.append_nil]
  · intro b hb
    rw [decide_eq_true_eq]
    exact (List.mem_append.1 hb).elim ne_zero_of_mem_cstr (h0 b)

theorem strcat_isSome {dst : Mem} {n : ℕ} {src : List UInt8}
    (h : (cstr dst 0 n).length + src.length < n) : (strcat dst n src).isSome := by
  rw [strcat, if_pos h]
  rfl

theorem sprintf_value_eq {v : ℕ} (h : v < 65536) : sprintf_value v = Hex.four v := by
  have hv : u32 v = v := by
    unfold u32
    omega
  have hhigh : (v &&& 0xFF00) >>> 8 = v / 256 := by
    rw [Nat.shiftRight_and_distrib, Nat.shiftRight_eq_div_pow,
      show 0xFF00 >>> 8 = 2 ^ 8 - 1 from rfl, Nat.and_two_pow_sub_one_eq_mod]
    omega
  rw [sprintf_value, hv, hhigh, show 0x00FF = 2 ^ 8 - 1 from rfl, Nat.and_two_pow_sub_one_eq_mod,
    Hex.four_eq h]

/-- What one round appends to `StrOutput`. -/
def outputField (t : V6Text) (ii : ℕ) : List UInt8 :=
  Hex.four (t.group ii) ++ if ii < 7 then [colon] else []

section Fields

variable {t : V6Text} {s s' : Mem × Mem}

theorem four_ne_zero {v : ℕ} {b : UInt8} (h : b ∈ Hex.four v) : b ≠ 0 := by
  obtain ⟨n, hn, rfl⟩ := Hex.mem_four h
  exact Hex.upper_ne_zero hn

theorem outputField_ne_zero {ii : ℕ} {b : UInt8} (h : b ∈ outputField t ii) : b ≠ 0 := by
  rcases List.mem_append.1 h with h | h
  · exact four_ne_zero h
  · split_ifs at h
    · rw [List.mem_singleton.1 h]
      decide
    · cases h

theorem append_field_eq {ii : ℕ} (h : ii < 8) : append_field t.text s ii =
    (strcat s.2 1024 (outputField t ii)).bind fun StrOutput =>
      (strcat s.1 1024 (Hex.four (t.group ii))).map fun Str => (Str, StrOutput) := by
  rw [append_field, getcolon_eq t h, Option.bind_some, sprintf_value_eq (t.group_lt ii)]
  rfl

/-- The rounds append the digits of their groups. -/
theorem append_fields_cstr : ∀ {is : List ℕ} {s : Mem × Mem}, (∀ ii ∈ is, ii < 8) →
    is.foldlM (append_field t.text) s = some s' →
      cstr s'.1 0 1024 = cstr s.1 0 1024 ++ is.flatMap (fun ii => Hex.four (t.group ii)) ∧
        cstr s'.2 0 1024 = cstr s.2 0 1024 ++ is.flatMap (outputField t)
  | [], s, _, h => by
    obtain rfl := Option.some.inj h
    simp
  | ii :: is, s, hi, h => by
    rw [List.foldlM_cons, append_field_eq (hi ii List.mem_cons_self)] at h
    obtain ⟨s1, h1, h⟩ := Option.bind_eq_some_iff.1 h
    obtain ⟨StrOutput, hout, h1⟩ := Option.bind_eq_some_iff.1 h1
    obtain ⟨Str, hstr, rfl⟩ := Option.map_eq_some_iff.1 h1
    obtain ⟨ih1, ih2⟩ := append_fields_cstr (fun ii h => hi ii (List.mem_cons_of_mem _ h)) h
    rw [ih1, ih2, cstr_strcat hstr fun b hb => four_ne_zero hb,
      cstr_strcat hout fun b hb => outputField_ne_zero hb, List.append_assoc, List.append_assoc]
    exact ⟨rfl, rfl⟩

theorem length_outputField_le (ii : ℕ) : (outputField t ii).length ≤ 5 := by
  unfold outputField
  split_ifs <;> simp

/-- The rounds go through where the arrays have room. -/
theorem append_fields_isSome : ∀ {is : List ℕ} {s : Mem × Mem}, (∀ ii ∈ is, ii < 8) →
    (cstr s.1 0 1024).length + 5 * is.length < 1024 →
      (cstr s.2 0 1024).length + 5 * is.length < 1024 →
        (is.foldlM (append_field t.text) s).isSome
  | [], _, _, _, _ => rfl
  | ii :: is, s, hi, h1, h2 => by
    have hfield := length_outputField_le (t := t) ii
    rw [List.length_cons] at h1 h2
    obtain ⟨Str, hstr⟩ := Option.isSome_iff_exists.1
      (@strcat_isSome s.1 1024 (Hex.four (t.group ii)) (by rw [Hex.length_four]; omega))
    obtain ⟨StrOutput, hout⟩ := Option.isSome_iff_exists.1
      (@strcat_isSome s.2 1024 (outputField t ii) (by omega))
    have hlen := congrArg List.length (cstr_strcat hstr fun b hb => four_ne_zero hb)
    have hlen' := congrArg List.length (cstr_strcat hout fun b hb => outputField_ne_zero hb)
    rw [List.length_append] at hlen hlen'
    rw [Hex.length_four] at hlen
    rw [List.foldlM_cons, append_field_eq (hi ii List.mem_cons_self), hout, Option.bind_some, hstr,
      Option.map_some]
    refine append_fields_isSome (fun ii h => hi ii (List.mem_cons_of_mem _ h)) ?_ ?_
    · simp only []
      omega
    · simp only []
      omega

end Fields

theorem outputFields_eq (t : V6Text) : (List.range 8).flatMap (outputField t) = t.expanded := by
  rw [V6Text.expanded, V6Text.groups_eq, show List.range 8 = [0, 1, 2, 3, 4, 5, 6, 7] from rfl]
  simp only [List.map_cons, List.map_nil, List.flatMap_cons, List.flatMap_nil, outputField,
    List.intercalate_cons_cons, List.intercalate_singleton]
  rfl

theorem fourFields_eq (t : V6Text) :
    (List.range 8).flatMap (fun ii => Hex.four (t.group ii)) = t.groups.flatMap Hex.four := by
  rw [V6Text.groups_eq, List.flatMap_map]

/-! ## The last bit -/

section Bits

variable {Str : Mem}

theorem sscanf_upper {n : ℕ} (h : n < 16) :
    sscanf_hhx [ch '0', ch 'x', Hex.upper n] = some n := by
  have hd := Hex.digit_upper h
  have hitem : hexItem [ch '0', ch 'x', Hex.upper n] = (false, [Hex.upper n]) := by
    have hspace : [ch '0', ch 'x', Hex.upper n].dropWhile isspace = [ch '0', ch 'x', Hex.upper n] :=
      List.dropWhile_cons_of_neg (by decide)
    have htake : [Hex.upper n].takeWhile (fun b => (Hex.digit b).isSome) = [Hex.upper n] := by
      rw [List.takeWhile_cons_of_pos (by rw [hd]; rfl), List.takeWhile_nil]
    unfold hexItem
    simp only [hspace]
    exact Prod.ext rfl htake
  have hvalue : Hex.value [Hex.upper n] = n := by
    rw [← List.nil_append [_], Hex.value_append, hd]
    exact Nat.zero_add n
  unfold sscanf_hhx
  simp only [hitem, hvalue]
  rw [if_neg (List.cons_ne_nil _ _), if_neg Bool.false_ne_true]
  exact congrArg some (by omega)

theorem and_shiftLeft_ne_zero (n k : ℕ) : n &&& 1 <<< k ≠ 0 ↔ n.testBit k = true := by
  rw [Nat.one_shiftLeft, Nat.and_two_pow]
  rcases n.testBit k with _ | _ <;> simp

/-- One digit of `Str`. -/
theorem count_bits_lastSet {bit : ℕ → Bool} {n ii : ℕ} {s : ℕ × ℕ} (h : LastSet bit (4 * ii) s.2)
    (hn : n < 16) (hstr : Str ii = Hex.upper n)
    (hbit : ∀ jj < 4, bit (4 * ii + jj) = n.testBit (3 - jj)) :
    LastSet bit (4 * (ii + 1)) (count_bits Str s ii).2 := by
  unfold count_bits
  simp only [hstr, sscanf_upper hn, Option.getD_some]
  refine h.rounds (j := 4) fun jj hjj vNbBit => ?_
  simp only [and_shiftLeft_ne_zero, hbit jj hjj, Nat.mul_comm ii 4]

theorem count_bits_run {bit : ℕ → Bool} : ∀ {m : ℕ},
    (∀ ii < m, ∃ n < 16, Str ii = Hex.upper n ∧ ∀ jj < 4, bit (4 * ii + jj) = n.testBit (3 - jj)) →
      LastSet bit (4 * m) ((List.range m).foldl (count_bits Str) (0, 0)).2
  | 0, _ => LastSet.zero
  | m + 1, h => by
    obtain ⟨n, hn, hstr, hbit⟩ := h m (Nat.lt_succ_self m)
    have ih := count_bits_run fun ii hii => h ii (Nat.lt_succ_of_lt hii)
    rw [List.range_succ, List.foldl_append, List.foldl_cons, List.foldl_nil]
    exact count_bits_lastSet ih hn hstr hbit

theorem count_bits_congr {Str' : Mem} (h : slice Str 0 32 = slice Str' 0 32) :
    (List.range 32).foldl (count_bits Str) (0, 0) =
      (List.range 32).foldl (count_bits Str') (0, 0) := by
  refine List.foldl_ext _ _ _ fun s ii hii => ?_
  have hbyte := byte_of_slice_eq h (List.mem_range.1 hii)
  rw [Nat.zero_add] at hbyte
  simp only [count_bits, hbyte]

/-- The digits of an address at the start of `Str`. -/
theorem count_bits_digits {t : V6Text} (h : cstr Str 0 1024 = t.groups.flatMap Hex.four) :
    LastSet (bit t.addr) 128 ((List.range 32).foldl (count_bits Str) (0, 0)).2 := by
  have hslice := slice_cstr Str 0 1024
  rw [h] at hslice
  refine count_bits_run (m := 32) fun ii hii => ?_
  refine ⟨Hex.nibble (t.group (ii / 4)) (ii % 4), Hex.nibble_lt _ _, ?_, fun jj hjj => ?_⟩
  · have hdigit := Hex.getElem?_flatMap_four t.groups (ii / 4) (Nat.mod_lt ii (Nat.succ_pos 3))
    rw [Nat.div_add_mod] at hdigit
    have hgroup : t.groups[ii / 4]? = some (t.group (ii / 4)) := by
      have hlt : ii / 4 < t.groups.length := by
        rw [V6Text.length_groups]
        omega
      rw [V6Text.group, List.getD_eq_getElem _ _ hlt, List.getElem?_eq_getElem hlt]
    rw [hgroup, Option.map_some] at hdigit
    obtain ⟨hlt, hget⟩ := List.getElem?_eq_some_iff.1 hdigit
    rw [← hget, ← byte_of_slice hslice hlt, Nat.zero_add]
  · rw [bit_addr t (by omega), Hex.testBit_nibble _ (Nat.mod_lt ii (Nat.succ_pos 3)) hjj]
    congr 2 <;> omega

end Bits

/-! ## `Net_inet_pton` -/

/-- `inet_pton` takes the texts of IPv6 addresses for their addresses. -/
def Libc.PtonFaithful (c : Libc) : Prop :=
  ∀ (addr : String) (t : V6Text), argBytes addr = t.text → c.pton6 addr = some t.addr

/-- The call ends with the expanded text and the place of the last bit, which is the length of the
prefix where the address is a netmask. -/
def PrintsRight (t : V6Text) (out : Option (List Ev)) : Prop :=
  ∃ (evs : List Ev) (n : ℕ),
    out = some (evs ++ [.printf "\n\n %s\n\n" [.bytes t.expanded],
      .printf "\n bit = %d \n" [.int n]]) ∧
    LastSet (bit t.addr) 128 n ∧
      ∀ p ≤ 128, (∀ i < 128, (bit t.addr i = true ↔ i < p)) → n = p

/-- Every text of an IPv6 address is printed right where `Str` and `StrOutput` held these bytes. -/
def PrintsAddresses (c : Libc) (Str StrOutput : Mem) : Prop :=
  ∀ (name test family addr : String) (rest : List String) (t : V6Text),
    (argBytes family)[0]? ≠ some (ch '0') → argBytes addr = t.text →
      PrintsRight t (Net_inet_pton c (name :: test :: family :: addr :: rest) Str StrOutput)

section Prints

variable {c : Libc} {Str StrOutput : Mem} {t : V6Text}

/-- After a valid address the fields are printed. -/
theorem net_inet_pton_eq {name test family addr : String} {rest : List String}
    {a : Vector UInt8 16} (hc : c.pton6 addr = some a)
    (hf : (argBytes family)[0]? ≠ some (ch '0')) :
    ∃ evs : List Ev, Net_inet_pton c (name :: test :: family :: addr :: rest) Str StrOutput =
      (print_fields (argBytes addr) Str StrOutput).map (evs ++ ·) := by
  have hpton : c.inet_pton AF_INET6 addr = some a.toList := by
    rw [Libc.inet_pton, if_neg (by decide), if_pos rfl, hc]
    rfl
  unfold Net_inet_pton
  simp only [if_neg hf, hpton]
  exact ⟨_, rfl⟩

theorem printsRight_iff (hc : c.PtonFaithful) {name test family addr : String}
    {rest : List String} (hf : (argBytes family)[0]? ≠ some (ch '0'))
    (ht : argBytes addr = t.text) :
    PrintsRight t (Net_inet_pton c (name :: test :: family :: addr :: rest) Str StrOutput) ↔
      ∃ s, (List.range 8).foldlM (append_field t.text) (Str, StrOutput) = some s ∧
        cstr s.2 0 1024 = t.expanded ∧
          LastSet (bit t.addr) 128 ((List.range 32).foldl (count_bits s.1) (0, 0)).2 := by
  obtain ⟨start, hstart⟩ := @net_inet_pton_eq c Str StrOutput name test family addr rest t.addr
    (hc addr t ht) hf
  rw [hstart, ht, print_fields, Option.map_map]
  constructor
  · rintro ⟨evs, n, hout, hlast, -⟩
    obtain ⟨s, hs, he⟩ := Option.map_eq_some_iff.1 hout
    have hend := List.append_inj_right' he rfl
    simp only [List.cons.injEq, Ev.printf.injEq, Arg.bytes.injEq, Arg.int.injEq, Int.natCast_inj,
      and_true, true_and] at hend
    obtain ⟨htext, rfl⟩ := hend
    exact ⟨s, hs, htext, hlast⟩
  · rintro ⟨s, hs, htext, hlast⟩
    refine ⟨start, _, ?_, hlast, fun p hp hmask => hlast.unique (LastSet.of_mask hp hmask)⟩
    rw [hs, Option.map_some, ← htext]
    rfl

/-- Empty arrays take the digits of the address as they are. -/
theorem prints_of_empty (hc : c.PtonFaithful) (hs : Str 0 = 0) (ho : StrOutput 0 = 0) :
    PrintsAddresses c Str StrOutput := by
  intro name test family addr rest t hf ht
  have hcstr : ∀ {m : Mem}, m 0 = 0 → cstr m 0 1024 = [] := fun h0 => by
    rw [cstr, slice, List.range'_succ, List.map_cons, h0]
    rfl
  have hsome : ((List.range 8).foldlM (append_field t.text) (Str, StrOutput)).isSome := by
    refine append_fields_isSome (fun ii h => List.mem_range.1 h) ?_ ?_
    · rw [hcstr hs]
      decide
    · rw [hcstr ho]
      decide
  obtain ⟨s, hs'⟩ := Option.isSome_iff_exists.1 hsome
  obtain ⟨h1, h2⟩ := append_fields_cstr (fun ii h => List.mem_range.1 h) hs'
  rw [hcstr hs, List.nil_append, fourFields_eq] at h1
  rw [hcstr ho, List.nil_append, outputFields_eq] at h2
  exact (printsRight_iff hc hf ht).2 ⟨s, hs', h2, count_bits_digits h1⟩

end Prints

theorem unspecified_digits :
    V6Text.unspecified.groups.flatMap Hex.four = List.replicate 31 (ch '0') ++ [ch '0'] := rfl

theorem loopback_digits :
    V6Text.loopback.groups.flatMap Hex.four = List.replicate 31 (ch '0') ++ [ch '1'] := rfl

/-- Behind any string the digits in the last place are not read. -/
theorem take_digits {p : List UInt8} (hp : p ≠ []) (d : UInt8) :
    (p ++ (List.replicate 31 (ch '0') ++ [d])).take 32 =
      (p ++ List.replicate 31 (ch '0')).take 32 := by
  have hlen := List.length_pos_of_ne_nil hp
  rw [← List.append_assoc, List.take_append_of_le_length]
  rw [List.length_append, List.length_replicate]
  omega

theorem lastSet_loopback {n : ℕ} (h : LastSet (bit V6Text.loopback.addr) 128 n) : n = 128 := by
  have h127 : bit V6Text.loopback.addr 127 = true := by decide
  have hle := h.le
  by_contra hne
  rw [h.last 127 (by omega) (by omega)] at h127
  cases h127

theorem not_lastSet_unspecified : ¬ LastSet (bit V6Text.unspecified.addr) 128 128 :=
  fun h => absurd (h.set (by omega)) (by decide)

/-- Behind any string the two texts show the same bits. -/
theorem count_bits_behind {p : List UInt8} (hp : p ≠ []) {Str Str' : Mem} {d d' : UInt8}
    (h : cstr Str 0 1024 = p ++ (List.replicate 31 (ch '0') ++ [d]))
    (h' : cstr Str' 0 1024 = p ++ (List.replicate 31 (ch '0') ++ [d'])) :
    (List.range 32).foldl (count_bits Str) (0, 0) =
      (List.range 32).foldl (count_bits Str') (0, 0) := by
  refine count_bits_congr ?_
  rw [slice_of_cstr (by rw [h]; simp), slice_of_cstr (by rw [h']; simp), h, h', take_digits hp,
    take_digits hp]

theorem empty_of_prints {c : Libc} (hc : c.PtonFaithful) {Str StrOutput : Mem}
    (h : PrintsAddresses c Str StrOutput) : Str 0 = 0 ∧ StrOutput 0 = 0 := by
  have hf : (argBytes "1")[0]? ≠ some (ch '0') := by decide
  obtain ⟨s0, hs0, hout, hl0⟩ := (printsRight_iff hc hf rfl).1
    (h "" "" "1" "::" [] .unspecified hf rfl)
  obtain ⟨s1, hs1, -, hl1⟩ := (printsRight_iff hc hf rfl).1
    (h "" "" "1" "::1" [] .loopback hf rfl)
  obtain ⟨h0, hout'⟩ := append_fields_cstr (fun ii h => List.mem_range.1 h) hs0
  obtain ⟨h1, -⟩ := append_fields_cstr (fun ii h => List.mem_range.1 h) hs1
  refine ⟨?_, ?_⟩
  · by_contra hne
    have hp : cstr Str 0 1024 ≠ [] := fun he => hne (head_of_cstr_nil he)
    rw [fourFields_eq, unspecified_digits] at h0
    rw [fourFields_eq, loopback_digits] at h1
    rw [count_bits_behind hp h0 h1, lastSet_loopback hl1] at hl0
    exact not_lastSet_unspecified hl0
  · have hnil : cstr StrOutput 0 1024 = [] := by
      rw [outputFields_eq, hout] at hout'
      have hlen := congrArg List.length hout'
      rw [List.length_append] at hlen
      simp only [] at hlen
      exact List.length_eq_zero_iff.1 (by omega)
    exact head_of_cstr_nil hnil

/-- `Net_inet_pton` prints every address right exactly where both arrays are empty on entry. -/
theorem prints_addresses_iff {c : Libc} (hc : c.PtonFaithful) (Str StrOutput : Mem) :
    PrintsAddresses c Str StrOutput ↔ Str 0 = 0 ∧ StrOutput 0 = 0 :=
  ⟨empty_of_prints hc, fun h => prints_of_empty hc h.1 h.2⟩

/-- A text stands for one address. -/
theorem addr_eq_of_text {t t' : V6Text} (h : t.text = t'.text) : t.addr = t'.addr := by
  have hgroup : ∀ i < 8, t.group i = t'.group i := by
    intro i hi
    have hi' := getcolon_eq t hi
    rw [h, getcolon_eq t' hi] at hi'
    exact (Int.natCast_inj.1 (Option.some.inj hi')).symm
  refine Vector.ext fun i hi => ?_
  rw [V6Text.addr, V6Text.addr, Vector.getElem_ofFn, Vector.getElem_ofFn, hgroup _ (by omega)]

open Classical in
/-- A machine whose `inet_pton` takes the texts of IPv6 addresses. -/
noncomputable def Libc.inet6 : Libc :=
  { Libc.bare with
    pton6 := fun addr =>
      if h : ∃ t : V6Text, argBytes addr = t.text then some h.choose.addr else none }

theorem inet6_ptonFaithful : Libc.inet6.PtonFaithful := by
  intro addr t ht
  have h : ∃ t : V6Text, argBytes addr = t.text := ⟨t, ht⟩
  rw [Libc.inet6]
  exact (dif_pos h).trans (congrArg some (addr_eq_of_text (h.choose_spec.symm.trans ht)))

theorem empty_prints_addresses : Libc.inet6.PtonFaithful ∧
    PrintsAddresses Libc.inet6 (fun _ => 0) (fun _ => 0) :=
  ⟨inet6_ptonFaithful, (prints_addresses_iff inet6_ptonFaithful _ _).2 ⟨rfl, rfl⟩⟩

/-- Where `Str` held the string `1`, the last bit of `::` is told to be the fourth. -/
theorem stale_not_prints : ¬ PrintsRight .unspecified
    (Net_inet_pton Libc.inet6 ["test", "8", "1", "::"] (ofList [ch '1', 0]) fun _ => 0) := by
  rw [printsRight_iff inet6_ptonFaithful (by decide) rfl]
  rintro ⟨s, hs, -, hlast⟩
  have hstr := (append_fields_cstr (fun ii h => List.mem_range.1 h) hs).1
  have hold : cstr (ofList [ch '1', 0]) 0 1024 = [ch '1'] :=
    cstr_of_slice (slice_overlay [ch '1', 0] _) (k := 1) rfl (by decide)
  rw [hold, fourFields_eq, unspecified_digits] at hstr
  have hslice : slice s.1 0 32 = slice (ofList (ch '1' :: List.replicate 31 (ch '0'))) 0 32 := by
    rw [slice_of_cstr (by rw [hstr]; simp), hstr, take_digits (List.cons_ne_nil _ _)]
    exact (slice_overlay (ch '1' :: List.replicate 31 (ch '0')) _).symm
  rw [count_bits_congr hslice] at hlast
  have hset := hlast.set (by decide)
  revert hset
  decide

/-! ## The groups of the address -/

/-- The address `inet_pton` assigns to a text without a quad is the one `getcolon` reads. -/
theorem getcolon_returns_group {c : Libc} (hc : c.PtonFaithful) {addr : String} {t : V6Text}
    (ht : argBytes addr = t.text) {pos : ℕ} (hp : pos < 8) :
    ∃ a, c.pton6 addr = some a ∧ ReturnsGroup (argBytes addr) a pos := by
  obtain ⟨str, hs, hr⟩ := getcolon_str_reads t hp
  refine ⟨t.addr, hc addr t ht, str, ?_, hr.inside, ?_⟩
  · rw [ht, hs]
  · rw [ht, word_addr t hp, getcolon_of_reads hs hr]

theorem loopback_returns_group :
    Libc.inet6.PtonFaithful ∧ argBytes "::1" = V6Text.loopback.text ∧
      ∃ a, Libc.inet6.pton6 "::1" = some a ∧ ReturnsGroup (argBytes "::1") a 7 :=
  ⟨inet6_ptonFaithful, rfl, getcolon_returns_group (t := .loopback) inet6_ptonFaithful rfl (by decide)⟩

end NetTool

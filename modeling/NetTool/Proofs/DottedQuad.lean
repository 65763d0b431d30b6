import NetTool.Lib.Quad
import NetTool.Proofs.Network

/-!
# Dotted quads in the test program

With a dot in the text `getcolon` takes position 5 for the last field, which is the quad: it is
copied past the five bytes of `str`, and there is no field behind it. The groups between a pair of
colons and the quad are returned one position too early. So a group is returned right where it is
left of these, or where the next group is equal (`mixed_returns_group_iff`), and `Net_inet_pton`
is undefined on every such text (`net_inet_pton_mixed`).
-/

namespace NetTool

open Bytes CInt Fields Inet6

theorem returnsGroup_iff {addr : List UInt8} {a : Vector UInt8 16} {pos v : ℕ} {str : ColonStr}
    (hs : getcolon_str addr pos = some str) (hr : str.Reads v) :
    ReturnsGroup addr a pos ↔ v = word a pos := by
  constructor
  · rintro ⟨-, -, -, hg⟩
    rw [getcolon_of_reads hs hr] at hg
    exact Int.natCast_inj.1 (Option.some.inj hg)
  · rintro rfl
    exact ⟨str, hs, hr.inside, getcolon_of_reads hs hr⟩

theorem not_returnsGroup {addr : List UInt8} {a : Vector UInt8 16} {pos : ℕ}
    (h : getcolon addr pos = none) : ¬ ReturnsGroup addr a pos := by
  rintro ⟨-, -, -, hg⟩
  rw [h] at hg
  cases hg

section Quad

variable {gs : List Group} {q : Quad} {k : ℕ}

theorem skip_group (hk : k < gs.length) :
    ∃ y, skip (ch ':') k ([colon].intercalate (MixedText.fields gs q)) = some y ∧
      field (ch ':') y = gs[k].digits := by
  have hlen : k < (MixedText.fields gs q).length := by
    rw [MixedText.length_fields]
    omega
  obtain ⟨y, hy, hf⟩ := skip_intercalate (MixedText.plain_fields gs q) hlen
  exact ⟨y, hy, hf.trans (MixedText.getElem_fields hk hlen)⟩

theorem skip_quad : ∃ y, skip (ch ':') gs.length ([colon].intercalate (MixedText.fields gs q)) =
    some y ∧ field (ch ':') y = q.text := by
  have hlen : gs.length < (MixedText.fields gs q).length := by
    rw [MixedText.length_fields]
    omega
  obtain ⟨y, hy, hf⟩ := skip_intercalate (MixedText.plain_fields gs q) hlen
  exact ⟨y, hy, hf.trans (MixedText.getElem_fields_last hlen)⟩

/-- The quad does not fit into `str`, and behind it the text is read past its end. -/
theorem getcolon_quad {addr : List UInt8} {pos : ℕ} {str : ColonStr} (hk : gs.length ≤ k)
    (h : getcolon_str addr pos =
      (skip (ch ':') k ([colon].intercalate (MixedText.fields gs q))).map str.copy) :
    getcolon addr pos = none := by
  rcases Nat.lt_or_eq_of_le hk with hlt | rfl
  · have hnone := skip_intercalate_none (MixedText.plain_fields gs q)
      (List.ne_nil_of_length_pos (by simp)) (n := k) (by rwa [MixedText.length_fields])
    rw [getcolon, h]
    exact congrArg (fun o : Option (List UInt8) => (o.map str.copy).bind _) hnone
  · obtain ⟨y, hy, hf⟩ := @skip_quad gs q
    have hlen := q.length_text
    have hstore : 5 ∈ (str.copy y).stores :=
      List.mem_append_right _ (List.mem_range.2 (by rw [hf]; omega))
    rw [getcolon, h, hy, Option.map_some, Option.bind_some,
      if_neg fun hin => absurd (hin.1 5 hstore) (Nat.lt_irrefl 5)]

end Quad

section Full

variable {gs : List Group} (h : gs.length = 6) (q : Quad) {pos : ℕ}

theorem full_getcolon_str : getcolon_str (MixedText.full gs h q).text pos =
    (skip (ch ':') pos (MixedText.full gs h q).text).map (ColonStr.bzero ⟨[], []⟩).copy :=
  getcolon_str_fields (MixedText.plain_fields gs q) (List.ne_nil_of_length_pos (by simp)) pos

theorem full_reads (hp : pos < 6) :
    ∃ str, getcolon_str (MixedText.full gs h q).text pos = some str ∧
      str.Reads ((MixedText.full gs h q).group pos) := by
  have hlen : pos < gs.length := h ▸ hp
  have hlen' : pos < (gs ++ q.groups).length := by
    rw [List.length_append]
    omega
  obtain ⟨y, hy, hf⟩ := @skip_group gs q pos hlen
  refine ⟨_, (full_getcolon_str h q).trans (congrArg (Option.map _) hy), ?_⟩
  rw [MixedText.group, MixedText.v6, V6Text.group_full _ hlen', List.getElem_append_left hlen]
  exact copy_reads bzero_stores hf

theorem full_getcolon_quad (hp : 6 ≤ pos) : getcolon (MixedText.full gs h q).text pos = none :=
  getcolon_quad (h ▸ hp) (full_getcolon_str h q)

end Full

theorem short_lengths (l r : List Group) (q : Quad) :
    (l.map Group.digits).length - 1 = l.length - 1 ∧
    (MixedText.fields r q).length - 1 = r.length ∧ (r ++ q.groups).length = r.length + 2 := by
  rw [List.length_map, MixedText.length_fields, List.length_append]
  exact ⟨rfl, Nat.add_sub_cancel _ _, rfl⟩

section Short

variable {l r : List Group} (h : l.length + r.length ≤ 5) (q : Quad) {pos : ℕ}

theorem short_max : (if isV6TypeStandard (MixedText.short l r h q).text then 7 else 5) = (5 : ℤ) := by
  have hdot : ch '.' ∈ (MixedText.short l r h q).text :=
    List.mem_append_right _ (List.mem_cons_of_mem _ (List.mem_cons_of_mem _
      (mem_intercalate (List.mem_append_right _ List.mem_cons_self) q.dot_mem)))
  rw [isV6TypeStandard, decide_eq_false (not_not_intro hdot), if_neg Bool.false_ne_true]

/-- Right of the pair `getcolon` counts the quad as one field. -/
theorem short_right (hp : 5 ≤ pos + r.length) :
    ∃ str : ColonStr, (∀ i ∈ str.stores, i < 5) ∧
      getcolon_str (MixedText.short l r h q).text pos =
        (skip (ch ':') (pos + r.length - 5) ([colon].intercalate (MixedText.fields r q))).map
          str.copy := by
  obtain ⟨hl, hr, -⟩ := short_lengths l r q
  have hleft : (l.map Group.digits).length - 1 < pos ∨ l.map Group.digits = [] := by
    rcases l with _ | ⟨g, l⟩
    · exact .inr rfl
    · rw [hl]
      rw [List.length_cons] at h ⊢
      exact .inl (by omega)
  obtain ⟨str, hs, he⟩ := pair_right (plain_digits l) (MixedText.plain_fields r q) rfl
    (short_max h q) hleft (by rw [hr]; omega)
  rw [hr, show (pos - (5 - (r.length : ℤ))).toNat = pos + r.length - 5 by omega] at he
  exact ⟨str.bzero, bzero_inside hs, he⟩

/-- The groups right of the pair are returned one position too early. -/
theorem short_group_reads (hp : 5 ≤ pos + r.length) (h5 : pos < 5) :
    ∃ str, getcolon_str (MixedText.short l r h q).text pos = some str ∧
      str.Reads ((MixedText.short l r h q).group (pos + 1)) := by
  obtain ⟨-, -, hlen⟩ := short_lengths l r q
  have hk : pos + r.length - 5 < r.length := by omega
  have hk' : pos + r.length - 5 < (r ++ q.groups).length := by omega
  obtain ⟨str, hs, he⟩ := short_right h q hp
  obtain ⟨y, hy, hf⟩ := @skip_group r q _ hk
  refine ⟨_, he.trans (congrArg (Option.map _) hy), ?_⟩
  rw [MixedText.group, MixedText.v6, V6Text.group_right _ hk' (by omega),
    List.getElem_append_left hk]
  exact copy_reads hs hf

theorem short_getcolon_quad (h5 : 5 ≤ pos) : getcolon (MixedText.short l r h q).text pos = none := by
  obtain ⟨str, -, he⟩ := short_right h q (Nat.le_add_right_of_le h5)
  exact getcolon_quad (by omega) he

/-- Left of these groups the position is the group's. -/
theorem short_below_reads (hp : pos + r.length < 5) :
    ∃ str, getcolon_str (MixedText.short l r h q).text pos = some str ∧
      str.Reads ((MixedText.short l r h q).group pos) := by
  obtain ⟨hl, hr, hlen⟩ := short_lengths l r q
  have hgroup : (MixedText.short l r h q).group pos = (l.map Group.value).getD pos 0 :=
    V6Text.group_getD _ (by omega)
  rw [hgroup]
  rcases Nat.lt_or_ge (l.length - 1) pos with hlt | hge
  · have he := pair_middle (plain_digits l) (MixedText.plain_fields r q) rfl (short_max h q)
      (hl ▸ hlt) (by rw [hr]; omega)
    rw [List.getD_eq_default _ _ (by rw [List.length_map]; omega)]
    exact ⟨_, he, zero_reads bzero_stores rfl⟩
  · have he := pair_left (plain_digits l) (MixedText.plain_fields r q) rfl (short_max h q)
      (hl ▸ hge) (by rw [hr]; omega)
    obtain ⟨y, hy, hreads⟩ :=
      @left_reads l ([colon].intercalate (MixedText.fields r q)) pos hge
    exact ⟨_, he.trans (congrArg (Option.map _) hy), hreads bzero_stores⟩

end Short

/-- Position `pos` is in front of the quad, and left of the groups that a pair of colons stands
before, or the next group of the address is equal. -/
def InPlace : MixedText → ℕ → Prop
  | .full _ _ _, pos => pos < 6
  | .short l r h q, pos => pos + r.length < 5 ∨
    pos < 5 ∧ (MixedText.short l r h q).group pos = (MixedText.short l r h q).group (pos + 1)

theorem returnsGroup_mixed (t : MixedText) {pos : ℕ} (hp : pos < 8) :
    ReturnsGroup t.text t.addr pos ↔ InPlace t pos := by
  have hword : word t.addr pos = t.group pos := word_addr t.v6 hp
  rcases t with ⟨gs, h, q⟩ | ⟨l, r, h, q⟩
  · rcases Nat.lt_or_ge pos 6 with h6 | h6
    · obtain ⟨str, hs, hr⟩ := full_reads h q h6
      rw [returnsGroup_iff hs hr, hword]
      exact iff_of_true rfl h6
    · exact iff_of_false (not_returnsGroup (full_getcolon_quad h q h6)) (Nat.not_lt.2 h6)
  · rcases Nat.lt_or_ge (pos + r.length) 5 with hlt | hge
    · obtain ⟨str, hs, hr⟩ := short_below_reads h q hlt
      rw [returnsGroup_iff hs hr, hword]
      exact iff_of_true rfl (.inl hlt)
    · rcases Nat.lt_or_ge pos 5 with h5 | h5
      · obtain ⟨str, hs, hr⟩ := short_group_reads h q hge h5
        rw [returnsGroup_iff hs hr, hword, eq_comm]
        exact ⟨fun he => .inr ⟨h5, he⟩, fun hin => (hin.resolve_left (Nat.not_lt.2 hge)).2⟩
      · refine iff_of_false (not_returnsGroup (short_getcolon_quad h q h5)) ?_
        rintro (hin | hin)
        · omega
        · exact Nat.not_lt.2 h5 hin.1

/-- On a text with a quad `getcolon` returns a group of the address exactly in these positions. -/
theorem mixed_returns_group_iff {c : Libc} {addr : String} {t : MixedText}
    (ht : argBytes addr = t.text) (hc : c.pton6 addr = some t.addr) {pos : ℕ} (hp : pos < 8) :
    (∃ a, c.pton6 addr = some a ∧ ReturnsGroup (argBytes addr) a pos) ↔ InPlace t pos := by
  rw [← returnsGroup_mixed t hp, ht, hc]
  exact ⟨fun ⟨a, ha, h⟩ => Option.some.inj ha ▸ h, fun h => ⟨_, rfl, h⟩⟩

/-- The text `::1.2.3.4`. -/
def quadOnly : MixedText := .short [] [] (Nat.zero_le 5) .oneToFour

/-- The text `::1:1.2.3.4`. -/
def oneAndQuad : MixedText := .short [] [.one] (Nat.le_add_left 1 4) .oneToFour

/-- A machine whose `inet_pton` takes this text. -/
def Libc.takes (text : String) (a : Vector UInt8 16) : Libc :=
  { Libc.bare with pton6 := fun addr => if addr = text then some a else none }

theorem takes_pton6 (text : String) (a : Vector UInt8 16) :
    (Libc.takes text a).pton6 text = some a := if_pos rfl

theorem quadOnly_returns_group :
    argBytes "::1.2.3.4" = quadOnly.text ∧
      (Libc.takes "::1.2.3.4" quadOnly.addr).pton6 "::1.2.3.4" = some quadOnly.addr ∧
      ((∃ a, (Libc.takes "::1.2.3.4" quadOnly.addr).pton6 "::1.2.3.4" = some a ∧
        ReturnsGroup (argBytes "::1.2.3.4") a 4) ↔ InPlace quadOnly 4) :=
  ⟨rfl, takes_pton6 _ _, mixed_returns_group_iff rfl (takes_pton6 _ _) (by decide)⟩

/-- The group in front of the quad is returned for position 4, whose group is zero, and the quad is
copied past the end of `str` for position 5. -/
theorem oneAndQuad_not_returned :
    ¬ ReturnsGroup oneAndQuad.text oneAndQuad.addr 4 ∧
      ∃ str, getcolon_str oneAndQuad.text 5 = some str ∧ ¬ ∀ i ∈ str.stores, i < 5 := by
  refine ⟨?_, _, rfl, fun h => absurd (h 5 (by decide)) (by decide)⟩
  rintro ⟨-, -, -, h⟩
  revert h
  decide

/-- No address with a quad is printed. -/
theorem net_inet_pton_mixed {c : Libc} {name test family addr : String} {rest : List String}
    {t : MixedText} (ht : argBytes addr = t.text) (hc : c.pton6 addr = some t.addr)
    (hf : (argBytes family)[0]? ≠ some (ch '0')) (Str StrOutput : Mem) :
    Net_inet_pton c (name :: test :: family :: addr :: rest) Str StrOutput = none := by
  have hnone : getcolon t.text 6 = none := by
    rcases t with ⟨gs, h, q⟩ | ⟨l, r, h, q⟩
    · exact full_getcolon_quad h q (Nat.le_refl 6)
    · exact short_getcolon_quad h q (Nat.le_succ 5)
  obtain ⟨evs, hevs⟩ := @net_inet_pton_eq c Str StrOutput name test family addr rest _ hc hf
  rw [hevs, ht, print_fields, Loop.foldlM_eq_none (t := 6) _ (by decide)]
  · rfl
  · intro s
    rw [append_field, hnone]
    rfl

end NetTool

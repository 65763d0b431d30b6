import NetTool.Lib.Inet6

/-!
# Texts of IPv6 addresses that end in a dotted quad

The last two groups written as four decimal bytes with dots between them, behind six groups, or
behind fewer and one `::` for those that are missing, which are one at least. The address is that
of the text with the two groups in hexadecimal digits (`v6`): they have the quad's numbers
(`groups_v6`).
-/

namespace Inet6

open Fields

def dot : UInt8 := 46

/-- The value of a text of decimal digits. -/
def decimal (ds : List UInt8) : ℕ := ds.foldl (fun v d => 10 * v + (d.toNat - 48)) 0

/-- The digits of one byte, with no zero in front. -/
structure Octet where
  digits : List UInt8
  ne_nil : digits ≠ []
  dec : ∀ d ∈ digits, 48 ≤ d.toNat ∧ d.toNat ≤ 57
  plain : digits.head? = some 48 → digits = [48]
  le : decimal digits ≤ 255

def Octet.value (o : Octet) : ℕ := decimal o.digits

theorem Octet.colon_not_mem (o : Octet) : colon ∉ o.digits :=
  fun h => absurd (o.dec _ h).2 (by decide)

/-- Four bytes, the highest first. -/
structure Quad where
  a : Octet
  b : Octet
  c : Octet
  d : Octet

namespace Quad

def text (q : Quad) : List UInt8 :=
  [dot].intercalate [q.a.digits, q.b.digits, q.c.digits, q.d.digits]

def high (q : Quad) : ℕ := 256 * q.a.value + q.b.value

def low (q : Quad) : ℕ := 256 * q.c.value + q.d.value

theorem text_eq (q : Quad) : q.text =
    q.a.digits ++ dot :: (q.b.digits ++ dot :: (q.c.digits ++ dot :: q.d.digits)) := by
  simp only [text, List.intercalate_cons_cons, List.intercalate_singleton, List.append_assoc,
    List.singleton_append]

theorem dot_mem (q : Quad) : dot ∈ q.text := by
  rw [text_eq]
  exact List.mem_append_right _ List.mem_cons_self

theorem colon_not_mem (q : Quad) : colon ∉ q.text := by
  have hdot : colon ≠ dot := by decide
  rw [text_eq]
  simp only [List.mem_append, List.mem_cons, not_or]
  exact ⟨q.a.colon_not_mem, hdot, q.b.colon_not_mem, hdot, q.c.colon_not_mem, hdot,
    q.d.colon_not_mem⟩

/-- Four digits and three dots. -/
theorem length_text (q : Quad) : 7 ≤ q.text.length := by
  have ha := List.length_pos_of_ne_nil q.a.ne_nil
  have hb := List.length_pos_of_ne_nil q.b.ne_nil
  have hc := List.length_pos_of_ne_nil q.c.ne_nil
  have hd := List.length_pos_of_ne_nil q.d.ne_nil
  rw [text_eq]
  simp only [List.length_append, List.length_cons]
  omega

theorem high_lt (q : Quad) : q.high < 65536 := by
  have ha : q.a.value ≤ 255 := q.a.le
  have hb : q.b.value ≤ 255 := q.b.le
  unfold high
  omega

theorem low_lt (q : Quad) : q.low < 65536 := by
  have hc : q.c.value ≤ 255 := q.c.le
  have hd : q.d.value ≤ 255 := q.d.le
  unfold low
  omega

end Quad

/-- The group of a number in four digits. -/
def Group.ofNat (v : ℕ) : Group where
  digits := Hex.four v
  ne_nil := List.cons_ne_nil _ _
  short := Nat.le_refl 4
  hex := fun d hd => by
    obtain ⟨n, hn, rfl⟩ := Hex.mem_four hd
    rw [Hex.digit_upper hn]
    rfl

theorem Group.value_ofNat {v : ℕ} (h : v < 65536) : (Group.ofNat v).value = v := by
  have hd := fun j => Hex.digit_upper (Hex.nibble_lt v j)
  simp only [value, ofNat, Hex.value, Hex.four, List.map_cons, List.map_nil, List.foldl_cons,
    List.foldl_nil, hd, Option.getD_some]
  unfold Hex.nibble
  omega

def Quad.groups (q : Quad) : List Group := [.ofNat q.high, .ofNat q.low]

inductive MixedText
  | full (groups : List Group) (six : groups.length = 6) (quad : Quad)
  | short (left right : List Group) (missing : left.length + right.length ≤ 5) (quad : Quad)

namespace MixedText

/-- The fields of some groups and a quad behind them. -/
def fields (gs : List Group) (q : Quad) : List (List UInt8) := gs.map Group.digits ++ [q.text]

theorem plain_fields (gs : List Group) (q : Quad) : Plain colon (fields gs q) := by
  intro f hf
  rcases List.mem_append.1 hf with hf | hf
  · exact plain_digits gs f hf
  · rw [List.mem_singleton.1 hf]
    exact ⟨List.ne_nil_of_mem q.dot_mem, q.colon_not_mem⟩

@[simp] theorem length_fields (gs : List Group) (q : Quad) :
    (fields gs q).length = gs.length + 1 := by
  rw [fields, List.length_append, List.length_map, List.length_singleton]

section Fields

variable {gs : List Group} {q : Quad}

theorem getElem_fields {k : ℕ} (hk : k < gs.length) (h : k < (fields gs q).length) :
    (fields gs q)[k] = gs[k].digits := by
  simp only [fields]
  rw [List.getElem_append_left (by rwa [List.length_map]), List.getElem_map]

theorem getElem_fields_last (h : gs.length < (fields gs q).length) :
    (fields gs q)[gs.length] = q.text := by
  simp only [fields]
  rw [List.getElem_append_right (by rw [List.length_map]), List.getElem_singleton]

end Fields

def text : MixedText → List UInt8
  | full gs _ q => [colon].intercalate (fields gs q)
  | short l r _ q => join l ++ colon :: colon :: [colon].intercalate (fields r q)

/-- The same address with all its groups in hexadecimal digits. -/
def v6 : MixedText → V6Text
  | full gs h q => .full (gs ++ q.groups) (by rw [List.length_append, h]; rfl)
  | short l r h q => .short l (r ++ q.groups) (by
      rw [List.length_append, show q.groups.length = 2 from rfl]
      omega)

def quad : MixedText → Quad
  | full _ _ q => q
  | short _ _ _ q => q

/-- The last two groups are the quad's. -/
theorem groups_v6 (t : MixedText) :
    ∃ vs : List ℕ, vs.length = 6 ∧ t.v6.groups = vs ++ [t.quad.high, t.quad.low] := by
  have hquad : ∀ q : Quad, q.groups.map Group.value = [q.high, q.low] := fun q => by
    rw [Quad.groups, List.map_cons, List.map_cons, List.map_nil, Group.value_ofNat q.high_lt,
      Group.value_ofNat q.low_lt]
  have hlen := t.v6.length_groups
  rcases t with ⟨gs, h, q⟩ | ⟨l, r, h, q⟩
  · rw [v6, V6Text.groups, List.map_append, hquad]
    exact ⟨_, by rw [List.length_map, h], rfl⟩
  · rw [v6, V6Text.groups, List.map_append, hquad, ← List.append_assoc] at hlen ⊢
    rw [List.length_append] at hlen
    exact ⟨_, Nat.add_right_cancel hlen, rfl⟩

def addr (t : MixedText) : Vector UInt8 16 := t.v6.addr

def group (t : MixedText) (i : ℕ) : ℕ := t.v6.group i

end MixedText

/-- A byte of one digit. -/
def Octet.single (d : UInt8) (h : 48 ≤ d.toNat ∧ d.toNat ≤ 57) : Octet where
  digits := [d]
  ne_nil := List.cons_ne_nil _ _
  dec := List.forall_mem_singleton.2 h
  plain := fun he => by rw [Option.some.inj he]
  le := by
    have hv : decimal [d] = 10 * 0 + (d.toNat - 48) := rfl
    omega

/-- The quad `1.2.3.4`. -/
def Quad.oneToFour : Quad where
  a := .single 49 (by decide)
  b := .single 50 (by decide)
  c := .single 51 (by decide)
  d := .single 52 (by decide)

end Inet6

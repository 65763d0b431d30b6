import NetTool.Proofs.Attributes
import NetTool.Show

/-!
# The attribute walks with a `size_t`

`parse_rt_msg` and `parse_ifa_msg` keep the remaining length in a `size_t`. It goes below zero
where the padding of the last attribute reaches past the message, and at the start where the
message is shorter than its fixed header; the walk then goes on with almost `2 ^ 64` bytes left,
and takes what stands there for an attribute (`visited_stop`). An `int` is negative in both
places, and the walk over it ends. Where the `size_t` does not go below zero, or no attribute
stands where it does, the two walks are the same (`visited_same`).
-/

namespace NetTool

open Bytes CInt Frames Loop

variable {m : Mem} {o : ℕ}

/-! ## One walk -/

/-- What a walk from `t` on visits, behind `acc`. -/
def visited (conv : ℤ → ℤ) (m : Mem) (fuel : ℕ) (t : ℕ × ℤ) (acc : List ℕ) : List ℕ :=
  (forLoop (fun t => RTA_OK m t.1 t.2) (RTA_NEXT conv m)
    (fun t l => (l ++ [t.1], (none : Option Unit))) fuel t acc).1

section Visited

variable {conv : ℤ → ℤ} {t : ℕ × ℤ} {acc : List ℕ} {b p rem fuel : ℕ}

theorem visited_of_not_ok (h : RTA_OK m t.1 t.2 = false) : visited conv m fuel t acc = acc := by
  rcases fuel with _ | fuel
  · rfl
  · simp only [visited, forLoop, h, Bool.false_eq_true, if_false]

theorem visited_of_ok (h : RTA_OK m t.1 t.2 = true) : visited conv m (fuel + 1) t acc =
    visited conv m fuel (RTA_NEXT conv m t) (acc ++ [t.1]) := by
  simp only [visited, forLoop, h, if_true]

theorem mem_visited : ∀ {fuel : ℕ} {t : ℕ × ℤ} {acc : List ℕ}, p ∈ acc →
    p ∈ visited conv m fuel t acc
  | 0, _, _, hp => hp
  | fuel + 1, t, acc, hp => by
    rcases h : RTA_OK m t.1 t.2
    · rwa [visited_of_not_ok h]
    · rw [visited_of_ok h]
      exact mem_visited (List.mem_append_left _ hp)

theorem RTA_OK_nat : RTA_OK m b (rem : ℤ) = true ↔ rtattr.Ok m b rem := by
  rw [RTA_OK_iff, Int.toNat_natCast]

/-- The next step, while the length does not go below zero. -/
theorem next_within (hconv : ∀ x : ℤ, 0 ≤ x → x < 2 ^ 31 → conv x = x) (hrem : rem < 2 ^ 31)
    (hle : rtattr.pad (rta_len m b) ≤ rem) : RTA_NEXT conv m (b, (rem : ℤ)) =
      (b + rtattr.pad (rta_len m b), ((rem - rtattr.pad (rta_len m b) : ℕ) : ℤ)) := by
  have hl := rtattr.le_pad (rta_len m b)
  unfold RTA_NEXT
  dsimp only
  rw [RTA_ALIGN_eq (by omega), hconv _ (by omega) (by omega), Nat.cast_sub hle]

/-- The next step, where the length goes below zero. -/
theorem next_below (hok : rtattr.Ok m b rem) (hrem : rem < 2 ^ 31)
    (hlt : rem < rtattr.pad (rta_len m b)) :
    (∃ len : ℤ, 2 ^ 16 ≤ len ∧
      RTA_NEXT (fun x => u64 x) m (b, (rem : ℤ)) = (b + rtattr.pad (rta_len m b), len)) ∧
    (∃ len : ℤ, len < 0 ∧
      RTA_NEXT i32 m (b, (rem : ℤ)) = (b + rtattr.pad (rta_len m b), len)) ∧
    rtattr.stop m b rem = b + rtattr.pad (rta_len m b) := by
  have hp := rtattr.pad_lt (rta_len m b)
  have ha : rtattr.align = 4 := rfl
  have hh : rtattr.hdr = 4 := rfl
  have h3 := hok.2.2
  rw [rtattr_lenAt] at h3
  refine ⟨⟨u64 ((rem : ℤ) - rtattr.pad (rta_len m b)), ?_, ?_⟩,
    ⟨(rem : ℤ) - rtattr.pad (rta_len m b), by omega, ?_⟩, ?_⟩
  · unfold u64
    omega
  · unfold RTA_NEXT
    dsimp only
    rw [RTA_ALIGN_eq (by omega)]
  · unfold RTA_NEXT
    dsimp only
    rw [RTA_ALIGN_eq (by omega), i32_of_mem (by omega) (by omega)]
  · rw [Format.stop_of_ok hok, rtattr_lenAt, Format.stop_of_lt (by omega)]

theorem RTA_OK_wide {len : ℤ} (hlen : 2 ^ 16 ≤ len) :
    RTA_OK m b len = true ↔ 4 ≤ rta_len m b := by
  have hl : rta_len m b < 2 ^ 16 := get16_lt m b
  simp only [RTA_OK, decide_eq_true_eq]
  omega

theorem RTA_OK_neg {len : ℤ} (hlen : len < 0) : RTA_OK m b len = false := by
  simp only [RTA_OK, decide_eq_false_iff_not]
  omega

theorem u64_rem (x : ℤ) (h0 : 0 ≤ x) (h : x < 2 ^ 31) : u64 x = x := u64_of_mem h0 (by omega)

theorem i32_rem (x : ℤ) (h0 : 0 ≤ x) (h : x < 2 ^ 31) : i32 x = x := i32_of_mem (by omega) h

theorem visited_refused (hok : ¬ rtattr.Ok m b rem) :
    visited conv m fuel (b, (rem : ℤ)) acc = acc := by
  have hno : RTA_OK m b (rem : ℤ) = false := by
    rw [← Bool.not_eq_true, RTA_OK_nat]
    exact hok
  exact visited_of_not_ok hno

theorem visited_within (hconv : ∀ x : ℤ, 0 ≤ x → x < 2 ^ 31 → conv x = x)
    (hok : rtattr.Ok m b rem) (hrem : rem < 2 ^ 31) (hle : rtattr.pad (rta_len m b) ≤ rem) :
    visited conv m (fuel + 1) (b, (rem : ℤ)) acc =
      visited conv m fuel (b + rtattr.pad (rta_len m b),
        ((rem - rtattr.pad (rta_len m b) : ℕ) : ℤ)) (acc ++ [b]) := by
  rw [visited_of_ok (RTA_OK_nat.2 hok), next_within hconv hrem hle]

/-- An `int` that goes below zero ends the walk. -/
theorem visited_last (hok : rtattr.Ok m b rem) (hrem : rem < 2 ^ 31)
    (hlt : rem < rtattr.pad (rta_len m b)) :
    visited i32 m (fuel + 1) (b, (rem : ℤ)) acc = acc ++ [b] := by
  obtain ⟨-, ⟨len, hlen, hn⟩, -⟩ := next_below hok hrem hlt
  rw [visited_of_ok (RTA_OK_nat.2 hok), hn, visited_of_not_ok (RTA_OK_neg hlen)]

/-- The two walks are the same where the `size_t` does not go below zero, or where no attribute
stands there. -/
theorem visited_same : ∀ {fuel b rem : ℕ} {acc : List ℕ}, rem < 2 ^ 31 →
    (rtattr.stop m b rem ≤ b + rem ∨ rta_len m (rtattr.stop m b rem) < 4) →
      visited (fun x => u64 x) m fuel (b, (rem : ℤ)) acc = visited i32 m fuel (b, (rem : ℤ)) acc
  | 0, _, _, _, _, _ => rfl
  | fuel + 1, b, rem, acc, hrem, h => by
    by_cases hok : rtattr.Ok m b rem
    · by_cases hle : rtattr.pad (rta_len m b) ≤ rem
      · rw [visited_within u64_rem hok hrem hle, visited_within i32_rem hok hrem hle]
        refine visited_same (by omega) ?_
        rw [Format.stop_of_ok hok, rtattr_lenAt] at h
        refine h.imp_left fun h => ?_
        omega
      · obtain ⟨⟨len, hlen, hn⟩, -, hs⟩ := next_below hok hrem (by omega)
        have h4 : rta_len m (b + rtattr.pad (rta_len m b)) < 4 := by
          rw [← hs]
          exact h.resolve_left (by omega)
        have hno : RTA_OK m (b + rtattr.pad (rta_len m b)) len = false := by
          rw [← Bool.not_eq_true, RTA_OK_wide hlen]
          omega
        rw [visited_of_ok (RTA_OK_nat.2 hok), hn, visited_last hok hrem (by omega)]
        exact visited_of_not_ok hno
    · rw [visited_refused hok, visited_refused hok]

/-- What stands where the `size_t` goes below zero is visited when it looks like an attribute. -/
theorem visited_stop : ∀ {fuel b rem : ℕ} {acc : List ℕ}, rem < 2 ^ 31 → rem + 1 < fuel →
    b + rem < rtattr.stop m b rem → 4 ≤ rta_len m (rtattr.stop m b rem) →
      rtattr.stop m b rem ∈ visited (fun x => u64 x) m fuel (b, (rem : ℤ)) acc
  | fuel + 1, b, rem, acc, hrem, hf, hs, h4 => by
    by_cases hok : rtattr.Ok m b rem
    · have h1 := hok.1
      have h2 := hok.2.1
      have hh : rtattr.hdr = 4 := rfl
      have hl := rtattr.le_pad (rta_len m b)
      rw [rtattr_lenAt] at h2
      by_cases hle : rtattr.pad (rta_len m b) ≤ rem
      · rw [visited_within u64_rem hok hrem hle]
        rw [Format.stop_of_ok hok, rtattr_lenAt] at hs h4 ⊢
        exact visited_stop (by omega) (by omega) (by omega) h4
      · obtain ⟨⟨len, hlen, hn⟩, -, he⟩ := next_below hok hrem (by omega)
        obtain ⟨f, rfl⟩ : ∃ f, fuel = f + 1 := ⟨fuel - 1, by omega⟩
        rw [he] at h4 ⊢
        rw [visited_of_ok (RTA_OK_nat.2 hok), hn, visited_of_ok ((RTA_OK_wide hlen).2 h4)]
        exact mem_visited (List.mem_append_right _ List.mem_cons_self)
    · rw [Format.stop_of_not_ok hok] at hs
      omega

/-- The walk over an `int` keeps below the bytes it was given. -/
theorem visited_below {B : ℕ} : ∀ {fuel b rem : ℕ} {acc : List ℕ}, rem < 2 ^ 31 → b + rem ≤ B →
    (∀ p ∈ acc, p < B) → ∀ p ∈ visited i32 m fuel (b, (rem : ℤ)) acc, p < B
  | 0, _, _, _, _, _, hacc => hacc
  | fuel + 1, b, rem, acc, hrem, hB, hacc => by
    by_cases hok : rtattr.Ok m b rem
    · have hh : rtattr.hdr = 4 := rfl
      have h1 := hok.1
      have hacc' : ∀ p ∈ acc ++ [b], p < B := by
        intro p hp
        rcases List.mem_append.1 hp with hp | hp
        · exact hacc p hp
        · rw [List.mem_singleton.1 hp]
          omega
      by_cases hle : rtattr.pad (rta_len m b) ≤ rem
      · rw [visited_within i32_rem hok hrem hle]
        exact visited_below (by omega) (by omega) hacc'
      · rwa [visited_last hok hrem (by omega)]
    · rwa [visited_refused hok]

end Visited

/-! ## The walks over a message -/

/-- The walk of `parse_rt_msg` (`n = 12`) and `parse_ifa_msg` (`n = 8`) over the message at `o`. -/
def size_walk (fuel : ℕ) (m : Mem) (o n : ℕ) : List ℕ × Exit Unit :=
  walk_attributes_size fuel m (NLMSG_DATA o + n) (NLMSG_PAYLOAD m o n)

/-- The walk with the length in an `int`. -/
def int_walk (fuel : ℕ) (m : Mem) (o n : ℕ) : List ℕ × Exit Unit :=
  walk_attributes fuel m (NLMSG_DATA o + n) (i32 (NLMSG_PAYLOAD m o n))

/-- The two walks visit the same attributes, and these start in the message. -/
def VisitsSame (m : Mem) (o n : ℕ) : Prop :=
  ∀ fuel, (size_walk fuel m o n).1 = (int_walk fuel m o n).1 ∧
    ∀ p ∈ (size_walk fuel m o n).1, p < o + nlmsg_len m o

/-- An attribute stands where the `size_t` goes below zero, or where the walk starts in a message
that an `int` does not hold the payload of. -/
def Escapes (m : Mem) (o n : ℕ) : Prop :=
  if nlmsg_len m o < 2 ^ 31 + NLMSG_LENGTH n then
    o + nlmsg_len m o < rtattr.stop m (NLMSG_DATA o + n) (nlmsg_len m o - NLMSG_LENGTH n) ∧
      4 ≤ rta_len m (rtattr.stop m (NLMSG_DATA o + n) (nlmsg_len m o - NLMSG_LENGTH n))
  else 4 ≤ rta_len m (NLMSG_DATA o + n)

instance (m : Mem) (o n : ℕ) : Decidable (Escapes m o n) := inferInstanceAs (Decidable (ite _ _ _))

section Message

variable {n : ℕ}

theorem payload_eq (hn : n = 8 ∨ n = 12) :
    NLMSG_PAYLOAD m o n = u64 ((nlmsg_len m o : ℤ) - NLMSG_LENGTH n) := by
  rcases hn with rfl | rfl
  · rfl
  · rfl

/-- Where the `size_t` is wide and the `int` negative from the start. -/
theorem visitsSame_wide (hs : 2 ^ 16 ≤ NLMSG_PAYLOAD m o n) (hi : i32 (NLMSG_PAYLOAD m o n) < 0) :
    VisitsSame m o n ↔ rta_len m (NLMSG_DATA o + n) < 4 := by
  have hwide := @RTA_OK_wide m (NLMSG_DATA o + n) (NLMSG_PAYLOAD m o n) (by omega)
  have hint : ∀ fuel, (int_walk fuel m o n).1 = [] := fun fuel => visited_of_not_ok (RTA_OK_neg hi)
  refine ⟨fun h => ?_, fun h4 fuel => ?_⟩
  · by_contra h4
    have hone : (size_walk 1 m o n).1 = [NLMSG_DATA o + n] := visited_of_ok (hwide.2 (by omega))
    have h1 := (h 1).1
    rw [hone, hint] at h1
    cases h1
  · have hno : RTA_OK m (NLMSG_DATA o + n) (NLMSG_PAYLOAD m o n) = false := by
      rw [← Bool.not_eq_true, hwide]
      omega
    have hsize : (size_walk fuel m o n).1 = [] := visited_of_not_ok hno
    rw [hint, hsize]
    exact ⟨rfl, fun p hp => by cases hp⟩

/-- Where both hold the length of the payload. -/
theorem visitsSame_narrow {rem : ℕ} (hp : NLMSG_PAYLOAD m o n = rem) (hrem : rem < 2 ^ 31)
    (hlen : NLMSG_DATA o + n + rem = o + nlmsg_len m o) :
    VisitsSame m o n ↔ ¬ (o + nlmsg_len m o < rtattr.stop m (NLMSG_DATA o + n) rem ∧
      4 ≤ rta_len m (rtattr.stop m (NLMSG_DATA o + n) rem)) := by
  have hi : i32 (NLMSG_PAYLOAD m o n) = rem := by
    rw [hp]
    exact i32_of_mem (by omega) (by omega)
  have hsize : ∀ fuel, (size_walk fuel m o n).1 =
      visited (fun x => u64 x) m fuel (NLMSG_DATA o + n, (rem : ℤ)) [] := fun fuel => by
    rw [size_walk, hp]
    rfl
  have hint : ∀ fuel, (int_walk fuel m o n).1 =
      visited i32 m fuel (NLMSG_DATA o + n, (rem : ℤ)) [] := fun fuel => by
    rw [int_walk, hi]
    rfl
  refine ⟨fun h ⟨h1, h4⟩ => ?_, fun hesc fuel => ?_⟩
  · have hmem := (h (rem + 2)).2 (rtattr.stop m (NLMSG_DATA o + n) rem) (by
      rw [hsize]
      exact visited_stop hrem (by omega) (by omega) h4)
    omega
  · have hsame := @visited_same m fuel (NLMSG_DATA o + n) rem [] hrem (by omega)
    rw [hsize, hint]
    refine ⟨hsame, ?_⟩
    rw [hsame]
    exact visited_below hrem hlen.le fun p hp => by cases hp

theorem visitsSame_iff (hn : n = 8 ∨ n = 12) : VisitsSame m o n ↔ ¬ Escapes m o n := by
  have hl := get32_lt m o
  have hp := payload_eq (m := m) (o := o) hn
  have hd : NLMSG_DATA o + n = o + NLMSG_LENGTH n := by
    unfold NLMSG_DATA NLMSG_LENGTH
    omega
  have hb : NLMSG_LENGTH n ≤ 28 := by
    unfold NLMSG_LENGTH
    omega
  change nlmsg_len m o < 2 ^ 32 at hl
  unfold Escapes
  by_cases hlow : nlmsg_len m o < NLMSG_LENGTH n
  · have hstop : rtattr.stop m (NLMSG_DATA o + n) (nlmsg_len m o - NLMSG_LENGTH n) =
        NLMSG_DATA o + n := by
      have hh : rtattr.hdr = 4 := rfl
      exact Format.stop_of_lt (by omega)
    rw [if_pos (by omega), hstop, visitsSame_wide]
    · omega
    · rw [hp]
      unfold u64
      omega
    · rw [hp, i32_u64, i32_of_mem (by omega) (by omega)]
      omega
  · by_cases hhigh : nlmsg_len m o < 2 ^ 31 + NLMSG_LENGTH n
    · rw [if_pos hhigh]
      refine visitsSame_narrow ?_ (by omega) (by omega)
      rw [hp]
      unfold u64
      omega
    · rw [if_neg hhigh, visitsSame_wide]
      · omega
      · rw [hp]
        unfold u64
        omega
      · rw [hp, i32_u64]
        unfold i32
        omega

end Message

/-! ## The two functions -/

/-- What `parse_rt_msg` leaves and prints, with what its loop left. -/
def rt_lines (msg : rtmsg) (s : String × List Ev) : String × List Ev :=
  (s.1, [.printf "==================================\n" [],
    .printf "family:\t\t%d\n" [.int (if msg.rtm_family = AF_INET then 4 else 6)],
    .printf "table id:\t%d\n" [.int msg.rtm_table],
    .printf "protocol:\t%d\n" [.int msg.rtm_protocol],
    .printf "scope:\t\t%d\n" [.int msg.rtm_scope],
    .printf "type:\t\t%d\n" [.int msg.rtm_type],
    .printf "\n" []] ++ s.2)

def rt_attribute (c : Libc) (fa : ℕ) (m : Mem) (s : String × List Ev) (p : ℕ) :
    String × List Ev :=
  print_address c fa m p RTA_GATEWAY "gateway:\t%s\n" s

/-- What `parse_ifa_msg` leaves and prints, with what its loop left. -/
def ifa_lines (c : Libc) (msg : ifaddrmsg) (s : String × List Ev) : String × List Ev :=
  (s.1, [.printf "==================================\n" [],
    .printf "%-15s  %-15s  %-15s \n" [.str "family", .str "dev", .str "prefix length"],
    .printf "%-15d  %-15s  %-15d \n" [.int (if msg.ifa_family = AF_INET then 4 else 6),
      .str ((c.if_indextoname msg.ifa_index).getD "(null)"), .int msg.ifa_prefixlen],
    .printf "\n" [],
    .printf "%-15s  %-15s  %-15s \n" [.str "if address", .str "local address", .str "broadcast"]]
    ++ s.2 ++ [.printf "\n" []])

def ifa_attribute (c : Libc) (fa : ℕ) (m : Mem) (s : String × List Ev) (p : ℕ) :
    String × List Ev :=
  print_address c fa m p IFA_BROADCAST "%-15s"
    (print_address c fa m p IFA_LOCAL "%-15s  " (print_address c fa m p IFA_ADDRESS "%-15s  " s))

section Functions

variable (c : Libc) (fuel : ℕ) (ip : String) (m : Mem)

theorem size_loop_foldl {σ : Type} (f : σ → ℕ → σ) (b len : ℕ) (s : σ) :
    (forLoop (fun t => RTA_OK m t.1 t.2) (RTA_NEXT (fun x => u64 x) m)
      (fun t s => (f s t.1, (none : Option Unit))) fuel (b, (len : ℤ)) s).1 =
    (walk_attributes_size fuel m b len).1.foldl f s :=
  forLoop_foldl Prod.fst f s fuel (b, (len : ℤ)) []

theorem parse_rt_msg_eq (rt b len : ℕ) : parse_rt_msg c fuel ip m rt b len =
    rt_lines (rtmsg.at m rt) ((walk_attributes_size fuel m b len).1.foldl
      (rt_attribute c (rtmsg.at m rt).rtm_family m) (ip, [])) :=
  congrArg (rt_lines (rtmsg.at m rt))
    (size_loop_foldl fuel m (rt_attribute c (rtmsg.at m rt).rtm_family m) b len (ip, []))

theorem parse_ifa_msg_eq (ifa b len : ℕ) : parse_ifa_msg c fuel ip m ifa b len =
    ifa_lines c (ifaddrmsg.at m ifa) ((walk_attributes_size fuel m b len).1.foldl
      (ifa_attribute c (ifaddrmsg.at m ifa).ifa_family m) (ip, [])) :=
  congrArg (ifa_lines c (ifaddrmsg.at m ifa))
    (size_loop_foldl fuel m (ifa_attribute c (ifaddrmsg.at m ifa).ifa_family m) b len (ip, []))

end Functions

/-- The attributes `parse_rt_msg` and `parse_ifa_msg` go over are those of the walk over an `int`,
as `RTM_NEWADDR_Check` does it, exactly when none stands where the `size_t` goes below zero. -/
theorem attribute_walks_same_iff (m : Mem) (o : ℕ) :
    (VisitsSame m o 12 ↔ ¬ Escapes m o 12) ∧ (VisitsSame m o 8 ↔ ¬ Escapes m o 8) ∧
      (∀ fuel, newaddr_walk fuel m o = int_walk fuel m o 8) ∧
      (∀ c fuel ip, parse_rt_msg c fuel ip m (NLMSG_DATA o) (RTM_RTA (NLMSG_DATA o))
        (NLMSG_PAYLOAD m o 12) = rt_lines (rtmsg.at m (NLMSG_DATA o))
          ((size_walk fuel m o 12).1.foldl
            (rt_attribute c (rtmsg.at m (NLMSG_DATA o)).rtm_family m) (ip, []))) ∧
      ∀ c fuel ip, parse_ifa_msg c fuel ip m (NLMSG_DATA o) (IFA_RTA (NLMSG_DATA o))
        (NLMSG_PAYLOAD m o 8) = ifa_lines c (ifaddrmsg.at m (NLMSG_DATA o))
          ((size_walk fuel m o 8).1.foldl
            (ifa_attribute c (ifaddrmsg.at m (NLMSG_DATA o)).ifa_family m) (ip, [])) :=
  ⟨visitsSame_iff (.inr rfl), visitsSame_iff (.inl rfl), fun _ => rfl,
    fun c fuel ip => parse_rt_msg_eq c fuel ip m _ _ _,
    fun c fuel ip => parse_ifa_msg_eq c fuel ip m _ _ _⟩

/-- A message whose last attribute has five bytes, and behind its padding the end of the dump. -/
def fiveBytes (len type : UInt8) (hdr : List UInt8) : Mem :=
  ofList ([len, 0, 0, 0, type, 0, 0, 0, 0, 0, 0, 0, 0, 0, 0, 0] ++ hdr ++
    [5, 0, 9, 0, 1, 0, 0, 0] ++ (Msg.header 3).bytes)

/-- The end of the dump is taken for an attribute. -/
theorem fiveBytes_not_same :
    ¬ VisitsSame (fiveBytes 33 24 [2, 0, 0, 0, 254, 0, 0, 1, 0, 0, 0, 0]) 0 12 ∧
      ¬ VisitsSame (fiveBytes 29 20 [2, 24, 0, 0, 3, 0, 0, 0]) 0 8 := by
  rw [visitsSame_iff (.inr rfl), visitsSame_iff (.inl rfl), not_not, not_not]
  decide

end NetTool

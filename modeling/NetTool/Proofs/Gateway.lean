import Mathlib.Data.List.Find
import NetTool.Proofs.ReadEvent
import NetTool.Show

/-!
# The end of a route dump

`parse_nl_msg_gateway` returns the type of the header its loop stopped at. Where a mark stops it,
that is the mark's. Where nothing does, the loop stops behind the last message, and reads there
what is no message of the datagram; with less than six bytes left it reads old ones. The loop
tests a length that is cut to 32 bits: from `2 ^ 32` on it may stop at a message, and a message of
more than `2 ^ 32 - 4` bytes, whose padded length is cut to 0, is met again and again.
-/

namespace NetTool

open Bytes CInt Frames Loop

/-- What `parse_nl_msg_gateway` returns from `t` on. -/
def gatewayRet (m : Mem) : ℕ → ℕ × ℤ → Option ℕ
  | 0, _ => none
  | fuel + 1, t =>
    if NLMSG_OK m t.1 (u32 t.2) ∧ nlmsg_type m t.1 ≠ NLMSG_DONE then
      if nlmsg_type m t.1 = NLMSG_ERROR then some (u32 (-1))
      else gatewayRet m fuel (NLMSG_NEXT (fun x => u64 x) m t)
    else some (nlmsg_type m t.1)

/-- The value a mark is returned as. -/
def markCode (type : ℕ) : ℕ := if type = NLMSG_ERROR then u32 (-1) else type

/-- The loop goes on behind the message at `p`, in bytes that end at `e`. -/
def Steps (m : Mem) (e p : ℕ) : Prop :=
  ¬ IsMark m p ∧ nlmsg_len m p ≤ u32 ((e : ℤ) - p) ∧ nlmsg_len m p ≤ 2 ^ 32 - 4

instance (m : Mem) (e p : ℕ) : Decidable (Steps m e p) := inferInstanceAs (Decidable (_ ∧ _))

section Walk

variable {m : Mem} {o p e rem fuel : ℕ} {len : ℤ}

theorem gatewayLoop_ret {c : Libc} {n : ℕ} : ∀ {fuel : ℕ} {t : ℕ × ℤ} {s : String × List Ev},
    (gatewayLoop c n m fuel t s).1 = gatewayRet m fuel t
  | 0, _, _ => rfl
  | fuel + 1, t, s => by
    rw [gatewayLoop, gatewayRet]
    split_ifs
    · rfl
    · exact gatewayLoop_ret
    · exact gatewayLoop_ret
    · rfl

theorem gatewayRet_refused (h : NLMSG_OK m o (u32 len) = false) :
    gatewayRet m (fuel + 1) (o, len) = some (nlmsg_type m o) := by
  rw [gatewayRet, if_neg]
  simp [h]

theorem gatewayRet_mark (h : IsMark m o) (hok : NLMSG_OK m o (u32 len) = true) :
    gatewayRet m (fuel + 1) (o, len) = some (markCode (nlmsg_type m o)) := by
  rw [gatewayRet, markCode]
  dsimp only
  rcases h with hd | he
  · rw [if_neg (by simp [hd]), if_neg]
    rw [hd]
    simp [NLMSG_DONE, NLMSG_ERROR]
  · rw [if_pos ⟨hok, by rw [he]; simp [NLMSG_DONE, NLMSG_ERROR]⟩, if_pos he, if_pos he]

theorem gatewayRet_next (h : ¬ IsMark m o) (hok : NLMSG_OK m o (u32 len) = true) :
    gatewayRet m (fuel + 1) (o, len) =
      gatewayRet m fuel (NLMSG_NEXT (fun x => u64 x) m (o, len)) := by
  obtain ⟨h1, h2⟩ := not_or.1 h
  rw [gatewayRet, if_pos ⟨hok, h1⟩, if_neg h2]

theorem NLMSG_ALIGN_le {n : ℕ} (h : n ≤ 2 ^ 32 - 4) : NLMSG_ALIGN n = netlink.pad n := by
  have hp : netlink.pad n = (n + 3) / 4 * 4 := rfl
  unfold NLMSG_ALIGN u32
  omega

theorem NLMSG_ALIGN_huge {n : ℕ} (h : 2 ^ 32 - 4 < n) (h' : n < 2 ^ 32) : NLMSG_ALIGN n = 0 := by
  unfold NLMSG_ALIGN u32
  omega

/-- The test of the loop at a message that fits. -/
theorem NLMSG_OK_cut (hok : netlink.Ok m o rem) :
    NLMSG_OK m o (u32 rem) = true ↔ nlmsg_len m o ≤ u32 rem := by
  obtain ⟨-, h2, -⟩ := hok
  have hh : netlink.hdr = 16 := rfl
  rw [netlink_lenAt] at h2
  simp only [NLMSG_OK, decide_eq_true_eq]
  omega

/-- The test of the loop where no message fits. -/
theorem NLMSG_OK_refused (hok : ¬ netlink.Ok m o rem) : NLMSG_OK m o (u32 rem) = false := by
  have hh : netlink.hdr = 16 := rfl
  have hl : nlmsg_len m o < 2 ^ 32 := get32_lt m o
  rw [Format.Ok, netlink_lenAt] at hok
  simp only [NLMSG_OK, decide_eq_false_iff_not]
  unfold u32
  omega

/-- A huge message that the test lets through is met for ever. -/
theorem gatewayRet_huge (hmark : ¬ IsMark m o) (hok : netlink.Ok m o rem) (hrem : rem < 2 ^ 64)
    (hseen : nlmsg_len m o ≤ u32 rem) (hhuge : 2 ^ 32 - 4 < nlmsg_len m o) :
    ∀ fuel, gatewayRet m fuel (o, (rem : ℤ)) = none
  | 0 => rfl
  | fuel + 1 => by
    have hl : nlmsg_len m o < 2 ^ 32 := get32_lt m o
    have hnext : NLMSG_NEXT (fun x => u64 x) m (o, (rem : ℤ)) = (o, (rem : ℤ)) := by
      unfold NLMSG_NEXT
      dsimp only
      rw [NLMSG_ALIGN_huge hhuge hl, Nat.cast_zero, sub_zero, u64_of_mem (by omega) (by omega)]
      rfl
    rw [gatewayRet_next hmark ((NLMSG_OK_cut hok).2 hseen), hnext]
    exact gatewayRet_huge hmark hok hrem hseen hhuge fuel

/-- A round of the loop at a message it goes on behind. -/
theorem gatewayRet_step (hok : netlink.Ok m o rem) (he : o + rem = e)
    (hs : Steps m e o) : gatewayRet m (fuel + 1) (o, (rem : ℤ)) =
      gatewayRet m fuel (o + netlink.pad (nlmsg_len m o),
        u64 ((e : ℤ) - (o + netlink.pad (nlmsg_len m o) : ℕ))) := by
  obtain ⟨hmark, hseen, hle⟩ := hs
  have hc : (e : ℤ) - o = rem := by omega
  rw [hc] at hseen
  rw [gatewayRet_next hmark ((NLMSG_OK_cut hok).2 hseen), NLMSG_NEXT]
  dsimp only
  rw [NLMSG_ALIGN_le hle, show (rem : ℤ) - netlink.pad (nlmsg_len m o) =
    (e : ℤ) - (o + netlink.pad (nlmsg_len m o) : ℕ) by omega]

/-- The loop gets to the first message it does not go on behind. -/
theorem gatewayRet_some : ∀ {fuel o rem : ℕ}, o + rem = e → rem < 2 ^ 64 → rem < fuel →
    (netlink.offsets m o rem).find? (fun p => ¬ Steps m e p) = some p →
      netlink.Ok m p (e - p) ∧ p ≤ e ∧ e - p < 2 ^ 64 ∧
        ∃ f, gatewayRet m fuel (o, (rem : ℤ)) = gatewayRet m (f + 1) (p, ((e - p : ℕ) : ℤ))
  | fuel + 1, o, rem, he, hrem, hf, hfind => by
    by_cases hok : netlink.Ok m o rem
    · obtain ⟨h16, hpad, hof⟩ := offsets_round hok
      rw [hof] at hfind
      by_cases hs : Steps m e o
      · rw [List.find?_cons_of_neg (by simpa using hs)] at hfind
        have hle : netlink.pad (nlmsg_len m o) ≤ rem := by
          by_contra hn
          have hh : netlink.hdr = 16 := rfl
          rw [Format.offsets_of_lt (by omega)] at hfind
          cases hfind
        obtain ⟨h1, h2, h3, f, h4⟩ := @gatewayRet_some fuel (o + netlink.pad (nlmsg_len m o))
          (rem - netlink.pad (nlmsg_len m o)) (by omega) (by omega) (by omega) hfind
        refine ⟨h1, h2, h3, f, ?_⟩
        rw [gatewayRet_step hok he hs, ← h4, u64_of_mem (by omega) (by omega)]
        congr 2
        omega
      · rw [List.find?_cons_of_pos (by simpa using hs), Option.some.injEq] at hfind
        subst hfind
        have hc : e - o = rem := by omega
        rw [hc]
        exact ⟨hok, by omega, hrem, fuel, rfl⟩
    · rw [Format.offsets_of_not_ok hok] at hfind
      cases hfind

/-- The loop gets behind the last message when it goes on behind each. -/
theorem gatewayRet_none : ∀ {fuel o rem : ℕ}, o + rem = e → rem < 2 ^ 64 → rem < fuel →
    (∀ p ∈ netlink.offsets m o rem, Steps m e p) →
      ∃ f, gatewayRet m fuel (o, (rem : ℤ)) = gatewayRet m (f + 1) (netlink.stop m o rem,
        u64 ((e : ℤ) - (netlink.stop m o rem : ℕ)))
  | fuel + 1, o, rem, he, hrem, hf, hall => by
    by_cases hok : netlink.Ok m o rem
    · obtain ⟨h16, hpad, hof⟩ := offsets_round hok
      rw [hof] at hall
      rw [gatewayRet_step hok he (hall o List.mem_cons_self), Format.stop_of_ok hok,
        netlink_lenAt]
      by_cases hle : netlink.pad (nlmsg_len m o) ≤ rem
      · obtain ⟨f, hf'⟩ := @gatewayRet_none fuel (o + netlink.pad (nlmsg_len m o))
          (rem - netlink.pad (nlmsg_len m o)) (by omega) (by omega) (by omega)
          fun p hp => hall p (List.mem_cons_of_mem _ hp)
        refine ⟨f, hf' ▸ ?_⟩
        rw [u64_of_mem (by omega) (by omega)]
        congr 2
        omega
      · obtain ⟨f, rfl⟩ : ∃ f, fuel = f + 1 := ⟨fuel - 1, by omega⟩
        have hh : netlink.hdr = 16 := rfl
        rw [Format.stop_of_lt (by omega)]
        exact ⟨f, rfl⟩
    · refine ⟨fuel, ?_⟩
      rw [Format.stop_of_not_ok hok, show (e : ℤ) - (o : ℕ) = rem by omega,
        u64_of_mem (by omega) (by omega)]

/-- Behind the last message the loop stops when the length has not gone below zero, or when no
message seems to stand there. -/
theorem gatewayRet_stop (he : e = o + rem) (hrem : rem < 2 ^ 64)
    (h : netlink.stop m o rem ≤ e ∨ nlmsg_len m (netlink.stop m o rem) < 16) :
    gatewayRet m (fuel + 1) (netlink.stop m o rem, u64 ((e : ℤ) - (netlink.stop m o rem : ℕ))) =
      some (nlmsg_type m (netlink.stop m o rem)) := by
  refine gatewayRet_refused ?_
  rcases h with hle | h16
  · have hno := Format.not_ok_stop (F := netlink) (m := m) o rem
    have hlo := Format.le_stop (F := netlink) (m := m) o rem
    rw [u64_of_mem (by omega) (by omega), ← Nat.cast_sub hle]
    exact NLMSG_OK_refused (he ▸ hno)
  · simp only [NLMSG_OK, decide_eq_false_iff_not]
    omega

end Walk

/-! ## One datagram -/

/-- Where the messages of a datagram stand. -/
def messages (d : List UInt8) : List ℕ := netlink.offsets (ofList d) 0 d.length

/-- The type of the first mark among them. -/
def firstMark (d : List UInt8) : Option ℕ :=
  ((messages d).find? fun p => IsMark (ofList d) p).map (nlmsg_type (ofList d))

/-- The value that the messages of a datagram call for. -/
structure GatewayValue (d : List UInt8) (v : ℕ) : Prop where
  error : firstMark d = some NLMSG_ERROR → v = u32 (-1)
  done : firstMark d = some NLMSG_DONE → v = NLMSG_DONE
  no_done : (∀ p ∈ messages d, nlmsg_type (ofList d) p ≠ NLMSG_DONE) → v ≠ NLMSG_DONE

/-- The call returns one value whatever the buffer holds behind the datagram, and it is the one
the messages call for. -/
def GatewayConfined (d : List UInt8) : Prop :=
  ∃ v, GatewayValue d v ∧ ∀ c ip m, ∃ n, ∀ fuel ≥ n,
    (parse_nl_msg_gateway c fuel ip (overlay d m) 0 d.length).1 = some v

/-- The loop goes on behind this message of the datagram. -/
def Passes (d : List UInt8) (p : ℕ) : Prop := Steps (ofList d) d.length p

instance (d : List UInt8) (p : ℕ) : Decidable (Passes d p) :=
  inferInstanceAs (Decidable (Steps _ _ _))

/-- The loop stops at a mark, or behind the last message at six bytes of the datagram that are no
header of an end mark. A message that the cut length does not cover stops it where it is the
end mark or where there is no mark at all. -/
def StopsInside (d : List UInt8) : Prop :=
  match (messages d).find? fun p => ¬ Passes d p with
  | some p =>
    if nlmsg_len (ofList d) p ≤ u32 ((d.length : ℤ) - p) then IsMark (ofList d) p
    else nlmsg_type (ofList d) p = NLMSG_DONE ∨ ∀ q ∈ messages d, ¬ IsMark (ofList d) q
  | none =>
    netlink.stop (ofList d) 0 d.length + 6 ≤ d.length ∧
      nlmsg_type (ofList d) (netlink.stop (ofList d) 0 d.length) ≠ NLMSG_DONE

section Datagram

variable {d : List UInt8} {p : ℕ} (m : Mem)

theorem steps_overlay (hp : p ∈ messages d) :
    Steps (overlay d m) d.length p ↔ Passes d p := by
  unfold Passes Steps
  rw [isMark_overlay m hp, (message_overlay m hp).1]

theorem find?_steps (d : List UInt8) (m : Mem) :
    (netlink.offsets (overlay d m) 0 d.length).find? (fun p => ¬ Steps (overlay d m) d.length p) =
      (messages d).find? fun p => ¬ Passes d p := by
  rw [offsets_overlay]
  refine List.find?_congr fun p hp => ?_
  rw [decide_eq_decide, steps_overlay m hp]

theorem stop_overlay (d : List UInt8) (m : Mem) :
    netlink.stop (overlay d m) 0 d.length = netlink.stop (ofList d) 0 d.length := by
  rw [Format.stop, Format.stop, offsets_overlay]
  rcases hp : (netlink.offsets (ofList d) 0 d.length).getLast? with _ | p
  · rfl
  · simp only [Option.map_some, netlink_lenAt, (message_overlay m (List.mem_of_getLast? hp)).1]

theorem parse_gateway_ret (c : Libc) (fuel : ℕ) (ip : String) :
    (parse_nl_msg_gateway c fuel ip (overlay d m) 0 d.length).1 =
      gatewayRet (overlay d m) fuel (0, (d.length : ℤ)) := gatewayLoop_ret

variable (hd : d.length < 2 ^ 64) {fuel : ℕ} (hf : d.length < fuel)

include hd hf in
/-- What the loop returns where it does not get behind the last message. -/
theorem gatewayRet_at (hp : (messages d).find? (fun p => ¬ Passes d p) = some p) :
    gatewayRet (overlay d m) fuel (0, (d.length : ℤ)) =
      if nlmsg_len (ofList d) p ≤ u32 ((d.length : ℤ) - p) then
        if IsMark (ofList d) p then some (markCode (nlmsg_type (ofList d) p)) else none
      else some (nlmsg_type (ofList d) p) := by
  have hmem := List.mem_of_find?_eq_some hp
  have hno := List.find?_some hp
  have hlen := (message_overlay m hmem).1
  have htype := type_overlay m hmem
  have hmark := isMark_overlay m hmem
  rw [← find?_steps d m] at hp
  obtain ⟨hok, hpe, hlt, f, he⟩ := gatewayRet_some (Nat.zero_add _) hd hf hp
  have hc : (d.length : ℤ) - p = (d.length - p : ℕ) := (Nat.cast_sub hpe).symm
  have hcut := NLMSG_OK_cut hok
  rw [he, hc, ← hlen, ← htype]
  split_ifs with hseen hm
  · exact gatewayRet_mark (hmark.2 hm) (hcut.2 hseen)
  · refine gatewayRet_huge (mt hmark.1 hm) hok hlt hseen ?_ _
    rw [decide_eq_true_eq, ← steps_overlay m hmem, Steps, hc] at hno
    exact not_le.1 fun hle => hno ⟨mt hmark.1 hm, hseen, hle⟩
  · refine gatewayRet_refused ?_
    rw [← Bool.not_eq_true, hcut]
    exact hseen

include hd hf in
/-- What it returns behind the last message, where it stops there. -/
theorem gatewayRet_behind (hp : (messages d).find? (fun p => ¬ Passes d p) = none)
    (h : netlink.stop (ofList d) 0 d.length ≤ d.length ∨
      nlmsg_len (overlay d m) (netlink.stop (ofList d) 0 d.length) < 16) :
    gatewayRet (overlay d m) fuel (0, (d.length : ℤ)) =
      some (nlmsg_type (overlay d m) (netlink.stop (ofList d) 0 d.length)) := by
  rw [← stop_overlay d m] at h ⊢
  obtain ⟨f, he⟩ := @gatewayRet_none (overlay d m) d.length fuel 0 d.length (Nat.zero_add _) hd hf
    fun p hmem => by
      rw [offsets_overlay] at hmem
      rw [steps_overlay m hmem]
      simpa using List.find?_eq_none.1 hp p hmem
  rw [he]
  exact gatewayRet_stop (Nat.zero_add _).symm hd h

/-! ## The value -/

theorem firstMark_of_mark (hp : (messages d).find? (fun p => ¬ Passes d p) = some p)
    (hm : IsMark (ofList d) p) : firstMark d = some (nlmsg_type (ofList d) p) := by
  rw [firstMark, find?_of_weaker (p := fun p => IsMark (ofList d) p) (fun q hq => ?_) hp
    (by simpa using hm)]
  · rfl
  · simp only [decide_eq_true_eq] at hq ⊢
    exact fun h => h.1 hq

theorem firstMark_eq_none (h : ∀ q ∈ messages d, ¬ IsMark (ofList d) q) : firstMark d = none := by
  rw [firstMark, List.find?_eq_none.2 fun q hq => by simpa using h q hq]
  rfl

theorem firstMark_of_mem {q : ℕ} (hq : q ∈ messages d) (hm : IsMark (ofList d) q) :
    ∃ p ∈ messages d, IsMark (ofList d) p ∧ firstMark d = some (nlmsg_type (ofList d) p) := by
  rcases hp : (messages d).find? fun p => IsMark (ofList d) p with _ | p
  · have := List.find?_eq_none.1 hp q hq
    simp [hm] at this
  · refine ⟨p, List.mem_of_find?_eq_some hp, by simpa using List.find?_some hp, ?_⟩
    rw [firstMark, hp]
    rfl

theorem markCode_ne_done {type : ℕ} (h : type ≠ NLMSG_DONE) : markCode type ≠ NLMSG_DONE := by
  have hu : u32 (-1) = 2 ^ 32 - 1 := by
    unfold u32
    omega
  have hd : NLMSG_DONE = 3 := rfl
  unfold markCode
  split_ifs
  · omega
  · exact h

/-- With a mark among the messages, the value is that of the first one. -/
theorem gatewayValue_of_mark {v : ℕ} (hp : p ∈ messages d) (hm : IsMark (ofList d) p)
    (hfirst : firstMark d = some (nlmsg_type (ofList d) p)) :
    GatewayValue d v ↔ v = markCode (nlmsg_type (ofList d) p) := by
  have hne : NLMSG_DONE ≠ NLMSG_ERROR := by simp [NLMSG_DONE, NLMSG_ERROR]
  rcases hm with hd | he
  · rw [hd, markCode, if_neg hne]
    refine ⟨fun h => h.done (hfirst.trans (congrArg some hd)), ?_⟩
    rintro rfl
    refine ⟨fun h => ?_, fun _ => rfl, fun h => absurd hd (h p hp)⟩
    rw [hfirst, hd, Option.some.injEq] at h
    exact absurd h hne
  · refine ⟨fun h => ?_, ?_⟩
    · rw [he, markCode, if_pos rfl]
      exact h.error (hfirst.trans (congrArg some he))
    · rintro rfl
      refine ⟨fun _ => by rw [he, markCode, if_pos rfl], fun h => ?_, fun h => ?_⟩
      · rw [hfirst, he, Option.some.injEq] at h
        exact absurd h.symm hne
      · exact markCode_ne_done (by rw [he]; exact hne.symm)

/-- With no mark among the messages, it is any but the end mark's. -/
theorem gatewayValue_of_none {v : ℕ} (h : ∀ q ∈ messages d, ¬ IsMark (ofList d) q) :
    GatewayValue d v ↔ v ≠ NLMSG_DONE := by
  have hfirst := firstMark_eq_none h
  refine ⟨fun hv => hv.no_done fun q hq hd => h q hq (.inl hd), fun hv => ⟨?_, ?_, fun _ => hv⟩⟩
  · rw [hfirst]
    intro hc
    cases hc
  · rw [hfirst]
    intro hc
    cases hc

/-! ## Where the value is right -/

theorem stopsInside_of_some (hp : (messages d).find? (fun p => ¬ Passes d p) = some p) :
    StopsInside d ↔
      if nlmsg_len (ofList d) p ≤ u32 ((d.length : ℤ) - p) then IsMark (ofList d) p
      else nlmsg_type (ofList d) p = NLMSG_DONE ∨ ∀ q ∈ messages d, ¬ IsMark (ofList d) q := by
  unfold StopsInside
  rw [hp]

theorem stopsInside_of_none (hp : (messages d).find? (fun p => ¬ Passes d p) = none) :
    StopsInside d ↔ netlink.stop (ofList d) 0 d.length + 6 ≤ d.length ∧
      nlmsg_type (ofList d) (netlink.stop (ofList d) 0 d.length) ≠ NLMSG_DONE := by
  unfold StopsInside
  rw [hp]

theorem not_isMark_of_none (hp : (messages d).find? (fun p => ¬ Passes d p) = none) :
    ∀ q ∈ messages d, ¬ IsMark (ofList d) q := by
  intro q hq
  have := List.find?_eq_none.1 hp q hq
  rw [decide_eq_true_eq, not_not] at this
  exact this.1

/-- Where the loop returns the same however the buffer was filled, that value decides. -/
theorem gatewayConfined_of_ret {v : ℕ} (hv : GatewayValue d v)
    (h : ∀ m fuel, d.length < fuel → gatewayRet (overlay d m) fuel (0, (d.length : ℤ)) = some v) :
    GatewayConfined d := by
  refine ⟨v, hv, fun c ip m => ⟨d.length + 1, fun fuel hf => ?_⟩⟩
  rw [parse_gateway_ret]
  exact h m fuel hf

theorem type_of_stop_inside (h : netlink.stop (ofList d) 0 d.length + 6 ≤ d.length) :
    nlmsg_type (overlay d m) (netlink.stop (ofList d) 0 d.length) =
      nlmsg_type (ofList d) (netlink.stop (ofList d) 0 d.length) :=
  get16_congr fun a h1 h2 => by
    rw [overlay_of_lt (by omega), ofList, overlay_of_lt (by omega)]

theorem confined_of_stopsInside (hd : d.length < 2 ^ 64) (h : StopsInside d) :
    GatewayConfined d := by
  rcases hp : (messages d).find? (fun p => ¬ Passes d p) with _ | p
  · obtain ⟨h6, hne⟩ := (stopsInside_of_none hp).1 h
    refine gatewayConfined_of_ret ((gatewayValue_of_none (not_isMark_of_none hp)).2 hne)
      fun m fuel hf => ?_
    rw [gatewayRet_behind m hd hf hp (.inl (by omega)), type_of_stop_inside m h6]
  · have hmem := List.mem_of_find?_eq_some hp
    rw [stopsInside_of_some hp] at h
    split_ifs at h with hseen
    · refine gatewayConfined_of_ret
        ((gatewayValue_of_mark hmem h (firstMark_of_mark hp h)).2 rfl) fun m fuel hf => ?_
      rw [gatewayRet_at m hd hf hp, if_pos hseen, if_pos h]
    · refine gatewayConfined_of_ret (v := nlmsg_type (ofList d) p) ?_ fun m fuel hf => ?_
      · rcases h with hdone | hno
        · refine (gatewayValue_of_mark hmem (.inl hdone) (firstMark_of_mark hp (.inl hdone))).2 ?_
          rw [hdone, markCode, if_neg (by simp [NLMSG_DONE, NLMSG_ERROR])]
        · exact (gatewayValue_of_none hno).2 fun hdone => hno p hmem (.inl hdone)
      · rw [gatewayRet_at m hd hf hp, if_neg hseen]

/-- The value of a confined call is what its loop comes to. -/
theorem ret_of_confined {v : ℕ} {x : Option ℕ}
    (hrun : ∀ c ip m, ∃ n, ∀ fuel ≥ n,
      (parse_nl_msg_gateway c fuel ip (overlay d m) 0 d.length).1 = some v)
    (h : ∀ fuel, d.length < fuel → gatewayRet (overlay d m) fuel (0, (d.length : ℤ)) = x) :
    x = some v := by
  obtain ⟨n, hn⟩ := hrun Libc.bare "" m
  have h1 := hn (n + d.length + 1) (by omega)
  rw [parse_gateway_ret, h _ (by omega)] at h1
  exact h1

/-- Old bytes that are zero but for the type of a header at `o`. -/
def staleType (o : ℕ) (b : UInt8) : Mem := fun a => if a = o + 5 then b else 0

/-- Behind the last message the loop stops at such a header. -/
theorem gatewayRet_stale (hd : d.length < 2 ^ 64)
    (hp : (messages d).find? (fun p => ¬ Passes d p) = none) {s : ℕ}
    (hs : s = netlink.stop (ofList d) 0 d.length) (b : UInt8) :
    ∀ fuel, d.length < fuel → gatewayRet (overlay d (staleType s b)) fuel (0, (d.length : ℤ)) =
      some (nlmsg_type (overlay d (staleType s b)) s) := by
  intro fuel hf
  rw [gatewayRet_behind _ hd hf hp, hs]
  rw [← hs]
  by_cases hle : s ≤ d.length
  · exact .inl hle
  · right
    have hzero : nlmsg_len (overlay d (staleType s b)) s = get32 (fun _ => 0) s :=
      get32_congr fun a h1 h2 => by
        rw [overlay_of_ge (by omega), staleType, if_neg (by omega)]
    have h0 : get32 (fun _ => 0) s = 0 := rfl
    omega

/-- With less than six bytes left, the type differs with the old bytes. -/
theorem type_stale_ne {s : ℕ} (h : d.length < s + 6) :
    nlmsg_type (overlay d (staleType s 0)) s ≠ nlmsg_type (overlay d (staleType s 1)) s := by
  have hsame : overlay d (staleType s 0) (s + 4) = overlay d (staleType s 1) (s + 4) := by
    have hne : s + 4 ≠ s + 5 := by omega
    simp only [overlay, staleType, if_neg hne]
  have h0 : overlay d (staleType s 0) (s + 4 + 1) = 0 := by
    rw [overlay_of_ge (by omega), staleType, if_pos rfl]
  have h1 : overlay d (staleType s 1) (s + 4 + 1) = 1 := by
    rw [overlay_of_ge (by omega), staleType, if_pos rfl]
  simp only [nlmsg_type, get16, get8, hsame, h0, h1]
  simp

/-- The type of a message is the value the messages call for only where it is the end mark's, or
where there is no mark. -/
theorem done_of_gatewayValue (hv : GatewayValue d (nlmsg_type (ofList d) p)) :
    nlmsg_type (ofList d) p = NLMSG_DONE ∨ ∀ q ∈ messages d, ¬ IsMark (ofList d) q := by
  by_contra hcut
  obtain ⟨hne, hno⟩ := not_or.1 hcut
  push Not at hno
  obtain ⟨q, hq, hmq⟩ := hno
  obtain ⟨q', hq', hm', hfirst⟩ := firstMark_of_mem hq hmq
  have hvm := (gatewayValue_of_mark hq' hm' hfirst).1 hv
  have hl : nlmsg_type (ofList d) p < 2 ^ 16 := get16_lt _ _
  have hu : u32 (-1) = 2 ^ 32 - 1 := by
    unfold u32
    omega
  rw [markCode] at hvm
  split_ifs at hvm
  · omega
  · rcases hm' with hd' | he'
    · exact hne (hvm.trans hd')
    · contradiction

theorem stopsInside_of_confined (hd : d.length < 2 ^ 64) (h : GatewayConfined d) :
    StopsInside d := by
  obtain ⟨v, hv, hrun⟩ := h
  rcases hp : (messages d).find? (fun p => ¬ Passes d p) with _ | p
  · obtain ⟨s, hs⟩ : ∃ s, s = netlink.stop (ofList d) 0 d.length := ⟨_, rfl⟩
    have h0 := Option.some.inj (ret_of_confined _ hrun (gatewayRet_stale hd hp hs 0))
    have h1 := Option.some.inj (ret_of_confined _ hrun (gatewayRet_stale hd hp hs 1))
    have h6 : netlink.stop (ofList d) 0 d.length + 6 ≤ d.length := by
      by_contra hlt
      exact type_stale_ne (by omega) (h0.trans h1.symm)
    refine (stopsInside_of_none hp).2 ⟨h6, ?_⟩
    rw [← type_of_stop_inside (staleType s 0) h6, ← hs, h0]
    exact (gatewayValue_of_none (not_isMark_of_none hp)).1 hv
  · have hret := ret_of_confined (fun _ => 0) hrun fun fuel hf => gatewayRet_at _ hd hf hp
    rw [stopsInside_of_some hp]
    split_ifs at hret ⊢ with hseen hm
    · exact hm
    · rw [Option.some.injEq] at hret
      exact done_of_gatewayValue (hret ▸ hv)

end Datagram

/-- The value does not depend on old bytes, and is the one the messages call for, exactly where
the loop stops inside. -/
theorem gateway_confined_iff {d : List UInt8} (hd : d.length < 2 ^ 64) :
    GatewayConfined d ↔ StopsInside d :=
  ⟨stopsInside_of_confined hd, confined_of_stopsInside hd⟩

theorem endMark_confined : (Msg.header 3).bytes.length < 2 ^ 64 ∧
    GatewayConfined (Msg.header 3).bytes := by
  refine ⟨by decide, (gateway_confined_iff (by decide)).2 ?_⟩
  have hp : (messages (Msg.header 3).bytes).find? (fun p => ¬ Passes (Msg.header 3).bytes p) =
      some 0 := by decide
  rw [stopsInside_of_some hp]
  decide

/-- A datagram of one message, in a buffer that holds an end mark behind it: the end mark's type
is returned. -/
theorem staleEnd_not_confined :
    (∀ p ∈ messages (Msg.header 16).bytes,
      nlmsg_type (ofList (Msg.header 16).bytes) p ≠ NLMSG_DONE) ∧
    (parse_nl_msg_gateway Libc.bare 2 "" (ofList ((Msg.header 16).bytes ++ (Msg.header 3).bytes))
      0 16).1 = some NLMSG_DONE ∧
    ¬ GatewayConfined (Msg.header 16).bytes := by
  refine ⟨by decide, rfl, fun h => ?_⟩
  have hp : (messages (Msg.header 16).bytes).find? (fun p => ¬ Passes (Msg.header 16).bytes p) =
      none := by decide
  have h6 := ((stopsInside_of_none hp).1 (stopsInside_of_confined (by decide) h)).1
  revert h6
  decide

end NetTool

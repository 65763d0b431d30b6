import NetTool.Util

/-!
# Walking a buffer of messages

The walk of the macros over the remaining length in a signed `int` or a `size_t` is a pass over
the accepted frames (`nlmsg_walk`, `rta_walk`): the padding of the last one takes the `int` at
most three below zero, and there the test refuses. On the bytes of complete messages it is a pass
over the messages (`messages_of_encode`).
-/

namespace NetTool

open Bytes CInt Frames Loop

variable {m m' : Mem} {o : ℕ}

@[simp] theorem netlink_lenAt (m : Mem) (o : ℕ) : netlink.lenAt m o = nlmsg_len m o := by
  simp [netlink, Format.lenAt, nlmsg_len]

@[simp] theorem rtattr_lenAt (m : Mem) (o : ℕ) : rtattr.lenAt m o = rta_len m o := by
  simp [rtattr, Format.lenAt, rta_len]

theorem NLMSG_ALIGN_eq {n : ℕ} (h : n < 2 ^ 31) : NLMSG_ALIGN n = netlink.pad n := by
  have hu : (u32 (n + 3) : ℤ) = n + 3 := u32_of_mem (by omega) (by omega)
  have hp : netlink.pad n = (n + 3) / 4 * 4 := rfl
  unfold NLMSG_ALIGN
  omega

theorem RTA_ALIGN_eq {n : ℕ} (h : n < 2 ^ 31) : RTA_ALIGN n = rtattr.pad n := NLMSG_ALIGN_eq h

theorem NLMSG_OK_iff {len : ℤ} : NLMSG_OK m o len = true ↔ netlink.Ok m o len.toNat := by
  have hh : netlink.hdr = 16 := rfl
  simp only [NLMSG_OK, Format.Ok, netlink_lenAt, hh, decide_eq_true_eq]
  omega

theorem NLMSG_OK_bounds {len : ℤ} (h : NLMSG_OK m o len = true) :
    16 ≤ len ∧ 16 ≤ nlmsg_len m o ∧ (nlmsg_len m o : ℤ) ≤ len := of_decide_eq_true h

theorem RTA_OK_iff {len : ℤ} : RTA_OK m o len = true ↔ rtattr.Ok m o len.toNat := by
  have hh : rtattr.hdr = 4 := rfl
  simp only [RTA_OK, Format.Ok, rtattr_lenAt, hh, decide_eq_true_eq]
  omega

theorem message_bounds {n : ℕ} (ho : o ∈ netlink.offsets m 0 n) :
    16 ≤ nlmsg_len m o ∧ o + nlmsg_len m o ≤ n := by
  obtain ⟨-, h1, h2⟩ := Format.offsets_bounds _ _ o ho
  have hh : netlink.hdr = 16 := rfl
  rw [netlink_lenAt] at h1 h2
  omega

/-- The remaining lengths an `int` takes in a walk. -/
def IntLen (len : ℤ) : Prop := -4 < len ∧ len < 2 ^ 31 - 4

section Walk

variable {σ ρ : Type*} {body : ℕ → σ → σ × Option ρ} {fuel : ℕ} {len : ℤ}

/-- One step of a walk over frames aligned to four bytes. -/
theorem intLen_next {F : Format} (hal : F.align = 4) (hl : IntLen len)
    (hok : F.Ok m o len.toNat) : F.lenAt m o < 2 ^ 31 ∧
      IntLen (i32 (len - F.pad (F.lenAt m o))) ∧
      (i32 (len - F.pad (F.lenAt m o))).toNat = len.toNat - F.pad (F.lenAt m o) := by
  obtain ⟨h1, h2, h3⟩ := hok
  obtain ⟨h4, h5⟩ := hl
  have hp := F.pad_lt (F.lenAt m o)
  have hpos := F.hdr_pos
  have hi : i32 (len - F.pad (F.lenAt m o)) = len - F.pad (F.lenAt m o) :=
    i32_of_mem (by omega) (by omega)
  rw [hi]
  unfold IntLen
  omega

theorem nlmsg_walk (hl : IntLen len) (hf : len.toNat < fuel) (s : σ) :
    forLoop (fun t => NLMSG_OK m t.1 t.2) (NLMSG_NEXT i32 m) (fun t s => body t.1 s) fuel (o, len) s
      = (foldBrk body (netlink.offsets m o len.toNat) s).map id Exit.ofBrk := by
  refine Format.forLoop_walk (I := IntLen) (fun o len _ => NLMSG_OK_iff)
    (fun o len hl hok => ?_) hl hf s
  obtain ⟨hlt, hlen, hrem⟩ := intLen_next rfl hl hok
  rw [netlink_lenAt] at hlt hlen hrem ⊢
  rw [NLMSG_NEXT, NLMSG_ALIGN_eq hlt]
  exact ⟨hlen, rfl, hrem⟩

theorem rta_walk (hl : IntLen len) (hf : len.toNat < fuel) (s : σ) :
    forLoop (fun t => RTA_OK m t.1 t.2) (RTA_NEXT i32 m) (fun t s => body t.1 s) fuel (o, len) s
      = (foldBrk body (rtattr.offsets m o len.toNat) s).map id Exit.ofBrk := by
  refine Format.forLoop_walk (I := IntLen) (fun o len _ => RTA_OK_iff)
    (fun o len hl hok => ?_) hl hf s
  obtain ⟨hlt, hlen, hrem⟩ := intLen_next rfl hl hok
  rw [rtattr_lenAt] at hlt hlen hrem ⊢
  rw [RTA_NEXT, RTA_ALIGN_eq hlt]
  exact ⟨hlen, rfl, hrem⟩

theorem walk_messages_eq (hl : IntLen len) (hf : len.toNat < fuel) :
    walk_messages fuel m o len = (netlink.offsets m o len.toNat, .done) := by
  refine (@nlmsg_walk m o _ Unit (fun t l => (l ++ [t], none)) fuel len hl hf []).trans ?_
  rw [foldBrk_collect]
  rfl

theorem walk_attributes_eq (hl : IntLen len) (hf : len.toNat < fuel) :
    walk_attributes fuel m o len = (rtattr.offsets m o len.toNat, .done) := by
  refine (@rta_walk m o _ Unit (fun t l => (l ++ [t], none)) fuel len hl hf []).trans ?_
  rw [foldBrk_collect]
  rfl

end Walk

/-! ## Complete messages -/

namespace Msg

def ifa (f : Msg) : ifaddrmsg := ifaddrmsg.at (ofList f.bytes) (NLMSG_DATA 0)

def rt (f : Msg) : rtmsg := rtmsg.at (ofList f.bytes) (NLMSG_DATA 0)

variable {f : Msg}

theorem type_of_holds (h : Format.Holds m o f) : nlmsg_type m o = f.type := by
  have hl := f.long
  have hh : netlink.hdr = 16 := rfl
  have := get16_of_slice h (a := 4) (by omega)
  simpa [nlmsg_type, Msg.type] using this

theorem info_of_holds (h : Format.Holds m o f) (hl : 32 ≤ f.bytes.length) :
    ifinfomsg.at m (NLMSG_DATA o) = f.info := by
  have h16 := get8_of_slice h (a := 16) (by omega)
  have h17 := get8_of_slice h (a := 17) (by omega)
  have h18 := get16_of_slice h (a := 18) (by omega)
  have h20 := get32_of_slice h (a := 20) (by omega)
  have h24 := get32_of_slice h (a := 24) (by omega)
  have h28 := get32_of_slice h (a := 28) (by omega)
  simp only [Msg.info, ifinfomsg.at, NLMSG_DATA, NLMSG_LENGTH]
  simp [Nat.add_assoc, h16, h17, h18, h20, h24, h28]

theorem ifa_of_holds (h : Format.Holds m o f) (hl : 24 ≤ f.bytes.length) :
    ifaddrmsg.at m (NLMSG_DATA o) = f.ifa := by
  have h16 := get8_of_slice h (a := 16) (by omega)
  have h17 := get8_of_slice h (a := 17) (by omega)
  have h18 := get8_of_slice h (a := 18) (by omega)
  have h19 := get8_of_slice h (a := 19) (by omega)
  have h20 := get32_of_slice h (a := 20) (by omega)
  simp only [Msg.ifa, ifaddrmsg.at, NLMSG_DATA, NLMSG_LENGTH]
  simp [Nat.add_assoc, h16, h17, h18, h19, h20]

theorem rt_of_holds (h : Format.Holds m o f) (hl : 28 ≤ f.bytes.length) :
    rtmsg.at m (NLMSG_DATA o) = f.rt := by
  have h16 := get8_of_slice h (a := 16) (by omega)
  have h20 := get8_of_slice h (a := 20) (by omega)
  have h21 := get8_of_slice h (a := 21) (by omega)
  have h22 := get8_of_slice h (a := 22) (by omega)
  have h23 := get8_of_slice h (a := 23) (by omega)
  simp only [Msg.rt, rtmsg.at, NLMSG_DATA, NLMSG_LENGTH]
  simp [Nat.add_assoc, h16, h20, h21, h22, h23]

end Msg

theorem recvmsg_le (buf : Mem) (r : Reply) : (recvmsg buf BUFLEN r).1 ≤ 4096 := by
  have hb : BUFLEN = 4096 := rfl
  rcases r with e | bytes
  · simp [recvmsg]
  · simp only [recvmsg, List.length_take]
    omega

theorem neg_one_le_recvmsg (buf : Mem) (r : Reply) : -1 ≤ (recvmsg buf BUFLEN r).1 := by
  rcases r with e | bytes
  · simp [recvmsg]
  · simp only [recvmsg]
    omega

theorem intLen_recvmsg (buf : Mem) (r : Reply) : IntLen (recvmsg buf BUFLEN r).1 := by
  have h1 := recvmsg_le buf r
  have h2 := neg_one_le_recvmsg buf r
  unfold IntLen
  omega

theorem accepted_of_nonpos {p : ℤ × Mem} (h : p.1 ≤ 0) : accepted p = [] := by
  have hh : netlink.hdr = 16 := rfl
  exact Format.offsets_of_lt (by omega)

/-- The messages of a datagram that was received over any old bytes. -/
theorem messages_of_encode (fs : List Msg) (m : Mem) :
    List.Forall₂ (Format.Holds (overlay (Format.encode fs) m))
      (netlink.offsets (overlay (Format.encode fs) m) 0 (Format.encode fs).length) fs :=
  Format.offsets_encode fs 0 (slice_overlay _ m)

theorem accepted_encode {fs : List Msg} (hl : (Format.encode fs).length ≤ BUFLEN) (buf : Mem) :
    List.Forall₂ (Format.Holds (recvmsg buf BUFLEN (.datagram (Format.encode fs))).2)
      (accepted (recvmsg buf BUFLEN (.datagram (Format.encode fs)))) fs := by
  simp only [accepted, recvmsg, List.take_of_length_le hl, Int.toNat_natCast]
  exact messages_of_encode fs buf

/-! ## The type of the first message -/

/-- What the callers make of a receive's result and buffer rests on the received bytes, is nothing
below the size of a header, and is the type of a message that is in the received bytes. -/
structure ParseConfined (p : ℤ × Mem) : Prop where
  received : ∀ m', (∀ a < p.1.toNat, m' a = p.2 a) →
    util_parse_nl_msg_OK m' (u64 p.1) = util_parse_nl_msg_OK p.2 (u64 p.1)
  short : p.1 < 16 → util_parse_nl_msg_OK p.2 (u64 p.1) = 0
  fits : util_parse_nl_msg_OK p.2 (u64 p.1) ≠ 0 →
    16 ≤ nlmsg_len p.2 0 ∧ (nlmsg_len p.2 0 : ℤ) ≤ p.1

section Parse

variable {r : ℤ}

theorem parse_of_nonneg (h0 : 0 ≤ r) (hr : r ≤ BUFLEN) :
    util_parse_nl_msg_OK m (u64 r) =
      if netlink.Ok m 0 r.toNat then nlmsg_type m 0 else 0 := by
  have hb : BUFLEN = 4096 := rfl
  have hu : (u64 r : ℤ) = r := u64_of_mem h0 (by omega)
  rw [util_parse_nl_msg_OK, hu]
  by_cases hok : netlink.Ok m 0 r.toNat
  · rw [if_pos hok, if_pos (NLMSG_OK_iff.2 hok)]
  · rw [if_neg hok, if_neg (mt NLMSG_OK_iff.1 hok)]

theorem ok_congr {n : ℕ} (h : ∀ a < n, m a = m' a) : netlink.Ok m 0 n ↔ netlink.Ok m' 0 n := by
  by_cases hn : netlink.hdr ≤ n
  · have hl : netlink.lenAt m 0 = netlink.lenAt m' 0 :=
      Format.lenAt_congr fun a _ ha => h a (by omega)
    rw [Format.Ok, hl, Format.Ok]
  · exact ⟨fun hok => absurd hok.1 hn, fun hok => absurd hok.1 hn⟩

theorem parseConfined_of_nonneg (h0 : 0 ≤ r) (hr : r ≤ BUFLEN) : ParseConfined (r, m) where
  received := by
    intro m' h
    rw [parse_of_nonneg h0 hr, parse_of_nonneg h0 hr]
    have hok := ok_congr h
    by_cases hm : netlink.Ok m' 0 r.toNat
    · have hh : netlink.hdr = 16 := rfl
      have h16 := hm.1
      rw [if_pos hm, if_pos (hok.1 hm)]
      exact get16_congr fun a _ ha => h a (by omega)
    · rw [if_neg hm, if_neg (mt hok.2 hm)]
  short := by
    intro h16
    have hh : netlink.hdr = 16 := rfl
    dsimp only at h16
    rw [parse_of_nonneg h0 hr, if_neg (Format.not_ok_of_lt (by omega))]
  fits := by
    rw [parse_of_nonneg h0 hr]
    dsimp only
    split_ifs with hok
    · obtain ⟨-, h1, h2⟩ := hok
      have hh : netlink.hdr = 16 := rfl
      rw [netlink_lenAt] at h1 h2
      exact fun _ => ⟨by omega, by omega⟩
    · exact fun h => absurd rfl h

/-- After a failed receive the callers take any length for received. -/
theorem parse_of_fail (h : 16 ≤ nlmsg_len m 0) (hl : nlmsg_len m 0 < 2 ^ 32) :
    util_parse_nl_msg_OK m (u64 (-1)) = nlmsg_type m 0 := by
  have hu : (u64 (-1) : ℤ) = 2 ^ 64 - 1 := by simp [u64]
  rw [util_parse_nl_msg_OK, if_pos]
  rw [hu, NLMSG_OK_iff, Format.Ok, netlink_lenAt]
  have hh : netlink.hdr = 16 := rfl
  omega

end Parse

/-- The callers keep to the received bytes exactly when the receive did not fail. -/
theorem parse_confined_iff (buf : Mem) (r : Reply) :
    ParseConfined (util_get_msg buf BUFLEN r) ↔ ∀ errno, r ≠ .fail errno := by
  rcases r with errno | bytes
  · have hfail : util_get_msg buf BUFLEN (.fail errno) = (-1, buf) := rfl
    rw [hfail]
    refine ⟨fun h => ?_, fun h => absurd rfl (h errno)⟩
    have h1 := h.received (ofList (Msg.header 3).bytes) (by simp)
    have h2 := h.received (ofList (Msg.header 2).bytes) (by simp)
    dsimp only at h1 h2
    rw [← h1, parse_of_fail (by decide) (by decide), parse_of_fail (by decide) (by decide)] at h2
    exact absurd h2 (by decide)
  · refine ⟨fun _ errno h => (by cases h), fun _ => ?_⟩
    exact parseConfined_of_nonneg (Int.natCast_nonneg _) (recvmsg_le buf (.datagram bytes))

/-- The end mark of the last reply is read again when a receive fails. -/
theorem failedReceive_not_confined :
    ¬ ParseConfined (util_get_msg (ofList (Msg.header 3).bytes) BUFLEN (.fail 104)) := by
  intro h
  have h0 := h.short (by decide)
  revert h0
  decide

end NetTool

import Mathlib.Tactic.Push
import NetTool.Event
import NetTool.Proofs.Netlink

/-!
# What `read_event` dispatches

The test of the loop sees the remaining length as an unsigned number. It is the walk over the
received bytes as long as the length does not turn negative (`unsigned_walk`). It does where the
padding of an accepted message reaches past the received bytes: the loop then goes on behind them,
with more than `2 ^ 31` bytes to go (`unsigned_overhang`), unless a mark ended it before.
-/

namespace NetTool

open Bytes CInt Frames Loop

section Walk

variable {σ ρ : Type*} {body : ℕ → σ → σ × Option ρ} {m : Mem} {o rem : ℕ}

theorem unsigned_step (hrem : rem ≤ BUFLEN) (hok : netlink.Ok m o rem) :
    NLMSG_OK m o (u32 rem) = true ∧ NLMSG_NEXT i32 m (o, (rem : ℤ)) =
      (o + netlink.pad (nlmsg_len m o), (rem : ℤ) - netlink.pad (nlmsg_len m o)) := by
  have hb : BUFLEN = 4096 := rfl
  have hu : (u32 rem : ℤ) = rem := u32_of_mem (by omega) (by omega)
  have h3 := hok.2.2
  rw [netlink_lenAt] at h3
  have hp := netlink.pad_lt (nlmsg_len m o)
  have ha : netlink.align = 4 := rfl
  refine ⟨?_, ?_⟩
  · rw [hu, NLMSG_OK_iff, Int.toNat_natCast]
    exact hok
  · unfold NLMSG_NEXT
    dsimp only
    rw [NLMSG_ALIGN_eq (by omega), i32_of_mem (by omega) (by omega)]

theorem unsigned_stop (hrem : rem ≤ BUFLEN) (hok : ¬ netlink.Ok m o rem) :
    NLMSG_OK m o (u32 rem) = false := by
  have hb : BUFLEN = 4096 := rfl
  have hu : (u32 rem : ℤ) = rem := u32_of_mem (by omega) (by omega)
  rw [← Bool.not_eq_true, hu, NLMSG_OK_iff, Int.toNat_natCast]
  exact hok

theorem unsigned_round (hrem : rem ≤ BUFLEN) (hok : netlink.Ok m o rem) (fuel : ℕ) (s : σ) :
    forLoop (fun t => NLMSG_OK m t.1 (u32 t.2)) (NLMSG_NEXT i32 m) (fun t s => body t.1 s)
        (fuel + 1) (o, (rem : ℤ)) s =
      match body o s with
      | (s, some r) => (s, .brk r)
      | (s, none) =>
        forLoop (fun t => NLMSG_OK m t.1 (u32 t.2)) (NLMSG_NEXT i32 m) (fun t s => body t.1 s) fuel
          (o + netlink.pad (nlmsg_len m o), (rem : ℤ) - netlink.pad (nlmsg_len m o)) s := by
  obtain ⟨h1, h2⟩ := unsigned_step hrem hok
  rcases hb : body o s with ⟨s', _ | r⟩
  · simp only [forLoop, h1, h2, hb, if_true]
  · simp only [forLoop, h1, hb, if_true]

theorem offsets_round (hok : netlink.Ok m o rem) :
    16 ≤ rem ∧ 16 ≤ netlink.pad (nlmsg_len m o) ∧ netlink.offsets m o rem =
      o :: netlink.offsets m (o + netlink.pad (nlmsg_len m o))
        (rem - netlink.pad (nlmsg_len m o)) := by
  have hh : netlink.hdr = 16 := rfl
  have hpad := netlink.le_pad (nlmsg_len m o)
  have hof := Format.offsets_of_ok hok
  obtain ⟨h1, h2, -⟩ := hok
  rw [netlink_lenAt] at h2 hof
  exact ⟨by omega, by omega, hof⟩

/-- The loop is a pass over the accepted messages where the last one ends, padded, within the
bytes, or where the pass leaves it before. -/
theorem unsigned_walk : ∀ {fuel o rem : ℕ} {s : σ}, rem ≤ BUFLEN → rem < fuel →
    (∀ p ∈ netlink.offsets m o rem, p + netlink.pad (nlmsg_len m p) ≤ o + rem) ∨
      (foldBrk body (netlink.offsets m o rem) s).2.isSome →
    forLoop (fun t => NLMSG_OK m t.1 (u32 t.2)) (NLMSG_NEXT i32 m) (fun t s => body t.1 s) fuel
        (o, (rem : ℤ)) s =
      (foldBrk body (netlink.offsets m o rem) s).map id Exit.ofBrk
  | fuel + 1, o, rem, s, hrem, hf, h => by
    by_cases hok : netlink.Ok m o rem
    · obtain ⟨h16, hpad, hof⟩ := offsets_round hok
      rw [hof, foldBrk] at h
      rw [unsigned_round hrem hok, hof, foldBrk]
      rcases hb : body o s with ⟨s', _ | r⟩
      · rw [hb] at h
        have hh : netlink.hdr = 16 := rfl
        by_cases hle : netlink.pad (nlmsg_len m o) ≤ rem
        · have ih := @unsigned_walk fuel (o + netlink.pad (nlmsg_len m o))
            (rem - netlink.pad (nlmsg_len m o)) s' (by omega) (by omega) ?_
          · rw [← ih, Nat.cast_sub hle]
          · refine h.imp_left fun h p hp => ?_
            have := h p (List.mem_cons_of_mem _ hp)
            omega
        · exfalso
          rcases h with h | h
          · exact hle (by have := h o List.mem_cons_self; omega)
          · rw [Format.offsets_of_lt (by omega)] at h
            cases h
      · rfl
    · rw [forLoop, unsigned_stop hrem hok, Format.offsets_of_not_ok hok]
      rfl

/-- Past an overhanging message the loop goes on with a negative length. -/
theorem unsigned_overhang {p : ℕ} : ∀ {fuel o rem : ℕ} {s : σ}, rem ≤ BUFLEN → rem < fuel →
    p ∈ netlink.offsets m o rem → o + rem < p + netlink.pad (nlmsg_len m p) →
    (∀ q ∈ netlink.offsets m o rem, ∀ s, (body q s).2 = none) →
    ∃ f s', 0 < f ∧
      forLoop (fun t => NLMSG_OK m t.1 (u32 t.2)) (NLMSG_NEXT i32 m) (fun t s => body t.1 s) fuel
          (o, (rem : ℤ)) s =
        forLoop (fun t => NLMSG_OK m t.1 (u32 t.2)) (NLMSG_NEXT i32 m) (fun t s => body t.1 s) f
          (p + netlink.pad (nlmsg_len m p),
            ((o + rem : ℕ) : ℤ) - (p + netlink.pad (nlmsg_len m p) : ℕ)) s'
  | fuel + 1, o, rem, s, hrem, hf, hp, hover, hb => by
    by_cases hok : netlink.Ok m o rem
    · obtain ⟨h16, hpad, hof⟩ := offsets_round hok
      rw [hof] at hp hb
      have hbo := hb o List.mem_cons_self s
      have hh : netlink.hdr = 16 := rfl
      rw [unsigned_round hrem hok]
      rcases hbs : body o s with ⟨s', e⟩
      rw [hbs] at hbo
      obtain rfl : e = none := hbo
      dsimp only
      rcases List.mem_cons.1 hp with rfl | hp
      · have hc : ((p + rem : ℕ) : ℤ) - (p + netlink.pad (nlmsg_len m p) : ℕ) =
            (rem : ℤ) - netlink.pad (nlmsg_len m p) := by omega
        exact ⟨fuel, s', by omega, by rw [hc]⟩
      · have hle : netlink.pad (nlmsg_len m o) ≤ rem := by
          by_contra hn
          rw [Format.offsets_of_lt (by omega)] at hp
          cases hp
        obtain ⟨f, s'', hf', he⟩ := @unsigned_overhang p fuel (o + netlink.pad (nlmsg_len m o))
          (rem - netlink.pad (nlmsg_len m o)) s' (by omega) (by omega) hp (by omega)
          fun q hq => hb q (List.mem_cons_of_mem _ hq)
        have hc : o + netlink.pad (nlmsg_len m o) + (rem - netlink.pad (nlmsg_len m o)) =
            o + rem := by omega
        rw [hc] at he
        exact ⟨f, s'', hf', by rw [← Nat.cast_sub hle, he]⟩
    · rw [Format.offsets_of_not_ok hok] at hp
      cases hp

end Walk

/-! ## One message -/

/-- The message ends the loop. -/
def IsMark (m : Mem) (o : ℕ) : Prop := nlmsg_type m o = NLMSG_DONE ∨ nlmsg_type m o = NLMSG_ERROR

instance (m : Mem) (o : ℕ) : Decidable (IsMark m o) := inferInstanceAs (Decidable (_ ∨ _))

/-- The message at `o`, as it is dispatched. -/
def dispatchAt (m : Mem) (o : ℕ) : Dispatch :=
  ⟨Handler.ofType (nlmsg_type m o), o, slice m o (nlmsg_len m o)⟩

/-- A message is handed over: it is noted, and its handler runs, between two lines. -/
def Watch.hand (g : Globals) (c : Libc) (fuel : ℕ) (m : Mem) (s : Watch) (k : Dispatch) : Watch :=
  let s := k.handler.run g c fuel m k.off
    { s with
      calls := s.calls ++ [k]
      out := s.out ++ [.printf "read_event_7 : >>>>>>>>>>>>>>>>>>>>>>\n" []] }
  { s with out := s.out ++ [.printf "read_event_10 : <<<<<<<<<<<<<<<<<<<<<<<\n" []] }

section Message

variable {g : Globals} {c : Libc} {n : ℕ} {m m' : Mem} {o : ℕ}

theorem Handler.run_calls (h : Handler) (s : Watch) :
    (h.run g c n m o s).calls = s.calls := by
  cases h <;> rfl

theorem event_message_of_mark (h : IsMark m o) (s : Watch) :
    (event_message g c n m o s).2.isSome ∧
      (event_message g c n m o s).1.calls = s.calls := by
  unfold event_message
  dsimp only
  split_ifs with h1 h2
  · exact ⟨rfl, rfl⟩
  · exact ⟨rfl, rfl⟩
  · exact absurd h (not_or.2 ⟨h1, h2⟩)

theorem Watch.hand_calls (s : Watch) (k : Dispatch) :
    (s.hand g c n m k).calls = s.calls ++ [k] := Handler.run_calls _ _

theorem event_message_hands (h : ¬ IsMark m o) (s : Watch) :
    event_message g c n m o s = (s.hand g c n m (dispatchAt m o), none) := by
  obtain ⟨h1, h2⟩ := not_or.1 h
  unfold event_message
  dsimp only
  rw [if_neg h1, if_neg h2]
  rfl

theorem event_message_of_not_mark (h : ¬ IsMark m o) (s : Watch) :
    (event_message g c n m o s).2 = none ∧
      (event_message g c n m o s).1.calls = s.calls ++ [dispatchAt m o] := by
  rw [event_message_hands h]
  exact ⟨rfl, Watch.hand_calls s _⟩

theorem event_message_exit (ht : nlmsg_type m o = nlmsg_type m' o) (s s' : Watch) :
    (event_message g c n m o s).2 = (event_message g c n m' o s').2 := by
  unfold event_message
  dsimp only
  rw [ht]
  split_ifs
  · rfl
  · rfl
  · rfl

end Message

/-! ## One datagram -/

/-- Whatever the buffer held, the run on a datagram ends, the messages it dispatches lie in the
datagram, and other old bytes make no difference to them or to the result. -/
def Confined (d : List UInt8) : Prop :=
  ∀ g c fuel vIfi_flags vBuf, BUFLEN < fuel →
    let r := read_event g c fuel (.datagram d) vBuf ⟨vIfi_flags, [], []⟩
    r.1.isSome ∧ (∀ k ∈ r.2.calls, k.off + k.bytes.length ≤ d.length) ∧
      ∀ vBuf', (read_event g c fuel (.datagram d) vBuf' ⟨vIfi_flags, [], []⟩).2.calls = r.2.calls ∧
        (read_event g c fuel (.datagram d) vBuf' ⟨vIfi_flags, [], []⟩).1 = r.1

/-- The padding of an accepted message reaches past the datagram, and no mark ends the loop. -/
def Overhangs (d : List UInt8) : Prop :=
  (∃ p ∈ netlink.offsets (ofList d) 0 d.length,
    d.length < p + netlink.pad (nlmsg_len (ofList d) p)) ∧
    ∀ p ∈ netlink.offsets (ofList d) 0 d.length, ¬ IsMark (ofList d) p

section Datagram

variable {d : List UInt8}

theorem offsets_overlay (d : List UInt8) (vBuf : Mem) :
    netlink.offsets (overlay d vBuf) 0 d.length = netlink.offsets (ofList d) 0 d.length :=
  Format.offsets_congr _ _ fun a _ ha => by
    rw [overlay_of_lt (by omega), ofList, overlay_of_lt (by omega)]

/-- An accepted message is what the datagram has there. -/
theorem message_overlay (vBuf : Mem) {p : ℕ} (hp : p ∈ netlink.offsets (ofList d) 0 d.length) :
    nlmsg_len (overlay d vBuf) p = nlmsg_len (ofList d) p ∧
      dispatchAt (overlay d vBuf) p = dispatchAt (ofList d) p ∧
      p + nlmsg_len (ofList d) p ≤ d.length := by
  obtain ⟨h1, h2⟩ := message_bounds hp
  have hm : ∀ a < d.length, overlay d vBuf a = ofList d a := fun a ha => by
    rw [overlay_of_lt ha, ofList, overlay_of_lt ha]
  have hlen : nlmsg_len (overlay d vBuf) p = nlmsg_len (ofList d) p :=
    get32_congr fun a h3 h4 => hm a (by omega)
  have htype : nlmsg_type (overlay d vBuf) p = nlmsg_type (ofList d) p :=
    get16_congr fun a h3 h4 => hm a (by omega)
  refine ⟨hlen, ?_, by omega⟩
  unfold dispatchAt
  rw [hlen, htype, slice_congr fun a h3 h4 => hm a (by omega)]

theorem type_overlay (vBuf : Mem) {p : ℕ} (hp : p ∈ netlink.offsets (ofList d) 0 d.length) :
    nlmsg_type (overlay d vBuf) p = nlmsg_type (ofList d) p := by
  obtain ⟨h1, h2⟩ := message_bounds hp
  refine get16_congr fun a h3 h4 => ?_
  rw [overlay_of_lt (by omega), ofList, overlay_of_lt (by omega)]

theorem isMark_overlay (vBuf : Mem) {p : ℕ} (hp : p ∈ netlink.offsets (ofList d) 0 d.length) :
    IsMark (overlay d vBuf) p ↔ IsMark (ofList d) p := by
  unfold IsMark
  rw [type_overlay vBuf hp]

variable (hd : d.length ≤ BUFLEN) (g : Globals) (c : Libc) (fuel : ℕ) (vBuf : Mem) (s : Watch)

/-- What `read_event` prints before it comes to the messages of a datagram. -/
def event_head (g : Globals) (m : Mem) (status : ℤ) : List Ev :=
  [.recvmsg, .printf "read_event_1 : >>>>>>>>>>>>>>>>>>>>>>\n" [],
    .printf "read_event_2 : recvmsg() == %d\n" [.int status]] ++
  (if status = 0 then [.printf "read_event_5 : EOF\n" []] else []) ++
  [.printf "read_event_6 : nlmsg_len = %d nlmsg_flags=%#x nlmsg_pid=%d nlmsg_seq=%d nlmsg_type= %d-%s NLMSG_PAYLOAD=%d\n \n"
    [.int (i32 (nlmsg_len m 0)), .int (nlmsg_flags m 0), .int (i32 (nlmsg_pid m 0)),
      .int (i32 (nlmsg_seq m 0)), .int (nlmsg_type m 0), .str (getRTM_Type g (nlmsg_type m 0)),
      .int (i32 (NLMSG_PAYLOAD m 0 0))]]

/-- What `read_event` makes of the way its loop was left. -/
def event_exit (q : Watch × Exit ℤ) : Option ℤ × Watch :=
  match q.2 with
  | .running => (none, q.1)
  | .brk ret => (some ret, q.1)
  | .done => (some 0, { q.1 with
      out := q.1.out ++ [.printf "read_event_12 : <<<<<<<<<<<<<<<<<<<<\n" []] })

theorem event_exit_calls (q : Watch × Exit ℤ) : (event_exit q).2.calls = q.1.calls := by
  rcases q with ⟨s, _ | _ | ret⟩
  · rfl
  · rfl
  · rfl

theorem event_exit_result (q : Watch × Option ℤ) :
    (event_exit (q.map id Exit.ofBrk)).1 = some (q.2.getD 0) := by
  rcases q with ⟨s, _ | ret⟩
  · rfl
  · rfl

include hd in
/-- A run on a datagram is its loop, with a head and an end. -/
theorem read_event_datagram : read_event g c fuel (.datagram d) vBuf s =
    event_exit (forLoop (fun t => NLMSG_OK (overlay d vBuf) t.1 (u32 t.2))
      (NLMSG_NEXT i32 (overlay d vBuf)) (fun t s => event_message g c fuel (overlay d vBuf) t.1 s) fuel
      (0, (d.length : ℤ)) { s with out := s.out ++ event_head g (overlay d vBuf) d.length }) := by
  unfold read_event recvmsg event_head
  dsimp only
  rw [List.take_of_length_le hd]
  split_ifs with h0
  · simp only [List.append_assoc]
    rfl
  · simp only [List.append_assoc, List.nil_append]
    rfl

end Datagram

/-! ## No message overhangs -/

section Within

variable {d : List UInt8} {g : Globals} {c : Libc} {fuel : ℕ} {vBuf vBuf' : Mem} {s s' : Watch}

theorem event_loop_of_not_overhangs (hd : d.length ≤ BUFLEN) (hf : BUFLEN < fuel)
    (h : ¬ Overhangs d) :
    forLoop (fun t => NLMSG_OK (overlay d vBuf) t.1 (u32 t.2)) (NLMSG_NEXT i32 (overlay d vBuf))
        (fun t s => event_message g c fuel (overlay d vBuf) t.1 s) fuel (0, (d.length : ℤ)) s =
      (foldBrk (event_message g c fuel (overlay d vBuf)) (netlink.offsets (ofList d) 0 d.length) s).map
        id Exit.ofBrk := by
  rw [← offsets_overlay d vBuf]
  refine unsigned_walk hd (by omega) ?_
  rw [offsets_overlay, Nat.zero_add]
  by_cases hm : ∀ p ∈ netlink.offsets (ofList d) 0 d.length, ¬ IsMark (ofList d) p
  · refine .inl fun p hp => ?_
    rw [(message_overlay vBuf hp).1]
    by_contra hn
    exact h ⟨⟨p, hp, by omega⟩, hm⟩
  · push Not at hm
    obtain ⟨p, hp, hmark⟩ := hm
    have hmark' := (isMark_overlay vBuf hp).2 hmark
    exact .inr (foldBrk_isSome_of_mem (fun s => (event_message_of_mark hmark' s).1) hp)

/-- Then a run is a pass over the messages that are accepted in the datagram. -/
theorem read_event_of_not_overhangs (hd : d.length ≤ BUFLEN) (hf : BUFLEN < fuel)
    (h : ¬ Overhangs d) : read_event g c fuel (.datagram d) vBuf s =
      event_exit ((foldBrk (event_message g c fuel (overlay d vBuf))
        (netlink.offsets (ofList d) 0 d.length)
        { s with out := s.out ++ event_head g (overlay d vBuf) d.length }).map id Exit.ofBrk) := by
  rw [read_event_datagram hd, event_loop_of_not_overhangs hd hf h]

theorem event_fold_within (hs : ∀ k ∈ s.calls, k.off + k.bytes.length ≤ d.length) :
    ∀ k ∈ (foldBrk (event_message g c fuel (overlay d vBuf))
      (netlink.offsets (ofList d) 0 d.length) s).1.calls, k.off + k.bytes.length ≤ d.length := by
  refine foldBrk_invariant (I := fun s : Watch => ∀ k ∈ s.calls,
    k.off + k.bytes.length ≤ d.length) (fun p hp s hs => ?_) hs
  obtain ⟨-, hdis, hle⟩ := message_overlay vBuf hp
  by_cases hm : IsMark (overlay d vBuf) p
  · rwa [(event_message_of_mark hm s).2]
  · rw [(event_message_of_not_mark hm s).2, hdis]
    intro k hk
    rcases List.mem_append.1 hk with hk | hk
    · exact hs k hk
    · rw [List.mem_singleton.1 hk]
      simpa [dispatchAt] using hle

theorem event_fold_same (hs : s.calls = s'.calls) :
    (foldBrk (event_message g c fuel (overlay d vBuf))
        (netlink.offsets (ofList d) 0 d.length) s).1.calls =
      (foldBrk (event_message g c fuel (overlay d vBuf'))
        (netlink.offsets (ofList d) 0 d.length) s').1.calls ∧
    (foldBrk (event_message g c fuel (overlay d vBuf)) (netlink.offsets (ofList d) 0 d.length) s).2 =
      (foldBrk (event_message g c fuel (overlay d vBuf'))
        (netlink.offsets (ofList d) 0 d.length) s').2 := by
  refine foldBrk_sim (R := fun p q => p = q ∧ p ∈ netlink.offsets (ofList d) 0 d.length)
    (S := fun s s' : Watch => s.calls = s'.calls) ?_
    (List.forall₂_same.2 fun p hp => ⟨rfl, hp⟩) hs
  rintro p _ s s' ⟨rfl, hp⟩ hs
  have ht : nlmsg_type (overlay d vBuf) p = nlmsg_type (overlay d vBuf') p :=
    (type_overlay vBuf hp).trans (type_overlay vBuf' hp).symm
  have hmark : IsMark (overlay d vBuf) p ↔ IsMark (overlay d vBuf') p :=
    (isMark_overlay vBuf hp).trans (isMark_overlay vBuf' hp).symm
  refine ⟨?_, event_message_exit ht s s'⟩
  by_cases hm : IsMark (overlay d vBuf) p
  · rw [(event_message_of_mark hm s).2, (event_message_of_mark (hmark.1 hm) s').2, hs]
  · rw [(event_message_of_not_mark hm s).2,
      (event_message_of_not_mark (mt hmark.2 hm) s').2, hs,
      (message_overlay vBuf hp).2.1, (message_overlay vBuf' hp).2.1]

theorem confined_of_not_overhangs (hd : d.length ≤ BUFLEN) (h : ¬ Overhangs d) : Confined d := by
  intro g c fuel vIfi_flags vBuf hf
  have hrun : ∀ vBuf, ∃ s0 : Watch, s0.calls = [] ∧
      (read_event g c fuel (.datagram d) vBuf ⟨vIfi_flags, [], []⟩).2.calls =
        (foldBrk (event_message g c fuel (overlay d vBuf))
          (netlink.offsets (ofList d) 0 d.length) s0).1.calls ∧
      (read_event g c fuel (.datagram d) vBuf ⟨vIfi_flags, [], []⟩).1 =
        some ((foldBrk (event_message g c fuel (overlay d vBuf))
          (netlink.offsets (ofList d) 0 d.length) s0).2.getD 0) := by
    intro vBuf
    rw [read_event_of_not_overhangs hd hf h]
    exact ⟨_, rfl, event_exit_calls _, event_exit_result _⟩
  obtain ⟨s0, hs0, hcalls, hret⟩ := hrun vBuf
  refine ⟨by rw [hret]; rfl, ?_, fun vBuf' => ?_⟩
  · rw [hcalls]
    exact event_fold_within (by simp [hs0])
  · obtain ⟨s0', hs0', hcalls', hret'⟩ := hrun vBuf'
    obtain ⟨h1, h2⟩ := @event_fold_same d g c fuel vBuf' vBuf s0' s0 (hs0'.trans hs0.symm)
    exact ⟨by rw [hcalls, hcalls', h1], by rw [hret, hret', h2]⟩

end Within

/-! ## A message overhangs -/

/-- Old bytes that hold a message of 16 bytes at `e`, and zeros. -/
def staleHeader (e : ℕ) : Mem := set32 (fun _ => 0) e 16

theorem staleHeader_overlay {d : List UInt8} {e : ℕ} (he : d.length ≤ e) :
    nlmsg_len (overlay d (staleHeader e)) e = 16 ∧ nlmsg_type (overlay d (staleHeader e)) e = 0 := by
  have h1 : nlmsg_len (overlay d (staleHeader e)) e = get32 (staleHeader e) e :=
    get32_congr fun a h3 h4 => overlay_of_ge (by omega)
  have h2 : nlmsg_type (overlay d (staleHeader e)) e = get16 (staleHeader e) (e + 4) :=
    get16_congr fun a h3 h4 => overlay_of_ge (by omega)
  refine ⟨h1.trans (get32_set32 (by omega) _ e), h2.trans ?_⟩
  rw [staleHeader, get16_setBytes_apart]
  · rfl
  · exact .inr (by simp)

/-- What the loop dispatched stays dispatched. -/
theorem event_loop_calls {g : Globals} {c : Libc} {m : Mem} {k : Dispatch} (n fuel : ℕ)
    (t : ℕ × ℤ) {s : Watch} (hk : k ∈ s.calls) :
    k ∈ (forLoop (fun t => NLMSG_OK m t.1 (u32 t.2)) (NLMSG_NEXT i32 m)
      (fun t s => event_message g c n m t.1 s) fuel t s).1.calls := by
  refine forLoop_invariant (I := fun _ s => k ∈ s.calls) (J := fun s => k ∈ s.calls)
    (fun t s _ hs => ?_) ?_ (fun _ _ hs => hs) fuel t s hk
  · by_cases hm : IsMark m t.1
    · rwa [(event_message_of_mark hm s).2]
    · rw [(event_message_of_not_mark hm s).2]
      exact List.mem_append_left _ hs
  · exact fun _ _ _ hs => hs

theorem event_loop_dispatches {g : Globals} {c : Libc} {m : Mem} {o : ℕ} {len : ℤ} {n fuel : ℕ}
    (hok : NLMSG_OK m o (u32 len) = true) (hmark : ¬ IsMark m o) (hf : 0 < fuel) (s : Watch) :
    dispatchAt m o ∈ (forLoop (fun t => NLMSG_OK m t.1 (u32 t.2)) (NLMSG_NEXT i32 m)
      (fun t s => event_message g c n m t.1 s) fuel (o, len) s).1.calls := by
  obtain ⟨f, rfl⟩ : ∃ f, fuel = f + 1 := ⟨fuel - 1, by omega⟩
  obtain ⟨hexit, hnew⟩ := event_message_of_not_mark (g := g) (c := c) (n := n) hmark s
  rw [forLoop, if_pos hok]
  dsimp only
  rcases hs : event_message g c n m o s with ⟨s', e⟩
  rw [hs] at hexit hnew
  obtain rfl : e = none := hexit
  refine event_loop_calls n f _ ?_
  rw [hnew]
  exact List.mem_append_right _ List.mem_cons_self

/-- Behind an overhanging message the loop takes old bytes for a message. -/
theorem not_confined_of_overhangs {d : List UInt8} (hd : d.length ≤ BUFLEN) (h : Overhangs d) :
    ¬ Confined d := by
  intro hconf
  have hb : BUFLEN = 4096 := rfl
  have ha : netlink.align = 4 := rfl
  obtain ⟨⟨p, hp, hover⟩, hmark⟩ := h
  have hpad := netlink.pad_lt (nlmsg_len (ofList d) p)
  obtain ⟨e, he⟩ : ∃ e, e = p + netlink.pad (nlmsg_len (ofList d) p) := ⟨_, rfl⟩
  obtain ⟨hlen, -, hle⟩ := message_overlay (staleHeader e) hp
  obtain ⟨h16, h0⟩ := staleHeader_overlay (d := d) (e := e) (by omega)
  obtain ⟨-, hin, -⟩ := hconf .empty Libc.bare 4097 0 (staleHeader e) (by omega)
  obtain ⟨s0, hs0⟩ : ∃ s0 : Watch, s0 =
      ⟨0, [], event_head .empty (overlay d (staleHeader e)) d.length⟩ := ⟨_, rfl⟩
  obtain ⟨f, s', hf, hloop⟩ := @unsigned_overhang Watch ℤ
    (event_message .empty Libc.bare 4097 (overlay d (staleHeader e)))
    (overlay d (staleHeader e)) p 4097 0 d.length s0 hd (by omega) (by rwa [offsets_overlay])
    (by rw [hlen]; omega) fun q hq s => by
      rw [offsets_overlay] at hq
      exact (event_message_of_not_mark (mt (isMark_overlay _ hq).1 (hmark q hq)) s).1
  rw [hlen, ← he, Nat.zero_add] at hloop
  have hu : (u32 ((d.length : ℤ) - (e : ℤ)) : ℤ) = d.length - e + 2 ^ 32 :=
    u32_of_neg (by omega) (by omega)
  have hok : NLMSG_OK (overlay d (staleHeader e)) e (u32 ((d.length : ℤ) - (e : ℤ))) = true := by
    simp only [NLMSG_OK, h16, decide_eq_true_eq]
    omega
  have hnot : ¬ IsMark (overlay d (staleHeader e)) e := by
    unfold IsMark
    rw [h0]
    exact not_or.2 ⟨by simp [NLMSG_DONE], by simp [NLMSG_ERROR]⟩
  have hlast := hin (dispatchAt (overlay d (staleHeader e)) e) (by
    rw [read_event_datagram hd, event_exit_calls, List.nil_append, ← hs0, hloop]
    exact event_loop_dispatches hok hnot hf s')
  simp only [dispatchAt, slice_length, h16] at hlast
  omega

/-- A run on a datagram keeps to it exactly when no message overhangs it before a mark. -/
theorem read_event_confined_iff {d : List UInt8} (hd : d.length ≤ BUFLEN) :
    Confined d ↔ ¬ Overhangs d :=
  ⟨fun hc h => not_confined_of_overhangs hd h hc, confined_of_not_overhangs hd⟩

theorem header_confined : (Msg.header 16).bytes.length ≤ BUFLEN ∧ Confined (Msg.header 16).bytes :=
  ⟨by decide, (read_event_confined_iff (by decide)).2 (by unfold Overhangs; decide)⟩

/-- A message of 17 bytes. -/
theorem seventeenBytes_not_confined :
    ¬ Confined [17, 0, 0, 0, 20, 0, 0, 0, 0, 0, 0, 0, 0, 0, 0, 0, 0] :=
  not_confined_of_overhangs (by decide) (by unfold Overhangs; decide)

end NetTool

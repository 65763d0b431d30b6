import NetTool.Proofs.LinkReceive

/-!
# What the link calls report

`nettool_link_info` and `nettool_link_up` return 0 on every path that returns. So what a result
of 0 is meant to say, that the link's state was received or that the kernel acknowledged the
change, holds of it exactly where it happened.
-/

namespace NetTool

open Bytes CInt Frames Loop

variable {i : ℤ} {x : ifinfomsg} {ps : List (ℤ × Mem)}

/-- A run comes to a message about link `i` that has all of its `ifinfomsg`, and this is `x`. -/
def Arrives (i : ℤ) (ps : List (ℤ × Mem)) (x : ifinfomsg) : Prop :=
  ∃ p o, Visits i ps p o ∧ wholeLink i p.2 o = true ∧ x = ifinfomsg.at p.2 (NLMSG_DATA o)

theorem answer_of_arrives (h : Arrives i ps x) : answer i ps = some (some x) := by
  obtain ⟨p, o, hv, hw, rfl⟩ := h
  rw [wholeLink, decide_eq_true_eq] at hw
  exact answer_of_visits hv hw.1

/-! ## `nettool_link_info` -/

section Info

variable (c : Libc) {fuel : ℕ} (replies : List Reply) (stale vBuffReply vBuf : Mem)
  (a_DeviceName : String) (a_Ifinfomsg : ifinfomsg)

theorem nettool_link_info_zero {v : ℤ}
    (h : (nettool_link_info c fuel replies stale vBuffReply vBuf a_DeviceName a_Ifinfomsg).1.ret
      = some v) : v = 0 := by
  unfold nettool_link_info at h
  dsimp only at h
  by_cases hi : i32 (c.if_nametoindex a_DeviceName) = 0
  · rw [if_pos hi] at h
    simpa using h.symm
  · rw [if_neg hi] at h
    generalize link_info_receive fuel replies vBuffReply (i32 (c.if_nametoindex a_DeviceName))
      a_Ifinfomsg = q at h
    rcases q with ⟨_ | v, s⟩
    · cases h
    · simpa using h.symm

theorem nettool_link_info_of_answer (hf : 4096 < fuel)
    (hi : i32 (c.if_nametoindex a_DeviceName) ≠ 0)
    (h : answer (i32 (c.if_nametoindex a_DeviceName)) (receives replies vBuffReply)
      = some (some x)) :
    (nettool_link_info c fuel replies stale vBuffReply vBuf a_DeviceName a_Ifinfomsg).1.ret
        = some 0 ∧
      (nettool_link_info c fuel replies stale vBuffReply vBuf a_DeviceName a_Ifinfomsg).2 = x := by
  have hr := link_info_loop_answer (i := i32 (c.if_nametoindex a_DeviceName)) hf replies
    vBuffReply ⟨0, a_Ifinfomsg, []⟩ rfl
  rw [h] at hr
  rw [nettool_link_info, link_info_receive]
  dsimp only
  rw [if_neg hi]
  generalize link_info_loop fuel (i32 (c.if_nametoindex a_DeviceName)) replies vBuffReply
    ⟨0, a_Ifinfomsg, []⟩ = q at hr ⊢
  rcases q with ⟨_ | v, s⟩
  · cases hr.1
  · exact ⟨rfl, hr.2⟩

/-- What `nettool_link_info` is to report: 0 only where the link exists and a whole reply about it
filled `*a_Ifinfomsg`, and a non-zero value otherwise; and `ip_link_Info` prints the flags
received, where it prints flags. -/
def InfoReported (fuel : ℕ) : Prop :=
  let i := i32 (c.if_nametoindex a_DeviceName)
  let Filled := fun y => i ≠ 0 ∧ Arrives i (receives replies vBuffReply) y
  let r := nettool_link_info c fuel replies stale vBuffReply vBuf a_DeviceName a_Ifinfomsg
  let r0 := nettool_link_info c fuel replies stale vBuffReply vBuf a_DeviceName .zero
  let p := ip_link_Info c fuel replies stale vBuffReply vBuf a_DeviceName
  (r.1.ret = some 0 → Filled r.2) ∧ (¬ Filled r.2 → ∃ v, v ≠ 0 ∧ r.1.ret = some v) ∧
    ((∃ args, .printf "%-20s -  %d \n" args ∈ p.out) →
      ∃ y, Filled y ∧ p.out = r0.1.out ++ PrintMessageFlag y.ifi_flags)

theorem infoReported_iff (hf : 4096 < fuel) :
    InfoReported c replies stale vBuffReply vBuf a_DeviceName a_Ifinfomsg fuel ↔
      i32 (c.if_nametoindex a_DeviceName) ≠ 0 ∧
        ∃ y, Arrives (i32 (c.if_nametoindex a_DeviceName)) (receives replies vBuffReply) y := by
  refine ⟨fun ⟨_, h2, _⟩ => ?_, fun ⟨hi, y, hy⟩ => ?_⟩
  · by_contra hn
    obtain ⟨v, hv, hr⟩ := h2 fun ⟨hi, ha⟩ => hn ⟨hi, _, ha⟩
    exact hv (nettool_link_info_zero c replies stale vBuffReply vBuf a_DeviceName a_Ifinfomsg hr)
  · have hz := answer_of_arrives hy
    obtain ⟨hr, hx⟩ := nettool_link_info_of_answer c replies stale vBuffReply vBuf a_DeviceName
      a_Ifinfomsg hf hi hz
    obtain ⟨hr0, hx0⟩ := nettool_link_info_of_answer c replies stale vBuffReply vBuf a_DeviceName
      .zero hf hi hz
    refine ⟨fun _ => ⟨hi, hx ▸ hy⟩, fun hn => absurd ⟨hi, hx ▸ hy⟩ hn, fun _ => ?_⟩
    refine ⟨y, ⟨hi, hy⟩, ?_⟩
    unfold ip_link_Info
    dsimp only
    rw [hr0, if_pos rfl, hx0]

end Info

/-! ## `nettool_link_up` -/

/-- The first reply is a whole error message with code 0. -/
def Acknowledged (replies : List Reply) : Prop :=
  ∃ bytes rest, replies = .datagram bytes :: rest ∧
    NLMSG_OK (ofList bytes) 0 bytes.length = true ∧
    nlmsg_type (ofList bytes) 0 = NLMSG_ERROR ∧
    NLMSG_LENGTH 4 ≤ nlmsg_len (ofList bytes) 0 ∧ get32 (ofList bytes) (NLMSG_DATA 0) = 0

section Up

variable (c : Libc) (replies : List Reply) (stale vBuf : Mem) (a_DeviceName : String) (a_UP : ℤ)

theorem nettool_link_up_zero {v : ℤ}
    (h : (nettool_link_up c replies stale vBuf a_DeviceName a_UP).ret = some v) : v = 0 := by
  unfold nettool_link_up at h
  dsimp only at h
  split_ifs at h with hi
  · simpa using h.symm
  · rcases replies with _ | ⟨r, rs⟩
    · cases h
    · simpa using h.symm

/-- What `nettool_link_up` is to report: 0 only where the link exists and the kernel acknowledged
the change, and a non-zero value otherwise. -/
def UpReported : Prop :=
  let Done := i32 (c.if_nametoindex a_DeviceName) ≠ 0 ∧ Acknowledged replies
  let r := nettool_link_up c replies stale vBuf a_DeviceName a_UP
  (r.ret = some 0 → Done) ∧ (¬ Done → ∃ v, v ≠ 0 ∧ r.ret = some v)

theorem upReported_iff : UpReported c replies stale vBuf a_DeviceName a_UP ↔
    i32 (c.if_nametoindex a_DeviceName) ≠ 0 ∧ Acknowledged replies := by
  refine ⟨fun ⟨_, h2⟩ => ?_, fun h => ⟨fun _ => h, fun hn => absurd h hn⟩⟩
  by_contra hn
  obtain ⟨v, hv, hr⟩ := h2 hn
  exact hv (nettool_link_up_zero c replies stale vBuf a_DeviceName a_UP hr)

end Up

/-! ## Both -/

/-- The link calls report what happened exactly when the device exists and what they wait for
came. -/
theorem link_calls_report_iff (c : Libc) {fuel : ℕ} (hf : 4096 < fuel) (replies acks : List Reply)
    (stale vBuffReply vBuf : Mem) (a_DeviceName : String) (a_Ifinfomsg : ifinfomsg) (a_UP : ℤ) :
    (InfoReported c replies stale vBuffReply vBuf a_DeviceName a_Ifinfomsg fuel ↔
      i32 (c.if_nametoindex a_DeviceName) ≠ 0 ∧
        ∃ y, Arrives (i32 (c.if_nametoindex a_DeviceName)) (receives replies vBuffReply) y) ∧
    (UpReported c acks stale vBuf a_DeviceName a_UP ↔
      i32 (c.if_nametoindex a_DeviceName) ≠ 0 ∧ Acknowledged acks) :=
  ⟨infoReported_iff c replies stale vBuffReply vBuf a_DeviceName a_Ifinfomsg hf,
    upReported_iff c acks stale vBuf a_DeviceName a_UP⟩

/-- An error message with code 0. -/
def ack : List UInt8 := [36, 0, 0, 0, 2, 0, 0, 0, 0, 0, 0, 0, 0, 0, 0, 0, 0, 0, 0, 0] ++
  List.replicate 16 0

theorem twoLinks_reported : 4096 < 4097 ∧
    InfoReported { Libc.bare with if_nametoindex := fun _ => 4 }
      (twoLinksSplit.datagrams.map .ofMsgs) (fun _ => 0) (fun _ => 255) (fun _ => 0) "eth0" .zero
      4097 ∧
    UpReported { Libc.bare with if_nametoindex := fun _ => 4 } [.datagram ack] (fun _ => 0)
      (fun _ => 0) "eth0" 1 := by
  have hf : 4096 < 4097 := by omega
  have ha := answer_dump (i := 4) twoLinks.is_end [] twoLinksSplit.datagrams twoLinks.msgs
    (fun _ => 255) twoLinksSplit.flatten_eq twoLinks.not_end twoLinks.links twoLinksSplit.fits
  rw [List.append_nil] at ha
  obtain ⟨p, o, hv, hw, hx⟩ := visits_of_answer _ ha
  obtain ⟨h1, h2⟩ := link_calls_report_iff { Libc.bare with if_nametoindex := fun _ => 4 } hf
    (twoLinksSplit.datagrams.map .ofMsgs) [.datagram ack] (fun _ => 0) (fun _ => 255)
    (fun _ => 0) "eth0" .zero 1
  have hi : i32 (4 : ℕ) ≠ 0 := by decide
  have hwhole : wholeLink 4 p.2 o = true := by
    have ht : nlmsg_type p.2 o = RTM_NEWLINK := by
      rw [wanted, decide_eq_true_eq] at hw
      exact hw.1
    obtain ⟨pre, post, os, os', hps, hacc, -, -⟩ := hv
    rw [wholeLink, decide_eq_true_eq]
    exact ⟨hw, twoLinks_whole p (by simp [hps]) o (by simp [hacc]) ht⟩
  exact ⟨hf, h1.2 ⟨hi, _, p, o, hv, hwhole, hx.symm⟩,
    h2.2 ⟨hi, ack, [], rfl, by decide, by decide, by decide, by decide⟩⟩

/-- Without the device both calls return 0, and a header alone is taken for a reply about link 4
where the buffer held one. -/
theorem noDevice_not_reported :
    ¬ InfoReported Libc.bare [] (fun _ => 0) (fun _ => 0) (fun _ => 0) "eth0" .zero 4097 ∧
      ¬ UpReported Libc.bare [] (fun _ => 0) (fun _ => 0) "eth0" 1 ∧
      ¬ InfoReported { Libc.bare with if_nametoindex := fun _ => 4 } [.ofMsgs [Msg.header 16]]
        (fun _ => 0) (ofList (Msg.newLink 4 1).bytes) (fun _ => 0) "eth0" .zero 4097 := by
  have hi : i32 (Libc.bare.if_nametoindex "eth0") = 0 := by simp [Libc.bare, i32]
  have hshort : ∀ p ∈ receives [.ofMsgs [Msg.header 16]] (ofList (Msg.newLink 4 1).bytes),
      ∀ o ∈ accepted p, nlmsg_len p.2 o < 32 := by decide
  refine ⟨fun h => ?_, fun h => ?_, fun h => ?_⟩
  · exact ((infoReported_iff Libc.bare [] _ _ _ "eth0" .zero (by omega)).1 h).1 hi
  · exact ((upReported_iff Libc.bare [] _ _ "eth0" 1).1 h).1 hi
  · obtain ⟨-, y, p, o, ⟨pre, post, os, os', hps, hacc, -, -⟩, hw, -⟩ :=
      (infoReported_iff { Libc.bare with if_nametoindex := fun _ => 4 } _ _ _ _ "eth0" .zero
        (by omega)).1 h
    rw [wholeLink, decide_eq_true_eq] at hw
    have := hshort p (by simp [hps]) o (by simp [hacc])
    omega

end NetTool

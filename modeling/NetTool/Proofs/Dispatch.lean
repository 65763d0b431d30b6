import NetTool.Proofs.Attributes
import NetTool.Proofs.ReadEvent

/-!
# A datagram of complete messages

`read_event` on a datagram of complete messages is a pass over these messages: it hands each one
before the first end mark to the handler of its type, and its result is that mark's
(`event_fold_run`). What it prints and which flags it remembers is what these handlers make of the
messages. No message overhangs such a datagram (`not_overhangs_encode`), so the loop reads nothing
else.
-/

namespace NetTool

open Bytes CInt Frames Loop

namespace Msg

/-- The message ends the reading of its datagram. -/
def Ends (f : Msg) : Prop := f.type = NLMSG_DONE ∨ f.type = NLMSG_ERROR

instance (f : Msg) : Decidable f.Ends := inferInstanceAs (Decidable (_ ∨ _))

/-- The messages of a datagram before the first that ends it. -/
def beforeEnd (fs : List Msg) : List Msg := fs.takeWhile fun f => ¬ f.Ends

/-- The calls for messages that stand one after the other from `o` on. -/
def dispatches : ℕ → List Msg → List Dispatch
  | _, [] => []
  | o, f :: fs =>
    ⟨Handler.ofType f.type, o, f.bytes⟩ :: dispatches (o + netlink.pad f.bytes.length) fs

/-- What a message that ends a datagram is reported as. -/
def endCode (f : Msg) : ℤ := if f.type = NLMSG_ERROR then -1 else 0

variable {f : Msg} {fs : List Msg} {m : Mem} {o : ℕ}

theorem isMark_of_holds (h : Format.Holds m o f) : IsMark m o ↔ f.Ends := by
  unfold IsMark Ends
  rw [type_of_holds h]

theorem dispatchAt_of_holds (h : Format.Holds m o f) :
    dispatchAt m o = ⟨Handler.ofType f.type, o, f.bytes⟩ := by
  have hlen : nlmsg_len m o = f.bytes.length := by rw [← netlink_lenAt, h.lenAt]
  unfold dispatchAt
  rw [type_of_holds h, hlen, h]

theorem beforeEnd_of_ends (h : f.Ends) : beforeEnd (f :: fs) = [] := by simp [beforeEnd, h]

theorem beforeEnd_of_not_ends (h : ¬ f.Ends) : beforeEnd (f :: fs) = f :: beforeEnd fs := by
  simp [beforeEnd, h]

end Msg

/-- What is printed for the message that ends the reading of a datagram. -/
def Msg.endLines (f : Msg) : List Ev :=
  [.printf "read_event_7 : >>>>>>>>>>>>>>>>>>>>>>\n" []] ++
    if f.type = NLMSG_ERROR then [.printf "read_event_8 : Message is an error - decode TBD\n" []]
    else []

/-- The reading of a datagram of these messages ends: with its end mark, or behind the last one. -/
def Watch.close (fs : List Msg) (s : Watch) : Watch :=
  match fs.find? fun f => f.Ends with
  | some f => { s with out := s.out ++ f.endLines }
  | none => { s with out := s.out ++ [.printf "read_event_12 : <<<<<<<<<<<<<<<<<<<<\n" []] }

section Messages

variable {g : Globals} {c : Libc} {n : ℕ} {m : Mem} {f : Msg} {o : ℕ}

theorem event_message_ends (h : Format.Holds m o f) (he : f.Ends) (s : Watch) :
    event_message g c n m o s = ({ s with out := s.out ++ f.endLines }, some f.endCode) := by
  unfold event_message Msg.endLines Msg.endCode
  dsimp only
  rw [Msg.type_of_holds h]
  rcases he with hd | hd
  · have hne : ¬ f.type = NLMSG_ERROR := by
      rw [hd]
      simp [NLMSG_DONE, NLMSG_ERROR]
    rw [if_pos hd, if_neg hne, if_neg hne, List.append_nil]
  · have hne : ¬ f.type = NLMSG_DONE := by
      rw [hd]
      simp [NLMSG_DONE, NLMSG_ERROR]
    rw [if_neg hne, if_pos hd, if_pos hd, if_pos hd, List.append_assoc]

/-- What a pass over complete messages leads to: each one before the first end mark is handed over
in turn, and the pass is left with that mark. -/
theorem event_fold_run : ∀ (fs : List Msg) (o : ℕ) (s : Watch),
    slice m o (Format.encode fs).length = Format.encode fs →
      event_exit ((foldBrk (event_message g c n m)
          (netlink.offsets m o (Format.encode fs).length) s).map id Exit.ofBrk) =
        (some (((fs.find? fun f => f.Ends).map Msg.endCode).getD 0),
          Watch.close fs ((Msg.dispatches o (Msg.beforeEnd fs)).foldl (Watch.hand g c n m) s))
  | [], o, s, _ => by
    rw [Format.offsets_encode_nil]
    rfl
  | f :: fs, o, s, h => by
    obtain ⟨hf, hok, hrest⟩ := Format.holds_head h
    rw [Format.offsets_of_ok hok, hf.lenAt, Format.length_encode_cons, Nat.add_sub_cancel_left,
      foldBrk]
    by_cases he : f.Ends
    · have hfind : (f :: fs).find? (fun f => f.Ends) = some f :=
        List.find?_cons_of_pos (by simpa using he)
      rw [event_message_ends hf he, Msg.beforeEnd_of_ends he, Watch.close, hfind]
      rfl
    · have hfind : (f :: fs).find? (fun f => f.Ends) = fs.find? fun f => f.Ends :=
        List.find?_cons_of_neg (by simpa using he)
      have ih := event_fold_run fs (o + netlink.pad f.bytes.length)
        (s.hand g c n m ⟨Handler.ofType f.type, o, f.bytes⟩) hrest
      rw [Watch.close] at ih
      rw [event_message_hands (mt (Msg.isMark_of_holds hf).1 he), Msg.dispatchAt_of_holds hf,
        Msg.beforeEnd_of_not_ends he, Watch.close, hfind]
      exact ih

end Messages

theorem not_overhangs_encode (fs : List Msg) : ¬ Overhangs (Format.encode fs) := by
  rintro ⟨⟨p, hp, hover⟩, -⟩
  have hle := Format.offsets_encode_within (slice_overlay (Format.encode fs) _) hp
  rw [netlink_lenAt] at hle
  unfold ofList at hover
  omega

/-- What a run on complete messages comes to. -/
theorem read_event_encode (fs : List Msg) (hl : (Format.encode fs).length ≤ BUFLEN) (g : Globals)
    (c : Libc) (vBuf : Mem) {fuel : ℕ} (hf : BUFLEN < fuel) (s : Watch) :
    read_event g c fuel (.ofMsgs fs) vBuf s =
      (some (((fs.find? fun f => f.Ends).map Msg.endCode).getD 0),
        Watch.close fs ((Msg.dispatches 0 (Msg.beforeEnd fs)).foldl
          (Watch.hand g c fuel (overlay (Format.encode fs) vBuf))
          { s with out := s.out ++
              event_head g (overlay (Format.encode fs) vBuf) (Format.encode fs).length })) := by
  rw [Reply.ofMsgs, read_event_of_not_overhangs hl hf (not_overhangs_encode fs),
    ← offsets_overlay (Format.encode fs) vBuf]
  exact event_fold_run fs 0 _ (slice_overlay (Format.encode fs) vBuf)

end NetTool

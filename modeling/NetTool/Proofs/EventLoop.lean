import Mathlib.Data.List.Destutter
import Mathlib.Data.Nat.Bitwise
import NetTool.Main
import NetTool.Proofs.Dispatch
import NetTool.Proofs.NewAddr
import NetTool.Proofs.NewLink
import NetTool.Proofs.Show

/-!
# A run of the event loop

Of what `LoopEvent` does, `Watch.seen` keeps the messages it handed over, the flags it remembers
and the change lines it printed. A run over datagrams of complete messages is then a pass over
these messages, however they were spread over datagrams and whatever the buffers held
(`LoopEvent_seen`). The change lines of a flag tell its values in these messages without the
repetitions (`told_seen`).
-/

namespace NetTool

open Bytes CInt Frames Loop

/-! ## What is seen of a run -/

structure Seen where
  handed : List (Handler × List UInt8)
  vIfi_flags : ℕ
  changes : List Ev

def Watch.seen (s : Watch) : Seen where
  handed := s.calls.map fun k => (k.handler, k.bytes)
  vIfi_flags := s.vIfi_flags
  changes := s.out.filter Ev.isChange

/-- A message is handed over, and a message about a link is compared with the last one. -/
def Seen.message (s : Seen) (f : Msg) : Seen where
  handed := s.handed ++ [(Handler.ofType f.type, f.bytes)]
  vIfi_flags := if f.type = RTM_NEWLINK then f.info.ifi_flags else s.vIfi_flags
  changes :=
    if f.type = RTM_NEWLINK then
      s.changes ++ checkedFlags.flatMap (check_flag f.info.ifi_flags s.vIfi_flags)
    else s.changes

section Message

variable {g : Globals} {c : Libc} {n : ℕ} {m : Mem} {o : ℕ} {f : Msg}

theorem seen_of_silent {s : Watch} {lines : List Ev} (h : lines.filter Ev.isChange = []) :
    { s with out := s.out ++ lines }.seen = s.seen := by
  simp only [Watch.seen, List.filter_append, h, List.append_nil]

/-- All lines of an address message are printed, and none is a change line. -/
theorem RTM_NEWADDR_Check_plain :
    ∀ e ∈ RTM_NEWADDR_Check g c n m o, e.isPrintf = true ∧ e.isChange = false := by
  rw [RTM_NEWADDR_Check_eq, newaddr_lines, newaddr_foldl_out]
  intro e he
  simp only [List.mem_append, List.mem_cons, List.mem_map, List.not_mem_nil, or_false,
    false_or] at he
  rcases he with ((rfl | rfl) | ⟨p, -, rfl⟩) | rfl <;> simp [addr_line, Ev.isPrintf, Ev.isChange]

theorem RTM_NEWADDR_Check_silent : (RTM_NEWADDR_Check g c n m o).filter Ev.isChange = [] := by
  rw [List.filter_eq_nil_iff]
  intro e he
  rw [(RTM_NEWADDR_Check_plain e he).2]
  simp

theorem Handler.run_seen (h : Handler) (s : Watch) : (h.run g c n m o s).seen =
    if h = .newlink then
      { s.seen with
        vIfi_flags := (infoAt (m, o)).ifi_flags
        changes := s.seen.changes ++
          checkedFlags.flatMap (check_flag (infoAt (m, o)).ifi_flags s.vIfi_flags) }
    else s.seen := by
  cases h with
  | newaddr => exact seen_of_silent RTM_NEWADDR_Check_silent
  | newlink =>
    rw [if_pos rfl, ← RTM_NEWLINK_Check_changes g c n]
    simp only [Handler.run, Watch.seen, List.filter_append]
    rfl
  | deladdr => exact seen_of_silent rfl
  | getaddr => exact seen_of_silent rfl
  | dellink => exact seen_of_silent rfl
  | getlink => exact seen_of_silent rfl
  | setlink => exact seen_of_silent rfl
  | other => exact seen_of_silent rfl

theorem Handler.ofType_newlink {type : ℕ} :
    Handler.ofType type = .newlink ↔ type = RTM_NEWLINK := by
  unfold Handler.ofType
  split_ifs with h1 h2 h3 h4 <;> simp_all [RTM_NEWADDR, RTM_DELADDR, RTM_GETADDR, RTM_NEWLINK]

/-- The message is complete, and has its header where it is about a link. -/
def Msg.Sound (f : Msg) : Prop := f.type = RTM_NEWLINK → 32 ≤ f.bytes.length

instance (f : Msg) : Decidable f.Sound := inferInstanceAs (Decidable (_ → _))

theorem Watch.hand_seen (h : Format.Holds m o f) (hl : f.Sound) (s : Watch) :
    (s.hand g c n m ⟨Handler.ofType f.type, o, f.bytes⟩).seen = s.seen.message f := by
  unfold Watch.hand
  dsimp only
  rw [seen_of_silent rfl, Handler.run_seen]
  simp only [Handler.ofType_newlink]
  by_cases ht : f.type = RTM_NEWLINK
  · have hi : infoAt (m, o) = f.info := Msg.info_of_holds h (hl ht)
    rw [if_pos ht, hi]
    simp [Watch.seen, Seen.message, ht, Ev.isChange]
  · rw [if_neg ht]
    simp [Watch.seen, Seen.message, ht, Ev.isChange]

theorem Watch.close_seen (fs : List Msg) (s : Watch) : (s.close fs).seen = s.seen := by
  unfold Watch.close Msg.endLines
  split
  · split_ifs
    · exact seen_of_silent rfl
    · exact seen_of_silent rfl
  · exact seen_of_silent rfl

/-- What is seen of the messages that are handed over is what they have. -/
theorem hands_seen : ∀ (fs : List Msg) (o : ℕ) (s : Watch), (∀ f ∈ fs, f.Sound) →
    slice m o (Format.encode fs).length = Format.encode fs →
      ((Msg.dispatches o (Msg.beforeEnd fs)).foldl (Watch.hand g c n m) s).seen =
        (Msg.beforeEnd fs).foldl Seen.message s.seen
  | [], _, _, _, _ => rfl
  | f :: fs, o, s, hl, h => by
    obtain ⟨hf, -, hrest⟩ := Format.holds_head h
    obtain ⟨hsound, hl⟩ := List.forall_mem_cons.1 hl
    by_cases he : f.Ends
    · rw [Msg.beforeEnd_of_ends he]
      rfl
    · rw [Msg.beforeEnd_of_not_ends he, List.foldl_cons, ← Watch.hand_seen hf hsound s]
      exact hands_seen fs _ _ hl hrest

end Message

/-! ## Rounds -/

/-- A datagram that fits the receive buffer, of messages that are sound. -/
structure Datagram where
  msgs : List Msg
  fits : (Format.encode msgs).length ≤ BUFLEN
  sound : ∀ f ∈ msgs, f.Sound

/-- What may happen in a round: `select` fails or times out, the receive call fails, or a datagram
arrives. -/
inductive Arrival
  | error
  | timedOut
  | fail (errno : ℤ)
  | datagram (d : Datagram)

/-- The round of it, over a buffer as it was. -/
def Arrival.round (a : Arrival) (vBuf : Mem) : Round :=
  match a with
  | .error => .error
  | .timedOut => .timedOut
  | .fail errno => .ready (.fail errno) vBuf
  | .datagram d => .ready (.ofMsgs d.msgs) vBuf

/-- The messages of it up to the first that ends a datagram. -/
def Arrival.msgs : Arrival → List Msg
  | .datagram d => Msg.beforeEnd d.msgs
  | _ => []

section Rounds

variable {g : Globals} {c : Libc} {fuel : ℕ}

theorem event_head_silent (m : Mem) (status : ℤ) :
    (event_head g m status).filter Ev.isChange = [] := by
  unfold event_head
  split_ifs <;> rfl

theorem read_event_seen (hf : BUFLEN < fuel) (d : Datagram) (vBuf : Mem) (s : Watch) :
    ∃ v s', read_event g c fuel (.ofMsgs d.msgs) vBuf s = (some v, s') ∧
      s'.seen = (Msg.beforeEnd d.msgs).foldl Seen.message s.seen := by
  refine ⟨_, _, read_event_encode d.msgs d.fits g c vBuf hf s, ?_⟩
  rw [Watch.close_seen, hands_seen d.msgs 0 _ d.sound (slice_overlay _ vBuf),
    seen_of_silent (event_head_silent _ _)]

theorem LoopEvent_round_seen (hf : BUFLEN < fuel) (a : Arrival) (vBuf : Mem) (s : Watch) :
    ∃ s', LoopEvent_round g c fuel s (a.round vBuf) = some s' ∧
      s'.seen = a.msgs.foldl Seen.message s.seen := by
  cases a with
  | error => exact ⟨_, rfl, seen_of_silent rfl⟩
  | timedOut => exact ⟨_, rfl, rfl⟩
  | fail errno =>
    unfold LoopEvent_round Arrival.round read_event recvmsg
    dsimp only
    split_ifs with h
    · exact ⟨_, rfl, seen_of_silent rfl⟩
    · refine ⟨_, rfl, ?_⟩
      rw [List.append_assoc]
      exact seen_of_silent rfl
  | datagram d =>
    obtain ⟨v, s', h1, h2⟩ := read_event_seen (g := g) (c := c) hf d vBuf s
    refine ⟨s', ?_, h2⟩
    unfold LoopEvent_round Arrival.round
    dsimp only
    rw [h1]

/-- What is seen of the first rounds is a pass over the messages that arrived in them. -/
theorem LoopEvent_seen (hf : BUFLEN < fuel) (arrivals : List (Arrival × Mem)) :
    ∃ s, LoopEvent g c fuel (arrivals.map fun a => a.1.round a.2) ⟨0, [], []⟩ = some s ∧
      s.seen = (arrivals.flatMap fun a => a.1.msgs).foldl Seen.message ⟨[], 0, []⟩ := by
  obtain ⟨s, h1, h2⟩ := @foldlM_refines _ _ _ _ _ Watch.seen Seen.message (fun a => a.1.msgs)
    arrivals ⟨0, [], []⟩ fun s a _ => LoopEvent_round_seen (g := g) (c := c) hf a.1 a.2 s
  exact ⟨s, by rw [LoopEvent, List.foldlM_map, ← h1], h2⟩

end Rounds

/-! ## The messages that are handed over -/

/-- The value that a change line of the flag tells. -/
def Ev.tells (name : String) : Ev → Option ℤ
  | .printf fmt [.str n, .int v] => if fmt = " %-20s = %d \n" ∧ n = name then some v else none
  | _ => none

/-- The values that the change lines of the flag tell, one after the other. -/
def told (name : String) (out : List Ev) : List ℤ := out.filterMap (Ev.tells name)

def flagBit (f : String × ℕ) (ifi_flags : ℕ) : ℤ := if ifi_flags &&& f.2 ≠ 0 then 1 else 0

/-- What the messages about a link say of the flag, one after the other. -/
def flagValues (f : String × ℕ) (fs : List Msg) : List ℤ :=
  (fs.filter fun m => m.type = RTM_NEWLINK).map fun m => flagBit f m.info.ifi_flags

theorem told_filter (name : String) (out : List Ev) :
    told name (out.filter Ev.isChange) = told name out := by
  have h : ∀ e : Ev, e.isChange = false → e.tells name = none := by
    intro e he
    unfold Ev.tells
    split
    · rename_i fmt n v
      have hfmt : ¬ fmt = " %-20s = %d \n" := by simpa [Ev.isChange] using he
      rw [if_neg fun h => hfmt h.1]
    · rfl
  induction out with
  | nil => rfl
  | cons e out ih =>
    unfold told at ih ⊢
    by_cases he : e.isChange = true
    · rw [List.filter_cons_of_pos he, List.filterMap_cons, List.filterMap_cons, ih]
    · rw [List.filter_cons_of_neg he, ih, List.filterMap_cons, h e (by simpa using he)]

theorem told_check_flag (ifi_flags vIfi_flags : ℕ) (f f' : String × ℕ) :
    told f.1 (check_flag ifi_flags vIfi_flags f') =
      if f'.1 = f.1 ∧ ifi_flags &&& f'.2 ≠ vIfi_flags &&& f'.2 then [flagBit f' ifi_flags]
      else [] := by
  unfold check_flag told
  by_cases h : ifi_flags &&& f'.2 ≠ vIfi_flags &&& f'.2
  · rw [if_pos h]
    by_cases hn : f'.1 = f.1 <;> simp [Ev.tells, hn, h, flagBit]
  · rw [if_neg h, if_neg fun h' => h h'.2]
    rfl

theorem told_check_flags {ifi_flags vIfi_flags : ℕ} {f : String × ℕ} :
    ∀ {fs : List (String × ℕ)}, (fs.map Prod.fst).Nodup → f ∈ fs →
      told f.1 (fs.flatMap (check_flag ifi_flags vIfi_flags)) =
        if ifi_flags &&& f.2 ≠ vIfi_flags &&& f.2 then [flagBit f ifi_flags] else []
  | f' :: fs, hn, hf => by
    obtain ⟨hnot, hn⟩ := List.nodup_cons.1 hn
    have happ : told f.1 ((f' :: fs).flatMap (check_flag ifi_flags vIfi_flags)) =
        told f.1 (check_flag ifi_flags vIfi_flags f') ++
          told f.1 (fs.flatMap (check_flag ifi_flags vIfi_flags)) := by
      rw [List.flatMap_cons, told, List.filterMap_append]
      rfl
    rw [happ, told_check_flag]
    rcases List.mem_cons.1 hf with rfl | hf
    · have hrest : told f.1 (fs.flatMap (check_flag ifi_flags vIfi_flags)) = [] := by
        rw [told, List.filterMap_flatMap, List.flatMap_eq_nil_iff]
        intro f' hf'
        have hne : ¬ f'.1 = f.1 := fun h => hnot (h ▸ List.mem_map_of_mem hf')
        have h := told_check_flag ifi_flags vIfi_flags f f'
        rw [if_neg fun h => hne h.1] at h
        exact h
      simp [hrest]
    · have hne : ¬ f'.1 = f.1 := fun h => hnot (h ▸ List.mem_map_of_mem hf)
      rw [if_neg fun h => hne h.1, List.nil_append]
      exact told_check_flags hn hf

theorem checkedFlags_two_pow : ∀ f ∈ checkedFlags, ∃ k, f.2 = 2 ^ k := by
  have h : ∀ f ∈ checkedFlags, f.2 = 2 ^ Nat.log2 f.2 := by decide
  exact fun f hf => ⟨_, h f hf⟩

theorem flagBit_ne {f : String × ℕ} (hf : f ∈ checkedFlags) {ifi_flags vIfi_flags : ℕ}
    (h : ifi_flags &&& f.2 ≠ vIfi_flags &&& f.2) : flagBit f ifi_flags ≠ flagBit f vIfi_flags := by
  obtain ⟨k, hk⟩ := checkedFlags_two_pow f hf
  unfold flagBit
  rw [hk, Nat.and_two_pow, Nat.and_two_pow] at h ⊢
  have hpos := Nat.two_pow_pos k
  generalize ifi_flags.testBit k = x at h ⊢
  generalize vIfi_flags.testBit k = y at h ⊢
  cases x <;> cases y <;> simp_all

theorem flagValues_cons (b : String × ℕ) (f : Msg) (fs : List Msg) : flagValues b (f :: fs) =
    if f.type = RTM_NEWLINK then flagBit b f.info.ifi_flags :: flagValues b fs
    else flagValues b fs := by
  unfold flagValues
  by_cases ht : f.type = RTM_NEWLINK <;> simp [ht]

/-- The change lines that a pass adds tell the values of the flag in the messages, without those
that repeat the one before. -/
theorem told_seen {b : String × ℕ} (hb : b ∈ checkedFlags) : ∀ (fs : List Msg) (s : Seen),
    ∃ new, told b.1 (fs.foldl Seen.message s).changes = told b.1 s.changes ++ new ∧
      flagBit b s.vIfi_flags :: new =
        (flagValues b fs).destutter' (· ≠ ·) (flagBit b s.vIfi_flags)
  | [], s => ⟨[], (List.append_nil _).symm, rfl⟩
  | f :: fs, s => by
    obtain ⟨new, h1, h2⟩ := told_seen hb fs (s.message f)
    rw [List.foldl_cons, h1, flagValues_cons]
    unfold Seen.message at h2 ⊢
    dsimp only at h2 ⊢
    by_cases ht : f.type = RTM_NEWLINK
    · rw [if_pos ht] at h2
      rw [if_pos ht, if_pos ht]
      have happ : told b.1 (s.changes ++
          checkedFlags.flatMap (check_flag f.info.ifi_flags s.vIfi_flags)) =
            told b.1 s.changes ++
              if f.info.ifi_flags &&& b.2 ≠ s.vIfi_flags &&& b.2 then [flagBit b f.info.ifi_flags]
              else [] := by
        rw [told, List.filterMap_append, ← told_check_flags checkedFlags_names hb]
        rfl
      rw [happ]
      by_cases hne : f.info.ifi_flags &&& b.2 ≠ s.vIfi_flags &&& b.2
      · rw [if_pos hne]
        refine ⟨flagBit b f.info.ifi_flags :: new, by simp, ?_⟩
        rw [List.destutter'_cons_pos _ (flagBit_ne hb hne).symm, ← h2]
      · have heq : flagBit b f.info.ifi_flags = flagBit b s.vIfi_flags := by
          unfold flagBit
          rw [not_not.1 hne]
        rw [heq] at h2 ⊢
        rw [if_neg hne]
        refine ⟨new, by simp, ?_⟩
        rw [List.destutter'_cons_neg _ (by simp), ← h2]
    · rw [if_neg ht] at h2
      rw [if_neg ht, if_neg ht]
      exact ⟨new, rfl, h2⟩

/-! ## A run -/

section Run

variable {g : Globals} {c : Libc} {fuel : ℕ}

/-- Over the first rounds the change lines of a checked flag tell its values in the messages about
a link that were handed over, in their order, without those that repeat the one before; at first
it is taken for cleared. -/
theorem LoopEvent_logs (hf : BUFLEN < fuel) (arrivals : List (Arrival × Mem)) :
    ∃ s, LoopEvent g c fuel (arrivals.map fun a => a.1.round a.2) ⟨0, [], []⟩ = some s ∧
      ∀ f ∈ checkedFlags, 0 :: told f.1 s.out =
        (flagValues f (arrivals.flatMap fun a => a.1.msgs)).destutter' (· ≠ ·) 0 := by
  obtain ⟨s, h1, h2⟩ := LoopEvent_seen (g := g) (c := c) hf arrivals
  refine ⟨s, h1, fun f hf => ?_⟩
  obtain ⟨new, h3, h4⟩ := told_seen hf (arrivals.flatMap fun a => a.1.msgs) ⟨[], 0, []⟩
  have h0 : flagBit f 0 = 0 := by simp [flagBit]
  have hout : told f.1 s.out = new := by
    rw [← told_filter]
    exact (congrArg (fun x => told f.1 x.changes) h2).trans h3
  dsimp only at h4
  rwa [h0, ← hout] at h4

end Run

/-- Interface 3 comes up at the end of a dump. -/
def upDatagram : Datagram := ⟨[.newLink 3 1, .header 3], by decide, by decide⟩

/-- Interface 3 goes down. -/
def downDatagram : Datagram := ⟨[.newLink 3 0], by decide, by decide⟩

theorem upDown_logged : BUFLEN < 4097 ∧
    ∃ s, LoopEvent .empty Libc.bare 4097 [.ready (.ofMsgs upDatagram.msgs) fun _ => 0,
        .ready (.ofMsgs downDatagram.msgs) fun _ => 255] ⟨0, [], []⟩ = some s ∧
      told "IFF_UP" s.out = [1, 0] := by
  refine ⟨by decide, ?_⟩
  obtain ⟨s, h1, h2⟩ := @LoopEvent_logs .empty Libc.bare 4097 (by decide)
    [(.datagram upDatagram, fun _ => 0), (.datagram downDatagram, fun _ => 255)]
  exact ⟨s, h1, (List.cons.inj (h2 ("IFF_UP", IFF_UP) List.mem_cons_self)).2⟩

end NetTool

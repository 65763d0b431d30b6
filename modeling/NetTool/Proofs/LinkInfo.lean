import NetTool.IpLink
import NetTool.Proofs.Netlink

/-!
# What `link_info_receive` answers

The message loop of a datagram leaves at its first message about the wanted link, and otherwise
counts the end marks it met (`link_info_messages`). So one receive ends the loop or leaves it as it
was (`link_info_loop_round`), and the loop answers with the first wanted message of the receives up
to the first that holds an end mark (`link_info_loop_answer`), for any replies at all.
-/

namespace NetTool

open Bytes CInt Frames Loop

variable {fuel : ℕ} {i : ℤ} {m : Mem}

/-- The message at `o` is about link `i`. -/
def wanted (i : ℤ) (m : Mem) (o : ℕ) : Bool :=
  nlmsg_type m o = RTM_NEWLINK ∧ i = (ifinfomsg.at m (NLMSG_DATA o)).ifi_index

def isEnd (m : Mem) (o : ℕ) : Bool := nlmsg_type m o = NLMSG_DONE

/-- What the first message about link `i` in a receive says of it. -/
def linkIn (i : ℤ) (p : ℤ × Mem) : Option ifinfomsg :=
  ((accepted p).find? (wanted i p.2)).map fun o => ifinfomsg.at p.2 (NLMSG_DATA o)

def endIn (p : ℤ × Mem) : Bool := (accepted p).any (isEnd p.2)

/-- What the receives say of link `i`: nothing before an end mark is found, or its `ifinfomsg`, or
that there is none. -/
def answer (i : ℤ) : List (ℤ × Mem) → Option (Option ifinfomsg)
  | [] => none
  | p :: ps =>
    match linkIn i p with
    | some x => some (some x)
    | none => if endIn p then some none else answer i ps

theorem newlink_ne_done : RTM_NEWLINK ≠ NLMSG_DONE := by simp [RTM_NEWLINK, NLMSG_DONE]

theorem link_info_message_of_wanted {o : ℕ} (h : wanted i m o = true) (s : LinkInfo) :
    link_info_message fuel i m o s =
      ({ s with a_pInfomsg := ifinfomsg.at m (NLMSG_DATA o) }, some ()) := by
  simp only [wanted, decide_eq_true_eq] at h
  rw [link_info_message, h.1, if_neg newlink_ne_done, if_pos rfl, if_pos h.2]

theorem link_info_message_of_not_wanted {o : ℕ} (h : wanted i m o = false) (s : LinkInfo) :
    (link_info_message fuel i m o s).2 = none ∧
      (link_info_message fuel i m o s).1.a_pInfomsg = s.a_pInfomsg ∧
      ((link_info_message fuel i m o s).1.end_ = 0 ↔ s.end_ = 0 ∧ isEnd m o = false) := by
  simp only [wanted, decide_eq_false_iff_not, not_and] at h
  have hne' : RTM_GETLINK ≠ NLMSG_DONE := by simp [RTM_GETLINK, NLMSG_DONE]
  unfold link_info_message isEnd
  dsimp only
  split_ifs with h1 h2 h3 h4
  · simp [h1]
  · exact absurd h3 (h h2)
  · simp [h2, newlink_ne_done]
  · simp [h4, hne']
  · simp [h1]

/-- A datagram's messages leave the loop at the first wanted one, and otherwise keep the
`ifinfomsg` and note an end mark. -/
theorem link_info_messages : ∀ (os : List ℕ) (s : LinkInfo),
    match os.find? (wanted i m) with
    | some o => (foldBrk (link_info_message fuel i m) os s).2 = some () ∧
        (foldBrk (link_info_message fuel i m) os s).1.a_pInfomsg = ifinfomsg.at m (NLMSG_DATA o)
    | none => (foldBrk (link_info_message fuel i m) os s).2 = none ∧
        (foldBrk (link_info_message fuel i m) os s).1.a_pInfomsg = s.a_pInfomsg ∧
        ((foldBrk (link_info_message fuel i m) os s).1.end_ = 0 ↔
          s.end_ = 0 ∧ os.any (isEnd m) = false)
  | [], s => by simp [foldBrk]
  | o :: os, s => by
    rw [List.find?_cons, foldBrk]
    rcases hw : wanted i m o
    · obtain ⟨h1, h2, h3⟩ := @link_info_message_of_not_wanted fuel i m o hw s
      rcases hb : link_info_message fuel i m o s with ⟨s1, e⟩
      rw [hb] at h1 h2 h3
      obtain rfl : e = none := h1
      have ih := link_info_messages os s1
      rcases hf : os.find? (wanted i m) with _ | q
      · rw [hf] at ih
        refine ⟨ih.1, ih.2.1.trans h2, ih.2.2.trans ?_⟩
        rw [h3, List.any_cons, Bool.or_eq_false_iff, and_assoc]
      · rwa [hf] at ih
    · rw [link_info_message_of_wanted hw]
      exact ⟨rfl, rfl⟩

theorem link_info_loop_cons (hf : 4096 < fuel) (r : Reply) (rs : List Reply) (buf : Mem)
    (s : LinkInfo) : ∃ out, out.count .recvmsg = s.out.count .recvmsg + 1 ∧
    link_info_loop fuel i (r :: rs) buf s =
      match foldBrk (link_info_message fuel i (recvmsg buf BUFLEN r).2)
        (accepted (recvmsg buf BUFLEN r)) { s with out := out } with
      | (s, some ()) => (some 0, s)
      | (s, none) =>
        if s.end_ = 0 then link_info_loop fuel i rs (recvmsg buf BUFLEN r).2 s
        else (some (-1), s) := by
  have hle := recvmsg_le buf r
  have hint := intLen_recvmsg buf r
  refine ⟨s.out ++ [.recvmsg, .printf "link_info_receive_2 : len = %d \n"
    [.int (recvmsg buf BUFLEN r).1]], by simp, ?_⟩
  rw [link_info_loop]
  rcases hp : recvmsg buf BUFLEN r with ⟨len, m⟩
  rw [hp] at hle hint
  dsimp only
  by_cases h0 : len ≠ 0
  · rw [if_pos h0, nlmsg_walk hint (by omega)]
    unfold accepted
    rcases foldBrk (link_info_message fuel i m) (netlink.offsets m 0 len.toNat) _ with ⟨s, _ | _⟩
    · rfl
    · rfl
  · rw [if_neg h0, accepted_of_nonpos (by omega)]
    rfl

theorem rtnl_print_link_calls (h : ℕ) : (rtnl_print_link fuel m h).count .recvmsg = 0 := by
  unfold rtnl_print_link
  dsimp only
  refine forLoop_invariant (I := fun _ out => out.count Ev.recvmsg = 0)
    (J := fun out => out.count Ev.recvmsg = 0) (fun t out _ h => ?_) ?_ (fun _ _ h => h) fuel _ []
    rfl
  swap
  · exact fun _ _ _ h => h
  dsimp only
  split_ifs
  · simpa using h
  · exact h

theorem link_info_message_calls (o : ℕ) (s : LinkInfo) :
    (link_info_message fuel i m o s).1.out.count .recvmsg = s.out.count .recvmsg := by
  unfold link_info_message
  dsimp only
  split_ifs
  · simp
  · rfl
  · simp [rtnl_print_link_calls]
  · simp [rtnl_print_link_calls]
  · simp

theorem link_info_messages_calls (os : List ℕ) (s : LinkInfo) :
    (foldBrk (link_info_message fuel i m) os s).1.out.count .recvmsg = s.out.count .recvmsg :=
  foldBrk_invariant (I := fun s' => s'.out.count Ev.recvmsg = s.out.count Ev.recvmsg)
    (fun o _ s' h => (link_info_message_calls o s').trans h) rfl

/-- What one receive leads to: it has the wanted link, or only an end mark, or neither, and then
the loop goes on. -/
theorem link_info_loop_round (hf : 4096 < fuel) (r : Reply) (rs : List Reply) (buf : Mem)
    {s : LinkInfo} (hs : s.end_ = 0) :
    ∃ s1 : LinkInfo, s1.out.count .recvmsg = s.out.count .recvmsg + 1 ∧
      ((linkIn i (recvmsg buf BUFLEN r) = some s1.a_pInfomsg ∧
          link_info_loop fuel i (r :: rs) buf s = (some 0, s1)) ∨
        linkIn i (recvmsg buf BUFLEN r) = none ∧ s1.a_pInfomsg = s.a_pInfomsg ∧
          (endIn (recvmsg buf BUFLEN r) = true ∧
              link_info_loop fuel i (r :: rs) buf s = (some (-1), s1) ∨
            endIn (recvmsg buf BUFLEN r) = false ∧ s1.end_ = 0 ∧
              link_info_loop fuel i (r :: rs) buf s =
                link_info_loop fuel i rs (recvmsg buf BUFLEN r).2 s1)) := by
  obtain ⟨out, hout, hc⟩ := link_info_loop_cons (i := i) hf r rs buf s
  rw [hc]
  generalize recvmsg buf BUFLEN r = p
  have hm := @link_info_messages fuel i p.2 (accepted p) { s with out := out }
  have hn := @link_info_messages_calls fuel i p.2 (accepted p) { s with out := out }
  rcases hb : foldBrk (link_info_message fuel i p.2) (accepted p) { s with out := out }
    with ⟨s1, e⟩
  rw [hb] at hm hn
  refine ⟨s1, hn.trans hout, ?_⟩
  unfold linkIn endIn
  rcases hq : (accepted p).find? (wanted i p.2) with _ | q
  · rw [hq] at hm
    obtain ⟨he, hi, hz⟩ := hm
    obtain rfl : e = none := he
    refine .inr ⟨rfl, hi, ?_⟩
    by_cases h0 : s1.end_ = 0
    · exact .inr ⟨(hz.1 h0).2, h0, if_pos h0⟩
    · have hany : (accepted p).any (isEnd p.2) = true := by
        rw [← Bool.not_eq_false]
        exact fun ha => h0 (hz.2 ⟨hs, ha⟩)
      exact .inl ⟨hany, if_neg h0⟩
  · rw [hq] at hm
    obtain ⟨he, hi⟩ := hm
    obtain rfl : e = some () := he
    exact .inl ⟨congrArg some hi.symm, rfl⟩

/-- The receive loop answers what the receives say. -/
theorem link_info_loop_answer (hf : 4096 < fuel) : ∀ (rs : List Reply) (buf : Mem) (s : LinkInfo),
    s.end_ = 0 →
      (link_info_loop fuel i rs buf s).1 = (answer i (receives rs buf)).map
          (fun x => if x = none then -1 else 0) ∧
        (link_info_loop fuel i rs buf s).2.a_pInfomsg =
          ((answer i (receives rs buf)).getD none).getD s.a_pInfomsg
  | [], buf, s, _ => by simp [link_info_loop, receives, answer]
  | r :: rs, buf, s, hs => by
    obtain ⟨s1, -, ⟨hl, hc⟩ | ⟨hl, hi, ⟨he, hc⟩ | ⟨he, h0, hc⟩⟩⟩ :=
      link_info_loop_round (i := i) hf r rs buf hs
    · simp [hc, receives, answer, hl]
    · simp [hc, receives, answer, hl, he, hi]
    · have ih := link_info_loop_answer hf rs (recvmsg buf BUFLEN r).2 s1 h0
      rw [hi] at ih
      simpa only [hc, receives, answer, hl, he, Bool.false_eq_true, if_false] using ih

/-! ## Dumps -/

/-- The message is about link `i`. -/
def Msg.about (i : ℤ) (f : Msg) : Bool := f.type = RTM_NEWLINK ∧ i = f.info.ifi_index

section Datagram

variable {d : List Msg}

theorem linkIn_ofMsgs (hl : (Format.encode d).length ≤ BUFLEN) (buf : Mem)
    (h32 : ∀ f ∈ d, f.type = RTM_NEWLINK → 32 ≤ f.bytes.length) :
    linkIn i (recvmsg buf BUFLEN (.ofMsgs d)) = (d.find? (Msg.about i)).map Msg.info := by
  refine find?_forall₂ (accepted_encode hl buf) (fun o f hf ho => ?_) fun o f hf ho hw => ?_
  · rw [wanted, Msg.about, Reply.ofMsgs, Msg.type_of_holds ho]
    by_cases ht : f.type = RTM_NEWLINK
    · rw [Msg.info_of_holds ho (h32 f hf ht)]
    · simp [ht]
  · simp only [Msg.about, decide_eq_true_eq] at hw
    exact Msg.info_of_holds ho (h32 f hf hw.1)

theorem endIn_ofMsgs (hl : (Format.encode d).length ≤ BUFLEN) (buf : Mem) :
    endIn (recvmsg buf BUFLEN (.ofMsgs d)) = d.any fun f => f.type = NLMSG_DONE :=
  any_forall₂ (accepted_encode hl buf) fun o f ho => by
    rw [isEnd, Reply.ofMsgs, Msg.type_of_holds ho]

end Datagram

/-- The last message of a dump is in a datagram, which it ends, or behind it. -/
theorem dump_cases {d gs fs : List Msg} {done : Msg} (h : d ++ gs = fs ++ [done]) :
    (∃ rest, fs = d ++ rest ∧ gs = rest ++ [done]) ∨ d = fs ++ [done] := by
  rcases List.append_eq_append_iff.1 h with ⟨rest, h1, h2⟩ | ⟨rest, h1, h2⟩
  · exact .inl ⟨rest, h1, h2⟩
  · rcases rest with _ | ⟨g, rest⟩
    · exact .inl ⟨[], by simpa using h1.symm, by simpa using h2.symm⟩
    · have h3 : g :: (rest ++ gs) = [done] := by simpa using h2.symm
      obtain ⟨rfl, h4⟩ := List.cons.inj h3
      rw [List.append_eq_nil_iff.1 h4 |>.1] at h1
      exact .inr h1

theorem answer_dump {done : Msg} (hd : done.type = NLMSG_DONE) (rest : List Reply) :
    ∀ (ds : List (List Msg)) (fs : List Msg) (buf : Mem), ds.flatten = fs ++ [done] →
      (∀ f ∈ fs, f.type ≠ NLMSG_DONE) →
      (∀ f ∈ fs, f.type = RTM_NEWLINK → 32 ≤ f.bytes.length) →
      (∀ d ∈ ds, (Format.encode d).length ≤ BUFLEN) →
      answer i (receives (ds.map .ofMsgs ++ rest) buf) = some ((fs.find? (Msg.about i)).map Msg.info)
  | [], fs, buf, h, _, _, _ => by simp at h
  | d :: ds, fs, buf, h, hne, h32, hl => by
    have hld := hl d List.mem_cons_self
    have hlds : ∀ d ∈ ds, (Format.encode d).length ≤ BUFLEN :=
      fun d hd => hl d (List.mem_cons_of_mem _ hd)
    rw [List.flatten_cons] at h
    rw [List.map_cons, List.cons_append, receives, answer]
    rcases dump_cases h with ⟨gs, rfl, hgs⟩ | rfl
    · have hf := linkIn_ofMsgs (i := i) hld buf fun f hf => h32 f (List.mem_append_left _ hf)
      have ih := answer_dump hd rest ds gs (recvmsg buf BUFLEN (.ofMsgs d)).2 hgs
        (fun f hf => hne f (List.mem_append_right _ hf))
        (fun f hf => h32 f (List.mem_append_right _ hf)) hlds
      have hany : (d.any fun f => f.type = NLMSG_DONE) = false := by
        simpa using fun f hf => hne f (List.mem_append_left _ hf)
      rw [hf, endIn_ofMsgs hld, hany, List.find?_append, ih]
      rcases d.find? (Msg.about i) with _ | f <;> rfl
    · have hf := linkIn_ofMsgs (i := i) hld buf fun f hf ht => by
        rcases List.mem_append.1 hf with hf | hf
        · exact h32 f hf ht
        · rw [List.mem_singleton.1 hf, hd] at ht
          exact absurd ht.symm newlink_ne_done
      have hab : Msg.about i done = false := by
        simp [Msg.about, hd, newlink_ne_done.symm]
      have hany : ((fs ++ [done]).any fun f => f.type = NLMSG_DONE) = true := by
        simp [hd]
      rw [hf, endIn_ofMsgs hld, hany, List.find?_append,
        List.find?_singleton, hab]
      rcases fs.find? (Msg.about i) with _ | f <;> rfl

/-- On every split of a dump `link_info_receive` answers with the first message about the link. -/
theorem link_info_receive_dump (hf : 4096 < fuel) (D : Dump) (S : D.Split) (rest : List Reply)
    (vBuffReply : Mem) (i : ℤ) (a_pInfomsg : ifinfomsg) :
    let r := link_info_receive fuel (S.datagrams.map .ofMsgs ++ rest) vBuffReply i a_pInfomsg
    match D.msgs.find? (Msg.about i) with
    | some f => r.1 = some 0 ∧ r.2.a_pInfomsg = f.info
    | none => r.1 = some (-1) ∧ r.2.a_pInfomsg = a_pInfomsg := by
  have ha := answer_dump (i := i) D.is_end rest S.datagrams D.msgs vBuffReply S.flatten_eq
    D.not_end D.links S.fits
  obtain ⟨h1, h2⟩ := link_info_loop_answer hf (S.datagrams.map .ofMsgs ++ rest) vBuffReply
    ⟨0, a_pInfomsg, []⟩ rfl
  rw [ha] at h1 h2
  rcases hq : D.msgs.find? (Msg.about i) with _ | f
  · rw [hq] at h1 h2
    exact ⟨h1, h2⟩
  · rw [hq] at h1 h2
    exact ⟨h1, h2⟩

/-- A dump of two links. -/
def twoLinks : Dump where
  msgs := [Msg.newLink 2 3, Msg.newLink 4 1]
  done := Msg.header 3
  not_end := by decide
  no_error := by decide
  links := by decide
  is_end := Msg.type_header_done

def twoLinksSplit : twoLinks.Split where
  datagrams := [[Msg.newLink 2 3], [Msg.newLink 4 1, Msg.header 3]]
  flatten_eq := rfl
  fits := by decide

theorem twoLinks_info : 4096 < 4097 ∧
    (link_info_receive 4097 (twoLinksSplit.datagrams.map .ofMsgs ++ []) (fun _ => 255) 4 .zero).1 =
      some 0 ∧
    (link_info_receive 4097 (twoLinksSplit.datagrams.map .ofMsgs ++ []) (fun _ => 255) 4
      .zero).2.a_pInfomsg = (Msg.newLink 4 1).info := by
  have hf : 4096 < 4097 := by omega
  exact ⟨hf, link_info_receive_dump hf twoLinks twoLinksSplit [] (fun _ => 255) 4 .zero⟩

end NetTool

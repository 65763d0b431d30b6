import NetTool.Main
import NetTool.Proofs.AddressFamily
import NetTool.Proofs.EventLoop
import NetTool.Proofs.LinkCalls
import NetTool.Proofs.Senders

/-!
# What the program asks for and what it reports

The calls that wait for an acknowledgement print what the kernel answered, whatever their buffer
held before, unless the receive fails or the answer is cut within its code (`acks_report`). Which
messages a run sends is decided by its command line, and for two commands by whether the device
exists and whether the first request was answered (`nettool_main_asks`).
-/

namespace NetTool

open Bytes CInt Frames Loop

/-! ## Acknowledgements -/

/-- The error message is cut within its code. -/
def CutError (d : List UInt8) : Prop :=
  netlink.Ok (ofList d) 0 d.length ∧ nlmsg_type (ofList d) 0 = NLMSG_ERROR ∧
    nlmsg_len (ofList d) 0 < NLMSG_LENGTH 4

/-- What is to be printed of an answer. -/
def verdict (a : AckLines) (c : Libc) (d : List UInt8) : List Ev :=
  if netlink.Ok (ofList d) 0 d.length ∧ nlmsg_type (ofList d) 0 = NLMSG_ERROR then
    [a.line c (i32 (get32 (ofList d) (NLMSG_DATA 0)))]
  else []

/-- The lines of `nettool_link_up`. -/
def link_up_lines : AckLines where
  success := .printf "nettool_link_up : Success\n" []
  failed := .printf "nettool_link_up : Failed\n" []
  denied := .printf "nettool_link_up : Permission denied\n" []
  other c error := .printf "nettool_link_up : errno=%d %s\n" [.int c.errno, .str (c.strerror error)]

section Acknowledge

variable {a : AckLines} {c : Libc} {sent : Sent} {d : List UInt8} {rest : List Reply} {buf : Mem}

theorem acknowledge_cons (r : Reply) : acknowledge a c sent (r :: rest) buf =
    ⟨some 0, sent.out ++ .recvmsg ::
      if util_parse_nl_msg_OK (util_get_msg buf BUFLEN r).2 (u64 (util_get_msg buf BUFLEN r).1) =
          NLMSG_ERROR then
        [a.line c (i32 (get32 (util_get_msg buf BUFLEN r).2 (NLMSG_DATA 0)))]
      else []⟩ := rfl

theorem acknowledge_datagram (hd : d.length ≤ BUFLEN) (hcut : ¬ CutError d) :
    acknowledge a c sent (.datagram d :: rest) buf =
      ⟨some 0, sent.out ++ .recvmsg :: verdict a c d⟩ := by
  have hof : ∀ x < d.length, overlay d buf x = ofList d x := fun x hx => by
    rw [overlay_of_lt hx, ofList, overlay_of_lt hx]
  have hok := ok_congr hof
  have hh : netlink.hdr = 16 := rfl
  have hmsg : util_get_msg buf BUFLEN (.datagram d) = ((d.length : ℤ), overlay d buf) := by
    rw [util_get_msg, recvmsg, List.take_of_length_le hd]
  rw [acknowledge_cons, hmsg, verdict]
  dsimp only
  rw [parse_of_nonneg (Int.natCast_nonneg _) (by omega), Int.toNat_natCast]
  by_cases hm : netlink.Ok (ofList d) 0 d.length
  · have ht : nlmsg_type (overlay d buf) 0 = nlmsg_type (ofList d) 0 :=
      get16_congr fun x _ hx => hof x (by have := hm.1; omega)
    rw [if_pos (hok.2 hm), ht]
    by_cases he : nlmsg_type (ofList d) 0 = NLMSG_ERROR
    · have hl : NLMSG_LENGTH 4 ≤ nlmsg_len (ofList d) 0 := by
        by_contra hlt
        exact hcut ⟨hm, he, by omega⟩
      have hle := hm.2.2
      rw [netlink_lenAt] at hle
      have hcode : get32 (overlay d buf) (NLMSG_DATA 0) = get32 (ofList d) (NLMSG_DATA 0) :=
        get32_congr fun x _ hx => hof x (by unfold NLMSG_DATA NLMSG_LENGTH at *; omega)
      rw [if_pos he, if_pos ⟨hm, he⟩, hcode]
    · rw [if_neg he, if_neg fun h => he h.2]
  · have h0 : ¬ 0 = NLMSG_ERROR := by simp [NLMSG_ERROR]
    rw [if_neg (mt hok.1 hm), if_neg h0, if_neg fun h => hm h.1]

/-- After a failed receive the calls read what the buffer held before. -/
theorem acknowledge_fail (errno : ℤ) (hl : 16 ≤ nlmsg_len buf 0) :
    acknowledge a c sent (.fail errno :: rest) buf =
      ⟨some 0, sent.out ++ .recvmsg ::
        if nlmsg_type buf 0 = NLMSG_ERROR then [a.line c (i32 (get32 buf (NLMSG_DATA 0)))]
        else []⟩ := by
  have hmsg : util_get_msg buf BUFLEN (.fail errno) = (-1, buf) := rfl
  rw [acknowledge_cons, hmsg, parse_of_fail hl (get32_lt _ _)]

theorem nettool_link_up_eq (replies : List Reply) (stale vBuf : Mem) {a_DeviceName : String}
    (h : i32 (c.if_nametoindex a_DeviceName) ≠ 0) (a_UP : ℤ) :
    nettool_link_up c replies stale vBuf a_DeviceName a_UP =
      acknowledge link_up_lines c (link_up c stale a_UP (i32 (c.if_nametoindex a_DeviceName)))
        replies vBuf := by
  unfold nettool_link_up
  dsimp only
  rw [if_neg h]
  rcases replies with _ | ⟨r, rs⟩ <;> rfl

end Acknowledge

/-- The calls print what the datagram they are answered with says, and nothing of what their
buffers held. -/
theorem acks_report (c : Libc) {d : List UInt8} (hd : d.length ≤ BUFLEN) (hcut : ¬ CutError d)
    (rest : List Reply) (stale buf : Mem) :
    nettool_ip_add c (.datagram d :: rest) stale buf =
        ⟨some 0, (add_ip c stale AF_INET NEW_IP).out ++ .recvmsg :: verdict ip_add_lines c d⟩ ∧
      ip_del c (.datagram d :: rest) stale buf =
        ⟨some 0, (del_ip c stale AF_INET "172.16.10.111").out ++
          .recvmsg :: verdict plain_lines c d⟩ ∧
      gateway_add c (.datagram d :: rest) stale buf =
        ⟨some 0, (add_gateway c stale AF_INET "172.16.0.1").out ++
          .recvmsg :: verdict plain_lines c d⟩ ∧
      gateway_del c (.datagram d :: rest) stale buf =
        ⟨some 0, (del_gateway c stale AF_INET "172.16.0.1").out ++
          .recvmsg :: verdict plain_lines c d⟩ ∧
      ∀ a_DeviceName a_UP, i32 (c.if_nametoindex a_DeviceName) ≠ 0 →
        nettool_link_up c (.datagram d :: rest) stale buf a_DeviceName a_UP =
          ⟨some 0, (link_up c stale a_UP (i32 (c.if_nametoindex a_DeviceName))).out ++
            .recvmsg :: verdict link_up_lines c d⟩ := by
  refine ⟨acknowledge_datagram hd hcut, acknowledge_datagram hd hcut, acknowledge_datagram hd hcut,
    acknowledge_datagram hd hcut, fun a_DeviceName a_UP hdev => ?_⟩
  rw [nettool_link_up_eq _ _ _ hdev]
  exact acknowledge_datagram hd hcut

/-- The acknowledgement of the kernel is reported as a success. -/
theorem ack_reported : ack.length ≤ BUFLEN ∧ ¬ CutError ack ∧
    nettool_ip_add Libc.bare [.datagram ack] (fun _ => 0) (fun _ => 255) =
      ⟨some 0, (add_ip Libc.bare (fun _ => 0) AF_INET NEW_IP).out ++
        [.recvmsg, .printf "ip_add : Success\n" []]⟩ := by
  have hlen : ack.length ≤ BUFLEN := by decide
  have hcut : ¬ CutError ack := fun h => absurd h.2.2 (by decide)
  have hok : netlink.Ok (ofList ack) 0 ack.length ∧ nlmsg_type (ofList ack) 0 = NLMSG_ERROR :=
    ⟨by decide, by decide⟩
  have hv : verdict ip_add_lines Libc.bare ack = [.printf "ip_add : Success\n" []] := by
    rw [verdict, if_pos hok, AckLines.line, if_pos (by decide)]
    rfl
  refine ⟨hlen, hcut, ?_⟩
  rw [(@acks_report Libc.bare ack hlen hcut [] (fun _ => 0) (fun _ => 255)).1, hv]

/-! ## What is sent -/

def Ev.asked : Ev → Option ℕ
  | .sendmsg bytes => some (nlmsg_type (ofList bytes) 0)
  | _ => none

/-- The types of the messages that were sent. -/
def asked (out : List Ev) : List ℕ := out.filterMap Ev.asked

@[simp] theorem asked_nil : asked [] = [] := rfl

@[simp] theorem asked_printf (fmt : String) (args : List Arg) (out : List Ev) :
    asked (.printf fmt args :: out) = asked out := rfl

@[simp] theorem asked_eprintf (fmt : String) (args : List Arg) (out : List Ev) :
    asked (.eprintf fmt args :: out) = asked out := rfl

@[simp] theorem asked_recvmsg (out : List Ev) : asked (.recvmsg :: out) = asked out := rfl

@[simp] theorem asked_append (out out' : List Ev) : asked (out ++ out') = asked out ++ asked out' :=
  List.filterMap_append

theorem asked_flatMap {α : Type*} {f : α → List Ev} (h : ∀ x, asked (f x) = []) (xs : List α) :
    asked (xs.flatMap f) = [] := by
  rw [asked, List.filterMap_flatMap, List.flatMap_eq_nil_iff]
  exact fun x _ => h x

theorem asked_send (c : Libc) {m : Mem} (h : 6 ≤ nlmsg_len m 0) :
    asked (send_message c m).out = [nlmsg_type m 0] := by
  have ht : nlmsg_type (ofList (slice m 0 (nlmsg_len m 0))) 0 = nlmsg_type m 0 := by
    refine get16_congr fun x _ hx => ?_
    rw [ofList, overlay_of_lt (by rw [slice_length]; omega), getElem_slice, Nat.zero_add]
  exact congrArg (fun t => [t]) ht

section Senders

variable (c : Libc) (stale : Mem)

theorem ip_message_type (domain : ℤ) (ip : String) (m : Mem) :
    nlmsg_type (ip_message c domain ip m) 0 = nlmsg_type m 0 := by
  refine get16_congr fun x h4 h6 => ?_
  have h24 := secondAttr_le domain
  unfold ip_message set32
  rw [setBytes_apart (by unfold Apart; rw [length_le32]; omega),
    put_address_below _ _ _ _ _ _ (by omega),
    setBytes_apart (by unfold Apart; rw [length_le32]; omega),
    put_address_below _ _ _ _ _ _ (by omega)]

theorem asked_ip_request {type : ℕ} (ht : type < 65536) (ifa_index : ℕ) (domain : ℤ) (ip : String) :
    asked (ip_request type ifa_index c stale domain ip).out = [type] := by
  have hl : nlmsg_len (ip_message c domain ip (ip_header type ifa_index stale domain)) 0 =
      24 + attrLen domain + attrLen domain :=
    get32_set32 (by rcases attrLen_cases domain with h | h | h <;> omega) _ _
  rw [ip_request_eq c domain ip type ht, asked_send c (by omega), ip_message_type,
    (built_ip_header ht ifa_index stale domain).type]

theorem asked_link_up (a_UP a_IndexDevice : ℤ) :
    asked (link_up c stale a_UP a_IndexDevice).out = [RTM_NEWLINK] := by
  have h0 := built_link_header stale a_UP a_IndexDevice
  rw [link_up_eq]
  generalize link_header stale a_UP a_IndexDevice = m at h0 ⊢
  generalize (if a_UP ≠ 0 then 1 else 0) = v
  have hp : (linkAttr v).payload.length = 4 := length_le32 v
  have hl : nlmsg_len (Built.putStores m 32 (linkAttr v)) 0 =
      32 + (4 + (linkAttr v).payload.length) := get32_set32 (by omega) _ _
  have ht : nlmsg_type (Built.putStores m 32 (linkAttr v)) 0 = RTM_NEWLINK := by
    rw [← h0.type]
    exact get16_congr fun x _ _ => Built.putStores_old (by omega) (by omega)
  rw [asked_send c (by omega), ht]

theorem asked_get_ip (domain : ℕ) : asked (get_ip c stale domain).out = [RTM_GETADDR] := by
  unfold get_ip
  dsimp only
  rw [asked_send, nlmsg_type, get16_setBytes_apart, get16_setBytes_apart, get16_set16]
  · simp [RTM_GETADDR]
  · simp [Apart]
  · simp [Apart, NLMSG_DATA, NLMSG_LENGTH]
  · rw [nlmsg_len, get32_setBytes_apart, get32_setBytes_apart, get32_setBytes_apart, get32_set32]
    all_goals simp [Apart, NLMSG_DATA, NLMSG_LENGTH]

theorem asked_link_info_request : asked (link_info_request c stale).out = [RTM_GETLINK] := by
  unfold link_info_request
  dsimp only
  rw [asked_send, nlmsg_type, get16_setBytes_apart, get16_setBytes_apart, get16_setBytes_apart,
    get16_set16]
  · simp [RTM_GETLINK]
  · simp [Apart]
  · simp [Apart]
  · simp [Apart]
  · rw [nlmsg_len, get32_setBytes_apart, get32_setBytes_apart, get32_setBytes_apart,
      get32_setBytes_apart, get32_set32]
    all_goals simp [Apart, NLMSG_LENGTH]

end Senders

/-- What only prints sends nothing. -/
theorem asked_of_printf {out : List Ev} (h : ∀ e ∈ out, e.isPrintf = true) : asked out = [] := by
  rw [asked, List.filterMap_eq_nil_iff]
  intro e he
  cases e with
  | sendmsg bytes => exact absurd (h _ he) (by simp [Ev.isPrintf])
  | recvmsg => rfl
  | printf fmt args => rfl
  | eprintf fmt args => rfl

section Receivers

variable {g : Globals} {c : Libc} {fuel n : ℕ} {m : Mem} {o : ℕ}

theorem asked_acknowledge (a : AckLines) (sent : Sent) (replies : List Reply) (buf : Mem)
    (ha : ∀ error, asked [a.line c error] = []) :
    asked (acknowledge a c sent replies buf).out = asked sent.out := by
  rcases replies with _ | ⟨r, rs⟩
  · simp [acknowledge]
  · rw [acknowledge_cons]
    split_ifs
    · rw [asked_append, asked_recvmsg, ha, List.append_nil]
    · rw [asked_append, asked_recvmsg, asked_nil, List.append_nil]

theorem asked_show_loop : ∀ (rs : List Reply) (buf : Mem), asked (show_loop rs buf).out = []
  | [], _ => rfl
  | r :: rs, buf => by
    rw [show_loop]
    dsimp only
    split_ifs
    · exact asked_show_loop rs _
    · rfl

theorem asked_print_link : asked (rtnl_print_link fuel m o) = [] := by
  rw [rtnl_print_link_eq]
  refine asked_flatMap (fun p => ?_) _
  unfold print_link_attribute
  split_ifs
  · rfl
  · rfl

theorem asked_info_message (i : ℤ) (s : LinkInfo) :
    asked (link_info_message fuel i m o s).1.out = asked s.out := by
  unfold link_info_message
  dsimp only
  split_ifs
  · simp
  · rfl
  · simp [asked_print_link]
  · simp [asked_print_link]
  · simp

theorem asked_info_loop (i : ℤ) : ∀ (rs : List Reply) (buf : Mem) (s : LinkInfo),
    asked (link_info_loop fuel i rs buf s).2.out = asked s.out
  | [], _, s => by simp [link_info_loop]
  | r :: rs, buf, s => by
    rw [link_info_loop]
    rcases recvmsg buf BUFLEN r with ⟨len, m⟩
    dsimp only
    have hloop : asked (if len ≠ 0 then
        forLoop (fun t => NLMSG_OK m t.1 t.2) (NLMSG_NEXT i32 m)
          (fun t s => link_info_message fuel i m t.1 s) fuel (0, len) { s with
            out := s.out ++ [.recvmsg, .printf "link_info_receive_2 : len = %d \n" [.int len]] }
        else ({ s with
          out := s.out ++ [.recvmsg, .printf "link_info_receive_2 : len = %d \n" [.int len]] },
          .done)).1.out = asked s.out := by
      split_ifs
      · refine forLoop_invariant (I := fun _ (s' : LinkInfo) => asked s'.out = asked s.out)
          (J := fun s' => asked s'.out = asked s.out) (fun t s' _ h => ?_) ?_ (fun _ _ h => h) fuel _ _
          ?_
        · exact (asked_info_message i s').trans h
        · exact fun _ _ _ h => h
        · simp
      · simp
    generalize ite (len ≠ 0) _ _ = q at hloop ⊢
    rcases q with ⟨s1, _ | _ | _⟩
    · exact hloop
    · dsimp only
      split_ifs
      · exact (asked_info_loop i rs m s1).trans hloop
      · exact hloop
    · exact hloop

theorem asked_newlink (vIfi_flags : ℕ) : asked (RTM_NEWLINK_Check g c n vIfi_flags m o).2 = [] := by
  rw [RTM_NEWLINK_Check_eq, newlink_lines]
  have h1 := asked_flatMap (f := newlink_attribute g c (ifinfomsg.at m (NLMSG_DATA o)).ifi_family m)
    (fun p => by unfold newlink_attribute; dsimp only; split_ifs <;> rfl) (newlink_walk n m o).1
  have h2 := asked_flatMap (f := check_flag (ifinfomsg.at m (NLMSG_DATA o)).ifi_flags vIfi_flags)
    (fun f => by unfold check_flag; split_ifs <;> rfl) checkedFlags
  simp only [asked_append, h1, h2]
  rfl

theorem Handler.run_asked (h : Handler) (s : Watch) :
    asked (h.run g c n m o s).out = asked s.out := by
  cases h with
  | newaddr =>
    have hq := asked_of_printf fun e he => (RTM_NEWADDR_Check_plain (g := g) (c := c) (n := n)
      (m := m) (o := o) e he).1
    simp [Handler.run, hq]
  | newlink => simp [Handler.run, asked_newlink]
  | deladdr => simp [Handler.run]
  | getaddr => simp [Handler.run]
  | dellink => simp [Handler.run]
  | getlink => simp [Handler.run]
  | setlink => simp [Handler.run]
  | other => simp [Handler.run]

theorem asked_event_message (s : Watch) :
    asked (event_message g c n m o s).1.out = asked s.out := by
  unfold event_message
  dsimp only
  split_ifs
  · simp
  · simp
  · simp [Handler.run_asked]

theorem asked_read_event (r : Reply) (vBuf : Mem) (s : Watch) :
    asked (read_event g c fuel r vBuf s).2.out = asked s.out := by
  have hloop : ∀ (m : Mem) (t : ℕ × ℤ) (s0 : Watch), asked (forLoop
      (fun t => NLMSG_OK m t.1 (u32 t.2)) (NLMSG_NEXT i32 m)
      (fun t s => event_message g c fuel m t.1 s) fuel t s0).1.out = asked s0.out := by
    intro m t s0
    refine forLoop_invariant (I := fun _ (s' : Watch) => asked s'.out = asked s0.out)
      (J := fun s' => asked s'.out = asked s0.out) (fun t s' _ h => ?_) ?_ (fun _ _ h => h) fuel t s0 rfl
    · exact (asked_event_message s').trans h
    · exact fun _ _ _ h => h
  rcases r with errno | d
  · unfold read_event recvmsg
    dsimp only
    split_ifs <;> simp
  · unfold read_event recvmsg
    dsimp only
    generalize hq : forLoop _ _ _ _ _ _ = q
    have hout := (congrArg (fun q => asked q.1.out) hq).symm.trans (hloop _ _ _)
    have hs : asked q.1.out = asked s.out := hout.trans (by split_ifs <;> simp)
    rcases q with ⟨s1, _ | _ | _⟩
    · exact hs
    · simpa using hs
    · exact hs

theorem asked_LoopEvent_round {s s' : Watch} (x : Round)
    (h : LoopEvent_round g c fuel s x = some s') : asked s'.out = asked s.out := by
  cases x with
  | error =>
    obtain rfl := Option.some.inj h
    simp
  | timedOut =>
    obtain rfl := Option.some.inj h
    rfl
  | ready r vBuf =>
    have hr := @asked_read_event g c fuel r vBuf s
    unfold LoopEvent_round at h
    dsimp only at h
    rcases hq : read_event g c fuel r vBuf s with ⟨_ | v, s1⟩
    · rw [hq] at h
      cases h
    · rw [hq] at h hr
      obtain rfl := Option.some.inj h
      exact hr

theorem asked_LoopEvent : ∀ (rounds : List Round) (s s' : Watch),
    LoopEvent g c fuel rounds s = some s' → asked s'.out = asked s.out
  | [], s, s', h => by
    obtain rfl := Option.some.inj h
    rfl
  | x :: rounds, s, s', h => by
    rw [LoopEvent, List.foldlM_cons] at h
    obtain ⟨s1, h1, h2⟩ := Option.bind_eq_some_iff.1 h
    exact (asked_LoopEvent rounds s1 s' h2).trans (asked_LoopEvent_round x h1)

end Receivers

/-! ## The command line -/

/-- What `ip_link` asks for: nothing without a device. -/
def linkRequests (w : World) : List String → List ℕ
  | [_, arg, a_DeviceName] =>
    if i32 (w.c.if_nametoindex a_DeviceName) = 0 then []
    else if arg = ARG_LINK_UP ∨ arg = ARG_LINK_DOWN then [RTM_NEWLINK]
    else if arg = ARG_LINK_INFO then [RTM_GETLINK]
    else []
  | _ => []

/-- What a command line asks for: `all` asks for the addresses once the first request was
answered. -/
def requests (w : World) (argv : List String) : List ℕ :=
  match argv with
  | _ :: arg :: _ =>
    if ¬ w.opened ∨ ¬ w.bound ∨ arg = "evloop" then []
    else if arg = "all" then RTM_NEWADDR :: if w.replies = [] then [] else [RTM_GETADDR]
    else if arg = "add" ∨ arg = "" then [RTM_NEWADDR]
    else if arg = "show" then [RTM_GETADDR]
    else linkRequests w argv
  | _ => []

section CommandLine

variable {c : Libc} {fuel : ℕ} {replies : List Reply} {stale vBuffReply buf : Mem}
  {a_DeviceName : String}

theorem asked_andThen {α β : Type} (o : Outcome α) (o' : Outcome β) :
    asked (o.andThen o').out = asked o.out ++ if o.ret.isSome then asked o'.out else [] := by
  unfold Outcome.andThen
  rcases o with ⟨_ | v, out⟩ <;> simp

theorem asked_usage (argv : List String) : asked (PrintUsage argv) = [] := rfl

theorem asked_ip_add : asked (nettool_ip_add c replies stale buf).out = [RTM_NEWADDR] :=
  (asked_acknowledge _ _ _ _ fun error => by
    unfold AckLines.line ip_add_lines
    split_ifs <;> rfl).trans
    (asked_ip_request c stale (by simp [RTM_NEWADDR]) 3 _ _)

theorem asked_nettool_link_up (a_UP : ℤ) :
    asked (nettool_link_up c replies stale buf a_DeviceName a_UP).out =
      if i32 (c.if_nametoindex a_DeviceName) = 0 then [] else [RTM_NEWLINK] := by
  by_cases h : i32 (c.if_nametoindex a_DeviceName) = 0
  · rw [if_pos h, nettool_link_up]
    dsimp only
    rw [if_pos h]
    rfl
  · rw [if_neg h, nettool_link_up_eq _ _ _ h]
    refine (asked_acknowledge _ _ _ _ fun error => ?_).trans (asked_link_up c stale _ _)
    unfold AckLines.line link_up_lines
    split_ifs <;> rfl

theorem asked_print_ack (m : Mem) : asked [print_ack c m] = [] := by
  unfold print_ack
  dsimp only
  split_ifs <;> rfl

theorem asked_flags (a_Flags : ℕ) : asked (PrintMessageFlag a_Flags) = [] :=
  asked_of_printf fun e he => by
    obtain ⟨f, -, rfl⟩ := List.mem_map.1 he
    rfl

theorem asked_link_info (a_Ifinfomsg : ifinfomsg) :
    asked (nettool_link_info c fuel replies stale vBuffReply buf a_DeviceName a_Ifinfomsg).1.out =
      if i32 (c.if_nametoindex a_DeviceName) = 0 then [] else [RTM_GETLINK] := by
  by_cases h : i32 (c.if_nametoindex a_DeviceName) = 0
  · rw [if_pos h, nettool_link_info]
    dsimp only
    rw [if_pos h]
    rfl
  · rw [if_neg h, nettool_link_info]
    dsimp only
    rw [if_neg h]
    have hs := @asked_info_loop fuel (i32 (c.if_nametoindex a_DeviceName)) replies vBuffReply
      ⟨0, a_Ifinfomsg, []⟩
    unfold link_info_receive
    rcases hq : link_info_loop fuel (i32 (c.if_nametoindex a_DeviceName)) replies vBuffReply
      ⟨0, a_Ifinfomsg, []⟩ with ⟨_ | v, s⟩
    · rw [hq] at hs
      dsimp only at hs ⊢
      rw [asked_append, asked_link_info_request, hs]
      rfl
    · rw [hq] at hs
      dsimp only at hs ⊢
      rw [asked_append, asked_append, asked_link_info_request, hs]
      split_ifs
      · rw [asked_print_ack]
        rfl
      · rfl

theorem asked_ip_link_Info :
    asked (ip_link_Info c fuel replies stale vBuffReply buf a_DeviceName).out =
      if i32 (c.if_nametoindex a_DeviceName) = 0 then [] else [RTM_GETLINK] := by
  rw [← @asked_link_info c fuel replies stale vBuffReply buf a_DeviceName .zero]
  unfold ip_link_Info
  dsimp only
  split_ifs
  · rw [asked_append, asked_flags, List.append_nil]
  · rfl

theorem asked_ip_show : asked (nettool_ip_show c replies stale buf).out = [RTM_GETADDR] := by
  rw [nettool_ip_show]
  dsimp only
  rw [asked_append, asked_get_ip, asked_show_loop]
  rfl

theorem asked_ip_link (w : World) (argv : List String) :
    asked (ip_link w argv).out = linkRequests w argv := by
  rcases argv with _ | ⟨prog, _ | ⟨arg, _ | ⟨a_DeviceName, _ | ⟨x, rest⟩⟩⟩⟩
  · rfl
  · rfl
  · rfl
  · rw [ip_link, linkRequests]
    by_cases hup : arg = ARG_LINK_UP
    · have hor : arg = ARG_LINK_UP ∨ arg = ARG_LINK_DOWN := .inl hup
      rw [if_pos hup, asked_nettool_link_up, if_pos hor]
    by_cases hdown : arg = ARG_LINK_DOWN
    · have hor : arg = ARG_LINK_UP ∨ arg = ARG_LINK_DOWN := .inr hdown
      rw [if_neg hup, if_pos hdown, asked_nettool_link_up, if_pos hor]
    rw [if_neg hup, if_neg hdown, if_neg (not_or.2 ⟨hup, hdown⟩)]
    by_cases hinfo : arg = ARG_LINK_INFO
    · rw [if_pos hinfo, asked_ip_link_Info, if_pos hinfo]
    · rw [if_neg hinfo, if_neg hinfo, ite_self]
      exact asked_usage _
  · rfl

theorem acknowledge_ret (a : AckLines) (sent : Sent) :
    (acknowledge a c sent replies buf).ret.isSome = ! replies.isEmpty := by
  rcases replies with _ | ⟨r, rs⟩ <;> rfl

theorem asked_net_event_show (w : World) : asked (net_event_show w).out =
    RTM_NEWADDR :: if w.replies = [] then [] else [RTM_GETADDR] := by
  unfold net_event_show
  rw [asked_andThen, asked_ip_add, asked_ip_show, nettool_ip_add, acknowledge_ret]
  rcases w.replies with _ | ⟨r, rs⟩ <;> rfl

theorem SetArrays_isSome {PF_MAX : ℕ} (h : 41 ≤ PF_MAX) (g : Globals) :
    ∃ g', SetArrays PF_MAX g = some g' := by
  have hlen : (addressFamilies PF_MAX).length ≤ ARRAY_ADDRESS_FAMILY_MAX PF_MAX :=
    Nat.add_le_add_right h 3
  have hname : ∀ item ∈ addressFamilies PF_MAX, item.2.utf8ByteSize < 100 := by
    simp only [addressFamilies, List.forall_mem_cons]
    decide
  unfold SetArrays setArrayAddressFamily
  rw [setItems_zeroed hlen hname]
  exact ⟨_, rfl⟩

/-- What a run comes to that is no event loop. -/
theorem andThen_zero (o : Outcome ℤ) : asked (o.andThen (⟨some 0, []⟩ : Outcome ℤ)).out =
    asked o.out ∧ ∀ v, (o.andThen (⟨some 0, []⟩ : Outcome ℤ)).ret = some v → v = 0 := by
  rw [asked_andThen]
  rcases o with ⟨_ | v, out⟩
  · exact ⟨by simp, fun v h => (by cases h)⟩
  · exact ⟨by simp, fun v h => (Option.some.inj h).symm⟩

end CommandLine

theorem requests_mem (w : World) (argv : List String) :
    ∀ t ∈ requests w argv, t ∈ [RTM_NEWLINK, RTM_GETLINK, RTM_NEWADDR, RTM_GETADDR] := by
  have hlink : ∀ t ∈ linkRequests w argv,
      t ∈ [RTM_NEWLINK, RTM_GETLINK, RTM_NEWADDR, RTM_GETADDR] := by
    unfold linkRequests
    split
    · split_ifs <;> simp
    · simp
  unfold requests
  split
  · split_ifs
    · simp
    · simp
    · simp
    · simp
    · simp
    · exact hlink
  · simp

theorem util_OpenSocket_cases (w : World) :
    (util_OpenSocket w = none ∧ w.opened ∧ w.bound) ∨
      ∃ out, util_OpenSocket w = some out ∧ asked out = [] ∧ (¬ w.opened ∨ ¬ w.bound) := by
  unfold util_OpenSocket
  by_cases ho : w.opened = true
  · by_cases hb : w.bound = true
    · rw [if_neg (not_not.2 ho), if_neg (not_not.2 hb)]
      exact .inl ⟨rfl, ho, hb⟩
    · rw [if_neg (not_not.2 ho), if_pos hb]
      exact .inr ⟨_, rfl, rfl, .inr hb⟩
  · rw [if_pos ho]
    exact .inr ⟨_, rfl, rfl, .inl ho⟩

/-- Commands that do not begin with an `l` are none of `ip_link`. -/
theorem linkRequests_other (w : World) (prog : String) {arg : String} (rest : List String)
    (h : arg.toList.head? ≠ some 'l') : linkRequests w (prog :: arg :: rest) = [] := by
  have hne : arg ≠ ARG_LINK_UP ∧ arg ≠ ARG_LINK_DOWN ∧ arg ≠ ARG_LINK_INFO := by
    refine ⟨?_, ?_, ?_⟩ <;> rintro rfl <;> exact h (by decide)
  rcases rest with _ | ⟨a_DeviceName, _ | ⟨x, rest⟩⟩
  · rfl
  · rw [linkRequests, if_neg (not_or.2 ⟨hne.1, hne.2.1⟩), if_neg hne.2.2, ite_self]
  · rfl

/-- A run whose tables are filled comes to what its command asks for, if its event loop does. -/
theorem nettool_main_run {w : World} {g : Globals} (hg : SetArrays w.PF_MAX w.g = some g)
    {argv : List String} (hloop : argv[1]? = some "evloop" → util_OpenSocket w = none →
      ∃ s, LoopEvent g w.c w.fuel w.rounds ⟨0, [], []⟩ = some s) :
    ∃ o, nettool_main w argv = some o ∧ asked o.out = requests w argv ∧
      ∀ v, o.ret = some v → v = if argv.length < 2 ∨ (w.opened ∧ w.bound) then 0 else 1 := by
  unfold nettool_main
  rw [hg, Option.bind_some]
  rcases argv with _ | ⟨prog, _ | ⟨arg, rest⟩⟩
  · exact ⟨_, rfl, asked_usage _, fun v h => by simpa using h.symm⟩
  · exact ⟨_, rfl, asked_usage _, fun v h => by simpa using h.symm⟩
  dsimp only
  rcases util_OpenSocket_cases w with ⟨hs, ho, hb⟩ | ⟨out, hs, hout, hfail⟩
  · have hloop := fun h => hloop h hs
    rw [hs]
    have hsock : ¬ (¬ w.opened ∨ ¬ w.bound ∨ arg = "evloop") ↔ arg ≠ "evloop" := by simp [ho, hb]
    have hzero : (if (prog :: arg :: rest).length < 2 ∨ (w.opened ∧ w.bound) then (0 : ℤ) else 1) = 0 :=
      if_pos (.inr ⟨ho, hb⟩)
    rw [hzero]
    dsimp only
    by_cases hev : arg = "evloop"
    · obtain ⟨s, h1⟩ := hloop (by rw [hev]; rfl)
      rw [if_pos hev, h1, requests]
      refine ⟨_, rfl, ?_, fun v h => (by cases h)⟩
      rw [if_pos (.inr (.inr hev))]
      exact (asked_LoopEvent _ _ _ h1).trans rfl
    rw [if_neg hev, requests, if_neg (hsock.2 hev)]
    refine ⟨_, rfl, ?_⟩
    by_cases hall : arg = "all"
    · obtain ⟨h1, h2⟩ := andThen_zero (net_event_show w)
      rw [if_pos hall, if_pos hall, h1]
      exact ⟨asked_net_event_show w, h2⟩
    rw [if_neg hall, if_neg hall]
    by_cases hl : arg.toList.head? = some 'l'
    · obtain ⟨h1, h2⟩ := andThen_zero (ip_link w (prog :: arg :: rest))
      have hadd : ¬ (arg = "add" ∨ arg = "") := by
        rintro (rfl | rfl) <;> exact absurd hl (by decide)
      have hshow : ¬ arg = "show" := by
        rintro rfl
        exact absurd hl (by decide)
      rw [if_pos hl, if_neg hadd, if_neg hshow, h1]
      exact ⟨asked_ip_link w _, h2⟩
    rw [if_neg hl]
    by_cases hshow : arg = "show"
    · obtain ⟨h1, h2⟩ := andThen_zero (nettool_ip_show w.c w.replies w.stale w.buf)
      have hadd : ¬ (arg = "add" ∨ arg = "") := by
        rw [hshow]
        decide
      rw [if_pos hshow, if_neg hadd, if_pos hshow, h1]
      exact ⟨asked_ip_show, h2⟩
    rw [if_neg hshow]
    obtain ⟨h1, h2⟩ := andThen_zero (nettool_ip_add w.c w.replies w.stale w.buf)
    by_cases hadd : arg = "add"
    · rw [if_pos hadd, if_pos (.inl hadd), h1]
      exact ⟨asked_ip_add, h2⟩
    by_cases hempty : arg = ""
    · rw [if_neg hadd, if_pos hempty, if_pos (.inr hempty), h1]
      exact ⟨asked_ip_add, h2⟩
    · rw [if_neg hadd, if_neg hempty, if_neg (not_or.2 ⟨hadd, hempty⟩), if_neg hshow,
        linkRequests_other w prog rest hl]
      exact ⟨asked_usage _, fun v h => (Option.some.inj h).symm⟩
  · rw [hs]
    refine ⟨_, rfl, ?_, fun v h => ?_⟩
    · have hno : ¬ w.opened ∨ ¬ w.bound ∨ arg = "evloop" := hfail.imp_right .inl
      rw [hout, requests, if_pos hno]
    · have hno : ¬ ((prog :: arg :: rest).length < 2 ∨ (w.opened ∧ w.bound)) := by
        rintro (hlt | ⟨ho, hb⟩)
        · rw [List.length_cons, List.length_cons] at hlt
          omega
        · exact hfail.elim (fun h => h ho) fun h => h hb
      rw [if_neg hno]
      exact (Option.some.inj h).symm

/-- An event loop that was run came to an end of its rounds. -/
theorem evloop_of_main {w : World} {g : Globals} (hg : SetArrays w.PF_MAX w.g = some g)
    {argv : List String} {o : Outcome ℤ} (h : nettool_main w argv = some o)
    (hev : argv[1]? = some "evloop") (hs : util_OpenSocket w = none) :
    ∃ s, LoopEvent g w.c w.fuel w.rounds ⟨0, [], []⟩ = some s := by
  rcases argv with _ | ⟨prog, _ | ⟨arg, rest⟩⟩
  · cases hev
  · cases hev
  obtain rfl : arg = "evloop" := Option.some.inj hev
  rw [nettool_main, hg, Option.bind_some] at h
  dsimp only at h
  rw [hs] at h
  dsimp only at h
  rw [if_pos rfl] at h
  obtain ⟨s, hl, -⟩ := Option.map_eq_some_iff.1 h
  exact ⟨s, hl⟩

/-- A run sends what its command line asks for and nothing else, so it never deletes an address and
never touches a route; its exit code tells whether there was a socket, and nothing of what the
kernel answered. Every run comes to this where the event loop's datagrams are complete. -/
theorem nettool_main_asks (w : World) (argv : List String) :
    (∀ o, nettool_main w argv = some o → asked o.out = requests w argv ∧
      (∀ t ∈ asked o.out, t ≠ RTM_DELADDR ∧ t ≠ RTM_NEWROUTE ∧ t ≠ RTM_DELROUTE) ∧
      ∀ v, o.ret = some v → v = if argv.length < 2 ∨ (w.opened ∧ w.bound) then 0 else 1) ∧
    (41 ≤ w.PF_MAX → (argv[1]? = some "evloop" → BUFLEN < w.fuel ∧
      ∃ arrivals : List (Arrival × Mem), w.rounds = arrivals.map fun a => a.1.round a.2) →
        ∃ o, nettool_main w argv = some o) := by
  refine ⟨fun o h => ?_, fun hPF hloop => ?_⟩
  · obtain ⟨g, hg, -⟩ := Option.bind_eq_some_iff.1 h
    obtain ⟨o', h1, h2, h3⟩ := nettool_main_run hg (evloop_of_main hg h)
    obtain rfl : o = o' := Option.some.inj (h.symm.trans h1)
    refine ⟨h2, fun t ht => ?_, h3⟩
    rw [h2] at ht
    have hmem := requests_mem w argv t ht
    simp only [List.mem_cons, List.not_mem_nil, or_false] at hmem
    rcases hmem with rfl | rfl | rfl | rfl <;> decide
  · obtain ⟨g, hg⟩ := SetArrays_isSome hPF w.g
    have hends : argv[1]? = some "evloop" → util_OpenSocket w = none →
        ∃ s, LoopEvent g w.c w.fuel w.rounds ⟨0, [], []⟩ = some s := by
      intro hev _
      obtain ⟨hf, arrivals, har⟩ := hloop hev
      obtain ⟨s, h1, -⟩ := LoopEvent_seen (g := g) (c := w.c) hf arrivals
      exact ⟨s, har ▸ h1⟩
    obtain ⟨o, h1, -⟩ := nettool_main_run hg hends
    exact ⟨o, h1⟩

/-- A machine on which the kernel acknowledges the first request. -/
def acking : World where
  PF_MAX := 45
  g := .empty
  c := Libc.bare
  fuel := 4097
  opened := true
  bound := true
  replies := [.datagram ack]
  replies' := [.ofMsgs [.header 3]]
  rounds := [.timedOut, .ready (.ofMsgs upDatagram.msgs) fun _ => 0]
  stale := fun _ => 0
  vBuffReply := fun _ => 0
  buf := fun _ => 255

theorem all_asks : (∃ o, nettool_main acking ["nettool", "all"] = some o ∧
      asked o.out = [RTM_NEWADDR, RTM_GETADDR]) ∧
    ∃ o, nettool_main acking ["nettool", "evloop"] = some o ∧ asked o.out = [] := by
  obtain ⟨h1, h2⟩ := nettool_main_asks acking ["nettool", "all"]
  obtain ⟨h3, h4⟩ := nettool_main_asks acking ["nettool", "evloop"]
  obtain ⟨o, ho⟩ := h2 (by decide) fun h => absurd h (by decide)
  obtain ⟨o', ho'⟩ := h4 (by decide) fun _ =>
    ⟨by decide, [(.timedOut, fun _ => 0), (.datagram upDatagram, fun _ => 0)], rfl⟩
  exact ⟨⟨o, ho, (h1 o ho).1⟩, o', ho', (h3 o' ho').1⟩

end NetTool

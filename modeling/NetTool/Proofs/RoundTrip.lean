import NetTool.Main
import NetTool.Proofs.EventLoop
import NetTool.Proofs.IfaceWatch
import NetTool.Proofs.LinkInfo
import NetTool.Proofs.Records
import NetTool.Proofs.Request

/-!
# Reading back what was sent

A finished request is a complete message (`Built.message`), so the readers can be given what the
encoders send. They read out of it what was put in: the address with its prefix and its interface,
the gateway, and the flags of a link.
-/

namespace NetTool

open Bytes CInt Frames Loop

/-! ## Requests as messages -/

theorem length_encode_attrs : ∀ as : List Attr,
    (Format.encode (as.map Attr.frame)).length % 4 = 0
  | [] => rfl
  | a :: as => by
    have ih := length_encode_attrs as
    have ha := a.aligned
    have hp : rtattr.pad a.frame.bytes.length = (a.frame.bytes.length + 3) / 4 * 4 := rfl
    rw [List.map_cons, Format.length_encode_cons, hp, Attr.length_bytes]
    omega

theorem Attr.type_frame (a : Attr) : Rta.type a.frame = a.type := by
  have h : Format.Holds (ofList a.frame.bytes) 0 a.frame := slice_overlay _ _
  rw [← Rta.type_of_holds h, Attr.type_of_holds h]

theorem Attr.payload_frame (a : Attr) : Rta.payload a.frame = a.payload := rfl

section Message

variable {hdr type family : ℕ} {stale m : Mem} {as : List Attr}

/-- A finished request is a complete message without padding, with its attributes behind the
header. -/
theorem Built.message (h : Built hdr type family stale m as) (hfit : nlmsg_len m 0 ≤ BUFLEN) :
    ∃ f : Msg, f.bytes = slice m 0 (nlmsg_len m 0) ∧ f.padding = [] ∧
      f.bytes.length = hdr + (Format.encode (as.map Attr.frame)).length ∧ f.type = type ∧
      f.bytes.drop hdr = Format.encode (as.map Attr.frame) ∧ Format.Holds m 0 f := by
  have hb : BUFLEN = 4096 := rfl
  have h17 := h.hdr_le
  have hlen := h.len
  have h4 := length_encode_attrs as
  have hal := h.aligned
  have hp : netlink.pad (nlmsg_len m 0) = (nlmsg_len m 0 + 3) / 4 * 4 := rfl
  have hhdr : netlink.hdr = 16 := rfl
  have hl : (slice m 0 (nlmsg_len m 0)).length = nlmsg_len m 0 := slice_length _
  have hs : slice m 0 (slice m 0 (nlmsg_len m 0)).length = slice m 0 (nlmsg_len m 0) := by rw [hl]
  have hget : netlink.len (ofList (slice m 0 (nlmsg_len m 0))) = nlmsg_len m 0 :=
    (get32_of_slice hs (a := 0) (by omega)).symm
  have hdrop : (slice m 0 (nlmsg_len m 0)).drop hdr = Format.encode (as.map Attr.frame) := by
    rw [hlen, slice_append, List.drop_left' (slice_length hdr), Nat.zero_add, h.attrs]
  have hf : Format.Holds m 0 (⟨slice m 0 (nlmsg_len m 0), [], by omega, by rw [hget, hl],
      by rw [hl, List.length_nil]; omega⟩ : Msg) := hs
  exact ⟨_, rfl, rfl, hl.trans hlen, (Msg.type_of_holds hf).symm.trans h.type, hdrop, hf⟩

theorem encode_single {f : Msg} (h : f.padding = []) : Format.encode [f] = f.bytes := by
  simp [Format.encode, h]

end Message

/-! ## Addresses -/

theorem ifaddrmsg_congr {m m' : Mem} {o : ℕ} (h : ∀ a, o ≤ a → a < o + 8 → m a = m' a) :
    ifaddrmsg.at m o = ifaddrmsg.at m' o := by
  have hindex : get32 m (o + 4) = get32 m' (o + 4) :=
    get32_congr fun a h1 h2 => h a (by omega) (by omega)
  simp only [ifaddrmsg.at, get8, h o (by omega) (by omega), h (o + 1) (by omega) (by omega),
    h (o + 2) (by omega) (by omega), h (o + 3) (by omega) (by omega), hindex]

theorem ip_header_ifa {type : ℕ} (ht : type < 65536) {ifa_index : ℕ} (hi : ifa_index < 2 ^ 32)
    (stale : Mem) (domain : ℤ) : ifaddrmsg.at (ip_header type ifa_index stale domain) (NLMSG_DATA 0) =
      ⟨u32 domain % 256, 16, IFA_F_PERMANENT, 0, ifa_index⟩ := by
  have hfam := (built_ip_header ht ifa_index stale domain).family
  have hindex : get32 (ip_header type ifa_index stale domain) (NLMSG_DATA 0 + 4) = ifa_index :=
    get32_set32 hi _ _
  rw [ifaddrmsg.at, hfam, hindex]
  rfl

section Address

variable {c : Libc} {domain : ℤ} {ip : String} {addr : List UInt8}
  (h : c.inet_pton domain ip = some addr)

/-- The two attributes of an address request. -/
def requestAttrs : List Rta :=
  [(addressAttr IFA_LOCAL (address_type_lt (.inl rfl)) h).frame,
    (addressAttr IFA_ADDRESS (address_type_lt (.inr (.inl rfl))) h).frame]

theorem requestAttrs_types : (requestAttrs h).map Rta.type = [IFA_LOCAL, IFA_ADDRESS] := by
  simp only [requestAttrs, List.map_cons, List.map_nil, Attr.type_frame]
  rfl

theorem requestAttrs_payload : ∀ a ∈ requestAttrs h, Rta.payload a = addr := by
  intro a ha
  simp only [requestAttrs, List.mem_cons, List.not_mem_nil, or_false] at ha
  rcases ha with rfl | rfl <;> rfl

include h in
theorem family_of_inet_pton : (domain.toNat = AF_INET ∨ domain.toNat = AF_INET6) ∧
    addr.length = addrSize domain.toNat ∧ (domain = AF_INET ↔ domain.toNat = AF_INET) := by
  rcases inet_pton_length h with ⟨rfl, hl⟩ | ⟨rfl, hl⟩
  · exact ⟨.inl rfl, hl, by simp⟩
  · exact ⟨.inr rfl, hl, by simp [AF_INET, AF_INET6]⟩

/-- An address request is a message of its type about its device, with the address twice. -/
theorem ip_request_record {type : ℕ} (ht : type < 65536) {ifa_index : ℕ} (hi : ifa_index < 2 ^ 32)
    (stale : Mem) : ∃ x : AddrRecord,
      (ip_request type ifa_index c stale domain ip).out = [.sendmsg x.msg.bytes] ∧
        x.msg.padding = [] ∧ x.msg.bytes.length ≤ BUFLEN ∧ x.msg.type = type ∧
        x.msg.ifa = ⟨domain.toNat, 16, IFA_F_PERMANENT, 0, ifa_index⟩ ∧
        x.attrs = requestAttrs h := by
  obtain ⟨m, he, hb, hfit, hkeep⟩ := ip_request_built ht ifa_index stale h
  obtain ⟨f, h1, h2, h3, h4, h5, h6⟩ := hb.message hfit
  have hlong : NLMSG_LENGTH 8 ≤ f.bytes.length := by
    rw [h3]
    unfold NLMSG_LENGTH
    omega
  have hifa : f.ifa = ⟨domain.toNat, 16, IFA_F_PERMANENT, 0, ifa_index⟩ := by
    rw [← Msg.ifa_of_holds h6 hlong, ifaddrmsg_congr fun a ha hb => hkeep a
      (by unfold NLMSG_DATA NLMSG_LENGTH at ha; omega)
      (by unfold NLMSG_DATA NLMSG_LENGTH at hb; omega),
      ip_header_ifa ht hi, family_byte h]
  have hfam : get8 (ofList f.bytes) (NLMSG_DATA 0) = domain.toNat :=
    congrArg ifaddrmsg.ifa_family hifa
  have hlen : f.bytes.length = nlmsg_len m 0 := by rw [h1, slice_length]
  refine ⟨⟨f, requestAttrs h, hlong, h5, ?_⟩, ?_, h2, by rwa [hlen], h4, hifa, rfl⟩
  · obtain ⟨hf, hl, -⟩ := family_of_inet_pton h
    rw [hfam]
    exact ⟨hf, fun a ha _ => (congrArg List.length (requestAttrs_payload h a ha)).trans hl⟩
  · rw [he]
    exact congrArg (fun b => [Ev.sendmsg b]) h1.symm

theorem requestAttrs_lines : (requestAttrs h).flatMap (addressLines c ifaFormats) =
    [.printf "%-15s  " [.str (c.ntop addr)], .printf "%-15s  " [.str (c.ntop addr)]] := by
  simp [requestAttrs, addressLines, ifaFormats, Attr.type_frame, Attr.payload_frame, addressAttr,
    IFA_LOCAL, IFA_ADDRESS, IFA_BROADCAST]

variable {m : Mem} {o : ℕ} {x : AddrRecord}

/-- What `RTM_NEWADDR_Check` asks of a message holds of an address request. -/
theorem request_addrMsg (hx : x.attrs = requestAttrs h) (hholds : Format.Holds m o x.msg)
    (hs : x.msg.bytes.length ≤ BUFLEN) : AddrMsg m o x.attrs := by
  have hb : BUFLEN = 4096 := rfl
  obtain ⟨hlen, hslice, -⟩ := Msg.attributes_of_holds hholds x.long x.body
  have henc : (Format.encode x.attrs).length = x.msg.bytes.length - NLMSG_LENGTH 8 := by
    rw [← x.body, List.length_drop]
  have hifa := Msg.ifa_of_holds hholds x.long
  have hlong := x.long
  have hty := requestAttrs_types h
  have hmem : ∀ a ∈ x.attrs, a.type = IFA_LOCAL ∨ a.type = IFA_ADDRESS := by
    intro a ha
    have := List.mem_map_of_mem (f := Rta.type) (hx ▸ ha)
    rw [hty] at this
    simpa using this
  refine ⟨by omega, by omega, hslice, ?_, fun a ha _ => ?_, fun a ha hl => ?_, ?_⟩
  · rw [hifa]
    exact x.addresses.1
  · rw [hifa]
    refine x.addresses.2 a ha ?_
    rcases hmem a ha with ht | ht
    · exact ⟨(IFA_LOCAL, "%-15s  "), by simp [ifaFormats], ht.symm⟩
    · exact ⟨(IFA_ADDRESS, "%-15s  "), by simp [ifaFormats], ht.symm⟩
  · rcases hmem a ha with ht | ht <;>
      rw [ht] at hl <;>
      simp [IFA_LOCAL, IFA_ADDRESS, IFA_LABEL] at hl
  · rw [hx, hty]
    decide

theorem request_out {g : Globals} {fuel : ℕ} (hx : x.attrs = requestAttrs h)
    (hholds : Format.Holds m o x.msg) (hs : x.msg.bytes.length ≤ BUFLEN) (hf : BUFLEN < fuel) :
    (RTM_NEWADDR_Check g c fuel m o).getLast? =
      some (.printf "RTM_NEWADDR_Check : OUT %s: %s/%d %s\n" [.str "RTM_NEWADDR",
        .str (c.ntop addr), .int x.msg.ifa.ifa_prefixlen, .str ""]) := by
  have hlen : nlmsg_len m o = x.msg.bytes.length := by rw [← netlink_lenAt, hholds.lenAt]
  rw [newaddr_out (request_addrMsg h hx hholds hs) (by omega), Msg.ifa_of_holds hholds x.long, hx]
  simp [requestAttrs, Rta.isAddress, Attr.type_frame, Attr.payload_frame, addressAttr, IFA_LOCAL,
    IFA_ADDRESS, IFA_LABEL]

/-- An address request as the interface watch sees it. -/
def requestChange (hx : x.attrs = requestAttrs h)
    (kind : x.msg.type = RTM_NEWADDR ∨ x.msg.type = RTM_DELADDR) : AddrChange where
  msg := x.msg
  attrs := x.attrs
  kind := kind
  long := x.long
  body := x.body
  addresses a ha ht _ := x.addresses.2 a ha ⟨(IFA_ADDRESS, "%-15s  "), by simp [ifaFormats], ht.symm⟩
  labels a ha hl := by
    have hm := List.mem_map_of_mem (f := Rta.type) (hx ▸ ha)
    rw [requestAttrs_types h, hl] at hm
    simp [IFA_LOCAL, IFA_ADDRESS, IFA_LABEL] at hm

/-- The call for the first interface with this address, without a name or with this index. -/
def requestCall (c : Libc) (domain : ℤ) (addr : List UInt8) (lan_addrs : List lan_addr_s)
    (s_ssdp s_ssdp6 : ℤ) (ifa_index : ℕ) (is_del : Bool) : Option WatchEv :=
  (lan_addrs.find? fun l => c.ntop addr = l.str ∨ [] = l.ifname ∨ ifa_index = l.index).map fun l =>
    if domain = AF_INET then .AddDropMulticastMembership s_ssdp l false is_del
    else .AddDropMulticastMembership s_ssdp6 l true is_del

theorem requestChange_call (hx : x.attrs = requestAttrs h)
    (kind : x.msg.type = RTM_NEWADDR ∨ x.msg.type = RTM_DELADDR) {ifa_index : ℕ}
    (hifa : x.msg.ifa = ⟨domain.toNat, 16, IFA_F_PERMANENT, 0, ifa_index⟩)
    (lan_addrs : List lan_addr_s) (s_ssdp s_ssdp6 : ℤ) :
    (requestChange h hx kind).call c lan_addrs s_ssdp s_ssdp6 =
      requestCall c domain addr lan_addrs s_ssdp s_ssdp6 ifa_index (x.msg.type = RTM_DELADDR) := by
  obtain ⟨hfam, -, hiff⟩ := family_of_inet_pton h
  have haddress : (requestChange h hx kind).address c = c.ntop addr := by
    change ((x.attrs.filter fun a => a.type = IFA_ADDRESS).getLast?.map
      (addressText c x.msg.ifa.ifa_family)).getD "" = c.ntop addr
    rw [hx, hifa]
    simp [requestAttrs, Attr.type_frame, Attr.payload_frame, addressAttr, IFA_LOCAL, IFA_ADDRESS,
      addressText, hfam]
  have hname : (requestChange h hx kind).ifname = [] := by
    change ((x.attrs.filter fun a => a.type = IFA_LABEL).getLast?.map
      fun a => a.payload.takeWhile (· ≠ 0)).getD [] = []
    rw [hx]
    simp [requestAttrs, Attr.type_frame, addressAttr, IFA_LOCAL, IFA_ADDRESS, IFA_LABEL]
  have hconcerns : (requestChange h hx kind).concerns c = fun l =>
      decide (c.ntop addr = l.str ∨ [] = l.ifname ∨ ifa_index = l.index) := by
    funext l
    rw [AddrChange.concerns, haddress, hname]
    exact congrArg (fun ifa : ifaddrmsg =>
      decide (c.ntop addr = l.str ∨ [] = l.ifname ∨ ifa.ifa_index = l.index)) hifa
  have hfamily : (requestChange h hx kind).msg.ifa.ifa_family = domain.toNat :=
    congrArg ifaddrmsg.ifa_family hifa
  rw [AddrChange.call, hconcerns, requestCall, hfamily]
  generalize List.find? _ lan_addrs = q
  rcases q with _ | l
  · rfl
  · rw [Option.bind_some, Option.map_some]
    by_cases h4 : domain = AF_INET
    · rw [if_pos (hiff.1 h4), if_pos h4]
      rfl
    · have h6 : domain.toNat = AF_INET6 := hfam.resolve_left (mt hiff.2 h4)
      rw [if_neg (mt hiff.2 h4), if_pos h6, if_neg h4]
      rfl

end Address

/-! ## Gateways -/

theorem rtmsg_congr {m m' : Mem} {o : ℕ} (h : ∀ a, o ≤ a → a < o + 12 → m a = m' a) :
    rtmsg.at m o = rtmsg.at m' o := by
  simp only [rtmsg.at, get8, h o (by omega) (by omega), h (o + 4) (by omega) (by omega),
    h (o + 5) (by omega) (by omega), h (o + 6) (by omega) (by omega),
    h (o + 7) (by omega) (by omega)]

section Gateway

variable {c : Libc} {domain : ℤ} {ip : String} {addr : List UInt8}
  (h : c.inet_pton domain ip = some addr)

/-- The two attributes of a gateway request. -/
def gatewayAttrs : List Rta :=
  [(addressAttr RTA_GATEWAY (address_type_lt (.inr (.inr rfl))) h).frame, oifAttr.frame]

theorem gatewayAttrs_lines : (gatewayAttrs h).flatMap (addressLines c rtFormats) =
    [.printf "gateway:\t%s\n" [.str (c.ntop addr)]] := by
  simp [gatewayAttrs, addressLines, rtFormats, Attr.type_frame, Attr.payload_frame, addressAttr,
    oifAttr, RTA_GATEWAY, RTA_OIF]

theorem length_gatewayAttrs : (Format.encode (gatewayAttrs h)).length ≤ 28 := by
  have hn := inet_pton_le h
  have he := Attr.length_encode_append [addressAttr RTA_GATEWAY (address_type_lt (.inr (.inr rfl))) h]
    oifAttr
  have he' := Attr.length_encode_append [] (addressAttr RTA_GATEWAY (address_type_lt (.inr (.inr rfl))) h)
  change (Format.encode (gatewayAttrs h)).length = _ at he
  rw [List.nil_append] at he'
  rw [he, he']
  change 0 + (4 + addr.length) + (4 + 4) ≤ 28
  omega

/-- A gateway request is a message of its type with the gateway and the device. -/
theorem gateway_request_record {type : ℕ} {stale m : Mem} (h0 : Built 28 type domain.toNat stale m [])
    {rt : rtmsg} (hrt : rtmsg.at m (NLMSG_DATA 0) = rt) : ∃ x : RouteRecord,
      (gateway_request m c domain ip).out = [.sendmsg x.msg.bytes] ∧
        x.msg.padding = [] ∧ x.msg.bytes.length ≤ 56 ∧ x.msg.type = type ∧ x.msg.rt = rt ∧
        x.attrs = gatewayAttrs h := by
  obtain ⟨m', he, hb, hfit, hkeep⟩ := gateway_request_built h h0
  obtain ⟨f, h1, h2, h3, h4, h5, h6⟩ := hb.message hfit
  have henc := length_gatewayAttrs h
  have hlong : NLMSG_LENGTH 12 ≤ f.bytes.length := by
    rw [h3]
    unfold NLMSG_LENGTH
    omega
  have hrt' : f.rt = rt := by
    rw [← Msg.rt_of_holds h6 hlong, ← hrt]
    exact rtmsg_congr fun a ha hb => hkeep a (by unfold NLMSG_DATA NLMSG_LENGTH at ha; omega)
      (by unfold NLMSG_DATA NLMSG_LENGTH at hb; omega)
  have hfam : get8 (ofList f.bytes) (NLMSG_DATA 0) = domain.toNat := by
    rw [← hb.family]
    exact (get8_of_slice h6 (a := 16) (by unfold NLMSG_LENGTH at hlong; omega)).symm
  refine ⟨⟨f, gatewayAttrs h, hlong, h5, ?_⟩, ?_, h2, ?_, h4, hrt', rfl⟩
  · obtain ⟨hf, hl, -⟩ := family_of_inet_pton h
    rw [hfam]
    refine ⟨hf, fun a ha ⟨p, hp, ht⟩ => ?_⟩
    obtain rfl := List.mem_singleton.1 hp
    simp only [gatewayAttrs, List.mem_cons, List.not_mem_nil, or_false] at ha
    rcases ha with rfl | rfl
    · exact hl
    · rw [Attr.type_frame] at ht
      simp [oifAttr, RTA_GATEWAY, RTA_OIF] at ht
  · rw [he]
    exact congrArg (fun b => [Ev.sendmsg b]) h1.symm
  · rw [h3]
    change 28 + (Format.encode (gatewayAttrs h)).length ≤ 56
    omega

end Gateway

/-! ## Links -/

theorem ifinfomsg_congr {m m' : Mem} {o : ℕ} (h : ∀ a, o ≤ a → a < o + 16 → m a = m' a) :
    ifinfomsg.at m o = ifinfomsg.at m' o := by
  have htype : get16 m (o + 2) = get16 m' (o + 2) :=
    get16_congr fun a h1 h2 => h a (by omega) (by omega)
  have hword : ∀ k, k + 4 ≤ 16 → get32 m (o + k) = get32 m' (o + k) := fun k hk =>
    get32_congr fun a h1 h2 => h a (by omega) (by omega)
  simp only [ifinfomsg.at, get8, h o (by omega) (by omega), h (o + 1) (by omega) (by omega), htype,
    hword 4 (by omega), hword 8 (by omega), hword 12 (by omega)]

theorem link_header_at (stale : Mem) (a_UP a_IndexDevice : ℤ) :
    ifinfomsg.at (link_header stale a_UP a_IndexDevice) (NLMSG_DATA 0) =
      ⟨AF_UNSPEC, 0, 0, i32 a_IndexDevice, if a_UP ≠ 0 then IFF_UP ||| IFF_RUNNING else 0,
        0xffffffff⟩ := by
  have hfam := (built_link_header stale a_UP a_IndexDevice).family
  have hindex := link_header_index stale a_UP a_IndexDevice
  have hflags := link_header_flags stale a_UP a_IndexDevice
  have hchange : get32 (link_header stale a_UP a_IndexDevice) (NLMSG_DATA 0 + 12) = 0xffffffff := by
    rw [link_header, get32_setBytes_apart (by simp [Apart, NLMSG_DATA, NLMSG_LENGTH])]
    exact get32_set32 (by omega) _ _
  rw [ifinfomsg.at, hfam, hchange, show NLMSG_DATA 0 + 4 = 20 from rfl, hindex,
    show NLMSG_DATA 0 + 8 = 24 from rfl, hflags, i32_u32]
  rfl

theorem built_IpLink_header (stale : Mem) :
    Built 32 RTM_NEWLINK AF_UNSPEC stale (IpLink_header stale) [] where
  hdr_le := by omega
  aligned := rfl
  len := rfl
  type := rfl
  family := rfl
  attrs := rfl
  beyond := by
    have h0 : Beyond stale stale := fun _ _ => rfl
    refine (((((((h0.setBytes ?_).setBytes ?_).setBytes ?_).setBytes ?_).setBytes ?_).setBytes
      ?_).setBytes ?_).setBytes ?_
    all_goals simp only [List.length_replicate, List.length_cons, List.length_nil, length_le16,
      length_le32, NLMSG_DATA, NLMSG_LENGTH, BUFLEN]; omega

theorem IpLink_header_at (stale : Mem) : ifinfomsg.at (IpLink_header stale) (NLMSG_DATA 0) =
    ⟨AF_UNSPEC, 0, 0, 5, IFF_UP, 0xffffffff⟩ := by
  have hfam := (built_IpLink_header stale).family
  have hindex : get32 (IpLink_header stale) (NLMSG_DATA 0 + 4) = 5 := by
    rw [IpLink_header, get32_setBytes_apart (by simp [Apart, NLMSG_DATA, NLMSG_LENGTH]),
      get32_setBytes_apart (by simp [Apart, NLMSG_DATA, NLMSG_LENGTH])]
    exact get32_set32 (by omega) _ _
  have hflags : get32 (IpLink_header stale) (NLMSG_DATA 0 + 8) = IFF_UP :=
    get32_set32 (show 0 ||| IFF_UP < 2 ^ 32 by decide) _ _
  have hchange : get32 (IpLink_header stale) (NLMSG_DATA 0 + 12) = 0xffffffff := by
    rw [IpLink_header, get32_setBytes_apart (by simp [Apart, NLMSG_DATA, NLMSG_LENGTH])]
    exact get32_set32 (by omega) _ _
  rw [ifinfomsg.at, hfam, hindex, hflags, hchange]
  rfl

theorem IpLink_eq (c : Libc) (stale : Mem) (a_UP : ℤ) : IpLink c stale a_UP =
    [.sendmsg (slice (Built.putStores (IpLink_header stale) 32 (linkAttr (if a_UP ≠ 0 then 1 else 0))) 0
      (nlmsg_len (Built.putStores (IpLink_header stale) 32 (linkAttr (if a_UP ≠ 0 then 1 else 0))) 0)),
      .printf "IpLink(%d) vRetcode  = %d \n" [.int a_UP, .int c.sendmsg]] := by
  have hl := (built_IpLink_header stale).len
  unfold IpLink Built.putStores
  dsimp only
  generalize IpLink_header stale = m at hl ⊢
  generalize (if a_UP ≠ 0 then 1 else 0 : ℕ) = v
  rw [show nlmsg_len m 0 = 32 from hl, show NLMSG_ALIGN 32 = 32 from rfl]
  have hl2 : nlmsg_len (set16 (set16 m (32 + 2) IFLA_LINK) 32 (RTA_LENGTH 4)) 0 = 32 := by
    rw [nlmsg_len, get32_setBytes_apart (by simp [Apart]), get32_setBytes_apart (by simp [Apart])]
    exact hl
  have hcomm : ∀ m : Mem, set32 (set32 (set16 m 32 8) 0 40) 36 v =
      set32 (set16 (setBytes m 36 (le32 v)) 32 8) 0 40 := fun m => by
    unfold set32 set16
    rw [setBytes_comm (.inl (by simp)) (setBytes m 32 _), setBytes_comm (.inl (by simp)) m]
  rw [hl2, show NLMSG_ALIGN 32 + RTA_LENGTH 4 = 40 from rfl, show RTA_LENGTH 4 = 8 from rfl,
    show RTA_DATA 32 = 36 from rfl, hcomm]
  rfl

section Readers

variable {g : Globals} {c : Libc} {fuel : ℕ} {domain : ℤ} {ip : String} {addr : List UInt8}

/-- A message that comes alone is handed over. -/
theorem read_event_single (hf : BUFLEN < fuel) {f : Msg} (hpad : f.padding = [])
    (hfit : f.bytes.length ≤ BUFLEN) (hend : ¬ f.Ends) (hsound : f.Sound) (vBuf : Mem) (s : Watch) :
    ∃ v s', read_event g c fuel (.datagram f.bytes) vBuf s = (some v, s') ∧
      s'.seen = s.seen.message f := by
  have henc := encode_single hpad
  obtain ⟨v, s', h1, h2⟩ := read_event_seen (g := g) (c := c) hf
    ⟨[f], by rwa [henc], fun f' hf' => by rwa [List.mem_singleton.1 hf']⟩ vBuf s
  rw [Reply.ofMsgs, henc] at h1
  rw [Msg.beforeEnd_of_not_ends hend] at h2
  exact ⟨v, s', h1, h2⟩

/-- What is printed for it is what its handler prints, between the lines of the datagram. -/
theorem read_event_single_out (hf : BUFLEN < fuel) {f : Msg} (hpad : f.padding = [])
    (hfit : f.bytes.length ≤ BUFLEN) (hend : ¬ f.Ends) (vBuf : Mem) (s : Watch) :
    ∃ s0 : Watch, (∃ first, s0.out = s.out ++ first) ∧
      (read_event g c fuel (.datagram f.bytes) vBuf s).2.out =
        ((Handler.ofType f.type).run g c fuel (overlay f.bytes vBuf) 0 s0).out ++
          [.printf "read_event_10 : <<<<<<<<<<<<<<<<<<<<<<<\n" [],
            .printf "read_event_12 : <<<<<<<<<<<<<<<<<<<<\n" []] := by
  have henc := encode_single hpad
  have hq := read_event_encode [f] (by rwa [henc]) g c vBuf hf s
  have hfind : [f].find? (fun f => f.Ends) = none := by simpa using hend
  rw [Reply.ofMsgs, Msg.beforeEnd_of_not_ends hend, Watch.close, hfind, henc] at hq
  refine ⟨{ s with
    calls := s.calls ++ [⟨Handler.ofType f.type, 0, f.bytes⟩]
    out := s.out ++ event_head g (overlay f.bytes vBuf) f.bytes.length ++
      [.printf "read_event_7 : >>>>>>>>>>>>>>>>>>>>>>\n" []] },
    ⟨_, List.append_assoc _ _ _⟩, ?_⟩
  rw [hq]
  exact List.append_assoc _ _ _

/-- The last line of the handler of an address request: one with the address where it is added,
and only the handler's name where it is deleted. -/
def closingLine (c : Libc) (addr : List UInt8) (is_del : Bool) : Ev :=
  if is_del then .printf "RTM_DELADDR_Check\n" []
  else .printf "RTM_NEWADDR_Check : OUT %s: %s/%d %s\n"
    [.str "RTM_NEWADDR", .str (c.ntop addr), .int 16, .str ""]

/-- What an address request is read as, over any old bytes. -/
structure ReadsAddress (g : Globals) (c : Libc) (fuel : ℕ) (handler : Handler) (domain : ℤ)
    (addr : List UInt8) (ifa_index : ℕ) (is_del : Bool) (bytes : List UInt8) : Prop where
  event : ∀ vBuf s, ∃ v s', read_event g c fuel (.datagram bytes) vBuf s = (some v, s') ∧
    s'.seen = { s.seen with handed := s.seen.handed ++ [(handler, bytes)] }
  closing : ∀ vBuf s, ∃ first, (read_event g c fuel (.datagram bytes) vBuf s).2.out =
    s.out ++ first ++ [closingLine c addr is_del,
      .printf "read_event_10 : <<<<<<<<<<<<<<<<<<<<<<<\n" [],
      .printf "read_event_12 : <<<<<<<<<<<<<<<<<<<<\n" []]
  record : ∀ buf text, (parse_ifa_msg c fuel text (overlay bytes buf) (NLMSG_DATA 0)
      (IFA_RTA (NLMSG_DATA 0)) (NLMSG_PAYLOAD (overlay bytes buf) 0 8)).2 =
    (ifa_lines c ⟨domain.toNat, 16, IFA_F_PERMANENT, 0, ifa_index⟩
      ("", [.printf "%-15s  " [.str (c.ntop addr)], .printf "%-15s  " [.str (c.ntop addr)]])).2
  watch : ∀ lan_addrs s_ssdp s_ssdp6 buffer, (ProcessInterfaceWatch g c fuel lan_addrs s_ssdp s_ssdp6
      (.datagram bytes) buffer).2.filter WatchEv.isCall =
    (requestCall c domain addr lan_addrs s_ssdp s_ssdp6 ifa_index is_del).toList

theorem ip_request_reads (hf : BUFLEN < fuel) (h : c.inet_pton domain ip = some addr) {type : ℕ}
    (kind : type = RTM_NEWADDR ∨ type = RTM_DELADDR) {ifa_index : ℕ} (hi : ifa_index < 2 ^ 32)
    (stale : Mem) :
    ∃ bytes, (ip_request type ifa_index c stale domain ip).out = [.sendmsg bytes] ∧
      ReadsAddress g c fuel (Handler.ofType type) domain addr ifa_index (type = RTM_DELADDR) bytes := by
  have hb : BUFLEN = 4096 := rfl
  have ht : type < 65536 := by rcases kind with rfl | rfl <;> decide
  have hlink : type ≠ RTM_NEWLINK := by rcases kind with rfl | rfl <;> decide
  have hends : ¬ (type = NLMSG_DONE ∨ type = NLMSG_ERROR) := by
    rcases kind with rfl | rfl <;> decide
  obtain ⟨x, hout, hpad, hfit, rfl, hifa, hx⟩ := ip_request_record h ht hi stale
  have henc := encode_single hpad
  have hholds : ∀ buf, Format.Holds (overlay x.msg.bytes buf) 0 x.msg := fun buf =>
    slice_overlay _ buf
  refine ⟨_, hout, fun vBuf s => ?_, fun vBuf s => ?_, fun buf text => ?_,
    fun lan_addrs s_ssdp s_ssdp6 buffer => ?_⟩
  · obtain ⟨v, s', h1, h2⟩ := read_event_single (g := g) (c := c) hf hpad hfit hends
      (fun hl => absurd hl hlink) vBuf s
    refine ⟨v, s', h1, h2.trans ?_⟩
    rw [Seen.message, if_neg hlink, if_neg hlink]
  · obtain ⟨s0, ⟨first, hs0⟩, hq⟩ :=
      read_event_single_out (g := g) (c := c) hf hpad hfit hends vBuf s
    rw [hq]
    rcases kind with hk | hk
    · have hlast := request_out (g := g) h hx (hholds vBuf) hfit hf
      obtain ⟨lines, hlines⟩ := List.getLast?_eq_some_iff.1 hlast
      refine ⟨first ++ lines, ?_⟩
      rw [hk, show Handler.ofType RTM_NEWADDR = .newaddr from rfl, Handler.run, hlines, hs0, hifa]
      simp [closingLine, RTM_NEWADDR, RTM_DELADDR]
    · refine ⟨first, ?_⟩
      rw [hk, show Handler.ofType RTM_DELADDR = .deladdr from rfl, Handler.run, hs0]
      simp [closingLine]
  · rw [parse_ifa_msg_prints x (hholds buf) (by omega) (by omega), hifa, Recorded.lines, hx,
      requestAttrs_lines]
  · have hitem : [x.msg] = [WatchItem.change (requestChange h hx kind)].map WatchItem.msg := rfl
    have hd : WatchItem.beforeDone [.change (requestChange h hx kind)] =
        [.change (requestChange h hx kind)] :=
      List.takeWhile_cons_of_pos (decide_eq_true (p := x.msg.type ≠ NLMSG_DONE) (mt Or.inl hends))
    have hone : ∀ i : WatchItem, [i].filterMap (WatchItem.call c lan_addrs s_ssdp s_ssdp6) =
        (i.call c lan_addrs s_ssdp s_ssdp6).toList := fun i => by
      rw [List.filterMap_cons]
      rcases i.call c lan_addrs s_ssdp s_ssdp6 with _ | e <;> rfl
    have hw := @ProcessInterfaceWatch_ofMsgs g c fuel lan_addrs s_ssdp s_ssdp6 hf buffer
      [.change (requestChange h hx kind)] (by rwa [← hitem, henc])
    rw [← hitem, Reply.ofMsgs, henc, hd, hone] at hw
    rw [hw, ← requestChange_call h hx kind hifa]
    rfl

/-- What `add_ip` and `del_ip` send is read back by the event reader, by the record printer and by
the interface watch as the address that was given, with the prefix 16 and the device of each. -/
theorem addresses_read_back (hf : BUFLEN < fuel) (h : c.inet_pton domain ip = some addr)
    (stale : Mem) :
    (∃ bytes, (add_ip c stale domain ip).out = [.sendmsg bytes] ∧
      ReadsAddress g c fuel .newaddr domain addr 3 false bytes) ∧
    ∃ bytes, (del_ip c stale domain ip).out = [.sendmsg bytes] ∧
      ReadsAddress g c fuel .deladdr domain addr 2 true bytes :=
  ⟨ip_request_reads hf h (.inl rfl) (by omega) stale,
    ip_request_reads hf h (.inr rfl) (by omega) stale⟩

theorem address_read_back : 4096 < 4097 ∧
    ∃ bytes, (add_ip Libc.bare (fun _ => 0) 2 "192.168.1.2").out = [.sendmsg bytes] ∧
      ReadsAddress .empty Libc.bare 4097 .newaddr 2 [192, 168, 1, 2] 3 false bytes :=
  ⟨by decide, (addresses_read_back (show 4096 < 4097 by decide) rfl fun _ => 0).1⟩

/-- What a gateway request is read as, over any old bytes: in front of the end of a dump it is
printed if it is the message of a route. -/
structure ReadsGateway (g : Globals) (c : Libc) (fuel : ℕ) (addr : List UInt8) (rt : rtmsg)
    (isRoute : Bool) (bytes : List UInt8) : Prop where
  event : ∀ vBuf s, ∃ v s', read_event g c fuel (.datagram bytes) vBuf s = (some v, s') ∧
    s'.seen = { s.seen with handed := s.seen.handed ++ [(.other, bytes)] }
  record : ∀ buf text, (parse_rt_msg c fuel text (overlay bytes buf) (NLMSG_DATA 0)
      (RTM_RTA (NLMSG_DATA 0)) (NLMSG_PAYLOAD (overlay bytes buf) 0 12)).2 =
    (rt_lines rt ("", [.printf "gateway:\t%s\n" [.str (c.ntop addr)]])).2
  dump : ∀ buf text, (parse_nl_msg_gateway c fuel text
      (overlay (bytes ++ (Msg.header 3).bytes) buf) 0 (bytes ++ (Msg.header 3).bytes).length).2.2 =
    if isRoute then (rt_lines rt ("", [.printf "gateway:\t%s\n" [.str (c.ntop addr)]])).2 else []

theorem gateway_request_reads (hf : BUFLEN < fuel) (h : c.inet_pton domain ip = some addr) {type : ℕ}
    (kind : type = RTM_NEWROUTE ∨ type = RTM_DELROUTE) {stale m : Mem}
    (h0 : Built 28 type domain.toNat stale m []) {rt : rtmsg} (hrt : rtmsg.at m (NLMSG_DATA 0) = rt) :
    ∃ bytes, (gateway_request m c domain ip).out = [.sendmsg bytes] ∧
      ReadsGateway g c fuel addr rt (type = RTM_NEWROUTE) bytes := by
  have hb : BUFLEN = 4096 := rfl
  have hlink : type ≠ RTM_NEWLINK := by rcases kind with rfl | rfl <;> decide
  have hother : Handler.ofType type = .other := by rcases kind with rfl | rfl <;> decide
  have hends : ¬ (type = NLMSG_DONE ∨ type = NLMSG_ERROR) := by
    rcases kind with rfl | rfl <;> decide
  obtain ⟨x, hout, hpad, hfit, rfl, hxrt, hx⟩ := gateway_request_record h h0 hrt
  have hlines : x.lines c = [.printf "gateway:\t%s\n" [.str (c.ntop addr)]] := by
    rw [Recorded.lines, hx, gatewayAttrs_lines]
  have henc : Format.encode [x.msg, Msg.header 3] = x.msg.bytes ++ (Msg.header 3).bytes := by
    simp [Format.encode, hpad, Msg.header]
  refine ⟨_, hout, fun vBuf s => ?_, fun buf text => ?_, fun buf text => ?_⟩
  · obtain ⟨v, s', h1, h2⟩ := read_event_single (g := g) (c := c) hf hpad (by omega) hends
      (fun hl => absurd hl hlink) vBuf s
    refine ⟨v, s', h1, h2.trans ?_⟩
    rw [Seen.message, if_neg hlink, if_neg hlink, hother]
  · rw [parse_rt_msg_prints x (slice_overlay _ buf) (by omega) (by omega), hxrt, hlines]
  · have hlen : (Format.encode [x.msg, Msg.header 3]).length ≤ BUFLEN := by
      rw [henc, List.length_append]
      change x.msg.bytes.length + 16 ≤ BUFLEN
      omega
    have hdone : RouteItem.ends (.other (Msg.header 3) (by decide)) = true := by decide
    have hdump : ∀ i : RouteItem, i.msg = x.msg →
        (parse_nl_msg_gateway c fuel text (overlay (Format.encode [x.msg, Msg.header 3]) buf) 0
          (Format.encode [x.msg, Msg.header 3]).length).2.2 = i.lines c := by
      intro i hi
      have hmsgs : [x.msg, Msg.header 3] =
          [i, RouteItem.other (Msg.header 3) (by decide)].map RouteItem.msg := by
        rw [← hi]
        rfl
      have hno : i.ends = false := by
        rw [RouteItem.ends, hi]
        exact decide_eq_false hends
      have hp := @gatewayLoop_prints c fuel (overlay (Format.encode [x.msg, Msg.header 3]) buf) hf
        [i, .other (Msg.header 3) (by decide)] fuel 0 (text, [])
        (by rw [← hmsgs]; exact slice_overlay _ buf) (by rwa [← hmsgs]) (by rw [← hmsgs]; omega)
      rw [← hmsgs, dumpLines_of_not_ends hno, dumpLines_of_ends hdone] at hp
      exact hp.trans (List.append_nil _)
    rw [← henc]
    by_cases hk : x.msg.type = RTM_NEWROUTE
    · rw [hdump (.route x hk) rfl, if_pos (decide_eq_true hk), RouteItem.lines, hxrt, hlines]
    · rw [hdump (.other x.msg hk) rfl, if_neg (by simpa using hk)]
      rfl

/-- What `add_gateway` and `del_gateway` send is read back as the gateway that was given, in a dump
as a route of the main table, and what is deleted is none. -/
theorem gateways_read_back (hf : BUFLEN < fuel) (h : c.inet_pton domain ip = some addr)
    (stale : Mem) :
    (∃ bytes, (add_gateway c stale domain ip).out = [.sendmsg bytes] ∧ ReadsGateway g c fuel addr
      ⟨domain.toNat, RT_TABLE_MAIN, RTPROT_STATIC, RT_SCOPE_UNIVERSE, RTN_UNICAST⟩ true bytes) ∧
    ∃ bytes, (del_gateway c stale domain ip).out = [.sendmsg bytes] ∧ ReadsGateway g c fuel addr
      ⟨domain.toNat, 0, 0, RT_SCOPE_UNIVERSE, RTN_UNICAST⟩ false bytes := by
  have hadd := built_add_gateway stale h
  have hdel := built_del_gateway stale h
  refine ⟨gateway_request_reads hf h (.inl rfl) hadd ?_,
    gateway_request_reads hf h (.inr rfl) hdel ?_⟩
  · have hfam := hadd.family
    rw [rtmsg.at, hfam]
    rfl
  · have hfam := hdel.family
    rw [rtmsg.at, hfam]
    rfl

theorem gateway_read_back : 4096 < 4097 ∧
    ∃ bytes, (add_gateway Libc.bare (fun _ => 0) 2 "192.168.1.2").out = [.sendmsg bytes] ∧
      ReadsGateway .empty Libc.bare 4097 [192, 168, 1, 2]
        ⟨2, RT_TABLE_MAIN, RTPROT_STATIC, RT_SCOPE_UNIVERSE, RTN_UNICAST⟩ true bytes :=
  ⟨by decide, (gateways_read_back (show 4096 < 4097 by decide) rfl fun _ => 0).1⟩

/-- What a request about a link is read as, over any old bytes. -/
structure ReadsLink (g : Globals) (c : Libc) (fuel : ℕ) (info : ifinfomsg) (bytes : List UInt8) :
    Prop where
  event : ∀ vBuf s, ∃ v s', read_event g c fuel (.datagram bytes) vBuf s = (some v, s') ∧
    s'.seen = ⟨s.seen.handed ++ [(.newlink, bytes)], info.ifi_flags,
      s.seen.changes ++ checkedFlags.flatMap (check_flag info.ifi_flags s.vIfi_flags)⟩
  query : ∀ rest vBuffReply a_pInfomsg,
    let r := link_info_receive fuel (.datagram bytes :: rest) vBuffReply info.ifi_index a_pInfomsg
    r.1 = some 0 ∧ r.2.a_pInfomsg = info

theorem link_request_reads (hf : BUFLEN < fuel) {stale m : Mem} {as : List Attr}
    (hm : Built 32 RTM_NEWLINK AF_UNSPEC stale m as) (hfit : nlmsg_len m 0 ≤ BUFLEN) :
    ReadsLink g c fuel (ifinfomsg.at m (NLMSG_DATA 0)) (slice m 0 (nlmsg_len m 0)) := by
  have hb : BUFLEN = 4096 := rfl
  obtain ⟨f, h1, h2, h3, h4, h5, h6⟩ := hm.message hfit
  have hlong : 32 ≤ f.bytes.length := by omega
  have hle : f.bytes.length ≤ BUFLEN := by rwa [h1, slice_length]
  have henc := encode_single h2
  have hends : ¬ f.Ends := by
    rw [Msg.Ends, h4]
    decide
  rw [Msg.info_of_holds h6 hlong, ← h1]
  refine ⟨fun vBuf s => ?_, fun rest vBuffReply a_pInfomsg => ?_⟩
  · obtain ⟨v, s', h7, h8⟩ := read_event_single (g := g) (c := c) hf h2 hle hends
      (fun _ => hlong) vBuf s
    refine ⟨v, s', h7, h8.trans ?_⟩
    rw [Seen.message, if_pos h4, if_pos h4, h4]
    rfl
  · have hlink := linkIn_ofMsgs (i := f.info.ifi_index) (d := [f]) (by rwa [henc]) vBuffReply
      fun f' hf' _ => by rwa [List.mem_singleton.1 hf']
    have habout : Msg.about f.info.ifi_index f = true := by simp [Msg.about, h4]
    rw [Reply.ofMsgs, henc, List.find?_cons_of_pos habout] at hlink
    have hans : answer f.info.ifi_index (receives (.datagram f.bytes :: rest) vBuffReply) =
        some (some f.info) := by
      rw [receives, answer, hlink]
      rfl
    obtain ⟨h7, h8⟩ := link_info_loop_answer (i := f.info.ifi_index) (show 4096 < fuel from hf)
      (.datagram f.bytes :: rest) vBuffReply ⟨0, a_pInfomsg, []⟩ rfl
    rw [hans] at h7 h8
    exact ⟨h7, h8⟩

/-- What `link_up` sends is read back as the device with the flags that were asked for; what
`IpLink` sends is read back as interface 5 with `IFF_UP`, also where it is to be taken down. -/
theorem links_read_back (hf : BUFLEN < fuel) (stale : Mem) (a_UP : ℤ) :
    (∀ a_IndexDevice, ∃ bytes, (link_up c stale a_UP a_IndexDevice).out = [.sendmsg bytes] ∧
      ReadsLink g c fuel ⟨AF_UNSPEC, 0, 0, i32 a_IndexDevice,
        if a_UP ≠ 0 then IFF_UP ||| IFF_RUNNING else 0, 0xffffffff⟩ bytes) ∧
    ∃ bytes, IpLink c stale a_UP = [.sendmsg bytes,
        .printf "IpLink(%d) vRetcode  = %d \n" [.int a_UP, .int c.sendmsg]] ∧
      ReadsLink g c fuel ⟨AF_UNSPEC, 0, 0, 5, IFF_UP, 0xffffffff⟩ bytes := by
  have hkeep : ∀ {m m' : Mem}, (∀ a, 4 ≤ a → a < 32 → m' a = m a) →
      ifinfomsg.at m' (NLMSG_DATA 0) = ifinfomsg.at m (NLMSG_DATA 0) := fun h =>
    ifinfomsg_congr fun a ha hb => h a (by unfold NLMSG_DATA NLMSG_LENGTH at ha; omega)
      (by unfold NLMSG_DATA NLMSG_LENGTH at hb; omega)
  refine ⟨fun a_IndexDevice => ?_, ?_⟩
  · obtain ⟨m, he, hb, hfit, hk⟩ := link_up_built c stale a_UP a_IndexDevice
    rw [he, ← link_header_at stale a_UP a_IndexDevice, ← hkeep hk]
    exact ⟨_, rfl, link_request_reads hf hb hfit⟩
  · have h0 := built_IpLink_header stale
    have hl : nlmsg_len (IpLink_header stale) 0 = 32 := h0.len
    have h1 := h0.put (linkAttr (if a_UP ≠ 0 then 1 else 0))
      (by rw [hl]; simp only [linkAttr, length_le32, BUFLEN]; omega)
    rw [hl] at h1
    have hfit : nlmsg_len (Built.putStores (IpLink_header stale) 32
        (linkAttr (if a_UP ≠ 0 then 1 else 0))) 0 ≤ BUFLEN := by
      rw [Built.putStores, nlmsg_len, get32_set32]
      all_goals simp only [linkAttr, length_le32, BUFLEN]; omega
    rw [IpLink_eq, ← IpLink_header_at stale, ← hkeep fun a h4 ha => Built.putStores_old h4 ha]
    exact ⟨_, rfl, link_request_reads hf h1 hfit⟩

theorem link_read_back : 4096 < 4097 ∧
    ∃ bytes, (link_up Libc.bare (fun _ => 0) 0 7).out = [.sendmsg bytes] ∧
      ReadsLink .empty Libc.bare 4097 ⟨AF_UNSPEC, 0, 0, 7, 0, 0xffffffff⟩ bytes :=
  ⟨by decide, (links_read_back (show 4096 < 4097 by decide) (fun _ => 0) 0).1 7⟩

end Readers

end NetTool

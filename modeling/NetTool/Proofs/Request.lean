import NetTool.Request
import NetTool.IpLink
import NetTool.Proofs.Netlink

/-!
# What the encoders send

The encoders keep the length field in step with what they append: a buffer under construction
holds its header and the attributes so far, and ends where its length says (`Built`). Appending an
attribute keeps this (`Built.put`), so the walk of the macros finds in the finished message just
the attributes that were put there (`Built.decodes`).
-/

namespace NetTool

open Bytes CInt Frames Loop

/-- An attribute whose payload needs no padding. -/
structure Attr where
  type : ℕ
  payload : List UInt8
  type_lt : type < 65536
  aligned : payload.length % 4 = 0
  short : payload.length < 65532

namespace Attr

def bytes (a : Attr) : List UInt8 := le16 (4 + a.payload.length) ++ le16 a.type ++ a.payload

theorem bytes_length (a : Attr) : a.bytes.length = 4 + a.payload.length := by
  simp only [bytes, List.length_append, length_le16]

theorem hdr_le (a : Attr) : rtattr.hdr ≤ a.bytes.length := by
  have hh : rtattr.hdr = 4 := rfl
  rw [bytes_length]
  omega

theorem len_bytes (a : Attr) : rtattr.len (ofList a.bytes) = a.bytes.length := by
  have := a.short
  rw [bytes_length]
  exact get16_le16 (by omega) rfl

theorem padded (a : Attr) :
    a.bytes.length + ([] : List UInt8).length = rtattr.pad a.bytes.length := by
  have := a.aligned
  simp only [Format.pad, rtattr, bytes_length, List.length_nil]
  omega

def frame (a : Attr) : Format.Frame rtattr := ⟨a.bytes, [], a.hdr_le, a.len_bytes, a.padded⟩

theorem length_bytes (a : Attr) : a.frame.bytes.length = 4 + a.payload.length := a.bytes_length

theorem length_encode_append (as : List Attr) (a : Attr) :
    (Format.encode ((as ++ [a]).map frame)).length =
      (Format.encode (as.map frame)).length + (4 + a.payload.length) := by
  simp [Format.encode, frame, bytes_length]

variable {m : Mem} {o : ℕ} {a : Attr}

theorem len_of_holds (h : Format.Holds m o a.frame) : rta_len m o = 4 + a.payload.length := by
  rw [← rtattr_lenAt, h.lenAt, a.length_bytes]

theorem type_of_holds (h : Format.Holds m o a.frame) : rta_type m o = a.type := by
  rw [rta_type, get16_of_slice h (by rw [a.length_bytes]; omega)]
  exact get16_le16 a.type_lt rfl

theorem payload_of_holds (h : Format.Holds m o a.frame) :
    slice m (RTA_DATA o) (rta_len m o - 4) = a.payload := by
  rw [len_of_holds h, Nat.add_sub_cancel_left]
  unfold Format.Holds at h
  rw [length_bytes, slice_append] at h
  exact (List.append_inj h (by simp)).2

end Attr

/-- The bytes from `BUFLEN` on are as they were. -/
def Beyond (stale m : Mem) : Prop := ∀ a, BUFLEN ≤ a → m a = stale a

theorem Beyond.setBytes {stale m : Mem} (h : Beyond stale m) {o : ℕ} {bs : List UInt8}
    (ho : o + bs.length ≤ BUFLEN) : Beyond stale (setBytes m o bs) := by
  intro a ha
  rw [setBytes_apart]
  · exact h a ha
  · unfold Apart
    omega

/-- A buffer that holds the header of a message and the attributes put there so far. -/
structure Built (hdr type family : ℕ) (stale m : Mem) (as : List Attr) : Prop where
  hdr_le : 17 ≤ hdr
  aligned : hdr % 4 = 0
  len : nlmsg_len m 0 = hdr + (Format.encode (as.map Attr.frame)).length
  type : nlmsg_type m 0 = type
  family : get8 m (NLMSG_DATA 0) = family
  attrs : slice m hdr (Format.encode (as.map Attr.frame)).length = Format.encode (as.map Attr.frame)
  beyond : Beyond stale m

/-- What is to be read back from a sent message: one message of its type and family, with these
attributes and nothing after them, in a buffer that was written below `BUFLEN` only. -/
structure Decodes (s : Sent) (stale : Mem) (hdr type family : ℕ) (attrs : List (ℕ × List UInt8)) :
    Prop where
  sent : s.out = [.sendmsg (slice s.vBuf 0 (nlmsg_len s.vBuf 0))]
  message : ∀ fuel > BUFLEN, walk_messages fuel s.vBuf 0 (nlmsg_len s.vBuf 0) = ([0], .done)
  type : nlmsg_type s.vBuf 0 = type
  family : get8 s.vBuf (NLMSG_DATA 0) = family
  attributes : ∃ offs,
    (∀ fuel > BUFLEN,
      walk_attributes fuel s.vBuf hdr (nlmsg_len s.vBuf 0 - hdr : ℤ) = (offs, .done)) ∧
    offs.map (fun a => (rta_type s.vBuf a, slice s.vBuf (RTA_DATA a) (rta_len s.vBuf a - 4))) =
      attrs ∧
    ∃ a ∈ offs.getLast?, a + rta_len s.vBuf a = nlmsg_len s.vBuf 0
  fits : nlmsg_len s.vBuf 0 ≤ BUFLEN
  beyond : Beyond stale s.vBuf

theorem send_message_vBuf (c : Libc) (m : Mem) : (send_message c m).vBuf = m := rfl

namespace Built

variable {hdr type family : ℕ} {stale m : Mem} {as : List Attr}

/-- An attribute's stores at the end of the message, and the new length. -/
def putStores (m : Mem) (p : ℕ) (a : Attr) : Mem :=
  set32 (set16 (setBytes (set16 m (p + 2) a.type) (RTA_DATA p) a.payload) p
    (4 + a.payload.length)) 0 (p + (4 + a.payload.length))

theorem putStores_old {p : ℕ} {a : Attr} {b : ℕ} (h1 : 4 ≤ b) (h2 : b < p) :
    putStores m p a b = m b := by
  unfold putStores set32 set16 RTA_DATA
  rw [setBytes_apart, setBytes_apart, setBytes_apart, setBytes_apart]
  all_goals simp only [Apart, length_le16, length_le32]; omega

theorem putStores_new {p : ℕ} (hp : 4 ≤ p) (a : Attr) :
    slice (putStores m p a) p (4 + a.payload.length) = a.frame.bytes := by
  have h1 : slice (putStores m p a) p 2 = le16 (4 + a.payload.length) := by
    unfold putStores set32 set16
    rw [slice_setBytes_apart (by simp only [Apart, length_le32]; omega)]
    exact slice_setBytes _ _ _
  have h2 : slice (putStores m p a) (p + 2) 2 = le16 a.type := by
    unfold putStores set32 set16 RTA_DATA
    rw [slice_setBytes_apart, slice_setBytes_apart, slice_setBytes_apart]
    · exact slice_setBytes _ _ _
    all_goals simp only [Apart, length_le16, length_le32]; omega
  have h3 : slice (putStores m p a) (p + 4) a.payload.length = a.payload := by
    unfold putStores set32 set16 RTA_DATA
    rw [slice_setBytes_apart, slice_setBytes_apart]
    · exact slice_setBytes _ _ _
    all_goals simp only [Apart, length_le16, length_le32]; omega
  rw [slice_append, show (4 : ℕ) = 2 + 2 from rfl, slice_append, h1, h2, h3]
  rfl

theorem put (h : Built hdr type family stale m as) (a : Attr)
    (hfit : nlmsg_len m 0 + (4 + a.payload.length) ≤ BUFLEN) :
    Built hdr type family stale (putStores m (nlmsg_len m 0) a) (as ++ [a]) := by
  have hb : BUFLEN = 4096 := rfl
  have hhdr := h.hdr_le
  have hlen := h.len
  generalize nlmsg_len m 0 = p at hfit hlen
  refine ⟨hhdr, h.aligned, ?_, ?_, ?_, ?_, ?_⟩
  · rw [Attr.length_encode_append, ← Nat.add_assoc, ← hlen]
    exact get32_set32 (by omega) _ _
  · rw [← h.type]
    exact get16_congr fun b h1 h2 => putStores_old (by omega) (by omega)
  · rw [← h.family, get8, get8, putStores_old]
    all_goals simp only [NLMSG_DATA, NLMSG_LENGTH]; omega
  · rw [Attr.length_encode_append, slice_append, ← hlen, putStores_new (by omega),
      @slice_congr _ m _ _ fun b h1 h2 => putStores_old (by omega) (by omega), h.attrs]
    simp [Format.encode, Attr.frame, Attr.bytes]
  · unfold putStores set32 set16 RTA_DATA
    refine (((h.beyond.setBytes ?_).setBytes ?_).setBytes ?_).setBytes ?_
    · rw [length_le16]
      omega
    · omega
    · rw [length_le16]
      omega
    · rw [length_le32]
      omega

/-- What the walk reads at the attributes is what was put there. -/
theorem read_attrs {m : Mem} {offs : List ℕ} {as : List Attr}
    (h : List.Forall₂ (fun o (a : Attr) => Format.Holds m o a.frame) offs as) :
    offs.map (fun o => (rta_type m o, slice m (RTA_DATA o) (rta_len m o - 4))) =
      as.map fun a => (a.type, a.payload) := by
  induction h with
  | nil => rfl
  | cons ha _ ih =>
    rw [List.map_cons, List.map_cons, ih, Attr.type_of_holds ha, Attr.payload_of_holds ha]

/-- The last attribute ends, without padding, where the message does. -/
theorem last_ends (h : Built hdr type family stale m as) (hne : as ≠ []) :
    ∃ p ∈ (rtattr.offsets m hdr (Format.encode (as.map Attr.frame)).length).getLast?,
      p + rta_len m p = nlmsg_len m 0 := by
  have hlen := h.len
  have hwalk := Format.offsets_encode _ _ h.attrs
  rcases hg : (rtattr.offsets m hdr (Format.encode (as.map Attr.frame)).length).getLast? with _ | p
  · rw [List.getLast?_eq_none_iff] at hg
    rw [hg, List.forall₂_nil_left_iff, List.map_eq_nil_iff] at hwalk
    exact absurd hwalk hne
  · refine ⟨p, rfl, ?_⟩
    have hp := Format.offsets_encode_last h.attrs hg
    obtain ⟨f, hf, ho⟩ := exists_of_mem_forall₂ hwalk (List.mem_of_getLast? hg)
    obtain ⟨a, -, rfl⟩ := List.mem_map.1 hf
    have ha := a.aligned
    have hpad : rtattr.pad (4 + a.payload.length) = (4 + a.payload.length + 3) / 4 * 4 := rfl
    rw [rtattr_lenAt, Attr.len_of_holds ho, hpad] at hp
    rw [Attr.len_of_holds ho, hlen]
    omega

/-- A finished message is read back by the macros' walk. -/
theorem decodes (h : Built hdr type family stale m as) (hne : as ≠ [])
    (hfit : nlmsg_len m 0 ≤ BUFLEN) (c : Libc) :
    Decodes (send_message c m) stale hdr type family (as.map fun a => (a.type, a.payload)) := by
  have hb : BUFLEN = 4096 := rfl
  have hh : netlink.hdr = 16 := rfl
  have hhdr := h.hdr_le
  have hlen := h.len
  have hrest : ((nlmsg_len m 0 : ℤ) - hdr).toNat =
      (Format.encode (as.map Attr.frame)).length := by omega
  have hwalk := Format.offsets_encode _ _ h.attrs
  rw [List.forall₂_map_right_iff] at hwalk
  refine ⟨rfl, fun fuel hf => ?_, h.type, h.family, ?_, hfit, h.beyond⟩
  · rw [send_message_vBuf, walk_messages_eq (by unfold IntLen; omega) (by omega)]
    have hok : netlink.Ok m 0 (nlmsg_len m 0) := by
      rw [Format.Ok, netlink_lenAt]
      omega
    have hp := netlink.le_pad (nlmsg_len m 0)
    have hh : netlink.hdr = 16 := rfl
    rw [Int.toNat_natCast, Format.offsets_of_ok hok, netlink_lenAt,
      Format.offsets_of_lt (by omega)]
  · refine ⟨_, fun fuel hf => ?_, read_attrs hwalk, h.last_ends hne⟩
    rw [send_message_vBuf, walk_attributes_eq (by unfold IntLen; omega) (by omega), hrest]

end Built

/-! ## Addresses -/

theorem inet_pton_length {c : Libc} {domain : ℤ} {ip : String} {addr : List UInt8}
    (h : c.inet_pton domain ip = some addr) :
    (domain = AF_INET ∧ addr.length = 4) ∨ (domain = AF_INET6 ∧ addr.length = 16) := by
  unfold Libc.inet_pton at h
  split_ifs at h with h4 h6
  · obtain ⟨v, -, rfl⟩ := Option.map_eq_some_iff.1 h
    exact .inl ⟨h4, v.length_toList⟩
  · obtain ⟨v, -, rfl⟩ := Option.map_eq_some_iff.1 h
    exact .inr ⟨h6, v.length_toList⟩

/-- The attribute with the bytes of a valid address. -/
def addressAttr (type : ℕ) (ht : type < 65536) {c : Libc} {domain : ℤ} {ip : String}
    {addr : List UInt8} (h : c.inet_pton domain ip = some addr) : Attr where
  type := type
  payload := addr
  type_lt := ht
  aligned := by
    rcases inet_pton_length h with ⟨-, hl⟩ | ⟨-, hl⟩
    · rw [hl]
    · rw [hl]
  short := by
    rcases inet_pton_length h with ⟨-, hl⟩ | ⟨-, hl⟩
    · rw [hl]
      omega
    · rw [hl]
      omega

section Address

variable {c : Libc} {domain : ℤ} {ip : String} {addr : List UInt8}
  (h : c.inet_pton domain ip = some addr)

include h in
theorem put_address_eq (type : ℕ) (m : Mem) (p : ℕ) :
    put_address c domain ip type m p =
      set16 (setBytes (set16 m (p + 2) type) (RTA_DATA p) addr) p (4 + addr.length) := by
  rcases inet_pton_length h with ⟨rfl, hl⟩ | ⟨rfl, hl⟩
  · simp only [put_address, util_pton, h, hl]
    rfl
  · simp only [put_address, util_pton, h, hl]
    rfl

include h in
theorem rta_len_put_address (type : ℕ) (m : Mem) (p : ℕ) :
    rta_len (put_address c domain ip type m p) p = 4 + addr.length := by
  rw [put_address_eq h, rta_len]
  refine get16_set16 ?_ _ _
  rcases inet_pton_length h with ⟨-, hl⟩ | ⟨-, hl⟩
  · rw [hl]
    omega
  · rw [hl]
    omega

include h in
theorem nlmsg_len_put_address (type : ℕ) (m : Mem) {p : ℕ} (hp : 4 ≤ p) :
    nlmsg_len (put_address c domain ip type m p) 0 = nlmsg_len m 0 := by
  rw [put_address_eq h, nlmsg_len, nlmsg_len, get32_setBytes_apart, get32_setBytes_apart,
    get32_setBytes_apart]
  all_goals simp only [Apart, RTA_DATA]; omega

/-- Appending an address attribute, with the length it leaves. -/
theorem Built.put_address {hdr type family t : ℕ} {stale m : Mem} {as : List Attr}
    (hm : Built hdr type family stale m as) (ht : t < 65536)
    (hfit : nlmsg_len m 0 + (4 + addr.length) ≤ BUFLEN) :
    Built hdr type family stale
      (set32 (NetTool.put_address c domain ip t m (nlmsg_len m 0)) 0
        (nlmsg_len m 0 + (4 + addr.length))) (as ++ [addressAttr t ht h]) := by
  rw [put_address_eq h]
  exact hm.put (addressAttr t ht h) hfit

end Address

theorem NLMSG_ALIGN_of_mod {n : ℕ} (h : n % 4 = 0) (hn : n < 2 ^ 31) : NLMSG_ALIGN n = n := by
  have hp : netlink.pad n = (n + 3) / 4 * 4 := rfl
  rw [NLMSG_ALIGN_eq hn, hp]
  omega

theorem RTA_ALIGN_of_mod {n : ℕ} (h : n % 4 = 0) (hn : n < 2 ^ 31) : RTA_ALIGN n = n :=
  NLMSG_ALIGN_of_mod h hn

theorem family_byte {c : Libc} {domain : ℤ} {ip : String} {addr : List UInt8}
    (h : c.inet_pton domain ip = some addr) : u32 domain % 256 = domain.toNat := by
  rcases inet_pton_length h with ⟨rfl, -⟩ | ⟨rfl, -⟩ <;> rfl

theorem inet_pton_le {c : Libc} {domain : ℤ} {ip : String} {addr : List UInt8}
    (h : c.inet_pton domain ip = some addr) : addr.length % 4 = 0 ∧ addr.length ≤ 16 := by
  rcases inet_pton_length h with ⟨-, hl⟩ | ⟨-, hl⟩ <;> omega

/-- An address attribute behind the header leaves the header's fields behind the length. -/
theorem put_address_head {hdr t : ℕ} {m : Mem} {c : Libc} {domain : ℤ} {ip : String}
    {addr : List UInt8} (h : c.inet_pton domain ip = some addr) {p : ℕ} (hp : hdr ≤ p) (v : ℕ) :
    ∀ a, 4 ≤ a → a < hdr → set32 (put_address c domain ip t m p) 0 v a = m a := by
  intro a h4 ha
  rw [put_address_eq h]
  unfold set32 set16 RTA_DATA
  rw [setBytes_apart, setBytes_apart, setBytes_apart, setBytes_apart]
  all_goals simp only [Apart, length_le16, length_le32]; omega

/-- The first attribute of a request, an address after the header. -/
theorem Built.first_address {hdr type family t : ℕ} {stale m : Mem} {c : Libc} {domain : ℤ}
    {ip : String} {addr : List UInt8} (hm : Built hdr type family stale m [])
    (h : c.inet_pton domain ip = some addr) (ht : t < 65536) (hhdr : hdr ≤ 32) :
    ∃ m1, set32 (NetTool.put_address c domain ip t m hdr) 0
        (NLMSG_ALIGN (nlmsg_len (NetTool.put_address c domain ip t m hdr) 0) +
          rta_len (NetTool.put_address c domain ip t m hdr) hdr) = m1 ∧
      Built hdr type family stale m1 [addressAttr t ht h] ∧
      nlmsg_len m1 0 = hdr + (4 + addr.length) ∧ rta_len m1 hdr = 4 + addr.length ∧
      ∀ a, 4 ≤ a → a < hdr → m1 a = m a := by
  have hn := inet_pton_le h
  have h17 := hm.hdr_le
  have hl : nlmsg_len m 0 = hdr := hm.len
  rw [nlmsg_len_put_address h _ _ (by omega), rta_len_put_address h, hl,
    NLMSG_ALIGN_of_mod hm.aligned (by omega)]
  refine ⟨_, rfl, ?_, get32_set32 (by omega) _ _, ?_, put_address_head h le_rfl _⟩
  · have h1 := hm.put_address h ht (by unfold BUFLEN; omega)
    rwa [hl] at h1
  · rw [← rta_len_put_address h t m hdr]
    exact get16_setBytes_apart (.inr (by rw [length_le32]; omega))

/-- The header of an address request. -/
theorem built_ip_header {type : ℕ} (ht : type < 65536) (ifa_index : ℕ) (stale : Mem)
    (a_Domain : ℤ) : Built 24 type (u32 a_Domain % 256) stale
      (ip_header type ifa_index stale a_Domain) [] where
  hdr_le := by omega
  aligned := rfl
  len := by
    rw [ip_header, nlmsg_len, get32_setBytes_apart, get32_setBytes_apart, get32_setBytes_apart,
      get32_setBytes_apart, get32_setBytes_apart, get32_setBytes_apart, get32_setBytes_apart,
      get32_set32]
    all_goals simp [Apart, NLMSG_DATA, NLMSG_LENGTH, Format.encode]
  type := by
    rw [ip_header, nlmsg_type, get16_setBytes_apart, get16_setBytes_apart, get16_setBytes_apart,
      get16_setBytes_apart, get16_setBytes_apart, get16_setBytes_apart, get16_set16 ht]
    all_goals simp [Apart, NLMSG_DATA, NLMSG_LENGTH]
  family := by
    rw [ip_header, get8_setBytes_apart, get8_setBytes_apart, get8_setBytes_apart,
      get8_setBytes_apart, get8_set8]
    all_goals simp [Apart, NLMSG_DATA, NLMSG_LENGTH]
  attrs := rfl
  beyond := by
    have h0 : Beyond stale stale := fun _ _ => rfl
    refine ((((((((h0.setBytes ?_).setBytes ?_).setBytes ?_).setBytes ?_).setBytes ?_).setBytes
      ?_).setBytes ?_).setBytes ?_).setBytes ?_
    all_goals simp only [List.length_replicate, List.length_cons, List.length_nil, length_le16,
      length_le32, NLMSG_DATA, NLMSG_LENGTH, BUFLEN]; omega

/-- The type of an address attribute. -/
theorem address_type_lt {t : ℕ} (ht : t = IFA_LOCAL ∨ t = IFA_ADDRESS ∨ t = RTA_GATEWAY) :
    t < 65536 := by
  rcases ht with rfl | rfl | rfl <;> decide

theorem ip_request_built {type : ℕ} (ht : type < 65536) (ifa_index : ℕ) {c : Libc}
    (stale : Mem) {domain : ℤ} {ip : String} {addr : List UInt8}
    (h : c.inet_pton domain ip = some addr) :
    ∃ m, ip_request type ifa_index c stale domain ip = send_message c m ∧
      Built 24 type domain.toNat stale m
        [addressAttr IFA_LOCAL (address_type_lt (.inl rfl)) h,
          addressAttr IFA_ADDRESS (address_type_lt (.inr (.inl rfl))) h] ∧
      nlmsg_len m 0 ≤ BUFLEN ∧
      ∀ a, 4 ≤ a → a < 24 → m a = ip_header type ifa_index stale domain a := by
  have hn := inet_pton_le h
  have h0 := built_ip_header ht ifa_index stale domain
  rw [family_byte h] at h0
  unfold ip_request
  dsimp only
  generalize ip_header type ifa_index stale domain = m at h0 ⊢
  obtain ⟨m1, hm1, h1, hl1, hr1, hk1⟩ :=
    h0.first_address h (address_type_lt (.inl rfl)) (by omega)
  have h2 := h1.put_address h (address_type_lt (.inr (.inl rfl))) (by unfold BUFLEN; omega)
  rw [show IFA_RTA (NLMSG_DATA 0) = 24 from rfl, hm1, RTA_NEXT, hr1,
    RTA_ALIGN_of_mod (by omega) (by omega), nlmsg_len_put_address h _ _ (by omega),
    rta_len_put_address h, hl1]
  rw [hl1] at h2
  refine ⟨_, rfl, h2, ?_, fun a h4 ha => ?_⟩
  · rw [nlmsg_len, get32_set32 (by omega)]
    unfold BUFLEN
    omega
  · exact (put_address_head h (by omega) _ a h4 ha).trans (hk1 a h4 ha)

theorem ip_request_decodes {type : ℕ} (ht : type < 65536) (ifa_index : ℕ) {c : Libc}
    (stale : Mem) {domain : ℤ} {ip : String} {addr : List UInt8}
    (h : c.inet_pton domain ip = some addr) :
    Decodes (ip_request type ifa_index c stale domain ip) stale (NLMSG_LENGTH 8) type
      domain.toNat [(IFA_LOCAL, addr), (IFA_ADDRESS, addr)] := by
  obtain ⟨m, he, hb, hfit, -⟩ := ip_request_built ht ifa_index stale h
  rw [he]
  exact hb.decodes (by simp) hfit c

/-! ## Gateways -/

theorem built_gateway_header {type : ℕ} (ht : type < 65536) (flags : ℕ) (stale : Mem)
    (domain : ℤ) : Built 28 type (u32 domain % 256) stale
      (gateway_header type flags stale domain) [] where
  hdr_le := by omega
  aligned := rfl
  len := by
    rw [gateway_header, nlmsg_len, get32_setBytes_apart, get32_setBytes_apart,
      get32_setBytes_apart, get32_set32]
    all_goals simp [Apart, NLMSG_DATA, NLMSG_LENGTH, Format.encode]
  type := by
    rw [gateway_header, nlmsg_type, get16_setBytes_apart, get16_setBytes_apart, get16_set16 ht]
    all_goals simp [Apart, NLMSG_DATA, NLMSG_LENGTH]
  family := by
    rw [gateway_header, get8_set8]
  attrs := rfl
  beyond := by
    have h0 : Beyond stale stale := fun _ _ => rfl
    refine ((((h0.setBytes ?_).setBytes ?_).setBytes ?_).setBytes ?_).setBytes ?_
    all_goals simp only [List.length_replicate, List.length_cons, List.length_nil, length_le16,
      length_le32, NLMSG_DATA, NLMSG_LENGTH, BUFLEN]; omega

/-- A store to the fixed header past the family. -/
theorem Built.setHeader {hdr type family : ℕ} {stale m : Mem}
    (h : Built hdr type family stale m []) {o : ℕ} {bs : List UInt8} (ho : 17 ≤ o)
    (hfit : o + bs.length ≤ BUFLEN) : Built hdr type family stale (Bytes.setBytes m o bs) [] where
  hdr_le := h.hdr_le
  aligned := h.aligned
  len := by
    rw [← h.len, nlmsg_len, get32_setBytes_apart (.inl (by omega))]
    rfl
  type := by
    rw [← h.type, nlmsg_type, get16_setBytes_apart (.inl (by omega))]
    rfl
  family := by
    rw [← h.family]
    exact get8_setBytes_apart (.inl ho)
  attrs := rfl
  beyond := h.beyond.setBytes hfit

def oifAttr : Attr where
  type := RTA_OIF
  payload := le32 2
  type_lt := by simp [RTA_OIF]
  aligned := rfl
  short := by simp

theorem oif_stores (m : Mem) (p : ℕ) :
    set32 (set16 m p (RTA_LENGTH 4)) (RTA_DATA p) 2 =
      set16 (setBytes m (RTA_DATA p) oifAttr.payload) p (4 + oifAttr.payload.length) :=
  setBytes_comm (.inl (by simp only [RTA_DATA, length_le16]; omega)) m

theorem gateway_request_built {type : ℕ} {c : Libc} {stale m : Mem} {domain : ℤ} {ip : String}
    {addr : List UInt8} (h : c.inet_pton domain ip = some addr)
    (h0 : Built 28 type domain.toNat stale m []) :
    ∃ m', gateway_request m c domain ip = send_message c m' ∧
      Built 28 type domain.toNat stale m'
        [addressAttr RTA_GATEWAY (address_type_lt (.inr (.inr rfl))) h, oifAttr] ∧
      nlmsg_len m' 0 ≤ BUFLEN ∧ ∀ a, 4 ≤ a → a < 28 → m' a = m a := by
  have hn := inet_pton_le h
  unfold gateway_request
  dsimp only
  obtain ⟨m1, hm1, h1, hl1, hr1, hk1⟩ :=
    h0.first_address h (address_type_lt (.inr (.inr rfl))) (by omega)
  have h2 := h1.put oifAttr (by rw [hl1]; simp only [oifAttr, length_le32, BUFLEN]; omega)
  rw [show RTM_RTA (NLMSG_DATA 0) = 28 from rfl, hm1, RTA_NEXT, hr1,
    RTA_ALIGN_of_mod (by omega) (by omega)]
  dsimp only
  rw [hl1] at h2
  generalize hp : 28 + (4 + addr.length) = p at h2 hl1 ⊢
  rw [oif_stores]
  have hl2 : nlmsg_len (set16 (setBytes (set16 m1 (p + 2) RTA_OIF) (RTA_DATA p) oifAttr.payload) p
      (4 + oifAttr.payload.length)) 0 = p := by
    rw [nlmsg_len, get32_setBytes_apart, get32_setBytes_apart, get32_setBytes_apart]
    · exact hl1
    all_goals simp only [Apart, RTA_DATA]; omega
  have hr2 : rta_len (set16 (setBytes (set16 m1 (p + 2) RTA_OIF) (RTA_DATA p) oifAttr.payload) p
      (4 + oifAttr.payload.length)) p = 4 + oifAttr.payload.length :=
    get16_set16 (by decide) _ _
  rw [hl2, hr2]
  refine ⟨_, rfl, h2, ?_, fun a h4 ha => ?_⟩
  · rw [nlmsg_len, get32_set32]
    all_goals simp only [oifAttr, length_le32, BUFLEN]; omega
  · exact (Built.putStores_old h4 (by omega)).trans (hk1 a h4 ha)

theorem gateway_request_decodes {type : ℕ} {c : Libc} {stale m : Mem} {domain : ℤ} {ip : String}
    {addr : List UInt8} (h : c.inet_pton domain ip = some addr)
    (h0 : Built 28 type domain.toNat stale m []) :
    Decodes (gateway_request m c domain ip) stale (NLMSG_LENGTH 12) type domain.toNat
      [(RTA_GATEWAY, addr), (RTA_OIF, le32 2)] := by
  obtain ⟨m', he, hb, hfit, -⟩ := gateway_request_built h h0
  rw [he]
  exact hb.decodes (by simp) hfit c

/-- The header of `add_gateway` with its `struct rtmsg`. -/
theorem built_add_gateway {c : Libc} (stale : Mem) {domain : ℤ} {ip : String} {addr : List UInt8}
    (h : c.inet_pton domain ip = some addr) :
    Built 28 RTM_NEWROUTE domain.toNat stale
      (set8 (set8 (set8 (set8 (gateway_header RTM_NEWROUTE
        (NLM_F_REQUEST ||| NLM_F_REPLACE ||| NLM_F_ACK ||| NLM_F_CREATE) stale domain)
          (NLMSG_DATA 0 + 4) RT_TABLE_MAIN) (NLMSG_DATA 0 + 5) RTPROT_STATIC)
            (NLMSG_DATA 0 + 6) RT_SCOPE_UNIVERSE) (NLMSG_DATA 0 + 7) RTN_UNICAST) [] := by
  have h0 := built_gateway_header (show RTM_NEWROUTE < 65536 by simp [RTM_NEWROUTE])
    (NLM_F_REQUEST ||| NLM_F_REPLACE ||| NLM_F_ACK ||| NLM_F_CREATE) stale domain
  rw [family_byte h] at h0
  refine (((h0.setHeader ?_ ?_).setHeader ?_ ?_).setHeader ?_ ?_).setHeader ?_ ?_
  all_goals simp [NLMSG_DATA, NLMSG_LENGTH, BUFLEN]

/-- The header of `del_gateway`, which leaves the table and the protocol. -/
theorem built_del_gateway {c : Libc} (stale : Mem) {domain : ℤ} {ip : String} {addr : List UInt8}
    (h : c.inet_pton domain ip = some addr) :
    Built 28 RTM_DELROUTE domain.toNat stale
      (set8 (set8 (gateway_header RTM_DELROUTE (NLM_F_REQUEST ||| NLM_F_ACK) stale domain)
        (NLMSG_DATA 0 + 6) RT_SCOPE_UNIVERSE) (NLMSG_DATA 0 + 7) RTN_UNICAST) [] := by
  have h0 := built_gateway_header (show RTM_DELROUTE < 65536 by simp [RTM_DELROUTE])
    (NLM_F_REQUEST ||| NLM_F_ACK) stale domain
  rw [family_byte h] at h0
  refine (h0.setHeader ?_ ?_).setHeader ?_ ?_
  all_goals simp [NLMSG_DATA, NLMSG_LENGTH, BUFLEN]

theorem add_gateway_decodes {c : Libc} (stale : Mem) {domain : ℤ} {ip : String}
    {addr : List UInt8} (h : c.inet_pton domain ip = some addr) :
    Decodes (add_gateway c stale domain ip) stale (NLMSG_LENGTH 12) RTM_NEWROUTE domain.toNat
      [(RTA_GATEWAY, addr), (RTA_OIF, le32 2)] :=
  gateway_request_decodes h (built_add_gateway stale h)

theorem del_gateway_decodes {c : Libc} (stale : Mem) {domain : ℤ} {ip : String}
    {addr : List UInt8} (h : c.inet_pton domain ip = some addr) :
    Decodes (del_gateway c stale domain ip) stale (NLMSG_LENGTH 12) RTM_DELROUTE domain.toNat
      [(RTA_GATEWAY, addr), (RTA_OIF, le32 2)] :=
  gateway_request_decodes h (built_del_gateway stale h)

/-! ## Links -/

theorem built_link_header (stale : Mem) (a_UP a_IndexDevice : ℤ) :
    Built 32 RTM_NEWLINK AF_UNSPEC stale (link_header stale a_UP a_IndexDevice) [] where
  hdr_le := by omega
  aligned := rfl
  len := by
    rw [link_header, nlmsg_len, get32_setBytes_apart, get32_setBytes_apart, get32_setBytes_apart,
      get32_setBytes_apart, get32_setBytes_apart, get32_setBytes_apart, get32_set32]
    all_goals simp [Apart, NLMSG_DATA, NLMSG_LENGTH, Format.encode]
  type := by
    rw [link_header, nlmsg_type, get16_setBytes_apart, get16_setBytes_apart,
      get16_setBytes_apart, get16_setBytes_apart, get16_setBytes_apart, get16_set16 (by simp [RTM_NEWLINK])]
    all_goals simp [Apart, NLMSG_DATA, NLMSG_LENGTH]
  family := by
    rw [link_header, get8_setBytes_apart, get8_setBytes_apart, get8_setBytes_apart, get8_set8]
    all_goals simp [Apart, NLMSG_DATA, NLMSG_LENGTH, AF_UNSPEC]
  attrs := rfl
  beyond := by
    have h0 : Beyond stale stale := fun _ _ => rfl
    refine (((((((h0.setBytes ?_).setBytes ?_).setBytes ?_).setBytes ?_).setBytes ?_).setBytes
      ?_).setBytes ?_).setBytes ?_
    all_goals simp only [List.length_replicate, List.length_cons, List.length_nil, length_le16,
      length_le32, NLMSG_DATA, NLMSG_LENGTH, BUFLEN]; omega

def linkAttr (v : ℕ) : Attr where
  type := IFLA_LINK
  payload := le32 v
  type_lt := by simp [IFLA_LINK]
  aligned := by rw [length_le32]
  short := by rw [length_le32]; omega

/-- What `link_up` sends is its header with one attribute. -/
theorem link_up_eq (c : Libc) (stale : Mem) (a_UP a_IndexDevice : ℤ) :
    link_up c stale a_UP a_IndexDevice =
      send_message c (Built.putStores (link_header stale a_UP a_IndexDevice) 32
        (linkAttr (if a_UP ≠ 0 then 1 else 0))) := by
  have hl := (built_link_header stale a_UP a_IndexDevice).len
  unfold link_up Built.putStores
  dsimp only
  generalize link_header stale a_UP a_IndexDevice = m at hl ⊢
  rw [show IFLA_RTA (NLMSG_DATA 0) = 32 from rfl, rta_len, get16_set16 (by decide), nlmsg_len,
    get32_setBytes_apart (by simp [Apart]), get32_setBytes_apart (by simp [Apart, RTA_DATA]),
    get32_setBytes_apart (by simp [Apart]), show get32 m 0 = 32 from hl,
    show RTA_LENGTH 4 = 8 from rfl, show NLMSG_ALIGN 32 = 32 from rfl]
  simp only [linkAttr, length_le32]

theorem link_header_index (stale : Mem) (a_UP a_IndexDevice : ℤ) :
    get32 (link_header stale a_UP a_IndexDevice) 20 = u32 a_IndexDevice := by
  rw [link_header, get32_setBytes_apart, get32_setBytes_apart]
  · exact get32_set32 (u32_lt _) _ _
  all_goals simp [Apart, NLMSG_DATA, NLMSG_LENGTH]

theorem link_header_flags (stale : Mem) (a_UP a_IndexDevice : ℤ) :
    get32 (link_header stale a_UP a_IndexDevice) 24 =
      if a_UP ≠ 0 then IFF_UP ||| IFF_RUNNING else 0 := by
  refine get32_set32 ?_ _ 24
  split_ifs <;> decide

/-- The attribute leaves the header as it was. -/
theorem get32_putStores {m : Mem} {p o : ℕ} {a : Attr} (h4 : 4 ≤ o) (ho : o + 4 ≤ p) :
    get32 (Built.putStores m p a) o = get32 m o :=
  get32_congr fun _ h1 h2 => Built.putStores_old (by omega) (by omega)

theorem link_up_built (c : Libc) (stale : Mem) (a_UP a_IndexDevice : ℤ) :
    ∃ m, link_up c stale a_UP a_IndexDevice = send_message c m ∧
      Built 32 RTM_NEWLINK AF_UNSPEC stale m [linkAttr (if a_UP ≠ 0 then 1 else 0)] ∧
      nlmsg_len m 0 ≤ BUFLEN ∧
      ∀ a, 4 ≤ a → a < 32 → m a = link_header stale a_UP a_IndexDevice a := by
  have h0 := built_link_header stale a_UP a_IndexDevice
  have hl : nlmsg_len (link_header stale a_UP a_IndexDevice) 0 = 32 := h0.len
  have h1 := h0.put (linkAttr (if a_UP ≠ 0 then 1 else 0))
    (by rw [hl]; simp only [linkAttr, length_le32, BUFLEN]; omega)
  rw [hl] at h1
  refine ⟨_, link_up_eq c stale a_UP a_IndexDevice, h1, ?_, fun a h4 ha => Built.putStores_old h4 ha⟩
  rw [Built.putStores, nlmsg_len, get32_set32]
  all_goals simp only [linkAttr, length_le32, BUFLEN]; omega

theorem link_up_decodes (c : Libc) (stale : Mem) (a_UP a_IndexDevice : ℤ) :
    Decodes (link_up c stale a_UP a_IndexDevice) stale (NLMSG_LENGTH 16) RTM_NEWLINK AF_UNSPEC
      [(IFLA_LINK, le32 (if a_UP ≠ 0 then 1 else 0))] := by
  obtain ⟨m, he, hb, hfit, -⟩ := link_up_built c stale a_UP a_IndexDevice
  rw [he]
  exact hb.decodes (by simp) hfit c

theorem link_up_info (c : Libc) (stale : Mem) (a_UP a_IndexDevice : ℤ) :
    let info := ifinfomsg.at (link_up c stale a_UP a_IndexDevice).vBuf (NLMSG_DATA 0)
    info.ifi_index = i32 a_IndexDevice ∧ (info.ifi_flags &&& IFF_UP ≠ 0 ↔ a_UP ≠ 0) := by
  rw [link_up_eq, send_message_vBuf]
  simp only [ifinfomsg.at, NLMSG_DATA, NLMSG_LENGTH]
  rw [get32_putStores (by omega) (by omega), get32_putStores (by omega) (by omega),
    link_header_index, link_header_flags]
  refine ⟨i32_u32 _, ?_⟩
  by_cases h : a_UP = 0
  · simp [h]
  · simp [h, IFF_UP, IFF_RUNNING]

/-- What the encoders send is read back as it was asked. -/
theorem requests_decode {c : Libc} {domain : ℤ} {ip : String} {addr : List UInt8}
    (h : c.inet_pton domain ip = some addr) (stale : Mem) :
    Decodes (add_ip c stale domain ip) stale (NLMSG_LENGTH 8) RTM_NEWADDR domain.toNat
        [(IFA_LOCAL, addr), (IFA_ADDRESS, addr)] ∧
      Decodes (del_ip c stale domain ip) stale (NLMSG_LENGTH 8) RTM_DELADDR domain.toNat
        [(IFA_LOCAL, addr), (IFA_ADDRESS, addr)] ∧
      Decodes (add_gateway c stale domain ip) stale (NLMSG_LENGTH 12) RTM_NEWROUTE domain.toNat
        [(RTA_GATEWAY, addr), (RTA_OIF, le32 2)] ∧
      Decodes (del_gateway c stale domain ip) stale (NLMSG_LENGTH 12) RTM_DELROUTE domain.toNat
        [(RTA_GATEWAY, addr), (RTA_OIF, le32 2)] ∧
      ∀ a_UP a_IndexDevice,
        Decodes (link_up c stale a_UP a_IndexDevice) stale (NLMSG_LENGTH 16) RTM_NEWLINK AF_UNSPEC
          [(IFLA_LINK, le32 (if a_UP ≠ 0 then 1 else 0))] ∧
        let info := ifinfomsg.at (link_up c stale a_UP a_IndexDevice).vBuf (NLMSG_DATA 0)
        info.ifi_index = i32 a_IndexDevice ∧ (info.ifi_flags &&& IFF_UP ≠ 0 ↔ a_UP ≠ 0) :=
  ⟨ip_request_decodes (by simp [RTM_NEWADDR]) 3 stale h,
    ip_request_decodes (by simp [RTM_DELADDR]) 2 stale h,
    add_gateway_decodes stale h, del_gateway_decodes stale h,
    fun a_UP a_IndexDevice => ⟨link_up_decodes c stale a_UP a_IndexDevice,
      link_up_info c stale a_UP a_IndexDevice⟩⟩

theorem requests_decode_bare : Libc.bare.inet_pton AF_INET "192.168.1.2" = some [192, 168, 1, 2] ∧
    Decodes (add_ip Libc.bare (fun _ => 255) AF_INET "192.168.1.2") (fun _ => 255)
      (NLMSG_LENGTH 8) RTM_NEWADDR AF_INET
      [(IFA_LOCAL, [192, 168, 1, 2]), (IFA_ADDRESS, [192, 168, 1, 2])] := by
  have h : Libc.bare.inet_pton AF_INET "192.168.1.2" = some [192, 168, 1, 2] := by
    simp [Libc.inet_pton, Libc.bare]
  exact ⟨h, (requests_decode h fun _ => 255).1⟩

end NetTool

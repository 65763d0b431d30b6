import NetTool.Proofs.Request

/-!
# What the senders send for any text

`util_pton` gives the size of the family's addresses whether or not the text is one, so a request
has the same shape for every text (`ip_request_eq`) and is sent for every text. The requests of
`add_ip` and `del_ip` differ in their types and in the devices they name (`add_del_bytes`).
-/

namespace NetTool

open Bytes CInt Frames Loop

/-! ## The shape of a request -/

/-- The length of an address attribute. -/
def attrLen (domain : ℤ) : ℕ :=
  RTA_LENGTH (if domain = AF_INET then 4 else if domain = AF_INET6 then 16 else -1)

theorem attrLen_cases (domain : ℤ) : attrLen domain = 8 ∨ attrLen domain = 20 ∨ attrLen domain = 3 := by
  unfold attrLen
  split_ifs
  · exact .inl rfl
  · exact .inr (.inl rfl)
  · exact .inr (.inr rfl)

section Request

variable (c : Libc) (domain : ℤ) (ip : String) (type : ℕ) (m : Mem) (p : ℕ)

theorem put_address_form : put_address c domain ip type m p =
    set16 (setBytes (set16 m (p + 2) type) (RTA_DATA p) ((c.inet_pton domain ip).getD [])) p
      (attrLen domain) := by
  have hnil : ∀ (m : Mem) (o : ℕ), setBytes m o [] = m := fun m o => by
    funext a
    exact setBytes_apart (by unfold Apart; simp; omega)
  unfold put_address util_pton attrLen
  rcases hp : c.inet_pton domain ip with _ | addr
  · dsimp only
    rw [Option.getD_none, hnil]
    split_ifs <;> rfl
  · rcases inet_pton_length hp with ⟨rfl, -⟩ | ⟨rfl, -⟩ <;> rfl

theorem put_address_below {a : ℕ} (h : a < p) : put_address c domain ip type m p a = m a := by
  rw [put_address_form]
  unfold set16
  rw [setBytes_apart, setBytes_apart, setBytes_apart]
  all_goals simp only [Apart, RTA_DATA]; omega

theorem rta_len_put : rta_len (put_address c domain ip type m p) p = attrLen domain := by
  rw [put_address_form, rta_len]
  exact get16_set16 (by rcases attrLen_cases domain with h | h | h <;> omega) _ _

theorem nlmsg_len_put {p : ℕ} (hp : 4 ≤ p) :
    nlmsg_len (put_address c domain ip type m p) 0 = nlmsg_len m 0 :=
  get32_congr fun _ _ ha => put_address_below c domain ip type m p (by omega)

/-- Where the second attribute of a request stands. -/
def secondAttr (domain : ℤ) : ℕ := 24 + RTA_ALIGN (attrLen domain)

theorem secondAttr_le : 24 ≤ secondAttr domain := Nat.le_add_right _ _

/-- The buffer of a finished address request, from its header on. -/
def ip_message : Mem :=
  set32 (put_address c domain ip IFA_ADDRESS
    (set32 (put_address c domain ip IFA_LOCAL m 24) 0 (24 + attrLen domain)) (secondAttr domain)) 0
    (24 + attrLen domain + attrLen domain)

theorem ip_request_eq (ht : type < 65536) (ifa_index : ℕ) (stale : Mem) :
    ip_request type ifa_index c stale domain ip =
      send_message c (ip_message c domain ip (ip_header type ifa_index stale domain)) := by
  have hl : nlmsg_len (ip_header type ifa_index stale domain) 0 = 24 :=
    (built_ip_header ht ifa_index stale domain).len
  have hL : attrLen domain < 65536 := by rcases attrLen_cases domain with h | h | h <;> omega
  unfold ip_request ip_message
  dsimp only
  generalize ip_header type ifa_index stale domain = m at hl ⊢
  have hr : ∀ v, rta_len (set32 (put_address c domain ip IFA_LOCAL m 24) 0 v) 24 =
      attrLen domain := fun v => by
    rw [← rta_len_put c domain ip IFA_LOCAL m 24]
    exact get16_setBytes_apart (.inr (by rw [length_le32]; omega))
  have hn : ∀ m' : Mem, nlmsg_len (set32 m' 0 (24 + attrLen domain)) 0 = 24 + attrLen domain :=
    fun m' => get32_set32 (by omega) _ _
  rw [show IFA_RTA (NLMSG_DATA 0) = 24 from rfl, rta_len_put, nlmsg_len_put _ _ _ _ _ (by omega), hl,
    show NLMSG_ALIGN 24 = 24 from rfl, RTA_NEXT, hr]
  dsimp only
  rw [show 24 + RTA_ALIGN (attrLen domain) = secondAttr domain from rfl, rta_len_put,
    nlmsg_len_put _ _ _ _ _ (by have := secondAttr_le domain; omega), hn]

end Request

/-! ## Adding and deleting an address -/

/-- The buffers agree but for the low bytes of `nlmsg_type` and `ifa_index`. -/
def Alike (m m' : Mem) : Prop := ∀ a < BUFLEN, a ≠ 4 → a ≠ 20 → m a = m' a

section Alike

variable {m m' : Mem} {o : ℕ}

theorem Alike.setBytes (h : Alike m m') (o : ℕ) (bs : List UInt8) :
    Alike (setBytes m o bs) (setBytes m' o bs) := by
  intro a ha h4 h20
  by_cases hap : Apart a 1 o bs.length
  · rw [setBytes_apart hap, setBytes_apart hap, h a ha h4 h20]
  · exact setBytes_inside hap m m'

/-- Stores at one of the two bytes that differ in their first byte only. -/
theorem Alike.setBytes_head (h : Alike m m') (ho : o = 4 ∨ o = 20) (x y : UInt8)
    (bs : List UInt8) : Alike (Bytes.setBytes m o (x :: bs)) (Bytes.setBytes m' o (y :: bs)) := by
  intro a ha h4 h20
  unfold Bytes.setBytes
  split_ifs with hle
  · obtain ⟨k, hk⟩ : ∃ k, a - o = k + 1 := ⟨a - o - 1, by omega⟩
    rw [hk, List.getD_cons_succ, List.getD_cons_succ, h a ha h4 h20]
  · exact h a ha h4 h20

theorem alike_fill (m m' : Mem) : Alike (fill m 0 BUFLEN 0) (fill m' 0 BUFLEN 0) := by
  intro a ha _ _
  refine setBytes_inside ?_ m m'
  rw [List.length_replicate]
  unfold Apart
  omega

theorem alike_ip_header (stale stale' : Mem) (domain : ℤ) :
    Alike (ip_header RTM_NEWADDR 3 stale domain) (ip_header RTM_DELADDR 2 stale' domain) := by
  have h0 := (alike_fill stale stale').setBytes 0 (le32 (NLMSG_LENGTH 8))
  have h1 := h0.setBytes_head (.inl rfl) 20 21 [0]
  exact (((((h1.setBytes 6 _).setBytes 16 _).setBytes 17 _).setBytes 18 _).setBytes 19
    _).setBytes_head (.inr rfl) 3 2 [0, 0, 0]

theorem Alike.ip_message (h : Alike m m') (c : Libc) (domain : ℤ) (ip : String) :
    Alike (ip_message c domain ip m) (ip_message c domain ip m') := by
  have hput : ∀ {m m' : Mem}, Alike m m' → ∀ type p,
      Alike (put_address c domain ip type m p) (put_address c domain ip type m' p) := by
    intro m m' h type p
    rw [put_address_form, put_address_form]
    exact ((h.setBytes _ _).setBytes _ _).setBytes _ _
  exact (hput ((hput h IFA_LOCAL 24).setBytes 0 _) IFA_ADDRESS _).setBytes 0 _

/-- Of two such buffers the same bytes are sent but for the two. -/
theorem Alike.slice_getElem? (h : Alike m m') {n k : ℕ} (hn : n ≤ BUFLEN) (h4 : k ≠ 4) (h20 : k ≠ 20) :
    (slice m 0 n)[k]? = (slice m' 0 n)[k]? := by
  by_cases hk : k < n
  · rw [List.getElem?_eq_getElem (by rwa [slice_length]),
      List.getElem?_eq_getElem (by rwa [slice_length]), getElem_slice, getElem_slice, Nat.zero_add,
      h k (by omega) h4 h20]
  · rw [List.getElem?_eq_none (by rw [slice_length]; omega),
      List.getElem?_eq_none (by rw [slice_length]; omega)]

end Alike

theorem ip_message_index (c : Libc) (domain : ℤ) (ip : String) (m : Mem) :
    ip_message c domain ip m 20 = m 20 := by
  have := secondAttr_le domain
  unfold ip_message set32
  rw [setBytes_apart, put_address_below _ _ _ _ _ _ (by omega), setBytes_apart,
    put_address_below _ _ _ _ _ _ (by omega)]
  all_goals simp only [Apart, length_le32]; omega

/-- The requests have the same length and the same bytes but for the low byte of the type and the
low byte of the device's index. -/
theorem add_del_bytes (c : Libc) (stale stale' : Mem) (domain : ℤ) (ip : String) :
    ∃ a d, (add_ip c stale domain ip).out = [.sendmsg a] ∧
      (del_ip c stale' domain ip).out = [.sendmsg d] ∧ a.length = d.length ∧
      (∀ k, k ≠ 4 → k ≠ 20 → a[k]? = d[k]?) ∧ a[20]? = some 3 ∧ d[20]? = some 2 := by
  have hL := attrLen_cases domain
  have hlen : ∀ m, nlmsg_len (ip_message c domain ip m) 0 = 24 + attrLen domain + attrLen domain :=
    fun m => get32_set32 (by omega) _ _
  have halike := (alike_ip_header stale stale' domain).ip_message c domain ip
  unfold add_ip del_ip
  rw [ip_request_eq c domain ip RTM_NEWADDR (by simp [RTM_NEWADDR]),
    ip_request_eq c domain ip RTM_DELADDR (by simp [RTM_DELADDR])]
  unfold send_message
  refine ⟨_, _, rfl, rfl, ?_, ?_, ?_, ?_⟩
  · rw [slice_length, slice_length, hlen, hlen]
  · intro k h4 h20
    rw [hlen, hlen]
    exact halike.slice_getElem? (by unfold BUFLEN; omega) h4 h20
  · rw [hlen, List.getElem?_eq_getElem (by rw [slice_length]; omega), getElem_slice,
      Nat.zero_add, ip_message_index]
    rfl
  · rw [hlen, List.getElem?_eq_getElem (by rw [slice_length]; omega), getElem_slice,
      Nat.zero_add, ip_message_index]
    rfl

/-- Each sender sends one message, and the two differ in their `nlmsg_type` only. -/
def SameRequest (s s' : Sent) : Prop :=
  ∃ a d, s.out = [.sendmsg a] ∧ s'.out = [.sendmsg d] ∧ a.length = d.length ∧
    ∀ k, k ≠ 4 → k ≠ 5 → a[k]? = d[k]?

theorem not_sameRequest {s s' : Sent} {a d : List UInt8} (ha : s.out = [.sendmsg a])
    (hd : s'.out = [.sendmsg d]) (h : a[20]? ≠ d[20]?) : ¬ SameRequest s s' := by
  rintro ⟨a', d', ha', hd', -, hsame⟩
  obtain rfl : a = a' := by simpa using ha.symm.trans ha'
  obtain rfl : d = d' := by simpa using hd.symm.trans hd'
  exact h (hsame 20 (by omega) (by omega))

/-- A delete never names the device of the add. -/
theorem add_del_not_same (c : Libc) (stale stale' : Mem) (domain : ℤ) (ip : String) :
    ¬ SameRequest (add_ip c stale domain ip) (del_ip c stale' domain ip) := by
  obtain ⟨a, d, ha, hd, -, -, h3, h2⟩ := add_del_bytes c stale stale' domain ip
  exact not_sameRequest ha hd (by rw [h3, h2]; simp)

theorem bare_add_del_not_same :
    ¬ SameRequest (add_ip Libc.bare (fun _ => 0) AF_INET "192.168.1.2")
      (del_ip Libc.bare (fun _ => 0) AF_INET "192.168.1.2") := by
  obtain ⟨a, d, ha, hd, -, -, h3, h2⟩ :=
    add_del_bytes Libc.bare (fun _ => 0) (fun _ => 0) AF_INET "192.168.1.2"
  exact not_sameRequest ha hd (by rw [h3, h2]; simp)

/-! ## Texts that are no addresses -/

/-- The sender refuses a text that is no address of the family, and what it sends is the request
with the address of the text. -/
def ChecksAddress (c : Libc) (stale : Mem) (domain : ℤ) (ip : String) (s : Sent) (hdr type : ℕ)
    (attrs : List UInt8 → List (ℕ × List UInt8)) : Prop :=
  (c.inet_pton domain ip = none → s.ret = -1 ∧ s.out = []) ∧
    (s.out ≠ [] → ∃ addr, c.inet_pton domain ip = some addr ∧
      Decodes s stale hdr type domain.toNat (attrs addr))

section Check

variable {c : Libc} {stale : Mem} {domain : ℤ} {ip : String} {s : Sent} {hdr type : ℕ}
  {attrs : List UInt8 → List (ℕ × List UInt8)}

/-- A sender that always sends has not checked a text that is no address. -/
theorem not_checksAddress (hs : s.out ≠ []) (h : c.inet_pton domain ip = none) :
    ¬ ChecksAddress c stale domain ip s hdr type attrs := fun hc => hs (hc.1 h).2

theorem checksAddress_iff (hs : s.out ≠ [])
    (hd : ∀ addr, c.inet_pton domain ip = some addr →
      Decodes s stale hdr type domain.toNat (attrs addr)) :
    ChecksAddress c stale domain ip s hdr type attrs ↔ (c.inet_pton domain ip).isSome := by
  rcases h : c.inet_pton domain ip with _ | addr
  · simp [not_checksAddress hs h]
  · refine ⟨fun _ => rfl, fun _ => ⟨fun hn => ?_, fun _ => ⟨addr, h, hd addr h⟩⟩⟩
    rw [h] at hn
    cases hn

variable (c stale domain ip)

theorem add_ip_sends : (add_ip c stale domain ip).out ≠ [] := List.cons_ne_nil _ _

theorem del_ip_sends : (del_ip c stale domain ip).out ≠ [] := List.cons_ne_nil _ _

theorem add_gateway_sends : (add_gateway c stale domain ip).out ≠ [] := List.cons_ne_nil _ _

theorem del_gateway_sends : (del_gateway c stale domain ip).out ≠ [] := List.cons_ne_nil _ _

/-- The four senders check what they are given exactly when it is an address. -/
theorem senders_check_iff :
    (ChecksAddress c stale domain ip (add_ip c stale domain ip) (NLMSG_LENGTH 8) RTM_NEWADDR
        (fun addr => [(IFA_LOCAL, addr), (IFA_ADDRESS, addr)]) ↔
      (c.inet_pton domain ip).isSome) ∧
    (ChecksAddress c stale domain ip (del_ip c stale domain ip) (NLMSG_LENGTH 8) RTM_DELADDR
        (fun addr => [(IFA_LOCAL, addr), (IFA_ADDRESS, addr)]) ↔
      (c.inet_pton domain ip).isSome) ∧
    (ChecksAddress c stale domain ip (add_gateway c stale domain ip) (NLMSG_LENGTH 12)
        RTM_NEWROUTE (fun addr => [(RTA_GATEWAY, addr), (RTA_OIF, le32 2)]) ↔
      (c.inet_pton domain ip).isSome) ∧
    (ChecksAddress c stale domain ip (del_gateway c stale domain ip) (NLMSG_LENGTH 12)
        RTM_DELROUTE (fun addr => [(RTA_GATEWAY, addr), (RTA_OIF, le32 2)]) ↔
      (c.inet_pton domain ip).isSome) :=
  ⟨checksAddress_iff (add_ip_sends _ _ _ _) fun _ h =>
      ip_request_decodes (by simp [RTM_NEWADDR]) 3 stale h,
    checksAddress_iff (del_ip_sends _ _ _ _) fun _ h =>
      ip_request_decodes (by simp [RTM_DELADDR]) 2 stale h,
    checksAddress_iff (add_gateway_sends _ _ _ _) fun _ h => add_gateway_decodes stale h,
    checksAddress_iff (del_gateway_sends _ _ _ _) fun _ h => del_gateway_decodes stale h⟩

end Check

/-- A text that is no address. -/
theorem badText_not_checked :
    ¬ ChecksAddress Libc.bare (fun _ => 0) AF_INET "192.168.1"
        (add_ip Libc.bare (fun _ => 0) AF_INET "192.168.1") (NLMSG_LENGTH 8) RTM_NEWADDR
        (fun addr => [(IFA_LOCAL, addr), (IFA_ADDRESS, addr)]) ∧
      ¬ ChecksAddress Libc.bare (fun _ => 0) AF_INET "192.168.1"
        (del_ip Libc.bare (fun _ => 0) AF_INET "192.168.1") (NLMSG_LENGTH 8) RTM_DELADDR
        (fun addr => [(IFA_LOCAL, addr), (IFA_ADDRESS, addr)]) ∧
      ¬ ChecksAddress Libc.bare (fun _ => 0) AF_INET "192.168.1"
        (add_gateway Libc.bare (fun _ => 0) AF_INET "192.168.1") (NLMSG_LENGTH 12) RTM_NEWROUTE
        (fun addr => [(RTA_GATEWAY, addr), (RTA_OIF, le32 2)]) ∧
      ¬ ChecksAddress Libc.bare (fun _ => 0) AF_INET "192.168.1"
        (del_gateway Libc.bare (fun _ => 0) AF_INET "192.168.1") (NLMSG_LENGTH 12) RTM_DELROUTE
        (fun addr => [(RTA_GATEWAY, addr), (RTA_OIF, le32 2)]) := by
  have h : Libc.bare.inet_pton AF_INET "192.168.1" = none := by simp [Libc.inet_pton, Libc.bare]
  exact ⟨not_checksAddress (add_ip_sends _ _ _ _) h, not_checksAddress (del_ip_sends _ _ _ _) h,
    not_checksAddress (add_gateway_sends _ _ _ _) h, not_checksAddress (del_gateway_sends _ _ _ _) h⟩

end NetTool

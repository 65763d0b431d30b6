import NetTool.Event
import NetTool.Proofs.Netlink

/-!
# The attribute loops

The attribute loops of `RTM_NEWADDR_Check`, `RTM_NEWLINK_Check` and `rtnl_print_link` fold over
what a walk meets (`RTM_NEWADDR_Check_eq`, `RTM_NEWLINK_Check_eq`, `rtnl_print_link_eq`), and the
walk over a message's payload meets its attributes (`payload_walk`): those lie in the message one
after the other, and are the encoded ones where the payload is an encoded list (`attributes_of`).
The payload of a message that is shorter than its fixed header has a negative length, which the
first test refuses.
-/

namespace NetTool

open Bytes CInt Frames Loop

variable {m : Mem} {o : ℕ}

/-! ## Complete attributes -/

/-- A complete attribute with its padding, and what it holds. -/
abbrev Rta := Format.Frame rtattr

namespace Rta

def type (f : Rta) : ℕ := rta_type (ofList f.bytes) 0

def payload (f : Rta) : List UInt8 := f.bytes.drop 4

variable {p : ℕ} {f : Rta}

theorem length_payload (f : Rta) : f.payload.length = f.bytes.length - 4 := List.length_drop

theorem type_of_holds (h : Format.Holds m p f) : rta_type m p = f.type := by
  have hl := f.long
  have hh : rtattr.hdr = 4 := rfl
  have := get16_of_slice h (a := 2) (by omega)
  simpa [rta_type, Rta.type] using this

theorem len_of_holds (h : Format.Holds m p f) : rta_len m p = f.bytes.length := by
  rw [← rtattr_lenAt, h.lenAt]

theorem payload_of_holds (h : Format.Holds m p f) :
    slice m (RTA_DATA p) f.payload.length = f.payload := by
  have hl := f.long
  have hh : rtattr.hdr = 4 := rfl
  have hs : slice m p (4 + (f.bytes.length - 4)) = f.bytes := by
    rw [show 4 + (f.bytes.length - 4) = f.bytes.length by omega]
    exact h
  rw [slice_append] at hs
  have hd := congrArg (List.drop 4) hs
  rwa [List.drop_left' (slice_length 4), ← length_payload] at hd

theorem get32_of_holds (h : Format.Holds m p f) {k : ℕ} (hk : k + 4 ≤ f.payload.length) :
    get32 m (RTA_DATA p + k) = get32 (ofList f.payload) k := get32_of_slice (payload_of_holds h) hk

theorem cstr_of_holds (h : Format.Holds m p f) {k n : ℕ} (h0 : f.payload[k]? = some 0)
    (hk : k < n) : cstr m (RTA_DATA p) n = f.payload.takeWhile (· ≠ 0) :=
  cstr_of_slice (payload_of_holds h) h0 hk

/-- A string that ends within the array is printed as it is. -/
theorem strncpy_text_of_holds (h : Format.Holds m p f) {k j n : ℕ} (h0 : f.payload[k]? = some 0)
    (hk : k < n) (hj : k < j) (g : Globals) (a : LocalArray) :
    strncpy_text g a n (cstr m (RTA_DATA p) j) = f.payload.takeWhile (· ≠ 0) := by
  have hle := length_takeWhile_le h0
  rw [cstr_of_holds h h0 hj, strncpy_text, if_pos (by omega)]

end Rta

/-! ## The attributes of a message -/

/-- Where the attributes of the message at `o` stand, behind a header of `hdr` bytes. -/
def attributes (m : Mem) (o hdr : ℕ) : List ℕ :=
  rtattr.offsets m (o + hdr) (nlmsg_len m o - hdr)

/-- The attributes lie in the message, one after the other, and are those that were encoded. -/
structure AttributesOf (m : Mem) (o hdr : ℕ) (offs : List ℕ) : Prop where
  inside : ∀ p ∈ offs, o + hdr ≤ p ∧ 4 ≤ rta_len m p ∧ p + rta_len m p ≤ o + nlmsg_len m o
  apart : offs.Pairwise fun p q => p + rta_len m p ≤ q
  encoded : ∀ as : List Rta, nlmsg_len m o = hdr + (Format.encode as).length →
    slice m (o + hdr) (Format.encode as).length = Format.encode as →
      List.Forall₂ (Format.Holds m) offs as

theorem attributes_of {hdr : ℕ} : AttributesOf m o hdr (attributes m o hdr) where
  inside := by
    intro p hp
    obtain ⟨h1, h2, h3⟩ := Format.offsets_bounds _ _ p hp
    have hh : rtattr.hdr = 4 := rfl
    rw [rtattr_lenAt] at h2 h3
    by_cases hle : hdr ≤ nlmsg_len m o
    · exact ⟨h1, by omega, by omega⟩
    · rw [attributes, Format.offsets_of_lt (by omega)] at hp
      cases hp
  apart := by
    refine (Format.offsets_pairwise _ _).imp fun {p q} h => ?_
    have := rtattr.le_pad (rta_len m p)
    rw [rtattr_lenAt] at h
    omega
  encoded := by
    intro as hlen hslice
    rw [attributes, hlen, Nat.add_sub_cancel_left]
    exact Format.offsets_encode as _ hslice

/-- The attributes behind the first `n` bytes of a complete message are the ones that are met. -/
theorem Msg.attributes_of_holds {f : Msg} {n : ℕ} {as : List Rta} (h : Format.Holds m o f)
    (hn : n ≤ f.bytes.length) (hb : f.bytes.drop n = Format.encode as) :
    nlmsg_len m o = f.bytes.length ∧
      slice m (o + n) (Format.encode as).length = Format.encode as ∧
      List.Forall₂ (Format.Holds m) (attributes m o n) as := by
  have hlen : nlmsg_len m o = f.bytes.length := by rw [← netlink_lenAt, h.lenAt]
  have henc : (Format.encode as).length = f.bytes.length - n := by rw [← hb, List.length_drop]
  have hslice : slice m (o + n) (Format.encode as).length = Format.encode as := by
    have hs : slice m o (n + (f.bytes.length - n)) = f.bytes := by
      rw [show n + (f.bytes.length - n) = f.bytes.length by omega]
      exact h
    rw [slice_append] at hs
    have hd := congrArg (List.drop n) hs
    rwa [List.drop_left' (slice_length n), hb, ← henc] at hd
  exact ⟨hlen, hslice, attributes_of.encoded as (by omega) hslice⟩

/-! ## The walk over a payload -/

theorem rta_walk_int {σ ρ : Type*} {body : ℕ → σ → σ × Option ρ} {fuel : ℕ} {len : ℤ}
    (hl : len < 2 ^ 31 - 4) (hf : len.toNat < fuel) (s : σ) :
    forLoop (fun t => RTA_OK m t.1 t.2) (RTA_NEXT i32 m) (fun t s => body t.1 s) fuel (o, len) s
      = (foldBrk body (rtattr.offsets m o len.toNat) s).map id Exit.ofBrk := by
  by_cases h4 : -4 < len
  · exact rta_walk ⟨h4, hl⟩ hf s
  · obtain ⟨n, rfl⟩ : ∃ n, fuel = n + 1 := ⟨fuel - 1, by omega⟩
    have hn : ¬ rtattr.Ok m o len.toNat := fun h => by
      have hh : rtattr.hdr = 4 := rfl
      have := h.1
      omega
    have hof : RTA_OK m o len = false := by
      rw [← Bool.not_eq_true, RTA_OK_iff]
      exact hn
    rw [forLoop, hof, Format.offsets_of_not_ok hn]
    rfl

theorem payload_walk {hdr fuel : ℕ} (h : nlmsg_len m o < 2 ^ 31 - 4) (hf : nlmsg_len m o < fuel)
    (hh : hdr ≤ 4096) :
    walk_attributes fuel m (o + hdr) (i32 ((nlmsg_len m o : ℤ) - hdr)) =
      (attributes m o hdr, .done) := by
  have hi : i32 ((nlmsg_len m o : ℤ) - hdr) = (nlmsg_len m o : ℤ) - hdr :=
    i32_of_mem (by omega) (by omega)
  have hn : ((nlmsg_len m o : ℤ) - hdr).toNat = nlmsg_len m o - hdr := by omega
  refine (@rta_walk_int m (o + hdr) _ Unit (fun t l => (l ++ [t], none)) fuel _ ?_ ?_ []).trans ?_
  · omega
  · omega
  · rw [hi, hn, foldBrk_collect]
    rfl

/-! ## The three loops -/

def newaddr_walk (fuel : ℕ) (m : Mem) (o : ℕ) : List ℕ × Exit Unit :=
  walk_attributes fuel m (IFA_RTA (NLMSG_DATA o)) (i32 (NLMSG_PAYLOAD m o 8))

def newlink_walk (fuel : ℕ) (m : Mem) (o : ℕ) : List ℕ × Exit Unit :=
  walk_attributes fuel m (IFLA_RTA (NLMSG_DATA o)) (i32 (NLMSG_PAYLOAD m o 16))

def print_link_walk (fuel : ℕ) (m : Mem) (o : ℕ) : List ℕ × Exit Unit :=
  walk_attributes fuel m (IFLA_RTA (NLMSG_DATA o)) (i32 (nlmsg_len m o - NLMSG_LENGTH 16))

/-- What `RTM_NEWADDR_Check` prints, with what its loop left. -/
def newaddr_lines (m : Mem) (o : ℕ) (s : NewAddr) : List Ev :=
  let ifa := ifaddrmsg.at m (NLMSG_DATA o)
  [.printf "RTM_NEWADDR_Check\n" [],
    .printf "RTM_NEWADDR_Check : %s %s index=%d fam=%d prefixlen=%d flags=%d scope=%d\n"
      [.str "ProcessInterfaceWatchNotify", .str "RTM_NEWADDR", .int (i32 ifa.ifa_index),
        .int ifa.ifa_family, .int ifa.ifa_prefixlen, .int ifa.ifa_flags, .int ifa.ifa_scope]] ++
    s.out ++ [.printf "RTM_NEWADDR_Check : OUT %s: %s/%d %s\n"
      [.str "RTM_NEWADDR", s.address, .int ifa.ifa_prefixlen, s.ifname]]

/-- What `RTM_NEWLINK_Check` prints, with the lines of the attributes. -/
def newlink_lines (g : Globals) (vIfi_flags : ℕ) (info : ifinfomsg) (attrs : List Ev) : List Ev :=
  [.printf "\n RTM_NEWLINK_Check \n" [],
    .printf "\t %-15s : %10d %s\n" [.str "ifi_family", .int info.ifi_family,
      .str (ArrayFindItem g.gArrayFamily info.ifi_family)],
    .printf "\t %-15s : %10d \n" [.str "ifi_index", .int info.ifi_index],
    .printf "\t %-15s : %10d \n" [.str "ifi_type", .int info.ifi_type],
    .printf "\t %-15s : %10d \n" [.str "ifi_change", .int (i32 info.ifi_change)],
    .printf "\t %-30s : %10d \n" [.str "ifi_flags", .int (i32 info.ifi_flags)]] ++
  checkedFlags.flatMap (check_flag info.ifi_flags vIfi_flags) ++
  [.printf "\n" []] ++ attrs ++ [.printf "RTM_NEWLINK_Check\n" []]

/-- What `rtnl_print_link` prints of one attribute. -/
def print_link_attribute (m : Mem) (o p : ℕ) : List Ev :=
  if rta_type m p = IFLA_IFNAME then
    [.printf "rtnl_print_link : IFLA_IFNAME =  %d : %s ifi_flags =0x%X\n"
      [.int (ifinfomsg.at m (NLMSG_DATA o)).ifi_index,
        .bytes (cstr m (RTA_DATA p) (BUFLEN - RTA_DATA p)),
        .int (ifinfomsg.at m (NLMSG_DATA o)).ifi_flags]]
  else []

section Loops

variable (g : Globals) (c : Libc) (fuel vIfi_flags : ℕ) (m : Mem) (o : ℕ)

theorem rta_loop_foldl {σ : Type} (f : σ → ℕ → σ) (len : ℤ) (s : σ) :
    (forLoop (fun t => RTA_OK m t.1 t.2) (RTA_NEXT i32 m)
      (fun t s => (f s t.1, (none : Option Unit))) fuel (o, len) s).1 =
    (walk_attributes fuel m o len).1.foldl f s :=
  forLoop_foldl Prod.fst f s fuel (o, len) []

theorem RTM_NEWADDR_Check_eq : RTM_NEWADDR_Check g c fuel m o =
    newaddr_lines m o ((newaddr_walk fuel m o).1.foldl
      (fun s p => newaddr_attribute g c (ifaddrmsg.at m (NLMSG_DATA o)).ifa_family m p s)
      ⟨.str "", .str "", []⟩) :=
  congrArg (newaddr_lines m o) (rta_loop_foldl fuel m _
    (fun s p => newaddr_attribute g c (ifaddrmsg.at m (NLMSG_DATA o)).ifa_family m p s) _ _)

theorem RTM_NEWLINK_Check_eq : RTM_NEWLINK_Check g c fuel vIfi_flags m o =
    ((ifinfomsg.at m (NLMSG_DATA o)).ifi_flags,
      newlink_lines g vIfi_flags (ifinfomsg.at m (NLMSG_DATA o)) ((newlink_walk fuel m o).1.flatMap
        (newlink_attribute g c (ifinfomsg.at m (NLMSG_DATA o)).ifi_family m))) := by
  rw [List.flatMap_eq_foldl]
  exact congrArg (fun attrs => ((ifinfomsg.at m (NLMSG_DATA o)).ifi_flags,
    newlink_lines g vIfi_flags (ifinfomsg.at m (NLMSG_DATA o)) attrs))
    (rta_loop_foldl fuel m _ (fun out p => out ++
      newlink_attribute g c (ifinfomsg.at m (NLMSG_DATA o)).ifi_family m p) _ [])

theorem rtnl_print_link_eq : rtnl_print_link fuel m o =
    (print_link_walk fuel m o).1.flatMap (print_link_attribute m o) := by
  rw [List.flatMap_eq_foldl]
  refine Eq.trans ?_ (rta_loop_foldl fuel m _ (fun out p => out ++ print_link_attribute m o p) _ [])
  unfold rtnl_print_link print_link_attribute
  dsimp only
  congr 2
  funext t out
  split_ifs
  · rfl
  · rw [List.append_nil]

variable {fuel m o}

theorem newaddr_walk_eq (h : nlmsg_len m o < 2 ^ 31 - 4) (hf : nlmsg_len m o < fuel) :
    newaddr_walk fuel m o = (attributes m o (NLMSG_LENGTH 8), .done) := by
  rw [newaddr_walk, NLMSG_PAYLOAD, i32_u64]
  exact @payload_walk m o 24 fuel h hf (by omega)

theorem newlink_walk_eq (h : nlmsg_len m o < 2 ^ 31 - 4) (hf : nlmsg_len m o < fuel) :
    newlink_walk fuel m o = (attributes m o (NLMSG_LENGTH 16), .done) := by
  rw [newlink_walk, NLMSG_PAYLOAD, i32_u64]
  exact @payload_walk m o 32 fuel h hf (by omega)

theorem print_link_walk_eq (h : nlmsg_len m o < 2 ^ 31 - 4) (hf : nlmsg_len m o < fuel) :
    print_link_walk fuel m o = (attributes m o (NLMSG_LENGTH 16), .done) :=
  @payload_walk m o 32 fuel h hf (by omega)

/-- The loops end, and what they print is what they make of the attributes of the message. -/
theorem attribute_loops (h : nlmsg_len m o ≤ 4096) :
    (∃ offs, AttributesOf m o (NLMSG_LENGTH 8) offs ∧ ∀ fuel > BUFLEN,
      newaddr_walk fuel m o = (offs, .done) ∧
      RTM_NEWADDR_Check g c fuel m o = newaddr_lines m o (offs.foldl
        (fun s p => newaddr_attribute g c (ifaddrmsg.at m (NLMSG_DATA o)).ifa_family m p s)
        ⟨.str "", .str "", []⟩)) ∧
    (∃ offs, AttributesOf m o (NLMSG_LENGTH 16) offs ∧ ∀ fuel > BUFLEN,
      newlink_walk fuel m o = (offs, .done) ∧
      (RTM_NEWLINK_Check g c fuel vIfi_flags m o).2 =
        newlink_lines g vIfi_flags (ifinfomsg.at m (NLMSG_DATA o)) (offs.flatMap
          (newlink_attribute g c (ifinfomsg.at m (NLMSG_DATA o)).ifi_family m))) ∧
    ∃ offs, AttributesOf m o (NLMSG_LENGTH 16) offs ∧ ∀ fuel > BUFLEN,
      print_link_walk fuel m o = (offs, .done) ∧
      rtnl_print_link fuel m o = offs.flatMap (print_link_attribute m o) := by
  have hb : BUFLEN = 4096 := rfl
  refine ⟨⟨_, attributes_of, fun fuel hf => ?_⟩, ⟨_, attributes_of, fun fuel hf => ?_⟩,
    ⟨_, attributes_of, fun fuel hf => ?_⟩⟩
  · have hw := @newaddr_walk_eq fuel m o (by omega) (by omega)
    refine ⟨hw, ?_⟩
    rw [RTM_NEWADDR_Check_eq, hw]
  · have hw := @newlink_walk_eq fuel m o (by omega) (by omega)
    refine ⟨hw, ?_⟩
    rw [RTM_NEWLINK_Check_eq, hw]
  · have hw := @print_link_walk_eq fuel m o (by omega) (by omega)
    refine ⟨hw, ?_⟩
    rw [rtnl_print_link_eq, hw]

end Loops

theorem rtattr_hdr_le_eight : rtattr.hdr ≤ 8 := Nat.le_add_left 4 4

theorem rtattr_pad_eight : 8 = rtattr.pad 8 := rfl

/-- An attribute with an address. -/
def Rta.inet (type host : UInt8) : Rta where
  bytes := [8, 0, type, 0, 192, 168, 1, host]
  padding := []
  long := rtattr_hdr_le_eight
  len_eq := rfl
  padded := rtattr_pad_eight

/-- An attribute with a name, `IFA_LABEL` or `IFLA_IFNAME`. -/
def Rta.name : Rta where
  bytes := [9, 0, 3, 0, 101, 116, 104, 48, 0]
  padding := [0, 0, 0]
  long := Nat.le_add_left 4 5
  len_eq := rfl
  padded := by simp [rtattr, Format.pad]

/-- The message of an address with these attributes. -/
def addrMsgOf (len : UInt8) (as : List Rta) : Mem :=
  ofList ([len, 0, 0, 0, 20, 0, 0, 0, 0, 0, 0, 0, 0, 0, 0, 0, 2, 24, 0, 0, 3, 0, 0, 0] ++
    Format.encode as)

theorem addressMsg_loops : nlmsg_len (addrMsgOf 44 [.name, .inet 2 2]) 0 ≤ 4096 ∧
    ∃ offs, AttributesOf (addrMsgOf 44 [.name, .inet 2 2]) 0 (NLMSG_LENGTH 8) offs ∧
      ∀ fuel > BUFLEN, newaddr_walk fuel (addrMsgOf 44 [.name, .inet 2 2]) 0 = (offs, .done) := by
  have h : nlmsg_len (addrMsgOf 44 [.name, .inet 2 2]) 0 ≤ 4096 := by decide
  obtain ⟨⟨offs, ha, hw⟩, -⟩ := attribute_loops .empty Libc.bare 0 h
  exact ⟨h, offs, ha, fun fuel hf => (hw fuel hf).1⟩

end NetTool

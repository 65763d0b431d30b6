import Mathlib.Data.List.TakeWhile
import NetTool.Proofs.Attributes

/-!
# What `RTM_NEWADDR_Check` prints

The closing line has the address and the name that the loop assigned last (`newaddr_fold`), and
every attribute with an address assigns the address. The line of an attribute is read from as many
bytes as its type has, whatever its length.
-/

namespace NetTool

open Bytes CInt Frames Loop

/-- `inet_ntop` gives the addresses of a family different texts, and none an empty one. -/
structure Libc.NtopFaithful (c : Libc) : Prop where
  inj : ∀ a b : List UInt8, a.length = 4 ∨ a.length = 16 → b.length = a.length →
    c.ntop a = c.ntop b → a = b
  ne : ∀ a : List UInt8, a.length = 4 ∨ a.length = 16 → c.ntop a ≠ ""

/-- The size of an address of the family. -/
def addrSize (family : ℕ) : ℕ := if family = AF_INET then 4 else 16

/-- The attribute has an address. -/
def Rta.isAddress (a : Rta) : Bool :=
  a.type = IFA_ADDRESS ∨ a.type = IFA_LOCAL ∨ a.type = IFA_BROADCAST ∨ a.type = IFA_ANYCAST

section Attribute

variable {g : Globals} {c : Libc} {m m' : Mem} {p p' family : ℕ} {a : Rta}

theorem slice_of_holds (h : Format.Holds m p a) {n : ℕ} (hn : n ≤ a.payload.length) :
    slice m (RTA_DATA p) n = a.payload.take n := by
  rw [← Rta.payload_of_holds h, take_slice hn]

/-- The text of an address that is as long as its family's. -/
theorem inet_ntop_of_whole (h : Format.Holds m p a) (hf : family = AF_INET ∨ family = AF_INET6)
    (hl : a.payload.length = addrSize family) :
    c.inet_ntop family m (RTA_DATA p) = some (c.ntop a.payload) := by
  have hs := Rta.payload_of_holds h
  rw [hl] at hs
  rw [← hs]
  rcases hf with rfl | rfl <;> rfl

theorem isAddress_iff : a.isAddress = true ↔ a.type = IFA_ADDRESS ∨ a.type = IFA_LOCAL ∨
    a.type = IFA_BROADCAST ∨ a.type = IFA_ANYCAST := by
  simp [Rta.isAddress]

theorem addr_text_of_address {n : ℕ} (h : Format.Holds m p a) (ha : a.isAddress = true)
    (hn : family = AF_INET ∧ n = 4 ∨ family = AF_INET6 ∧ n = 16) :
    addr_text g c family m p = .str (c.ntop (slice m (RTA_DATA p) n)) := by
  unfold addr_text Libc.inet_ntop
  dsimp only
  rw [Rta.type_of_holds h, if_pos (isAddress_iff.1 ha)]
  rcases hn with ⟨rfl, rfl⟩ | ⟨rfl, rfl⟩ <;> rfl

/-- An address of the family's size is printed as its text. -/
theorem addr_text_of_whole (h : Format.Holds m p a) (ha : a.isAddress = true)
    (hf : family = AF_INET ∨ family = AF_INET6) (hl : a.payload.length = addrSize family) :
    addr_text g c family m p = .str (c.ntop a.payload) := by
  have hfam : family = AF_INET ∧ addrSize family = 4 ∨
      family = AF_INET6 ∧ addrSize family = 16 := by
    rcases hf with rfl | rfl
    · exact .inl ⟨rfl, rfl⟩
    · exact .inr ⟨rfl, rfl⟩
  rw [addr_text_of_address h ha hfam, ← hl, Rta.payload_of_holds h]

theorem ne_label_of_isAddress (ha : a.isAddress = true) : a.type ≠ IFA_LABEL := by
  rcases isAddress_iff.1 ha with h | h | h | h <;> rw [h] <;>
    simp [IFA_ADDRESS, IFA_LOCAL, IFA_BROADCAST, IFA_ANYCAST, IFA_LABEL]

theorem addr_text_of_label (h : Format.Holds m p a) (hl : a.type = IFA_LABEL) :
    addr_text g c family m p = .bytes (strncpy_text g .tmp 128 (cstr m (RTA_DATA p) 128)) := by
  unfold addr_text
  dsimp only
  rw [Rta.type_of_holds h, hl]
  rfl

theorem addr_text_of_cacheinfo (h : Format.Holds m p a) (hl : a.type = IFA_CACHEINFO) :
    addr_text g c family m p = .str ("valid=" ++ toString (get32 m (RTA_DATA p + 4)) ++
      " prefered=" ++ toString (get32 m (RTA_DATA p))) := by
  unfold addr_text
  dsimp only
  rw [Rta.type_of_holds h, hl]
  rfl

/-! ## The closing line -/

/-- The variables that an attribute assigns. -/
theorem newaddr_attribute_of_holds (h : Format.Holds m p a)
    (hf : family = AF_INET ∨ family = AF_INET6)
    (haddr : a.isAddress = true → a.payload.length = addrSize family)
    (hlabel : a.type = IFA_LABEL → ∃ k < 16, a.payload[k]? = some 0) (s : NewAddr) :
    (newaddr_attribute g c family m p s).address =
        (if a.isAddress then .str (c.ntop a.payload) else s.address) ∧
      (newaddr_attribute g c family m p s).ifname =
        if a.type = IFA_LABEL then .bytes (a.payload.takeWhile (· ≠ 0)) else s.ifname := by
  have ht := Rta.type_of_holds h
  unfold newaddr_attribute
  dsimp only
  rw [ht]
  by_cases ha : a.isAddress = true
  · rw [if_pos (isAddress_iff.1 ha), if_pos ha, if_neg (ne_label_of_isAddress ha),
      addr_text_of_whole h ha hf (haddr ha)]
    exact ⟨rfl, rfl⟩
  · rw [if_neg (mt isAddress_iff.2 ha), if_neg ha]
    split_ifs with hl
    · obtain ⟨k, hk, h0⟩ := hlabel hl
      rw [Rta.strncpy_text_of_holds h h0 hk (by omega)]
      exact ⟨rfl, rfl⟩
    · exact ⟨rfl, rfl⟩

end Attribute

/-- An address message with these attributes, each of another type, whose addresses are of the
family and whose name ends before the 16th byte. -/
structure AddrMsg (m : Mem) (o : ℕ) (as : List Rta) : Prop where
  len : nlmsg_len m o = NLMSG_LENGTH 8 + (Format.encode as).length
  short : nlmsg_len m o < 2 ^ 31 - 4
  attrs : slice m (o + NLMSG_LENGTH 8) (Format.encode as).length = Format.encode as
  family : (ifaddrmsg.at m (NLMSG_DATA o)).ifa_family = AF_INET ∨
    (ifaddrmsg.at m (NLMSG_DATA o)).ifa_family = AF_INET6
  addresses : ∀ a ∈ as, a.isAddress = true →
    a.payload.length = addrSize (ifaddrmsg.at m (NLMSG_DATA o)).ifa_family
  labels : ∀ a ∈ as, a.type = IFA_LABEL → ∃ k < 16, a.payload[k]? = some 0
  once : (as.map Rta.type).Nodup

/-- What is to be printed in the end. -/
def out_line (c : Libc) (m : Mem) (o : ℕ) (as : List Rta) : Ev :=
  .printf "RTM_NEWADDR_Check : OUT %s: %s/%d %s\n" [.str "RTM_NEWADDR",
    .str (((as.find? fun a => a.type = IFA_ADDRESS).map fun a => c.ntop a.payload).getD ""),
    .int (ifaddrmsg.at m (NLMSG_DATA o)).ifa_prefixlen,
    ((as.find? fun a => a.type = IFA_LABEL).map
      fun a => Arg.bytes (a.payload.takeWhile (· ≠ 0))).getD (.str "")]

/-- An attribute type that occurs at most once is found wherever it stands. -/
theorem getLast?_filter_type {t : ℕ} : ∀ {as : List Rta}, (as.map Rta.type).Nodup →
    (as.filter fun a => a.type = t).getLast? = as.find? fun a => a.type = t
  | [], _ => rfl
  | a :: as, h => by
    obtain ⟨hn, h⟩ := List.nodup_cons.1 h
    have ih := getLast?_filter_type (t := t) h
    rw [List.filter_cons, List.find?_cons]
    by_cases ht : a.type = t
    · have hnil : (as.filter fun a => a.type = t) = [] := by
        rw [List.filter_eq_nil_iff]
        intro b hb hbt
        refine hn ?_
        rw [ht, ← of_decide_eq_true hbt]
        exact List.mem_map_of_mem hb
      simp [ht, hnil]
    · simpa [ht] using ih

section Line

variable {g : Globals} {c : Libc} {m : Mem} {o family fuel : ℕ} {as : List Rta} {ps : List ℕ}

/-- What the loop leaves in its variables. -/
theorem newaddr_fold (h : List.Forall₂ (Format.Holds m) ps as)
    (hf : family = AF_INET ∨ family = AF_INET6)
    (haddr : ∀ a ∈ as, a.isAddress = true → a.payload.length = addrSize family)
    (hlabel : ∀ a ∈ as, a.type = IFA_LABEL → ∃ k < 16, a.payload[k]? = some 0) : ∀ s : NewAddr,
      (ps.foldl (fun s p => newaddr_attribute g c family m p s) s).address =
          as.foldl (fun x a => if a.isAddress then .str (c.ntop a.payload) else x) s.address ∧
        (ps.foldl (fun s p => newaddr_attribute g c family m p s) s).ifname =
          as.foldl (fun x a => if decide (a.type = IFA_LABEL) then
            .bytes (a.payload.takeWhile (· ≠ 0)) else x) s.ifname := by
  induction h with
  | nil => exact fun s => ⟨rfl, rfl⟩
  | @cons p a ps as hp _ ih =>
    intro s
    obtain ⟨h1, h2⟩ := newaddr_attribute_of_holds (g := g) (c := c) hp hf
      (haddr a List.mem_cons_self) (hlabel a List.mem_cons_self) s
    obtain ⟨h3, h4⟩ := ih (fun b hb => haddr b (List.mem_cons_of_mem _ hb))
      (fun b hb => hlabel b (List.mem_cons_of_mem _ hb)) (newaddr_attribute g c family m p s)
    simp only [List.foldl_cons, h3, h4, h1, h2, decide_eq_true_eq, and_self]

/-- The closing line shows the last address of all. -/
theorem newaddr_out (h : AddrMsg m o as) (hf : nlmsg_len m o < fuel) :
    (RTM_NEWADDR_Check g c fuel m o).getLast? =
      some (.printf "RTM_NEWADDR_Check : OUT %s: %s/%d %s\n" [.str "RTM_NEWADDR",
        .str (((as.filter Rta.isAddress).getLast?.map fun a => c.ntop a.payload).getD ""),
        .int (ifaddrmsg.at m (NLMSG_DATA o)).ifa_prefixlen,
        ((as.find? fun a => a.type = IFA_LABEL).map
          fun a => Arg.bytes (a.payload.takeWhile (· ≠ 0))).getD (.str "")]) := by
  have hholds := attributes_of.encoded as h.len h.attrs
  obtain ⟨h1, h2⟩ := newaddr_fold (g := g) (c := c) hholds h.family h.addresses h.labels
    ⟨.str "", .str "", []⟩
  rw [RTM_NEWADDR_Check_eq, newaddr_walk_eq h.short hf]
  unfold newaddr_lines
  dsimp only
  rw [List.getLast?_concat, h1, h2, foldl_last, foldl_last, getLast?_filter_type h.once]
  congr 5
  rcases (as.filter Rta.isAddress).getLast? with _ | a <;> rfl

theorem addrSize_cases (family : ℕ) : addrSize family = 4 ∨ addrSize family = 16 := by
  unfold addrSize
  split_ifs
  · exact .inl rfl
  · exact .inr rfl

/-- Texts tell addresses of a family apart, and from none. -/
theorem text_eq_iff (hn : c.NtopFaithful) {x y : Option Rta}
    (hx : ∀ a ∈ x, a.payload.length = addrSize family)
    (hy : ∀ a ∈ y, a.payload.length = addrSize family) :
    ((x.map fun a => c.ntop a.payload).getD "" = (y.map fun a => c.ntop a.payload).getD "") ↔
      x.map Rta.payload = y.map Rta.payload := by
  have hs := addrSize_cases family
  rcases x with _ | a
  · rcases y with _ | b
    · simp
    · have hb := hn.ne b.payload (by rwa [hy b rfl])
      simp [hb.symm]
  · have ha := hn.ne a.payload (by rwa [hx a rfl])
    rcases y with _ | b
    · simp [ha]
    · simp only [Option.map_some, Option.getD_some, Option.some.injEq]
      refine ⟨fun h => hn.inj _ _ (by rwa [hx a rfl]) ?_ h, fun h => by rw [h]⟩
      rw [hy b rfl, hx a rfl]

/-- The closing line is right exactly when the last attribute with an address has the bytes of
`IFA_ADDRESS`, or there is none. -/
theorem newaddr_out_iff (hn : c.NtopFaithful) (h : AddrMsg m o as) (hf : nlmsg_len m o < fuel) :
    (RTM_NEWADDR_Check g c fuel m o).getLast? = some (out_line c m o as) ↔
      (as.filter Rta.isAddress).getLast?.map Rta.payload =
        (as.find? fun a => a.type = IFA_ADDRESS).map Rta.payload := by
  have hlast : ∀ a ∈ (as.filter Rta.isAddress).getLast?,
      a.payload.length = addrSize (ifaddrmsg.at m (NLMSG_DATA o)).ifa_family := by
    intro a ha
    obtain ⟨hm, haddr⟩ := List.mem_filter.1 (List.mem_of_getLast? ha)
    exact h.addresses a hm haddr
  have hfind : ∀ a ∈ as.find? fun a => a.type = IFA_ADDRESS,
      a.payload.length = addrSize (ifaddrmsg.at m (NLMSG_DATA o)).ifa_family := by
    intro a ha
    have ht : a.type = IFA_ADDRESS := by simpa using List.find?_some ha
    exact h.addresses a (List.mem_of_find?_eq_some ha) (by simp [Rta.isAddress, ht])
  rw [newaddr_out h hf, out_line, ← text_eq_iff hn hlast hfind]
  simp

end Line

/-- A library that knows the texts of two addresses. -/
def Libc.texts : Libc :=
  { Libc.bare with
    ntop := fun a =>
      if a = [192, 168, 1, 2] then "192.168.1.2"
      else if a = [192, 168, 1, 255] then "192.168.1.255"
      else String.ofList (a.map fun b => Char.ofNat b.toNat) }

theorem char_of_byte_toNat (b : UInt8) : (Char.ofNat b.toNat).toNat = b.toNat := by
  have hb := b.toNat_lt
  have hvalid : b.toNat.isValidChar := .inl (by omega)
  rw [Char.ofNat, dif_pos hvalid]
  rfl

theorem char_of_byte_injective : Function.Injective fun b : UInt8 => Char.ofNat b.toNat := by
  intro a b h
  have ht := congrArg Char.toNat h
  rw [char_of_byte_toNat, char_of_byte_toNat] at ht
  exact UInt8.toNat_inj.1 ht

theorem texts_length (a : List UInt8) : (Libc.texts.ntop a).length =
    if a = [192, 168, 1, 2] then 11 else if a = [192, 168, 1, 255] then 13 else a.length := by
  unfold Libc.texts
  dsimp only
  split_ifs
  · rfl
  · rfl
  · simp

theorem texts_ntopFaithful : Libc.texts.NtopFaithful where
  inj := by
    intro a b ha hb h
    have hl := congrArg String.length h
    rw [texts_length, texts_length] at hl
    split_ifs at hl with h1 h2 h3 h4 h5 h6
    · rw [h1, h2]
    · omega
    · omega
    · omega
    · rw [h4, h6]
    · omega
    · omega
    · omega
    · simp only [Libc.texts, *, if_false] at h
      exact List.map_injective_iff.2 char_of_byte_injective (String.ofList_injective h)
  ne := by
    intro a ha h
    have hl := congrArg String.length h
    rw [texts_length] at hl
    split_ifs at hl
    · cases hl
    · cases hl
    · rw [String.length_empty] at hl
      omega

theorem localFirst_addrMsg : AddrMsg (addrMsgOf 52 [.inet 2 2, .inet 1 2, .name]) 0
    [.inet 2 2, .inet 1 2, .name] := by
  refine ⟨by decide, by decide, by decide, by decide, by decide, ?_, by decide⟩
  simp only [List.forall_mem_cons]
  refine ⟨fun h => absurd h (by decide), fun h => absurd h (by decide), fun _ => ?_, by simp⟩
  exact ⟨4, by omega, by decide⟩

theorem localFirst_out_right : Libc.texts.NtopFaithful ∧
    AddrMsg (addrMsgOf 52 [.inet 2 2, .inet 1 2, .name]) 0 [.inet 2 2, .inet 1 2, .name] ∧
    nlmsg_len (addrMsgOf 52 [.inet 2 2, .inet 1 2, .name]) 0 < 53 ∧
    (RTM_NEWADDR_Check .empty Libc.texts 53 (addrMsgOf 52 [.inet 2 2, .inet 1 2, .name])
      0).getLast? = some (out_line Libc.texts (addrMsgOf 52 [.inet 2 2, .inet 1 2, .name]) 0
        [.inet 2 2, .inet 1 2, .name]) := by
  have hf : nlmsg_len (addrMsgOf 52 [.inet 2 2, .inet 1 2, .name]) 0 < 53 := by decide
  exact ⟨texts_ntopFaithful, localFirst_addrMsg, hf,
    (newaddr_out_iff texts_ntopFaithful localFirst_addrMsg hf).2 (by decide)⟩

theorem kernelOrder_addrMsg : AddrMsg (addrMsgOf 60 [.inet 1 2, .inet 2 2, .inet 4 255, .name]) 0
    [.inet 1 2, .inet 2 2, .inet 4 255, .name] := by
  refine ⟨by decide, by decide, by decide, by decide, by decide, ?_, by decide⟩
  simp only [List.forall_mem_cons]
  refine ⟨fun h => absurd h (by decide), fun h => absurd h (by decide),
    fun h => absurd h (by decide), fun _ => ?_, by simp⟩
  exact ⟨4, by omega, by decide⟩

/-- In the order of the kernel `IFA_BROADCAST` stands behind `IFA_ADDRESS`. -/
theorem kernelOrder_out_wrong : (RTM_NEWADDR_Check .empty Libc.texts 61
    (addrMsgOf 60 [.inet 1 2, .inet 2 2, .inet 4 255, .name]) 0).getLast? ≠
      some (out_line Libc.texts (addrMsgOf 60 [.inet 1 2, .inet 2 2, .inet 4 255, .name]) 0
        [.inet 1 2, .inet 2 2, .inet 4 255, .name]) := by
  have hlast : ([Rta.inet 1 2, .inet 2 2, .inet 4 255, .name].filter Rta.isAddress).getLast? =
      some (.inet 4 255) := rfl
  have hfind : ([Rta.inet 1 2, .inet 2 2, .inet 4 255, .name].find?
      fun a => a.type = IFA_ADDRESS) = some (.inet 1 2) := rfl
  rw [newaddr_out kernelOrder_addrMsg (by decide), out_line, hlast, hfind]
  simp [Libc.texts, Rta.payload, Rta.inet]

/-! ## The line of an attribute -/

/-- What is printed for an attribute in a message of the family, wherever it stands. -/
def PrintsFor (g : Globals) (c : Libc) (family : ℕ) (a : Rta) (e : Option Ev) : Prop :=
  ∃ fuel m o k p, (ifaddrmsg.at m (NLMSG_DATA o)).ifa_family = family ∧
    (newaddr_walk fuel m o).1[k]? = some p ∧ Format.Holds m p a ∧
    (RTM_NEWADDR_Check g c fuel m o)[k + 2]? = e

/-- What is printed for an attribute rests on the family and the attribute's own bytes. -/
def OwnText (c : Libc) (family : ℕ) (a : Rta) : Prop :=
  ∀ g g' e e', g.gArray_IFA_Type = g'.gArray_IFA_Type →
    PrintsFor g c family a e → PrintsFor g' c family a e' → e = e'

/-- The attribute has all that is read for its type. -/
structure FitsType (family : ℕ) (a : Rta) : Prop where
  inet : a.isAddress = true → family = AF_INET → 4 ≤ a.payload.length
  inet6 : a.isAddress = true → family = AF_INET6 → 16 ≤ a.payload.length
  label : a.type = IFA_LABEL → ∃ k < 128, a.payload[k]? = some 0
  cacheinfo : a.type = IFA_CACHEINFO → 8 ≤ a.payload.length

/-- The line of the attribute at `p`. -/
def addr_line (g : Globals) (c : Libc) (family : ℕ) (m : Mem) (p : ℕ) : Ev :=
  .printf "RTM_NEWADDR_Check : Attribut rta_type=%d-%s '%s' rta_len=%d \n"
    [.int (rta_type m p), .str (getIFA_Type g (rta_type m p)), addr_text g c family m p,
      .int (rta_len m p)]

section Lines

variable {g g' : Globals} {c : Libc} {m m' : Mem} {p p' o k fuel family : ℕ} {a : Rta}

theorem newaddr_attribute_out (s : NewAddr) :
    (newaddr_attribute g c family m p s).out = s.out ++ [addr_line g c family m p] := by
  unfold newaddr_attribute addr_line
  dsimp only
  split_ifs <;> rfl

theorem newaddr_foldl_out : ∀ (ps : List ℕ) (s : NewAddr),
    (ps.foldl (fun s p => newaddr_attribute g c family m p s) s).out =
      s.out ++ ps.map (addr_line g c family m)
  | [], s => (List.append_nil _).symm
  | p :: ps, s => by
    rw [List.foldl_cons, newaddr_foldl_out ps, newaddr_attribute_out, List.append_assoc]
    rfl

/-- Behind the two lines of the header there is one line for every attribute. -/
theorem RTM_NEWADDR_Check_line (h : (newaddr_walk fuel m o).1[k]? = some p) :
    (RTM_NEWADDR_Check g c fuel m o)[k + 2]? =
      some (addr_line g c (ifaddrmsg.at m (NLMSG_DATA o)).ifa_family m p) := by
  rw [RTM_NEWADDR_Check_eq]
  unfold newaddr_lines
  dsimp only
  rw [newaddr_foldl_out, List.nil_append, List.append_assoc, List.cons_append, List.cons_append,
    List.nil_append, List.getElem?_cons_succ, List.getElem?_cons_succ, List.getElem?_append_left,
    List.getElem?_map, h]
  · rfl
  · rw [List.length_map]
    exact (List.getElem?_eq_some_iff.1 h).1

/-- An attribute that has all that is read is printed by its own bytes. -/
theorem addr_text_of_fits (h : Format.Holds m p a) (h' : Format.Holds m' p' a)
    (hfit : FitsType family a) : addr_text g c family m p = addr_text g' c family m' p' := by
  unfold addr_text
  dsimp only
  rw [Rta.type_of_holds h, Rta.type_of_holds h']
  split_ifs with haddr hlabel hcache
  · have ha := isAddress_iff.2 haddr
    unfold Libc.inet_ntop
    split_ifs with h4 h6
    · rw [slice_of_holds h (hfit.inet ha h4), slice_of_holds h' (hfit.inet ha h4)]
    · rw [slice_of_holds h (hfit.inet6 ha h6), slice_of_holds h' (hfit.inet6 ha h6)]
    · rfl
  · obtain ⟨k, hk, h0⟩ := hfit.label hlabel
    rw [Rta.strncpy_text_of_holds h h0 hk hk, Rta.strncpy_text_of_holds h' h0 hk hk]
  · have h8 := hfit.cacheinfo hcache
    have e0 := (Rta.get32_of_holds h (k := 0) (by omega)).trans
      (Rta.get32_of_holds h' (k := 0) (by omega)).symm
    rw [Nat.add_zero, Nat.add_zero] at e0
    rw [Rta.get32_of_holds h (by omega), Rta.get32_of_holds h' (by omega), e0]
  · rfl

theorem ownText_of_fits (hfit : FitsType family a) : OwnText c family a := by
  rintro g g' e e' htab ⟨fuel, m, o, k, p, rfl, hp, h, rfl⟩ ⟨fuel', m', o', k', p', hfam, hp', h', rfl⟩
  rw [RTM_NEWADDR_Check_line hp, RTM_NEWADDR_Check_line hp', hfam]
  unfold addr_line getIFA_Type
  rw [addr_text_of_fits h h' hfit, Rta.type_of_holds h, Rta.type_of_holds h', Rta.len_of_holds h,
    Rta.len_of_holds h', htab]

end Lines

/-- A message of the family with the attribute alone, and the bytes of `rest` behind it. -/
def msgWith (family : UInt8) (a : Rta) (rest : Mem) : Mem :=
  overlay (le32 (24 + a.bytes.length) ++ [20, 0, 0, 0, 0, 0, 0, 0, 0, 0, 0, 0, family, 24, 0, 0,
    3, 0, 0, 0] ++ a.bytes) rest

section MsgWith

variable (family : UInt8) (a : Rta) (rest : Mem)

theorem rta_bytes_lt : a.bytes.length < 65536 := by
  rw [← a.len_eq]
  exact get16_lt _ _

theorem msgWith_behind {x : ℕ} (h : 24 + a.bytes.length ≤ x) : msgWith family a rest x = rest x :=
  overlay_of_ge (by simp; omega)

theorem msgWith_slice : slice (msgWith family a rest) 0 4 = le32 (24 + a.bytes.length) ∧
    slice (msgWith family a rest) 24 a.bytes.length = a.bytes := by
  obtain ⟨bs, hbs⟩ : ∃ bs, bs = le32 (24 + a.bytes.length) ++ [20, 0, 0, 0, 0, 0, 0, 0, 0, 0, 0, 0,
    family, 24, 0, 0, 3, 0, 0, 0] := ⟨_, rfl⟩
  have hl : bs.length = 24 := by rw [hbs]; rfl
  have hs := slice_overlay (bs ++ a.bytes) rest
  rw [List.length_append, hl, slice_append] at hs
  obtain ⟨h1, h2⟩ := List.append_inj hs (by rw [slice_length, hl])
  unfold msgWith
  rw [← hbs]
  refine ⟨?_, by simpa using h2⟩
  rw [← take_slice (show 4 ≤ 24 by omega), h1, hbs]
  rfl

theorem msgWith_len : nlmsg_len (msgWith family a rest) 0 = 24 + a.bytes.length := by
  have := rta_bytes_lt a
  exact get32_le32 (by omega) (msgWith_slice family a rest).1

theorem msgWith_family :
    (ifaddrmsg.at (msgWith family a rest) (NLMSG_DATA 0)).ifa_family = family.toNat := by
  have hm : msgWith family a rest 16 = family := by
    simp [msgWith, overlay, le32, le16]
  exact congrArg UInt8.toNat hm

theorem msgWith_holds : Format.Holds (msgWith family a rest) 24 a := (msgWith_slice family a rest).2

theorem msgWith_prints (g : Globals) (c : Libc) : PrintsFor g c family.toNat a
    (some (addr_line g c family.toNat (msgWith family a rest) 24)) := by
  have hlen := msgWith_len family a rest
  have hlt := rta_bytes_lt a
  have hwalk : (newaddr_walk (24 + a.bytes.length + 1) (msgWith family a rest) 0).1[0]? =
      some 24 := by
    have hok : rtattr.Ok (msgWith family a rest) 24 a.bytes.length := by
      have hl := a.long
      rw [Format.Ok, (msgWith_holds family a rest).lenAt]
      omega
    have hat : attributes (msgWith family a rest) 0 (NLMSG_LENGTH 8) =
        rtattr.offsets (msgWith family a rest) 24 a.bytes.length := by
      rw [attributes, hlen]
      exact congrArg _ (Nat.add_sub_cancel_left 24 _)
    rw [newaddr_walk_eq (by omega) (by omega), hat, Format.offsets_of_ok hok]
    rfl
  refine ⟨_, _, 0, 0, 24, msgWith_family family a rest, hwalk, msgWith_holds family a rest, ?_⟩
  rw [RTM_NEWADDR_Check_line hwalk, msgWith_family]

variable {family a}

/-- The texts in two such messages are the same where the line rests on own bytes. -/
theorem addr_text_of_ownText {c : Libc} (h : OwnText c family.toNat a) {g k : Globals}
    (htab : g.gArray_IFA_Type = k.gArray_IFA_Type) (rest rest' : Mem) :
    addr_text g c family.toNat (msgWith family a rest) 24 =
      addr_text k c family.toNat (msgWith family a rest') 24 := by
  have he := h g k _ _ htab (msgWith_prints family a rest g c) (msgWith_prints family a rest' k c)
  simp only [addr_line, Option.some.injEq, Ev.printf.injEq, List.cons.injEq] at he
  exact he.2.2.2.1

theorem msgWith_congr {rest rest' : Mem} {x : ℕ} (h : rest x = rest' x) :
    msgWith family a rest x = msgWith family a rest' x := by
  unfold msgWith overlay
  rw [h]

theorem payload_length (a : Rta) : a.bytes.length = a.payload.length + 4 := by
  have hl := a.long
  have hh : rtattr.hdr = 4 := rfl
  rw [Rta.length_payload]
  omega

/-- An address that is cut short is read on behind the attribute. -/
theorem short_address {c : Libc} (hn : c.NtopFaithful) {n : ℕ} (hn' : n = 4 ∨ n = 16)
    (hlt : a.payload.length < n) :
    c.ntop (slice (msgWith family a fun _ => 0) (RTA_DATA 24) n) ≠
      c.ntop (slice (msgWith family a fun _ => 1) (RTA_DATA 24) n) := by
  intro h
  have hs := hn.inj _ _ (by rwa [slice_length]) (by rw [slice_length, slice_length]) h
  have hbyte := byte_of_slice_eq (k := n - 1) hs (by omega)
  have hp := payload_length a
  rw [msgWith_behind _ _ _ (by unfold RTA_DATA; omega),
    msgWith_behind _ _ _ (by unfold RTA_DATA; omega)] at hbyte
  cases hbyte

/-- A name without an end is printed with what stands behind it. -/
theorem endless_name (h : ¬ ∃ k < 128, a.payload[k]? = some 0) :
    strncpy_text .empty .tmp 128 (cstr (msgWith family a fun _ => 0) (RTA_DATA 24) 128) ≠
      strncpy_text { Globals.empty with behind := fun _ => [1] } .tmp 128
        (cstr (msgWith family a fun _ => 1) (RTA_DATA 24) 128) := by
  have hall : cstr (msgWith family a fun _ => 1) (RTA_DATA 24) 128 =
      slice (msgWith family a fun _ => 1) (RTA_DATA 24) 128 := by
    refine List.takeWhile_eq_self_iff.2 fun b hb => ?_
    obtain ⟨k, hk, rfl⟩ := List.mem_iff_getElem.1 hb
    rw [getElem_slice]
    rw [slice_length] at hk
    by_cases hown : k < a.payload.length
    · rw [byte_of_slice (Rta.payload_of_holds (msgWith_holds family a fun _ => 1)) hown,
        decide_eq_true_eq]
      exact fun h0 => h ⟨k, hk, by rw [List.getElem?_eq_getElem hown, h0]⟩
    · have hp := payload_length a
      rw [msgWith_behind _ _ _ (by unfold RTA_DATA; omega)]
      rfl
  intro he
  have hl := congrArg List.length he
  rw [hall] at hl
  unfold strncpy_text at hl
  rw [slice_length, if_neg (Nat.lt_irrefl 128)] at hl
  split_ifs at hl with hlt
  · rw [List.length_append, List.length_take, slice_length] at hl
    exact absurd hl (Nat.ne_of_lt (hlt.trans (Nat.lt_succ_self 128)))
  · rw [List.length_append, List.length_append, List.length_take, List.length_take,
      slice_length, min_eq_left (Nat.le_of_not_lt hlt)] at hl
    cases hl

/-- The lifetimes are read on behind an attribute that is too short. -/
theorem short_cacheinfo (hlt : a.payload.length < 8) :
    get32 (msgWith family a fun _ => 0) (RTA_DATA 24) =
        get32 (msgWith family a fun x => if x = 35 then 1 else 0) (RTA_DATA 24) ∧
      get32 (msgWith family a fun _ => 0) (RTA_DATA 24 + 4) ≠
        get32 (msgWith family a fun x => if x = 35 then 1 else 0) (RTA_DATA 24 + 4) := by
  refine ⟨get32_congr fun x h1 h2 => msgWith_congr ?_, fun h => ?_⟩
  · unfold RTA_DATA at h2
    rw [if_neg (by omega)]
  · have hs := congrArg le32 h
    rw [le32_get32, le32_get32] at hs
    have hbyte := byte_of_slice_eq (k := 3) hs (by omega)
    have hp := payload_length a
    rw [msgWith_behind _ _ _ (by unfold RTA_DATA; omega),
      msgWith_behind _ _ _ (by unfold RTA_DATA; omega)] at hbyte
    cases hbyte

theorem fits_of_ownText {c : Libc} (hn : c.NtopFaithful) (h : OwnText c family.toNat a) :
    FitsType family.toNat a := by
  have hholds := msgWith_holds family a
  have haddr : ∀ n, a.isAddress = true →
      (family.toNat = AF_INET ∧ n = 4 ∨ family.toNat = AF_INET6 ∧ n = 16) →
        n ≤ a.payload.length := by
    intro n ha hfam
    by_contra hlt
    have he := addr_text_of_ownText h (g := .empty) (k := .empty) rfl (fun _ => 0) fun _ => 1
    rw [addr_text_of_address (hholds _) ha hfam, addr_text_of_address (hholds _) ha hfam] at he
    exact short_address hn (hfam.imp And.right And.right) (Nat.lt_of_not_le hlt) (Arg.str.inj he)
  refine ⟨fun ha hf => haddr 4 ha (.inl ⟨hf, rfl⟩), fun ha hf => haddr 16 ha (.inr ⟨hf, rfl⟩),
    fun hl => ?_, fun hl => ?_⟩
  · by_contra hno
    have he := addr_text_of_ownText h (g := .empty)
      (k := { Globals.empty with behind := fun _ => [1] }) rfl (fun _ => 0) fun _ => 1
    rw [addr_text_of_label (hholds _) hl, addr_text_of_label (hholds _) hl] at he
    exact endless_name hno (Arg.bytes.inj he)
  · by_contra hlt
    have he := addr_text_of_ownText h (g := .empty) (k := .empty) rfl (fun _ => 0)
      fun x => if x = 35 then 1 else 0
    obtain ⟨hpref, hvalid⟩ := @short_cacheinfo family a (Nat.lt_of_not_le hlt)
    rw [addr_text_of_cacheinfo (hholds _) hl, addr_text_of_cacheinfo (hholds _) hl, hpref] at he
    have hs := Arg.str.inj he
    rw [String.append_left_inj, String.append_left_inj, String.append_right_inj] at hs
    have hdigits := congrArg (fun t : String => Nat.ofDigitChars 10 t.toList 0) hs
    exact hvalid (by simpa using hdigits)

end MsgWith

/-- The line of an attribute rests on the family and its own bytes exactly when the attribute has
all that is read for its type. -/
theorem ownText_iff {c : Libc} (hn : c.NtopFaithful) (family : UInt8) (a : Rta) :
    OwnText c family.toNat a ↔ FitsType family.toNat a :=
  ⟨fits_of_ownText hn, ownText_of_fits⟩

theorem inet_ownText : Libc.texts.NtopFaithful ∧ OwnText Libc.texts 2 (.inet 1 2) := by
  refine ⟨texts_ntopFaithful, (ownText_iff texts_ntopFaithful 2 (.inet 1 2)).2 ?_⟩
  exact ⟨by decide, by decide, fun h => absurd h (by decide), by decide⟩

/-- A name of four bytes without its null byte. -/
def Rta.endless : Rta where
  bytes := [8, 0, 3, 0, 101, 116, 104, 48]
  padding := []
  long := rtattr_hdr_le_eight
  len_eq := rfl
  padded := rtattr_pad_eight

theorem endless_not_ownText : ¬ OwnText Libc.texts 2 .endless := by
  intro h
  obtain ⟨k, -, h0⟩ := (@fits_of_ownText 2 _ _ texts_ntopFaithful h).label (by decide)
  rcases k with _ | _ | _ | _ | k <;> simp [Rta.payload, Rta.endless] at h0

end NetTool

import Mathlib.Data.List.Nodup
import NetTool.Proofs.Attributes

/-!
# What `RTM_NEWLINK_Check` prints

The function remembers the flags of the last message it was called with, of whatever interface. So
it prints the change line of a flag exactly when the flag differs from that message. Of the
attributes it prints what they hold, but of `IFLA_LINK` where it stands
(`newlink_attribute_of_holds`).
-/

namespace NetTool

open Bytes CInt Frames Loop

/-- The header of a message about a link. -/
def infoAt (x : Mem × ℕ) : ifinfomsg := ifinfomsg.at x.1 (NLMSG_DATA x.2)

/-- The flags of the last earlier message that goes with `x`, or 0 when there is none. -/
def earlierFlags (same : ifinfomsg → ifinfomsg → Bool) (pre : List (Mem × ℕ)) (x : Mem × ℕ) : ℕ :=
  (((pre.map infoAt).reverse.find? (same (infoAt x))).map ifinfomsg.ifi_flags).getD 0

/-- For every message, the change line of a checked flag is printed if and only if the flag
differs from its value in the last earlier message that goes with it. -/
def PrintsChanges (same : ifinfomsg → ifinfomsg → Bool) (g : Globals) (c : Libc) (fuel : ℕ)
    (msgs : List (Mem × ℕ)) : Prop :=
  ∀ pre x post, msgs = pre ++ x :: post →
    ∃ out, (newlinkRun g c fuel 0 msgs)[pre.length]? = some out ∧ ∀ f ∈ checkedFlags,
      ((∃ v, Ev.printf " %-20s = %d \n" [.str f.1, v] ∈ out) ↔
        (infoAt x).ifi_flags &&& f.2 ≠ earlierFlags same pre x &&& f.2)

/-! ## One message -/

def Ev.isChange : Ev → Bool
  | .printf fmt _ => fmt = " %-20s = %d \n"
  | _ => false

section Message

variable (g : Globals) (c : Libc) (fuel vIfi_flags : ℕ) (m : Mem) (o : ℕ)

theorem newlink_attribute_silent (ifi_family rta : ℕ) :
    (newlink_attribute g c ifi_family m rta).filter Ev.isChange = [] := by
  unfold newlink_attribute
  dsimp only
  split_ifs <;> simp [Ev.isChange]

theorem newlink_attributes_silent (ifi_family : ℕ) (t : ℕ × ℤ) :
    (forLoop (fun t => RTA_OK m t.1 t.2) (RTA_NEXT i32 m)
      (fun t out => (out ++ newlink_attribute g c ifi_family m t.1, (none : Option Unit))) fuel t
      []).1.filter Ev.isChange = [] := by
  refine forLoop_invariant (I := fun _ out => out.filter Ev.isChange = [])
    (J := fun out => out.filter Ev.isChange = []) (fun t out _ h => ?_) ?_ (fun _ _ h => h) fuel t
    [] rfl
  · rw [List.filter_append, h, newlink_attribute_silent]
    rfl
  · exact fun _ _ _ h => h

theorem check_flag_change (ifi_flags : ℕ) (f : String × ℕ) :
    (check_flag ifi_flags vIfi_flags f).filter Ev.isChange = check_flag ifi_flags vIfi_flags f := by
  unfold check_flag
  by_cases h : ifi_flags &&& f.2 ≠ vIfi_flags &&& f.2
  · rw [if_pos h]
    rfl
  · rw [if_neg h]
    rfl

/-- The change lines of a message are those of the flags that differ from the remembered ones. -/
theorem RTM_NEWLINK_Check_changes :
    (RTM_NEWLINK_Check g c fuel vIfi_flags m o).2.filter Ev.isChange =
      checkedFlags.flatMap (check_flag (infoAt (m, o)).ifi_flags vIfi_flags) := by
  unfold RTM_NEWLINK_Check
  dsimp only
  rw [List.filter_append, List.filter_append, List.filter_append, List.filter_append,
    newlink_attributes_silent, List.filter_flatMap]
  simp only [check_flag_change]
  simp [Ev.isChange, infoAt]

theorem mem_check_flag {ifi_flags : ℕ} {f f' : String × ℕ} :
    (∃ v, Ev.printf " %-20s = %d \n" [.str f.1, v] ∈ check_flag ifi_flags vIfi_flags f') ↔
      f'.1 = f.1 ∧ ifi_flags &&& f'.2 ≠ vIfi_flags &&& f'.2 := by
  unfold check_flag
  by_cases h : ifi_flags &&& f'.2 ≠ vIfi_flags &&& f'.2
  · rw [if_pos h]
    simp [h, eq_comm]
  · rw [if_neg h]
    simp [h]

theorem checkedFlags_names : (checkedFlags.map Prod.fst).Nodup := by simp [checkedFlags]

/-- One call prints the change line of a checked flag exactly when the flag differs from its
remembered value. -/
theorem RTM_NEWLINK_Check_line {f : String × ℕ} (hf : f ∈ checkedFlags) :
    (∃ v, Ev.printf " %-20s = %d \n" [.str f.1, v] ∈
        (RTM_NEWLINK_Check g c fuel vIfi_flags m o).2) ↔
      (infoAt (m, o)).ifi_flags &&& f.2 ≠ vIfi_flags &&& f.2 := by
  have hmem : ∀ v, Ev.printf " %-20s = %d \n" [.str f.1, v] ∈
        (RTM_NEWLINK_Check g c fuel vIfi_flags m o).2 ↔ ∃ f' ∈ checkedFlags,
      Ev.printf " %-20s = %d \n" [.str f.1, v] ∈
        check_flag (infoAt (m, o)).ifi_flags vIfi_flags f' := by
    intro v
    rw [← List.mem_flatMap, ← RTM_NEWLINK_Check_changes g c fuel, List.mem_filter]
    simp [Ev.isChange]
  simp only [hmem]
  constructor
  · rintro ⟨v, f', hf', h⟩
    obtain ⟨hname, hne⟩ := (mem_check_flag _).1 ⟨v, h⟩
    obtain rfl : f' = f := List.inj_on_of_nodup_map checkedFlags_names hf' hf hname
    exact hne
  · intro hne
    obtain ⟨v, h⟩ := (mem_check_flag _).2 ⟨rfl, hne⟩
    exact ⟨v, f, hf, h⟩

end Message

/-! ## A run of messages -/

section Run

variable (g : Globals) (c : Libc) (fuel : ℕ)

/-- The flags remembered after the messages, when they were `vIfi_flags` before. -/
def rememberedFlags (vIfi_flags : ℕ) (msgs : List (Mem × ℕ)) : ℕ :=
  msgs.foldl (fun _ x => (infoAt x).ifi_flags) vIfi_flags

/-- Every message is compared with what was remembered when it came. -/
theorem newlinkRun_getElem? {x : Mem × ℕ} {post : List (Mem × ℕ)} :
    ∀ (pre : List (Mem × ℕ)) (vIfi_flags : ℕ),
      (newlinkRun g c fuel vIfi_flags (pre ++ x :: post))[pre.length]? =
        some (RTM_NEWLINK_Check g c fuel (rememberedFlags vIfi_flags pre) x.1 x.2).2
  | [], vIfi_flags => rfl
  | y :: pre, vIfi_flags => by
    rw [List.cons_append, newlinkRun, List.length_cons, List.getElem?_cons_succ]
    exact newlinkRun_getElem? pre _

/-- What is remembered are the flags of the last message, of whatever interface. -/
theorem rememberedFlags_eq (pre : List (Mem × ℕ)) (x : Mem × ℕ) :
    rememberedFlags 0 pre = earlierFlags (fun _ _ => true) pre x := by
  unfold earlierFlags rememberedFlags
  induction pre using List.reverseRecOn with
  | nil => rfl
  | append_singleton pre y _ => simp

theorem newlinkRun_changes {pre post : List (Mem × ℕ)} {x : Mem × ℕ} :
    ∃ out, (newlinkRun g c fuel 0 (pre ++ x :: post))[pre.length]? = some out ∧
      ∀ f ∈ checkedFlags, ((∃ v, Ev.printf " %-20s = %d \n" [.str f.1, v] ∈ out) ↔
        (infoAt x).ifi_flags &&& f.2 ≠ earlierFlags (fun _ _ => true) pre x &&& f.2) := by
  refine ⟨_, newlinkRun_getElem? g c fuel pre 0, fun f hf => ?_⟩
  rw [← rememberedFlags_eq]
  exact RTM_NEWLINK_Check_line g c fuel _ x.1 x.2 hf

/-- The change line of a flag is printed if and only if the flag differs from the last earlier
message, whatever interface that was about. -/
theorem newlink_printsChanges (msgs : List (Mem × ℕ)) :
    PrintsChanges (fun _ _ => true) g c fuel msgs := by
  rintro pre x post rfl
  exact newlinkRun_changes g c fuel

end Run

/-- Interface 1 is up, then interface 2 is down: the second message has the change line of
`IFF_UP` and is the first one about its interface. -/
theorem twoInterfaces_changes : ¬ PrintsChanges (fun i j => i.ifi_index = j.ifi_index)
    .empty Libc.bare 1
    [(ofList (Msg.newLink 1 1).bytes, 0), (ofList (Msg.newLink 2 0).bytes, 0)] := by
  intro h
  have hup : ("IFF_UP", IFF_UP) ∈ checkedFlags := by simp [checkedFlags]
  obtain ⟨out, h1, h2⟩ := h [(ofList (Msg.newLink 1 1).bytes, 0)]
    (ofList (Msg.newLink 2 0).bytes, 0) [] rfl
  obtain ⟨out', h1', h2'⟩ := @newlinkRun_changes .empty Libc.bare 1
    [(ofList (Msg.newLink 1 1).bytes, 0)] [] (ofList (Msg.newLink 2 0).bytes, 0)
  obtain rfl : out = out' := Option.some.inj (h1.symm.trans h1')
  have hline := (h2' _ hup).2 (by decide)
  exact (h2 _ hup).1 hline (by decide)

/-! ## The lines of the attributes -/

/-- A link message with these attributes, whose integers have four bytes and whose strings end
before the 128th. -/
structure LinkMsg (m : Mem) (o : ℕ) (as : List Rta) : Prop where
  len : nlmsg_len m o = NLMSG_LENGTH 16 + (Format.encode as).length
  short : nlmsg_len m o < 2 ^ 31 - 4
  attrs : slice m (o + NLMSG_LENGTH 16) (Format.encode as).length = Format.encode as
  ints : ∀ a ∈ as, a.type = IFLA_MTU ∨ a.type = IFLA_LINK → a.payload.length = 4
  strings : ∀ a ∈ as, a.type = IFLA_IFNAME ∨ a.type = IFLA_QDISC →
    ∃ k < 128, a.payload[k]? = some 0

/-- What is to be printed of an attribute. -/
def link_line (a : Rta) : List Ev :=
  if a.type = IFLA_IFNAME then
    [.printf "%-15s = %s \n" [.str "IFLA_IFNAME", .bytes (a.payload.takeWhile (· ≠ 0))]]
  else if a.type = IFLA_MTU then
    [.printf "%-15s = %u \n" [.str "IFLA_MTU", .int (get32 (ofList a.payload) 0)]]
  else if a.type = IFLA_LINK then
    [.printf "%-15s = %d \n" [.str ",IFLA_LINK", .int (i32 (get32 (ofList a.payload) 0))]]
  else if a.type = IFLA_QDISC then
    [.printf "%-15s = %s \n" [.str "IFLA_QDISC", .bytes (a.payload.takeWhile (· ≠ 0))]]
  else []

def linkNames : List String := ["IFLA_MTU", ",IFLA_LINK", "IFLA_IFNAME", "IFLA_QDISC"]

/-- The line is about one of the four attributes. -/
def Ev.isLinkAttr : Ev → Bool
  | .printf _ (.str name :: _) => name ∈ linkNames
  | _ => false

theorem checkedFlags_not_linkNames : ∀ f ∈ checkedFlags, f.1 ∉ linkNames := by
  simp [checkedFlags, linkNames]

theorem check_flags_unlinked (ifi_flags vIfi_flags : ℕ) :
    (checkedFlags.flatMap (check_flag ifi_flags vIfi_flags)).filter Ev.isLinkAttr = [] := by
  rw [List.filter_flatMap, List.flatMap_eq_nil_iff]
  intro f hf
  have hn := checkedFlags_not_linkNames f hf
  unfold check_flag
  by_cases h : ifi_flags &&& f.2 ≠ vIfi_flags &&& f.2
  · rw [if_pos h]
    simp [Ev.isLinkAttr, hn]
  · rw [if_neg h]
    rfl

theorem newlink_lines_filter (g : Globals) (vIfi_flags : ℕ) (info : ifinfomsg) (attrs : List Ev) :
    (newlink_lines g vIfi_flags info attrs).filter Ev.isLinkAttr =
      attrs.filter Ev.isLinkAttr := by
  unfold newlink_lines
  rw [List.filter_append, List.filter_append, List.filter_append, List.filter_append,
    check_flags_unlinked]
  simp [Ev.isLinkAttr, linkNames]

section Attribute

variable {g : Globals} {c : Libc} {m : Mem} {p ifi_family : ℕ} {a : Rta}

/-- Of `IFLA_LINK` the address of its payload is printed, of the other three their payload. -/
theorem newlink_attribute_of_holds (h : Format.Holds m p a)
    (hints : a.type = IFLA_MTU ∨ a.type = IFLA_LINK → a.payload.length = 4)
    (hstrings : a.type = IFLA_IFNAME ∨ a.type = IFLA_QDISC → ∃ k < 128, a.payload[k]? = some 0) :
    (newlink_attribute g c ifi_family m p).filter Ev.isLinkAttr =
      if a.type = IFLA_LINK then
        [.printf "%-15s = %d \n" [.str ",IFLA_LINK", .int (i32 (g.vBuf + RTA_DATA p))]]
      else link_line a := by
  have ht := Rta.type_of_holds h
  by_cases hname : a.type = IFLA_IFNAME
  · obtain ⟨k, hk, h0⟩ := hstrings (.inl hname)
    have hs := Rta.strncpy_text_of_holds h h0 hk hk g .vBufferData
    simp [newlink_attribute, link_line, ht, hname, hs, Ev.isLinkAttr, linkNames, IFLA_ADDRESS,
      IFLA_BROADCAST, IFLA_IFNAME, IFLA_LINK]
  by_cases hqdisc : a.type = IFLA_QDISC
  · obtain ⟨k, hk, h0⟩ := hstrings (.inr hqdisc)
    have hs := Rta.strncpy_text_of_holds h h0 hk hk g .vBufferData
    simp [newlink_attribute, link_line, ht, hqdisc, hs, Ev.isLinkAttr, linkNames, IFLA_ADDRESS,
      IFLA_BROADCAST, IFLA_IFNAME, IFLA_LINK, IFLA_MTU, IFLA_QDISC]
  by_cases hmtu : a.type = IFLA_MTU
  · have hg := Rta.get32_of_holds h (k := 0) (hints (.inl hmtu)).ge
    rw [Nat.add_zero] at hg
    simp [newlink_attribute, link_line, ht, hmtu, hg, Ev.isLinkAttr, linkNames, IFLA_ADDRESS,
      IFLA_BROADCAST, IFLA_IFNAME, IFLA_LINK, IFLA_MTU]
  by_cases hlink : a.type = IFLA_LINK
  · simp [newlink_attribute, ht, hlink, Ev.isLinkAttr, linkNames, IFLA_ADDRESS, IFLA_BROADCAST,
      IFLA_IFNAME, IFLA_LINK, IFLA_MTU]
  · unfold newlink_attribute link_line
    dsimp only
    rw [ht]
    simp only [hname, hqdisc, hmtu, hlink, if_false]
    split_ifs
    · simp [Ev.isLinkAttr, linkNames]
    · simp [Ev.isLinkAttr, linkNames]
    · simp [Ev.isLinkAttr, linkNames]
    · rfl

theorem link_line_of_link (h : a.type = IFLA_LINK) : link_line a =
    [.printf "%-15s = %d \n" [.str ",IFLA_LINK", .int (i32 (get32 (ofList a.payload) 0))]] := by
  rw [link_line, h, if_neg (by simp [IFLA_LINK, IFLA_IFNAME]),
    if_neg (by simp [IFLA_LINK, IFLA_MTU]), if_pos rfl]

variable {o fuel vIfi_flags : ℕ} {as : List Rta}

/-- The lines of the four attributes are what they hold exactly when what stands in every
`IFLA_LINK` happens to be the address it stands at. -/
theorem newlink_prints_iff (h : LinkMsg m o as) (hf : nlmsg_len m o < fuel) :
    (RTM_NEWLINK_Check g c fuel vIfi_flags m o).2.filter Ev.isLinkAttr = as.flatMap link_line ↔
      ∀ p ∈ attributes m o (NLMSG_LENGTH 16), rta_type m p = IFLA_LINK →
        i32 (g.vBuf + RTA_DATA p) = i32 (get32 m (RTA_DATA p)) := by
  rw [RTM_NEWLINK_Check_eq, newlink_walk_eq h.short hf]
  dsimp only
  rw [newlink_lines_filter, List.filter_flatMap]
  refine flatMap_eq_iff (attributes_of.encoded as h.len h.attrs) (fun p a ha hp => ?_)
    fun p a ha hp => ?_
  · rw [newlink_attribute_of_holds hp (h.ints a ha) (h.strings a ha)]
    split_ifs with hl
    · rw [link_line_of_link hl, List.length_singleton, List.length_singleton]
    · rfl
  · rw [newlink_attribute_of_holds hp (h.ints a ha) (h.strings a ha), Rta.type_of_holds hp]
    by_cases hl : a.type = IFLA_LINK
    · have hg := Rta.get32_of_holds hp (k := 0) (h.ints a ha (.inr hl)).ge
      rw [Nat.add_zero] at hg
      rw [if_pos hl, link_line_of_link hl, hg]
      simp [hl]
    · simp [hl]

end Attribute

/-- An `IFLA_MTU` attribute. -/
def Rta.mtu : Rta where
  bytes := [8, 0, 4, 0, 220, 5, 0, 0]
  padding := []
  long := rtattr_hdr_le_eight
  len_eq := rfl
  padded := rtattr_pad_eight

/-- An `IFLA_LINK` attribute. -/
def Rta.link : Rta where
  bytes := [8, 0, 5, 0, 2, 0, 0, 0]
  padding := []
  long := rtattr_hdr_le_eight
  len_eq := rfl
  padded := rtattr_pad_eight

/-- The message of a link with these attributes. -/
def linkMsgOf (len : UInt8) (as : List Rta) : Mem :=
  ofList ([len, 0, 0, 0, 16, 0, 0, 0, 0, 0, 0, 0, 0, 0, 0, 0,
    0, 0, 1, 0, 4, 0, 0, 0, 1, 0, 0, 0, 0, 0, 0, 0] ++ Format.encode as)

theorem mtu_and_name_printed : LinkMsg (linkMsgOf 52 [.mtu, .name]) 0 [.mtu, .name] ∧
    nlmsg_len (linkMsgOf 52 [.mtu, .name]) 0 < 53 ∧
    (RTM_NEWLINK_Check .empty Libc.bare 53 0 (linkMsgOf 52 [.mtu, .name]) 0).2.filter
      Ev.isLinkAttr = [Rta.mtu, Rta.name].flatMap link_line := by
  have hstrings : ∀ a ∈ [Rta.mtu, Rta.name], a.type = IFLA_IFNAME ∨ a.type = IFLA_QDISC →
      ∃ k < 128, a.payload[k]? = some 0 := by
    intro a ha _
    rcases List.mem_pair.1 ha with rfl | rfl
    · exact ⟨3, by decide, by decide⟩
    · exact ⟨4, by decide, by decide⟩
  have h : LinkMsg (linkMsgOf 52 [.mtu, .name]) 0 [.mtu, .name] :=
    ⟨by decide, by decide, by decide, by decide, hstrings⟩
  have hf : nlmsg_len (linkMsgOf 52 [.mtu, .name]) 0 < 53 := by decide
  have hne : ∀ p ∈ (newlink_walk 53 (linkMsgOf 52 [.mtu, .name]) 0).1,
      rta_type (linkMsgOf 52 [.mtu, .name]) p ≠ IFLA_LINK := by decide
  rw [newlink_walk_eq h.short hf] at hne
  exact ⟨h, hf, (newlink_prints_iff h hf).2 fun p hp ht => absurd ht (hne p hp)⟩

theorem link_not_printed : ¬ (RTM_NEWLINK_Check .empty Libc.bare 41 0 (linkMsgOf 40 [.link]) 0).2.filter
    Ev.isLinkAttr = [Rta.link].flatMap link_line := by
  have hwalk : (newlink_walk 41 (linkMsgOf 40 [.link]) 0).1 = [32] := by decide
  have hholds : Format.Holds (linkMsgOf 40 [.link]) 32 Rta.link := by
    unfold Format.Holds
    decide
  rw [RTM_NEWLINK_Check_eq, hwalk]
  dsimp only
  rw [newlink_lines_filter, List.filter_flatMap, List.flatMap_cons, List.flatMap_nil,
    List.append_nil, newlink_attribute_of_holds hholds (by decide) (by decide)]
  have hl : Rta.link.type = IFLA_LINK := by decide
  rw [if_pos hl, List.flatMap_cons, link_line_of_link hl]
  simp [Globals.empty, RTA_DATA, i32, Rta.payload, Rta.link, get32, get16, get8, ofList, overlay]

end NetTool

import NetTool.Event

/-!
# The table of address families

`ArraySetItem` fills the slots from the front (`setItems_zeroed`), and `ArrayFindItem` goes through
all of them: a slot that is still zeroed is found for the number 0. So a search finds the first
name registered, or none, unless it is for 0 with 0 not registered and a slot left
(`finds_first_iff`). The program registers 0 (`setArrayAddressFamily_finds`).
-/

namespace NetTool

/-- The name in the first registration of a number. -/
def firstName (items : List (ℤ × String)) (a_ID : ℤ) : String :=
  ((items.find? fun item => item.1 = a_ID).map Prod.snd).getD gStringError

/-- A table with these registrations and `k` slots left. -/
def registered (items : List (ℤ × String)) (k : ℕ) : sArrayFamily where
  Number := items.length
  Array := items.map (fun item => ⟨item.1, item.2⟩) ++ List.replicate k ⟨0, ""⟩
  Max := items.length + k

theorem arraySetItem_registered {items : List (ℤ × String)} {k : ℕ} {item : ℤ × String}
    (h : item.2.utf8ByteSize < 100) :
    ArraySetItem (registered items (k + 1)) item.1 item.2 = some (registered (items ++ [item]) k) := by
  have hslot : items.length < (registered items (k + 1)).Array.length := by
    simp only [registered, List.length_append, List.length_map, List.length_replicate]
    omega
  have harray : (registered items (k + 1)).Array.set items.length ⟨item.1, item.2⟩ =
      (registered (items ++ [item]) k).Array := by
    simp only [registered, List.map_append, List.append_assoc, List.replicate_succ]
    rw [List.set_append_right _ _ (by rw [List.length_map]), List.length_map, Nat.sub_self]
    rfl
  rw [ArraySetItem, if_pos ⟨hslot, h⟩]
  simp only [registered] at harray ⊢
  rw [harray, List.length_append, List.length_singleton, Nat.add_assoc, Nat.add_comm 1 k]

theorem setItems_registered : ∀ {items done : List (ℤ × String)} {k : ℕ},
    (∀ item ∈ items, item.2.utf8ByteSize < 100) →
      setItems items (registered done (items.length + k)) = some (registered (done ++ items) k)
  | [], done, k, _ => by
    rw [List.append_nil, List.length_nil, Nat.zero_add]
    rfl
  | item :: items, done, k, h => by
    have ih := @setItems_registered items (done ++ [item]) k
      fun item hi => h item (List.mem_cons_of_mem _ hi)
    rw [List.append_assoc, List.singleton_append] at ih
    rw [setItems, List.foldlM_cons, List.length_cons, Nat.add_right_comm,
      arraySetItem_registered (h item List.mem_cons_self)]
    exact ih

/-- The registrations of a run stand in the first slots. -/
theorem setItems_zeroed {PF_MAX : ℕ} {items : List (ℤ × String)}
    (hlen : items.length ≤ ARRAY_ADDRESS_FAMILY_MAX PF_MAX)
    (hname : ∀ item ∈ items, item.2.utf8ByteSize < 100) :
    setItems items (.zeroed PF_MAX) =
      some (registered items (ARRAY_ADDRESS_FAMILY_MAX PF_MAX - items.length)) := by
  have hzeroed : sArrayFamily.zeroed PF_MAX =
      registered [] (items.length + (ARRAY_ADDRESS_FAMILY_MAX PF_MAX - items.length)) := by
    rw [Nat.add_sub_cancel' hlen, sArrayFamily.zeroed, registered]
    simp
  rw [hzeroed, setItems_registered hname, List.nil_append]

theorem find?_zeroed (k : ℕ) (a_ID : ℤ) :
    (List.replicate k (⟨0, ""⟩ : sArrayItem)).find? (fun item => item.ID = a_ID) =
      if a_ID = 0 ∧ 0 < k then some ⟨0, ""⟩ else none := by
  rcases k with _ | k
  · rw [if_neg fun h => absurd h.2 (Nat.lt_irrefl 0)]
    rfl
  · by_cases h0 : a_ID = 0
    · rw [if_pos ⟨h0, Nat.succ_pos k⟩, List.replicate_succ, List.find?_cons_of_pos (by simp [h0])]
    · rw [if_neg fun h => h0 h.1, List.find?_eq_none]
      intro item hitem
      rw [List.eq_of_mem_replicate hitem, decide_eq_true_eq]
      exact Ne.symm h0

theorem arrayFindItem_registered (items : List (ℤ × String)) (k : ℕ) (a_ID : ℤ) :
    ArrayFindItem (registered items k) a_ID =
      ((items.find? fun item => item.1 = a_ID).map Prod.snd).getD
        (if a_ID = 0 ∧ 0 < k then "" else gStringError) := by
  have htake : (registered items k).Array.take (registered items k).Max =
      (registered items k).Array := List.take_of_length_le (by simp [registered])
  rw [ArrayFindItem, htake]
  simp only [registered, List.find?_append, List.find?_map, find?_zeroed, Function.comp_def]
  generalize List.find? _ items = found
  rcases found with _ | item
  · split_ifs <;> rfl
  · rfl

/-- A zeroed slot is found in place of no registration. -/
theorem finds_registered_iff (items : List (ℤ × String)) (k : ℕ) (a_ID : ℤ) :
    ArrayFindItem (registered items k) a_ID = firstName items a_ID ↔
      a_ID ≠ 0 ∨ (∃ item ∈ items, item.1 = 0) ∨ k = 0 := by
  rw [arrayFindItem_registered, firstName]
  generalize hfind : List.find? _ items = found
  rcases found with _ | item
  · rw [List.find?_eq_none] at hfind
    rw [Option.map_none, Option.getD_none, Option.getD_none]
    split_ifs with h
    · refine iff_of_false (by decide) ?_
      rintro (hne | ⟨item, hitem, h0⟩ | hk)
      · exact hne h.1
      · exact hfind item hitem (decide_eq_true (h0.trans h.1.symm))
      · exact absurd h.2 (Nat.not_lt.2 (Nat.le_of_eq hk))
    · refine iff_of_true rfl ?_
      by_cases h0 : a_ID = 0
      · exact .inr (.inr (Nat.eq_zero_of_not_pos fun hk => h ⟨h0, hk⟩))
      · exact .inl h0
  · have hid := List.find?_some hfind
    rw [decide_eq_true_eq] at hid
    refine iff_of_true rfl ?_
    by_cases h0 : a_ID = 0
    · exact .inr (.inl ⟨item, List.mem_of_find?_eq_some hfind, hid.trans h0⟩)
    · exact .inl h0

/-- What `ArrayFindItem` returns after these registrations in a zeroed table. -/
def foundAfter (PF_MAX : ℕ) (items : List (ℤ × String)) (a_ID : ℤ) : Option String :=
  (setItems items (.zeroed PF_MAX)).map fun table => ArrayFindItem table a_ID

/-- A search finds the first name registered, or the error text, exactly where no zeroed slot is
found for the number 0. -/
theorem finds_first_iff {PF_MAX : ℕ} {items : List (ℤ × String)}
    (hlen : items.length ≤ ARRAY_ADDRESS_FAMILY_MAX PF_MAX)
    (hname : ∀ item ∈ items, item.2.utf8ByteSize < 100) (a_ID : ℤ) :
    foundAfter PF_MAX items a_ID = some (firstName items a_ID) ↔
      a_ID ≠ 0 ∨ (∃ item ∈ items, item.1 = 0) ∨
        items.length = ARRAY_ADDRESS_FAMILY_MAX PF_MAX := by
  have hleft : ARRAY_ADDRESS_FAMILY_MAX PF_MAX - items.length = 0 ↔
      items.length = ARRAY_ADDRESS_FAMILY_MAX PF_MAX := by omega
  rw [foundAfter, setItems_zeroed hlen hname, Option.map_some, Option.some.injEq,
    finds_registered_iff, hleft]

theorem inet_found : foundAfter 41 [(2, "AF_INET")] 2 = some (firstName [(2, "AF_INET")] 2) ↔
    (2 : ℤ) ≠ 0 ∨ (∃ item ∈ [((2 : ℤ), "AF_INET")], item.1 = 0) ∨
      [((2 : ℤ), "AF_INET")].length = ARRAY_ADDRESS_FAMILY_MAX 41 :=
  finds_first_iff (by decide) (by decide) 2

/-- With one family registered, the number 0 is found with an empty name. -/
theorem unspec_not_found : foundAfter 41 [(2, "AF_INET")] 0 = some "" ∧
    foundAfter 41 [(2, "AF_INET")] 0 ≠ some (firstName [(2, "AF_INET")] 0) := by
  decide

/-- The program's own table is right for every number. -/
theorem setArrayAddressFamily_finds {PF_MAX : ℕ} (h : 41 ≤ PF_MAX) (a_ID : ℤ) :
    (setArrayAddressFamily PF_MAX).map (fun table => ArrayFindItem table a_ID) =
      some (firstName (addressFamilies PF_MAX) a_ID) := by
  have hlen : (addressFamilies PF_MAX).length ≤ ARRAY_ADDRESS_FAMILY_MAX PF_MAX :=
    Nat.add_le_add_right h 3
  have hname : ∀ item ∈ addressFamilies PF_MAX, item.2.utf8ByteSize < 100 := by
    simp only [addressFamilies, List.forall_mem_cons]
    decide
  exact (finds_first_iff hlen hname a_ID).2 (.inr (.inl ⟨_, List.mem_cons_self, rfl⟩))

end NetTool

import NetTool.Proofs.ListqRep

/-!
# Runs of the list module

`listq_FindItem` steps from the head each time, so it looks at the first two items only, and
never returns when it is asked for a later one (`findItem_of_ge`). A call that returns does to
the heap what `Contents.step` says (`exec_rep`), so after any run the heap holds what was added
and not removed.
-/

namespace NetTool

open CInt TailQueue Heap

/-! ## The search -/

section Search

variable {h h' : Heap} {A : Contents} {l i x : Addr} {xs us vs : List (Addr × Addr)} {fuel : ℕ}

/-- At an item that is not the wanted one and that follows the head, the search stays. -/
theorem findLoop_stuck {p : Addr} (hp : p ≠ 0) (hi : p ≠ i)
    (hn : (h.item (h.list l).tqh_first).tqe_next = p) : ∀ fuel, findLoop h l i fuel p = none
  | 0 => rfl
  | fuel + 1 => by
    rw [findLoop, if_neg hp, if_neg hi, hn]
    exact findLoop_stuck hp hi hn fuel

theorem findLoop_mono {v : ℤ} : ∀ {n m : ℕ} {p : Addr}, findLoop h l i n p = some v → n ≤ m →
    findLoop h l i m p = some v
  | 0, _, _, hf, _ => by simp [findLoop] at hf
  | n + 1, m, p, hf, hm => by
    obtain ⟨m, rfl⟩ : ∃ j, m = j + 1 := ⟨m - 1, by omega⟩
    rw [findLoop] at hf ⊢
    split_ifs at hf ⊢ with h1 h2
    · exact hf
    · exact hf
    · exact findLoop_mono hf (by omega)

theorem findItem_mono {v : ℤ} {n m : ℕ} (hf : listq_FindItem n h l i = some v) (hm : n ≤ m) :
    listq_FindItem m h l i = some v := by
  rw [listq_FindItem] at hf ⊢
  split_ifs at hf ⊢
  · exact hf
  · exact findLoop_mono hf hm

theorem findItem_eq (hR : Rep h A) (hA : A l = some xs) (hx : x ∈ xs.map Prod.fst) :
    listq_FindItem fuel h l x = findLoop h l x fuel (h.list l).tqh_first := by
  have hL := hR.linked l xs hA
  rw [listq_FindItem, if_neg]
  simp only [hR.ne_zero hA, hL.queue.ne_nil x hx, (hL.isItem hx).2, ne_eq, not_true_eq_false,
    or_self, not_false_eq_true]

/-- The search finds the first two items. -/
theorem findItem_of_lt (hR : Rep h A) (hA : A l = some xs) {k : ℕ} (hk : k < xs.length)
    (h2 : k < 2) : listq_FindItem (fuel + 2) h l xs[k].1 = some 1 := by
  have hL := hR.linked l xs hA
  have hq := hL.queue
  rw [findItem_eq hR hA (List.mem_map_of_mem (List.getElem_mem hk))]
  rcases xs with _ | ⟨x, xs⟩
  · simp at hk
  rw [List.map_cons] at hq
  have hf : (h.list l).tqh_first = x.1 := hq.first_cons
  have hne : x.1 ≠ 0 := hq.ne_nil _ List.mem_cons_self
  obtain rfl | rfl : k = 0 ∨ k = 1 := by omega
  · simp [findLoop, hf, hne]
  · rcases xs with _ | ⟨y, xs⟩
    · simp at hk
    have hn : (h.item x.1).tqe_next = y.1 := hq.next_cons
    have hney : y.1 ≠ 0 := hq.ne_nil _ (by simp)
    simp [findLoop, hf, hne, hn, hney]

/-- The search for a later item does not end. -/
theorem findItem_of_ge (hR : Rep h A) (hA : A l = some xs) {k : ℕ} (hk : k < xs.length)
    (h2 : 2 ≤ k) : listq_FindItem fuel h l xs[k].1 = none := by
  have hL := hR.linked l xs hA
  have hq := hL.queue
  rw [findItem_eq hR hA (List.mem_map_of_mem (List.getElem_mem hk))]
  obtain ⟨x, y, zs, rfl⟩ : ∃ x y zs, xs = x :: y :: zs := by
    rcases xs with _ | ⟨x, _ | ⟨y, zs⟩⟩
    · simp at hk
    · simp at hk; omega
    · exact ⟨x, y, zs, rfl⟩
  obtain ⟨k, rfl⟩ : ∃ j, k = j + 2 := ⟨k - 2, by omega⟩
  simp only [List.length_cons, Nat.add_lt_add_iff_right] at hk
  have hz : (zs[k]).1 ∈ zs.map Prod.fst := List.mem_map_of_mem (List.getElem_mem hk)
  rw [List.map_cons, List.map_cons] at hq
  have hf : (h.list l).tqh_first = x.1 := hq.first_cons
  have hn : (h.item x.1).tqe_next = y.1 := hq.next_cons
  have hnd := hq.nodup
  simp only [List.nodup_cons, List.mem_cons, not_or] at hnd
  have hxz : x.1 ≠ (zs[k]).1 := fun he => hnd.1.2 (he ▸ hz)
  have hyz : y.1 ≠ (zs[k]).1 := fun he => hnd.2.1 (he ▸ hz)
  rw [List.getElem_cons_succ, List.getElem_cons_succ, hf]
  rcases fuel with _ | fuel
  · rfl
  · rw [findLoop, if_neg (hq.ne_nil _ List.mem_cons_self), if_neg hxz, hf, hn]
    exact findLoop_stuck (hq.ne_nil _ (by simp)) hyz (by rw [hf, hn]) fuel

theorem removeItem_eq (hR : Rep h A) (hA : A l = some xs) (hx : x ∈ xs.map Prod.fst) :
    listq_removeItem fuel h l x = (listq_FindItem fuel h l x).map fun v =>
      if v ≠ 0 then (v, unlinkItem h l x) else (-2, h) := by
  have hL := hR.linked l xs hA
  rw [listq_removeItem, if_neg]
  simp only [hR.ne_zero hA, hL.queue.ne_nil x hx, (hL.isItem hx).2, ne_eq, not_true_eq_false,
    or_self, not_false_eq_true]

/-- What names a container as its owner is a live item. -/
theorem isItem_of_owner (hl : l ≠ 0) (ho : (h.item i).p_Container = l) : h.IsItem i := by
  by_contra hi
  rw [item_of_not hi] at ho
  exact hl ho.symm

/-- A removal that returns was refused, or unlinked an item of the list. -/
theorem removeItem_cases (hR : Rep h A) {r : ℤ}
    (hr : listq_removeItem fuel h l i = some (r, h')) :
    (r = -1 ∧ h' = h ∧ ∀ xs, A l = some xs → i ∉ xs.map Prod.fst) ∨
      (r = 1 ∧ ∃ us d vs, A l = some (us ++ (i, d) :: vs) ∧ h' = unlinkItem h l i) := by
  by_cases hrej : l = 0 ∨ i = 0 ∨ (h.item i).p_Container ≠ l
  · rw [listq_removeItem, if_pos hrej, Option.some.injEq, Prod.mk.injEq] at hr
    refine .inl ⟨hr.1.symm, hr.2.symm, fun xs hA hx => ?_⟩
    have hL := hR.linked l xs hA
    rcases hrej with h0 | h0 | h0
    · exact hR.ne_zero hA h0
    · exact hL.queue.ne_nil i hx h0
    · exact h0 (hL.isItem hx).2
  · simp only [not_or, not_not] at hrej
    obtain ⟨xs, hA, hx⟩ := hR.mem_of_owner (isItem_of_owner hrej.1 hrej.2.2) hrej.2.2
    rw [removeItem_eq hR hA hx] at hr
    obtain ⟨p, hp, rfl⟩ := List.mem_map.1 hx
    obtain ⟨k, hk, rfl⟩ := List.getElem_of_mem hp
    obtain ⟨us, vs, hxs⟩ := List.append_of_mem hp
    right
    rcases Nat.lt_or_ge k 2 with h2 | h2
    · rcases hf : listq_FindItem fuel h l xs[k].1 with _ | v
      · rw [hf] at hr
        cases hr
      · have hv : v = 1 := by
          have := findItem_mono (m := fuel + 2) hf (by omega)
          rw [findItem_of_lt hR hA hk h2] at this
          exact (Option.some.inj this).symm
        subst hv
        rw [hf] at hr
        simp only [Option.map_some, ne_eq, one_ne_zero, not_false_eq_true, if_true,
          Option.some.injEq, Prod.mk.injEq] at hr
        exact ⟨hr.1.symm, us, _, vs, hxs ▸ hA, hr.2.symm⟩
    · rw [findItem_of_ge hR hA hk h2] at hr
      cases hr

end Search

/-! ## The calls -/

section Calls

variable {h h' : Heap} {A : Contents} {l i x : Addr} {xs us vs : List (Addr × Addr)} {fuel : ℕ}

theorem filter_ne_of_not_mem (hx : x ∉ xs.map Prod.fst) : xs.filter (·.1 ≠ x) = xs := by
  refine List.filter_eq_self.2 fun p hp => ?_
  simp only [ne_eq, decide_not, Bool.not_eq_true', decide_eq_false_iff_not]
  rintro rfl
  exact hx (List.mem_map_of_mem hp)

theorem filter_ne_middle {d : Addr} (hnd : ((us ++ (x, d) :: vs).map Prod.fst).Nodup) :
    (us ++ (x, d) :: vs).filter (·.1 ≠ x) = us ++ vs := by
  rw [List.map_append, List.map_cons] at hnd
  have hn := (List.nodup_cons.1 (List.nodup_middle.1 hnd)).1
  rw [List.mem_append, not_or] at hn
  rw [List.filter_append, List.filter_cons_of_neg (by simp), filter_ne_of_not_mem hn.1,
    filter_ne_of_not_mem hn.2]

theorem cleanLoop_rep : ∀ {fuel : ℕ} {h h' : Heap} {A : Contents} {xs : List (Addr × Addr)},
    Rep h A → A l = some xs → cleanLoop l fuel h (h.list l).tqh_first = some h' →
      Rep h' (Function.update A l (some []))
  | 0, _, _, _, _, _, _, hc => by simp [cleanLoop] at hc
  | fuel + 1, h, h', A, xs, hR, hA, hc => by
    have hq := (hR.linked l xs hA).queue
    rw [cleanLoop] at hc
    split_ifs at hc with h0
    · rw [Option.some.injEq] at hc
      subst hc
      obtain rfl : xs = [] := List.map_eq_nil_iff.1 (hq.first_nil.1 h0)
      rwa [← hA, Function.update_eq_self]
    · rcases xs with _ | ⟨⟨x, d⟩, xs⟩
      · exact absurd (hq.first_nil.2 rfl) h0
      have hf : (h.list l).tqh_first = x := hq.first_cons
      rw [hf] at hc
      rcases hrem : listq_removeItem fuel h l x with _ | ⟨r, g⟩
      · rw [hrem] at hc
        cases hc
      rw [hrem, Option.bind_some] at hc
      have hx : x ∈ ((x, d) :: xs).map Prod.fst := List.mem_cons_self
      rcases removeItem_cases hR hrem with ⟨-, -, hno⟩ | ⟨-, us, e, vs, hA', rfl⟩
      · exact absurd hx (hno _ hA)
      · have hR' := rep_unlinkItem hR hA'
        have := cleanLoop_rep hR' (Function.update_self ..) hc
        rwa [Function.update_idem] at this

theorem clean_rep (hR : Rep h A) (hA : A l = some xs) {r : ℤ}
    (hc : listq_clean fuel h l = some (r, h')) :
    r = 0 ∧ Rep h' (Function.update A l (some [])) := by
  rw [listq_clean, if_pos (hR.ne_zero hA)] at hc
  rcases hloop : cleanLoop l fuel h (h.list l).tqh_first with _ | g
  · rw [hloop] at hc
    cases hc
  rw [hloop, Option.map_some, Option.some.injEq, Prod.mk.injEq] at hc
  have hg := cleanLoop_rep hR hA hloop
  have hAg : Function.update A l (some []) l = some [] := Function.update_self ..
  have hsize := (hg.linked l [] hAg).size
  obtain ⟨c, hcl⟩ := hg.isList hAg
  have hself : (g.setList l fun c => { c with m_Size := 0 }) = g := by
    funext a
    by_cases ha : a = l
    · subst ha
      simp only [list, hcl, List.length_nil, Nat.cast_zero] at hsize
      simp only [setList, set_self, list, hcl, ← hsize]
    · simp [setList, set_ne ha]
  rw [hself] at hc
  exact ⟨hc.1.symm, hc.2 ▸ hg⟩

theorem destroy_rep (hR : Rep h A) (hA : A l = some xs) {r : ℤ}
    (hc : listq_destroy fuel h l = some (r, h')) :
    r = 0 ∧ Rep h' (Function.update A l none) := by
  rw [listq_destroy, if_pos (hR.ne_zero hA)] at hc
  rcases hcl : listq_clean fuel h l with _ | ⟨r', g⟩
  · rw [hcl] at hc
    cases hc
  rw [hcl, Option.map_some, Option.some.injEq] at hc
  simp only [if_pos (hR.ne_zero hA), Prod.mk.injEq] at hc
  obtain ⟨rfl, hg⟩ := clean_rep hR hA hcl
  have := rep_freeList hg (Function.update_self ..)
  rw [Function.update_idem, hc.2] at this
  exact ⟨hc.1.symm, this⟩

section Exec

variable {r : Ret} {d : Addr}

theorem exec_create (hR : Rep h A) (hf : h.Fresh x) (he : exec fuel h (.create x) = some (r, h')) :
    Rep h' (A.step (.create x)) ∧ (r.Rejected → h' = h) := by
  simp only [exec, listq_create, Prod.map_apply, id_eq, Option.some.injEq, Prod.mk.injEq] at he
  obtain ⟨rfl, rfl⟩ := he
  refine ⟨rep_create hR hf, fun hrej => ?_⟩
  rcases hrej with h0 | h0
  · cases h0
  · exact absurd (Ret.ptr.inj h0) hf.1

theorem exec_add_tail (hR : Rep h A) (hc : Admissible A h (.add_tail l d x))
    (he : exec fuel h (.add_tail l d x) = some (r, h')) :
    Rep h' (A.step (.add_tail l d x)) ∧ (r.Rejected → h' = h) := by
  obtain ⟨hl, hadm⟩ := hc
  by_cases h0 : l = 0 ∨ d = 0
  · simp only [exec, listq_add_tail, if_pos h0, Prod.map_apply, id_eq, Option.some.injEq,
      Prod.mk.injEq] at he
    obtain ⟨rfl, rfl⟩ := he
    exact ⟨by simpa [Contents.step, h0] using hR, fun _ => rfl⟩
  · have hne := not_or.1 h0
    obtain ⟨hf, hlen⟩ := hadm hne.1 hne.2
    obtain ⟨xs, hA⟩ := (hR.lists l).1 (hl.resolve_left hne.1)
    have hpair : listq_add_tail h l d x = (x, (listq_add_tail h l d x).2) := by
      simp [listq_add_tail, h0]
    rw [exec, hpair, Prod.map_apply, Option.some.injEq, Prod.mk.injEq] at he
    obtain ⟨rfl, rfl⟩ := he
    refine ⟨?_, fun hrej => ?_⟩
    · rw [Contents.step, if_neg h0, hA, Option.map_some]
      exact rep_add_tail hR hA hne.2 hf (hlen xs hA)
    · rcases hrej with h1 | h1
      · cases h1
      · exact absurd (Ret.ptr.inj h1) hf.1

/-- The calls that give a code and a heap return what the function does. -/
theorem exec_code {o : Option (ℤ × Heap)} (he : o.map (Prod.map .code id) = some (r, h')) :
    ∃ v, o = some (v, h') ∧ r = .code v := by
  obtain ⟨⟨v, g⟩, ho, hv⟩ := Option.map_eq_some_iff.1 he
  obtain ⟨rfl, rfl⟩ := Prod.mk.inj hv
  exact ⟨v, ho, rfl⟩

theorem not_rejected_code {v : ℤ} (hv : v ≠ -1) : ¬ (Ret.code v).Rejected := by
  rintro (h | h)
  · exact hv (Ret.code.inj h)
  · cases h

theorem exec_removeItem (hR : Rep h A)
    (he : exec fuel h (.removeItem l i) = some (r, h')) :
    Rep h' (A.step (.removeItem l i)) ∧ (r.Rejected → h' = h) := by
  obtain ⟨v, hrem, rfl⟩ := exec_code he
  rcases removeItem_cases hR hrem with ⟨rfl, rfl, hno⟩ | ⟨rfl, us, d, vs, hA, rfl⟩
  · refine ⟨?_, fun _ => rfl⟩
    rcases hA : A l with _ | xs
    · rwa [Contents.step, hA, Option.map_none, ← hA, Function.update_eq_self]
    · rwa [Contents.step, hA, Option.map_some, filter_ne_of_not_mem (hno xs hA), ← hA,
        Function.update_eq_self]
  · refine ⟨?_, fun hrej => absurd hrej (not_rejected_code (by omega))⟩
    rw [Contents.step, hA, Option.map_some, filter_ne_middle (hR.linked l _ hA).queue.nodup]
    exact rep_unlinkItem hR hA

theorem exec_clean (hR : Rep h A) (hl : l = 0 ∨ h.IsList l)
    (he : exec fuel h (.clean l) = some (r, h')) :
    Rep h' (A.step (.clean l)) ∧ (r.Rejected → h' = h) := by
  obtain ⟨v, hcl, rfl⟩ := exec_code he
  rcases hl with rfl | hl
  · simp only [listq_clean, ne_eq, not_true_eq_false, if_false, Option.some.injEq,
      Prod.mk.injEq] at hcl
    obtain ⟨-, rfl⟩ := hcl
    refine ⟨?_, fun _ => rfl⟩
    have h0 := hR.none_zero
    rwa [Contents.step, h0, Option.map_none, ← h0, Function.update_eq_self]
  · obtain ⟨xs, hA⟩ := (hR.lists l).1 hl
    obtain ⟨rfl, hg⟩ := clean_rep hR hA hcl
    exact ⟨by rwa [Contents.step, hA], fun hrej => absurd hrej (not_rejected_code (by omega))⟩

theorem exec_destroy (hR : Rep h A) (hl : l = 0 ∨ h.IsList l)
    (he : exec fuel h (.destroy l) = some (r, h')) :
    Rep h' (A.step (.destroy l)) ∧ (r.Rejected → h' = h) := by
  obtain ⟨v, hcl, rfl⟩ := exec_code he
  rcases hl with rfl | hl
  · simp only [listq_destroy, ne_eq, not_true_eq_false, if_false, Option.map_some,
      Option.some.injEq, Prod.mk.injEq] at hcl
    obtain ⟨-, rfl⟩ := hcl
    refine ⟨?_, fun _ => rfl⟩
    have h0 := hR.none_zero
    rwa [Contents.step, ← h0, Function.update_eq_self]
  · obtain ⟨xs, hA⟩ := (hR.lists l).1 hl
    obtain ⟨rfl, hg⟩ := destroy_rep hR hA hcl
    exact ⟨hg, fun hrej => absurd hrej (not_rejected_code (by omega))⟩

end Exec

/-- A call that returns does what it is meant for, and one that is refused does nothing. -/
theorem exec_rep (hR : Rep h A) {c : Call} {r : Ret} (hc : Admissible A h c)
    (he : exec fuel h c = some (r, h')) : Rep h' (A.step c) ∧ (r.Rejected → h' = h) := by
  cases c with
  | create x => exact exec_create hR hc he
  | add_tail l d x => exact exec_add_tail hR hc he
  | removeItem l i => exact exec_removeItem hR he
  | clean l => exact exec_clean hR hc he
  | destroy l => exact exec_destroy hR hc he

theorem rep_start : Rep Heap.empty fun _ => none where
  null := rfl
  lists l := by simp [IsList, Heap.empty]
  linked l xs hA := by cases hA
  items i hi := absurd hi (not_isItem_of_released rfl)
  short l xs hA := by cases hA

theorem run_rep {cs : List Call} (hr : Run cs h) : Rep h (contents cs) := by
  induction hr with
  | start => exact rep_start
  | step hr hc he ih =>
    rw [contents, List.foldl_append, List.foldl_cons, List.foldl_nil]
    exact (exec_rep ih hc he).1

/-- Reading along a path gives the data of its items in order. -/
theorem readLoop_path : ∀ {ys : List (Addr × Addr)} {s e : FwdPtr},
    Path 0 h.links s (ys.map Prod.fst) e → h.links.load 0 e = 0 →
      (∀ p ∈ ys, (h.item p.1).p_Data = p.2) →
        readLoop h (ys.length + 1) (h.links.load 0 s) = some (ys.map Prod.snd)
  | [], s, e, hp, he, _ => by
    obtain rfl : e = s := hp
    simp [readLoop, he]
  | y :: ys, s, e, hp, he, hd => by
    obtain ⟨h1, h2, -, h3⟩ := hp
    have hrest := readLoop_path h3 he fun p hp => hd p (List.mem_cons_of_mem _ hp)
    have hload : h.links.load 0 (.cell y.1) = (h.item y.1).tqe_next := rfl
    rw [List.length_cons, readLoop, h1, if_neg h2]
    simp only [listq_next, listq_getData, h2, ne_eq, not_false_eq_true, if_true,
      hd y List.mem_cons_self]
    rw [← hload, hrest]
    rfl

/-- Reading a list from its head gives its data in order. -/
theorem readLoop_eq (hL : Linked h l xs) :
    readLoop h (xs.length + 1) (listq_head h l) = some (xs.map Prod.snd) :=
  readLoop_path hL.queue.1 hL.queue.2 fun p hp => (hL.owned p hp).2.2

end Calls

/-- A list of three items. -/
def threeItems : List Call :=
  [.create 1, .add_tail 1 10 2, .add_tail 1 11 3, .add_tail 1 12 4]

def threeItemsHeap : Heap :=
  let h := (listq_create .empty 1).2
  let h := (listq_add_tail h 1 10 2).2
  let h := (listq_add_tail h 1 11 3).2
  (listq_add_tail h 1 12 4).2

theorem threeItems_contents : contents threeItems 1 = some [(2, 10), (3, 11), (4, 12)] := rfl

theorem threeItems_run : Run threeItems threeItemsHeap := by
  have h1 : Run [.create 1] _ := @Run.step [] _ _ _ _ 0 .start ⟨by simp, rfl⟩ rfl
  have h2 : Run [.create 1, .add_tail 1 10 2] _ := @Run.step _ _ _ _ _ 0 h1
    ⟨.inr ⟨_, rfl⟩, fun _ _ => ⟨⟨by simp, rfl⟩, fun xs h => by cases h; simp⟩⟩ rfl
  have h3 : Run [.create 1, .add_tail 1 10 2, .add_tail 1 11 3] _ := @Run.step _ _ _ _ _ 0 h2
    ⟨.inr ⟨_, rfl⟩, fun _ _ => ⟨⟨by simp, rfl⟩, fun xs h => by cases h; simp⟩⟩ rfl
  exact @Run.step _ _ _ _ _ 0 h3
    ⟨.inr ⟨_, rfl⟩, fun _ _ => ⟨⟨by simp, rfl⟩, fun xs h => by cases h; simp⟩⟩ rfl

/-- After any run of calls, each live list is a well-linked chain of exactly what was added to it
and not removed, in order, and a call that is refused changes no list. -/
theorem listq_run_invariant {cs : List Call} {h : Heap} (hr : Run cs h) :
    (∀ l, h.IsList l ↔ ∃ xs, contents cs l = some xs) ∧
    (∀ l xs, contents cs l = some xs → Linked h l xs ∧ (xs.map Prod.fst).Nodup ∧
      listq_size h l = xs.length ∧
      ∃ fuel, readLoop h fuel (listq_head h l) = some (xs.map Prod.snd)) ∧
    ∀ (fuel : ℕ) (c : Call) (r : Ret) (h' : Heap), Admissible (contents cs) h c →
      exec fuel h c = some (r, h') → r.Rejected → h' = h := by
  have hR := run_rep hr
  refine ⟨hR.lists, fun l xs hA => ?_, fun fuel c r h' hc he => (exec_rep hR hc he).2⟩
  have hL := hR.linked l xs hA
  refine ⟨hL, hL.queue.nodup, ?_, _, readLoop_eq hL⟩
  rw [listq_size, if_pos (hR.ne_zero hA), hL.size]

theorem threeItems_linked : Linked threeItemsHeap 1 [(2, 10), (3, 11), (4, 12)] :=
  ((listq_run_invariant threeItems_run).2.1 1 _ threeItems_contents).1

/-- In a list any run leaves, an item is found, and removed alone, exactly when it is one of the
first two. -/
theorem listq_find_remove_iff {cs : List Call} {h : Heap} (hr : Run cs h) {l : Addr}
    {xs : List (Addr × Addr)} (hl : contents cs l = some xs) {k : ℕ} (hk : k < xs.length) :
    ((∃ fuel, listq_FindItem fuel h l xs[k].1 = some 1) ∧
      ∃ fuel h', listq_removeItem fuel h l xs[k].1 = some (1, h') ∧
        Linked h' l (xs.eraseIdx k) ∧ h' xs[k].1 = .released ∧
        listq_size h' l = listq_size h l - 1) ↔ k < 2 := by
  have hR := run_rep hr
  have hL := hR.linked l xs hl
  refine ⟨fun ⟨⟨fuel, hf⟩, _⟩ => ?_, fun h2 => ⟨⟨2, findItem_of_lt hR hl hk h2⟩, 2, ?_⟩⟩
  · by_contra h2
    rw [findItem_of_ge hR hl hk (by omega)] at hf
    cases hf
  · have hx : xs[k].1 ∈ xs.map Prod.fst := List.mem_map_of_mem (List.getElem_mem hk)
    have hsplit : contents cs l =
        some (xs.take k ++ (xs[k].1, xs[k].2) :: xs.drop (k + 1)) := by
      rw [hl, ← List.drop_eq_getElem_cons hk, List.take_append_drop]
    have hR' := rep_unlinkItem hR hsplit
    rw [← List.eraseIdx_eq_take_drop_succ] at hR'
    have hL' := hR'.linked l _ (Function.update_self ..)
    refine ⟨unlinkItem h l xs[k].1, ?_, hL', ?_, ?_⟩
    · rw [removeItem_eq hR hl hx, findItem_of_lt hR hl hk h2]
      rfl
    · have hne : xs[k].1 ≠ l := by
        intro he
        exact (hR.isList hl).not_isItem (he ▸ (hL.isItem hx).1)
      simp [unlinkItem, setList, set_ne hne]
    · have hne := hR.ne_zero hl
      rw [listq_size, if_pos hne, listq_size, if_pos hne, hL'.size, hL.size,
        List.length_eraseIdx_of_lt hk]
      omega

theorem threeItems_second_found : ∃ fuel, listq_FindItem fuel threeItemsHeap 1 3 = some 1 :=
  ((listq_find_remove_iff threeItems_run threeItems_contents (k := 1) (by decide)).2
    (by decide)).1

/-- The third of three items is linked, and neither found nor removed. -/
theorem threeItems_third_not_found :
    Run threeItems threeItemsHeap ∧ contents threeItems 1 = some [(2, 10), (3, 11), (4, 12)] ∧
      ∀ fuel, listq_FindItem fuel threeItemsHeap 1 4 = none ∧
        listq_removeItem fuel threeItemsHeap 1 4 = none := by
  have hR := run_rep threeItems_run
  have hf : ∀ fuel, listq_FindItem fuel threeItemsHeap 1 4 = none := fun fuel =>
    findItem_of_ge (k := 2) hR threeItems_contents (by decide) le_rfl
  refine ⟨threeItems_run, threeItems_contents, fun fuel => ⟨hf fuel, ?_⟩⟩
  rw [removeItem_eq hR threeItems_contents (by decide), hf]
  rfl

end NetTool

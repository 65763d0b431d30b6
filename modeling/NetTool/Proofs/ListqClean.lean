import NetTool.Proofs.ListqRun

/-!
# Cleaning and destroying a list

The loop of `listq_clean` removes the head, which the search finds at once, so it ends after one
round for each item (`cleanLoop_eq`). It gives back the items in order, each of them once, and
touches no cell but theirs and the container's: what it leaves is the heap in which the items and
the container were given back and the list was created anew in the same place. The cells that a
call lists as given back are those its heap lost (`removeItem_frees_iff`, `clean_frees_iff`,
`destroy_frees_iff`).
-/

namespace NetTool

open CInt TailQueue Heap

/-- The heap with these cells given back. -/
def Heap.freeAll (h : Heap) (as : List Addr) : Heap := fun a => if a ∈ as then .released else h a

/-- The heap after the items `as` of the list `l` were given back and `l` was created anew. -/
def Heap.recreated (h : Heap) (l : Addr) (as : List Addr) : Heap :=
  (listq_create (h.freeAll (l :: as)) l).2

section Cells

variable {h : Heap} {A : Contents} {a l x : Addr} {as : List Addr} {xs : List (Addr × Addr)}

theorem store_of_ne {s : FwdPtr} (hl : s ≠ .head a) (hi : s ≠ .cell a) (b : Addr) :
    (h.store s b) a = h a := by
  rcases s with _ | l | i
  · rfl
  · have hne : a ≠ l := by
      rintro rfl
      exact hl rfl
    exact set_ne hne _
  · have hne : a ≠ i := by
      rintro rfl
      exact hi rfl
    exact set_ne hne _

theorem create_cell (h : Heap) (l a : Addr) :
    (listq_create h l).2 a = if a = l then .list ⟨0, .head l, 0⟩ else h a := by
  by_cases ha : a = l
  · subst ha
    simp [listq_create, TAILQ_INIT, setList, list, sListqContainer.zero]
  · simp [listq_create, TAILQ_INIT, setList, set_ne ha, ha]

theorem recreated_cell (h : Heap) (l a : Addr) (as : List Addr) :
    h.recreated l as a =
      if a = l then .list ⟨0, .head l, 0⟩ else if a ∈ as then .released else h a := by
  rw [recreated, create_cell]
  split_ifs with ha has
  · rfl
  · rw [freeAll, if_pos (List.mem_cons_of_mem _ has)]
  · rw [freeAll, if_neg (by simp [ha, has])]

/-- Unlinking an item touches its own cell, the container and other items of the list. -/
theorem unlinkItem_cell (hR : Rep h A) (hA : A l = some xs) (hx : x ∈ xs.map Prod.fst)
    (hl : a ≠ l) (ha : a ∉ xs.map Prod.fst) : unlinkItem h l x a = h a := by
  have hL := hR.linked l xs hA
  have hne : ∀ y ∈ xs.map Prod.fst, a ≠ y := by
    rintro _ hy rfl
    exact ha hy
  have hstore : ∀ (g : Heap) (b : Addr), (g.store (h.item x).tqe_prev b) a = g a := by
    intro g b
    rcases hL.queue.prev_cases hx with he | ⟨y, hy, -, he⟩
    · rw [show (h.item x).tqe_prev = .head l from he]
      exact store_of_ne (by simpa using hl.symm) (by simp) b
    · rw [show (h.item x).tqe_prev = .cell y from he]
      exact store_of_ne (by simp) (by simpa using (hne y hy).symm) b
  obtain ⟨hn, hnx⟩ := hL.queue.next_cases hx
  have hrem : TAILQ_REMOVE h l x a = h a := by
    unfold TAILQ_REMOVE
    split_ifs with h0
    · have hy : (h.item x).tqe_next ∈ xs.map Prod.fst := hn.resolve_left h0
      have hxn : x ≠ (h.item x).tqe_next := Ne.symm hnx
      simp only [item_setItem, if_neg hxn, hstore]
      exact set_ne (hne _ hy) _
    · simp only [item_setList _ (hR.isList hA), hstore]
      exact set_ne hl _
  calc unlinkItem h l x a
      = (((TAILQ_REMOVE h l x).setItem x fun _ => .zero).set x .released) a := set_ne hl _
    _ = ((TAILQ_REMOVE h l x).setItem x fun _ => .zero) a := set_ne (hne x hx) _
    _ = TAILQ_REMOVE h l x a := set_ne (hne x hx) _
    _ = h a := hrem

theorem unlinkItem_self (hR : Rep h A) (hA : A l = some xs) (hx : x ∈ xs.map Prod.fst) :
    unlinkItem h l x x = .released := by
  have hne : x ≠ l := fun he =>
    (hR.isList hA).not_isItem (he ▸ ((hR.linked l xs hA).isItem hx).1)
  simp [unlinkItem, setList, set_ne hne]

/-- An empty list is as it was created. -/
theorem recreated_nil (hR : Rep h A) (hA : A l = some []) : h.recreated l [] = h := by
  have hL := hR.linked l [] hA
  obtain ⟨c, hc⟩ := hR.isList hA
  have hlist : h.list l = c := by rw [list, hc]
  have hfirst : c.tqh_first = 0 := by
    rw [← hlist]
    exact hL.queue.first_nil.2 rfl
  have hlast : c.tqh_last = .head l := by
    rw [← hlist]
    exact hL.queue.1
  have hsize : c.m_Size = 0 := by
    rw [← hlist]
    exact hL.size
  funext a
  rw [recreated_cell]
  split_ifs with ha has
  · rw [ha, hc, ← hfirst, ← hlast, ← hsize]
  · cases has
  · rfl

theorem recreated_unlinkItem {d : Addr} (hR : Rep h A) (hA : A l = some ((x, d) :: xs)) :
    (unlinkItem h l x).recreated l (xs.map Prod.fst) = h.recreated l (x :: xs.map Prod.fst) := by
  have hx : x ∈ ((x, d) :: xs).map Prod.fst := List.mem_cons_self
  funext a
  rw [recreated_cell, recreated_cell]
  split_ifs with hl hxs hxs' hxs'
  · rfl
  · rfl
  · exact absurd (List.mem_cons_of_mem _ hxs) hxs'
  · have hax : a = x := (List.mem_cons.1 hxs').resolve_right hxs
    rw [hax]
    exact unlinkItem_self hR hA hx
  · exact unlinkItem_cell hR hA hx hl hxs'

end Cells

section Loop

variable {h : Heap} {A : Contents} {l : Addr} {xs : List (Addr × Addr)} {fuel : ℕ}

/-- A round of the loop removes the head and gives it back. -/
theorem clean_round {x d : Addr} (hR : Rep h A) (hA : A l = some ((x, d) :: xs)) :
    (h.list l).tqh_first = x ∧ x ≠ 0 ∧
      listq_removeItem (fuel + 2) h l x = some (1, unlinkItem h l x) ∧
      removeItem_frees (fuel + 2) h l x = [x] := by
  have hL := hR.linked l _ hA
  have hx : x ∈ ((x, d) :: xs).map Prod.fst := List.mem_cons_self
  have hfind : listq_FindItem (fuel + 2) h l x = some 1 :=
    findItem_of_lt hR hA (k := 0) (by simp) (by omega)
  have hown : ¬ (l = 0 ∨ x = 0 ∨ (h.item x).p_Container ≠ l) := by
    simp only [hR.ne_zero hA, hL.queue.ne_nil x hx, (hL.isItem hx).2, ne_eq, not_true_eq_false,
      or_self, not_false_eq_true]
  refine ⟨hL.queue.first_cons, hL.queue.ne_nil x hx, ?_, ?_⟩
  · rw [removeItem_eq hR hA hx, hfind]
    rfl
  · rw [removeItem_frees, if_neg hown, hfind]
    rfl

/-- The loop ends, gives back the items in order and leaves the list as it was created. -/
theorem cleanLoop_eq : ∀ {xs : List (Addr × Addr)} {fuel : ℕ} {h : Heap} {A : Contents},
    Rep h A → A l = some xs → xs.length + 2 ≤ fuel →
      cleanLoop l fuel h (h.list l).tqh_first = some (h.recreated l (xs.map Prod.fst)) ∧
        cleanLoop_frees l fuel h (h.list l).tqh_first = xs.map Prod.fst
  | [], fuel, h, A, hR, hA, hf => by
    obtain ⟨f, rfl⟩ : ∃ f, fuel = f + 1 := ⟨fuel - 1, by omega⟩
    have h0 : (h.list l).tqh_first = 0 := (hR.linked l [] hA).queue.first_nil.2 rfl
    rw [cleanLoop, cleanLoop_frees, if_pos h0, if_pos h0, List.map_nil, recreated_nil hR hA]
    exact ⟨rfl, rfl⟩
  | (x, d) :: xs, fuel, h, A, hR, hA, hf => by
    obtain ⟨f, rfl⟩ : ∃ f, fuel = f + 2 + 1 := ⟨fuel - 3, by simp at hf; omega⟩
    obtain ⟨hfirst, hx, hrem, hfree⟩ := @clean_round h A l xs f x d hR hA
    have hR' : Rep (unlinkItem h l x) (Function.update A l (some xs)) :=
      @rep_unlinkItem h A l x d [] xs hR hA
    obtain ⟨h1, h2⟩ := @cleanLoop_eq xs (f + 2) _ _ hR' (Function.update_self ..)
      (by simp at hf ⊢; omega)
    rw [cleanLoop, cleanLoop_frees, hfirst, if_neg hx, if_neg hx, hrem, hfree, Option.bind_some]
    refine ⟨h1.trans ?_, ?_⟩
    · rw [recreated_unlinkItem hR hA]
      rfl
    · exact congrArg ([x] ++ ·) h2

theorem clean_eq (hR : Rep h A) (hA : A l = some xs) (hf : xs.length + 2 ≤ fuel) :
    listq_clean fuel h l = some (0, h.recreated l (xs.map Prod.fst)) ∧
      clean_frees fuel h l = xs.map Prod.fst := by
  obtain ⟨h1, h2⟩ := cleanLoop_eq hR hA hf
  rw [listq_clean, clean_frees, if_pos (hR.ne_zero hA), if_pos (hR.ne_zero hA), h1]
  refine ⟨?_, h2⟩
  have hself : (h.recreated l (xs.map Prod.fst)).setList l (fun c => { c with m_Size := 0 }) =
      h.recreated l (xs.map Prod.fst) := by
    funext a
    by_cases ha : a = l
    · subst ha
      simp [setList, list, recreated_cell]
    · simp [setList, set_ne ha]
  rw [Option.map_some, hself]

theorem destroy_eq (hR : Rep h A) (hA : A l = some xs) (hf : xs.length + 2 ≤ fuel) :
    listq_destroy fuel h l = some (0, h.freeAll (l :: xs.map Prod.fst)) ∧
      destroy_frees fuel h l = xs.map Prod.fst ++ [l] := by
  obtain ⟨h1, h2⟩ := clean_eq hR hA hf
  have hl := hR.ne_zero hA
  rw [listq_destroy, destroy_frees, if_pos hl, if_pos hl, if_pos hl, h1, h2]
  refine ⟨?_, rfl⟩
  have hfree : (h.recreated l (xs.map Prod.fst)).set l .released =
      h.freeAll (l :: xs.map Prod.fst) := by
    funext a
    by_cases ha : a = l
    · subst ha
      simp [freeAll]
    · rw [set_ne ha, recreated_cell, if_neg ha, freeAll]
      simp only [List.mem_cons, ha, false_or]
  rw [Option.map_some]
  dsimp only
  rw [if_pos hl, hfree]

end Loop

/-! ## What is given back -/

/-- The cell was given back. -/
def Heap.Lost (h h' : Heap) (a : Addr) : Prop := h a ≠ .released ∧ h' a = .released

section Frees

variable {h h' : Heap} {A : Contents} {a l i x : Addr} {xs : List (Addr × Addr)} {fuel : ℕ} {r : ℤ}

theorem not_lost (h : Heap) (a : Addr) : ¬ h.Lost h a := fun hl => hl.1 hl.2

theorem ne_released_of_isItem (hi : h.IsItem a) : h a ≠ .released :=
  fun hr => not_isItem_of_released hr hi

theorem ne_released_of_isList (hl : h.IsList a) : h a ≠ .released :=
  fun hr => not_isList_of_released hr hl

theorem lost_unlinkItem (hR : Rep h A) (hA : A l = some xs) (hx : x ∈ xs.map Prod.fst) :
    h.Lost (unlinkItem h l x) a ↔ a = x := by
  have hL := hR.linked l xs hA
  constructor
  · rintro ⟨hlive, hrel⟩
    by_contra hne
    obtain ⟨⟨y, d⟩, hp, rfl⟩ := List.mem_map.1 hx
    obtain ⟨us, vs, rfl⟩ := List.append_of_mem hp
    have hR' := rep_unlinkItem hR hA
    have hA' : Function.update A l (some (us ++ vs)) l = some (us ++ vs) := Function.update_self ..
    by_cases hl : a = l
    · exact ne_released_of_isList (hR'.isList hA') (hl ▸ hrel)
    by_cases ha : a ∈ (us ++ vs).map Prod.fst
    · exact ne_released_of_isItem ((hR'.linked l _ hA').isItem ha).1 hrel
    · have hmem : a ∉ (us ++ (y, d) :: vs).map Prod.fst := by
        rw [List.map_append, List.map_cons, List.mem_append, List.mem_cons]
        rw [List.map_append, List.mem_append] at ha
        exact fun h => ha (h.imp_right fun h => h.resolve_left hne)
      rw [unlinkItem_cell hR hA hx hl hmem] at hrel
      exact hlive hrel
  · rintro rfl
    exact ⟨ne_released_of_isItem (hL.isItem hx).1, unlinkItem_self hR hA hx⟩

theorem removeItem_frees_iff (hR : Rep h A)
    (hr : listq_removeItem fuel h l i = some (r, h')) :
    a ∈ removeItem_frees fuel h l i ↔ h.Lost h' a := by
  unfold listq_removeItem at hr
  unfold removeItem_frees
  by_cases hrej : l = 0 ∨ i = 0 ∨ (h.item i).p_Container ≠ l
  · rw [if_pos hrej] at hr ⊢
    obtain ⟨-, rfl⟩ := Prod.mk.inj (Option.some.inj hr)
    exact iff_of_false List.not_mem_nil (not_lost h a)
  · rw [if_neg hrej] at hr ⊢
    obtain ⟨v, hv, hr⟩ := Option.map_eq_some_iff.1 hr
    rw [hv]
    dsimp only
    by_cases h0 : v ≠ 0
    · rw [if_pos h0] at hr ⊢
      obtain ⟨-, rfl⟩ := Prod.mk.inj hr
      simp only [not_or, not_not] at hrej
      obtain ⟨xs, hA, hx⟩ := hR.mem_of_owner (isItem_of_owner hrej.1 hrej.2.2) hrej.2.2
      rw [List.mem_singleton, lost_unlinkItem hR hA hx]
    · rw [if_neg h0] at hr ⊢
      obtain ⟨-, rfl⟩ := Prod.mk.inj hr
      exact iff_of_false List.not_mem_nil (not_lost h a)

theorem clean_frees_iff (hR : Rep h A) (hA : A l = some xs) (hf : xs.length + 2 ≤ fuel)
    (hr : listq_clean fuel h l = some (r, h')) :
    a ∈ clean_frees fuel h l ↔ h.Lost h' a := by
  obtain ⟨h1, h2⟩ := clean_eq hR hA hf
  have hL := hR.linked l xs hA
  obtain ⟨-, rfl⟩ := Prod.mk.inj (Option.some.inj (h1.symm.trans hr))
  rw [h2, Lost, recreated_cell]
  have hli := hR.isList hA
  split_ifs with hal hax
  · refine iff_of_false (fun hx => hli.not_isItem ?_) fun h => by simpa using h.2
    exact hal ▸ (hL.isItem hx).1
  · exact iff_of_true hax ⟨ne_released_of_isItem (hL.isItem hax).1, rfl⟩
  · exact iff_of_false hax (not_lost h a)

theorem destroy_frees_iff (hR : Rep h A) (hA : A l = some xs) (hf : xs.length + 2 ≤ fuel)
    (hr : listq_destroy fuel h l = some (r, h')) :
    a ∈ destroy_frees fuel h l ↔ h.Lost h' a := by
  obtain ⟨h1, h2⟩ := destroy_eq hR hA hf
  have hL := hR.linked l xs hA
  obtain ⟨-, rfl⟩ := Prod.mk.inj (Option.some.inj (h1.symm.trans hr))
  have hmem : a ∈ xs.map Prod.fst ++ [l] ↔ a ∈ l :: xs.map Prod.fst := by
    rw [List.mem_append, List.mem_singleton, List.mem_cons, or_comm]
  rw [h2, hmem, Lost, freeAll]
  split_ifs with ha
  · refine iff_of_true ha ⟨?_, rfl⟩
    rcases List.mem_cons.1 ha with rfl | hx
    · exact ne_released_of_isList (hR.isList hA)
    · exact ne_released_of_isItem (hL.isItem hx).1
  · exact iff_of_false ha (not_lost h a)

end Frees

/-- A list any run leaves can be cleaned and destroyed. Cleaning gives back its items, each once,
and leaves the heap in which they and the container were given back and the list was created in
the same place; destroying gives back the items and then the container. -/
theorem listq_clean_releases {cs : List Call} {h : Heap} (hr : Run cs h) {l : Addr}
    {xs : List (Addr × Addr)} (hl : contents cs l = some xs) {fuel : ℕ}
    (hf : xs.length + 2 ≤ fuel) :
    (∃ h', listq_clean fuel h l = some (0, h') ∧
      h' = (listq_create (h.freeAll (l :: xs.map Prod.fst)) l).2 ∧
      clean_frees fuel h l = xs.map Prod.fst ∧ Linked h' l [] ∧ listq_size h' l = 0) ∧
    (∃ h', listq_destroy fuel h l = some (0, h') ∧ h' = h.freeAll (l :: xs.map Prod.fst) ∧
      destroy_frees fuel h l = xs.map Prod.fst ++ [l]) ∧
    (xs.map Prod.fst ++ [l]).Nodup ∧ h.IsList l ∧ ∀ x ∈ xs.map Prod.fst, h.IsItem x := by
  have hR := run_rep hr
  have hL := hR.linked l xs hl
  obtain ⟨h1, h2⟩ := clean_eq hR hl hf
  obtain ⟨h3, h4⟩ := destroy_eq hR hl hf
  have hempty := (clean_rep hR hl h1).2.linked l [] (Function.update_self ..)
  have hli := hR.isList hl
  refine ⟨⟨_, h1, rfl, h2, hempty, ?_⟩, ⟨_, h3, rfl, h4⟩, ?_, hli,
    fun x hx => (hL.isItem hx).1⟩
  · rw [listq_size, if_pos (hR.ne_zero hl), hempty.size]
    rfl
  · refine List.nodup_append.2 ⟨hL.queue.nodup, List.nodup_singleton l, ?_⟩
    rintro x hx _ hl' rfl
    rw [List.mem_singleton.1 hl'] at hx
    exact hli.not_isItem (hL.isItem hx).1

theorem threeItems_clean :
    clean_frees 5 threeItemsHeap 1 = [2, 3, 4] ∧ destroy_frees 5 threeItemsHeap 1 = [2, 3, 4, 1] ∧
      (listq_clean 5 threeItemsHeap 1).map Prod.fst = some 0 := by
  obtain ⟨⟨_, h1, -, h2, -⟩, ⟨_, -, -, h3⟩, -⟩ :=
    @listq_clean_releases threeItems _ threeItems_run 1 _ threeItems_contents 5 (by decide)
  exact ⟨h2, h3, by rw [h1]; rfl⟩

end NetTool

import Mathlib.Tactic.Ring
import NetTool.Proofs.Heap

/-!
# The heap represents the lists' contents

`Rep h A`: the heap `h` holds the lists `A`, and no item is live outside them. Creating a list,
adding at the tail, unlinking an item and giving back an empty list's container each take a heap
that represents the contents to one that represents what they should be.
-/

namespace NetTool

open CInt TailQueue Heap

/-- The heap holds the lists `A`, and no item is live outside them. -/
structure Rep (h : Heap) (A : Contents) : Prop where
  null : h 0 = .released
  lists : ∀ l, h.IsList l ↔ ∃ xs, A l = some xs
  linked : ∀ l xs, A l = some xs → Linked h l xs
  items : ∀ i, h.IsItem i → ∃ l xs, A l = some xs ∧ i ∈ xs.map Prod.fst
  short : ∀ l xs, A l = some xs → xs.length < 2 ^ 31

section Contents

variable {h h' : Heap} {A : Contents} {l l' i x d : Addr} {xs ys us vs : List (Addr × Addr)}

theorem Linked.isItem (hL : Linked h l xs) (hx : x ∈ xs.map Prod.fst) :
    h.IsItem x ∧ (h.item x).p_Container = l := by
  obtain ⟨p, hp, rfl⟩ := List.mem_map.1 hx
  exact ⟨(hL.owned p hp).1, (hL.owned p hp).2.1⟩

theorem Linked.disjoint (hL : Linked h l xs) (hL' : Linked h l' ys) (hne : l' ≠ l) :
    List.Disjoint (xs.map Prod.fst) (ys.map Prod.fst) := by
  intro a ha ha'
  exact hne ((hL'.isItem ha').2.symm.trans (hL.isItem ha).2)

theorem Linked.slotLive_last (hL : Linked h l xs) (hl : h.IsList l) :
    h.SlotLive (h.list l).tqh_last := by
  rcases hL.queue.last_cases with he | ⟨y, hy, he⟩
  · rw [show (h.list l).tqh_last = .head l from he]
    exact hl
  · rw [show (h.list l).tqh_last = .cell y from he]
    exact (hL.isItem hy).1

theorem Rep.isList (hR : Rep h A) (hA : A l = some xs) : h.IsList l := (hR.lists l).2 ⟨xs, hA⟩

theorem Rep.ne_zero (hR : Rep h A) (hA : A l = some xs) : l ≠ 0 := by
  rintro rfl
  exact not_isList_of_released hR.null (hR.isList hA)

theorem Rep.none_zero (hR : Rep h A) : A 0 = none := by
  rcases hA : A 0 with _ | xs
  · rfl
  · exact absurd rfl (hR.ne_zero hA)

/-- A live item whose owner is `l` is in the list `l`. -/
theorem Rep.mem_of_owner (hR : Rep h A) (hi : h.IsItem i) (ho : (h.item i).p_Container = l) :
    ∃ xs, A l = some xs ∧ i ∈ xs.map Prod.fst := by
  obtain ⟨l', xs, hA, hx⟩ := hR.items i hi
  obtain rfl : l' = l := ((hR.linked l' xs hA).isItem hx).2.symm.trans ho
  exact ⟨xs, hA, hx⟩

/-- Two heaps with the same kinds of cells, up to some live ones, agree on the null address. -/
theorem null_of_kinds (h0 : h 0 = .released) (hl : h'.IsList 0 → h.IsList 0)
    (hi : h'.IsItem 0 → h.IsItem 0) : h' 0 = .released := by
  rcases hc : h' 0 with _ | c | c
  · rfl
  · exact absurd (hl ⟨c, hc⟩) (not_isList_of_released h0)
  · exact absurd (hi ⟨c, hc⟩) (not_isItem_of_released h0)

/-- A list whose chain is as it should be is linked when its items and its count are as before. -/
theorem Linked.of_kept (hL : Linked h l xs) (hq : IsQueue 0 h'.links l (xs.map Prod.fst))
    (hk : ∀ i ∈ xs.map Prod.fst, h'.IsItem i ∧ (h'.item i).p_Container = (h.item i).p_Container ∧
      (h'.item i).p_Data = (h.item i).p_Data)
    (hs : (h'.list l).m_Size = (h.list l).m_Size) : Linked h' l xs := by
  refine ⟨hq, fun p hp => ?_, hs.trans hL.size⟩
  obtain ⟨h1, h2, h3⟩ := hk p.1 (List.mem_map_of_mem hp)
  exact ⟨h1, h2.trans (hL.owned p hp).2.1, h3.trans (hL.owned p hp).2.2⟩

/-- A call that makes the list `l` what it should be and keeps the others. -/
theorem Rep.update {v : Option (List (Addr × Addr))} (hR : Rep h A) (h0 : h' 0 = .released)
    (hl : ∀ a, h'.IsList a ↔ if a = l then v.isSome = true else h.IsList a)
    (hself : ∀ xs, v = some xs → Linked h' l xs ∧ xs.length < 2 ^ 31)
    (hother : ∀ l' ys, l' ≠ l → A l' = some ys → Linked h' l' ys)
    (hitems : ∀ i, h'.IsItem i → (∃ xs, v = some xs ∧ i ∈ xs.map Prod.fst) ∨
      h.IsItem i ∧ ∀ xs, A l = some xs → i ∉ xs.map Prod.fst) :
    Rep h' (Function.update A l v) := by
  refine ⟨h0, fun l' => ?_, fun l' ys hA => ?_, fun i hi => ?_, fun l' ys hA => ?_⟩
  · rw [hl, Function.update_apply]
    split_ifs with hll
    · exact Option.isSome_iff_exists
    · exact hR.lists l'
  · rw [Function.update_apply] at hA
    split_ifs at hA with hll
    · subst hll
      exact (hself ys hA).1
    · exact hother l' ys hll hA
  · rcases hitems i hi with ⟨xs, hv, hx⟩ | ⟨hi, hno⟩
    · exact ⟨l, xs, by rw [Function.update_self, hv], hx⟩
    · obtain ⟨l', ys, hA, hx⟩ := hR.items i hi
      refine ⟨l', ys, ?_, hx⟩
      rw [Function.update_of_ne, hA]
      rintro rfl
      exact hno ys hA hx
  · rw [Function.update_apply] at hA
    split_ifs at hA with hll
    · exact (hself ys hA).2
    · exact hR.short l' ys hA

/-- A call that changes what the list `l` has and creates or gives back no list. -/
theorem Rep.replace (hR : Rep h A) (hA : A l = some xs) (h0 : h' 0 = .released)
    (hl : ∀ a, h'.IsList a ↔ h.IsList a) (hL : Linked h' l ys) (hlen : ys.length < 2 ^ 31)
    (hother : ∀ l' zs, l' ≠ l → A l' = some zs → Linked h' l' zs)
    (hitems : ∀ i, h'.IsItem i → i ∈ ys.map Prod.fst ∨ h.IsItem i ∧ i ∉ xs.map Prod.fst) :
    Rep h' (Function.update A l (some ys)) := by
  refine hR.update h0 (fun a => ?_) ?_ hother fun i hi => ?_
  · rw [hl]
    split_ifs with ha
    · simp [ha, hR.isList hA]
    · rfl
  · rintro zs ⟨⟩
    exact ⟨hL, hlen⟩
  · rcases hitems i hi with hy | ⟨hi, hx⟩
    · exact .inl ⟨ys, rfl, hy⟩
    · refine .inr ⟨hi, fun zs hA' => ?_⟩
      rw [hA, Option.some.injEq] at hA'
      exact hA' ▸ hx

/-! ## Creating a list -/

/-- What `listq_create` changes: the cell of the new list. -/
theorem create_spec (hf : h.Fresh x) :
    (∀ a, (listq_create h x).2.IsList a ↔ a = x ∨ h.IsList a) ∧
      (∀ a, (listq_create h x).2.IsItem a ↔ h.IsItem a) ∧
      (listq_create h x).2.links = h.links.init 0 x ∧
      (∀ a, ((listq_create h x).2.list a).m_Size = (h.list a).m_Size) ∧
      ∀ a, ((listq_create h x).2.item a).p_Container = (h.item a).p_Container ∧
        ((listq_create h x).2.item a).p_Data = (h.item a).p_Data := by
  have hl : (h.set x (.list .zero)).IsList x := ⟨.zero, set_self _⟩
  obtain ⟨hr, hlk⟩ := tailq_init hl
  have hitem := item_set_zero (c := .list .zero) hf.2 (.inr rfl)
  have hlist := list_set_zero (c := .list .zero) hf.2 (.inr rfl)
  have heq : (listq_create h x).2 = TAILQ_INIT (h.set x (.list .zero)) x := rfl
  rw [heq]
  refine ⟨fun a => ?_, fun a => ?_, ?_, fun a => ?_, fun a => ?_⟩
  · rw [hr.isList, isList_set]
    split_ifs with ha <;> simp [ha]
  · rw [hr.isItem, isItem_set]
    split_ifs with ha
    · simp [ha, not_isItem_of_released hf.2]
    · rfl
  · rw [hlk, links_congr hitem hlist]
  · rw [hr.size, hlist]
  · rw [hr.owner, hr.data, hitem]
    exact ⟨rfl, rfl⟩

theorem rep_create (hR : Rep h A) (hf : h.Fresh x) :
    Rep (listq_create h x).2 (A.step (.create x)) := by
  obtain ⟨hkl, hki, hlk, hs, hk⟩ := create_spec hf
  have hnl : ¬ h.IsList x := not_isList_of_released hf.2
  have hnull := null_of_kinds hR.null (fun h0 => ((hkl 0).1 h0).resolve_left hf.1.symm) (hki 0).1
  refine hR.update hnull (fun a => ?_) ?_ (fun l' ys hne hA => ?_) fun i hi => ?_
  · rw [hkl]
    split_ifs with ha <;> simp [ha]
  · rintro xs ⟨⟩
    refine ⟨⟨?_, by simp, ?_⟩, by simp⟩
    · rw [hlk]
      exact isQueue_init x
    · rw [hs, list_of_not hnl]
      rfl
  · have hL := hR.linked l' ys hA
    refine hL.of_kept ?_ (fun i hi => ⟨(hki i).2 (hL.isItem hi).1, hk i⟩) (hs l')
    rw [hlk]
    exact init_other hne hL.queue
  · exact .inr ⟨(hki i).1 hi, fun xs hA => absurd (hR.isList hA) hnl⟩

/-! ## Adding at the tail -/

/-- What `listq_add_tail` changes: the new item's cell, the links and the count. -/
theorem add_tail_spec (h0 : l ≠ 0) (hl : h.IsList l) (hd : d ≠ 0) (hf : h.Fresh x)
    (hs : h.SlotLive (h.list l).tqh_last) :
    (∀ a, (listq_add_tail h l d x).2.IsList a ↔ h.IsList a) ∧
      (∀ a, (listq_add_tail h l d x).2.IsItem a ↔ a = x ∨ h.IsItem a) ∧
      (listq_add_tail h l d x).2.links = h.links.insertTail 0 l x ∧
      (∀ a, ((listq_add_tail h l d x).2.list a).m_Size =
        if a = l then i32 ((h.list l).m_Size + 1) else (h.list a).m_Size) ∧
      (∀ a, a ≠ x → ((listq_add_tail h l d x).2.item a).p_Container = (h.item a).p_Container ∧
        ((listq_add_tail h l d x).2.item a).p_Data = (h.item a).p_Data) ∧
      ((listq_add_tail h l d x).2.item x).p_Container = l ∧
      ((listq_add_tail h l d x).2.item x).p_Data = d := by
  obtain ⟨g, hg, gl, gi, glist, glinks, gother, gd, gc⟩ := newItem_spec hf d l
  have hslot : g.SlotLive (g.list l).tqh_last := by
    rw [glist]
    revert hs
    rcases (h.list l).tqh_last with _ | a | a
    · exact id
    · exact (gl a).2
    · exact fun ha => (gi a).2 (.inr ha)
  obtain ⟨hr, hlk⟩ := tailq_insert_tail ((gl l).2 hl) ((gi x).2 (.inl rfl)) hslot
  have hlr := (hr.isList l).2 ((gl l).2 hl)
  obtain ⟨s1, s2, s3⟩ := setSize_spec hlr fun c => i32 (c.m_Size + 1)
  have heq : (listq_add_tail h l d x).2 = (TAILQ_INSERT_TAIL g l x).setList l
      fun c => { c with m_Size := i32 (c.m_Size + 1) } := by
    simp [listq_add_tail, h0, hd, hg]
  rw [heq]
  refine ⟨fun a => ?_, fun a => ?_, ?_, fun a => ?_, fun a ha => ?_, ?_, ?_⟩
  · rw [isList_setList _ hlr, hr.isList, gl]
  · rw [isItem_setList _ hlr, hr.isItem, gi]
  · rw [s1, hlk, glinks]
  · rw [s3, hr.size, hr.size, glist]
  · rw [s2, hr.owner, hr.data, gother a ha]
    exact ⟨rfl, rfl⟩
  · rw [s2, hr.owner, gc]
  · rw [s2, hr.data, gd]

theorem rep_add_tail (hR : Rep h A) (hA : A l = some xs) (hd : d ≠ 0) (hf : h.Fresh x)
    (hlen : xs.length + 1 < 2 ^ 31) :
    Rep (listq_add_tail h l d x).2 (Function.update A l (some (xs ++ [(x, d)]))) := by
  have hl := hR.isList hA
  have hL := hR.linked l xs hA
  obtain ⟨hkl, hki, hlk, hs, hkeep, hxc, hxd⟩ :=
    add_tail_spec (hR.ne_zero hA) hl hd hf (hL.slotLive_last hl)
  have hnotin : ∀ l' ys, A l' = some ys → x ∉ ys.map Prod.fst := fun l' ys hA' hx =>
    not_isItem_of_released hf.2 ((hR.linked l' ys hA').isItem hx).1
  have hnull := null_of_kinds hR.null (hkl 0).1 fun h0 => ((hki 0).1 h0).resolve_left hf.1.symm
  refine hR.replace hA hnull hkl ⟨?_, fun p hp => ?_, ?_⟩ (by simpa using hlen)
    (fun l' ys hne hA' => ?_) fun i hi => ?_
  · rw [hlk, List.map_append]
    exact isQueue_insertTail hL.queue (hnotin l xs hA) hf.1
  · rcases List.mem_append.1 hp with hp | hp
    · obtain ⟨h1, h2, h3⟩ := hL.owned p hp
      have hne : p.1 ≠ x := fun he => hnotin l xs hA (he ▸ List.mem_map_of_mem hp)
      exact ⟨(hki _).2 (.inr h1), (hkeep _ hne).1.trans h2, (hkeep _ hne).2.trans h3⟩
    · obtain rfl := List.mem_singleton.1 hp
      exact ⟨(hki x).2 (.inl rfl), hxc, hxd⟩
  · rw [hs, if_pos rfl, hL.size, List.length_append, List.length_singleton,
      i32_of_mem (by omega) (by omega)]
    push_cast
    ring
  · have hL' := hR.linked l' ys hA'
    refine hL'.of_kept ?_ (fun i hi => ⟨(hki i).2 (.inr (hL'.isItem hi).1),
      hkeep i fun he => hnotin l' ys hA' (he ▸ hi)⟩) ?_
    · rw [hlk]
      exact insertTail_other hne hL.queue hL'.queue (hnotin l' ys hA') (hL.disjoint hL' hne)
    · rw [hs, if_neg hne]
  · rw [List.map_append, List.mem_append]
    rcases (hki i).1 hi with rfl | hi
    · exact .inl (.inr (by simp))
    · by_cases hx : i ∈ xs.map Prod.fst
      · exact .inl (.inl hx)
      · exact .inr ⟨hi, hx⟩

/-! ## Unlinking an item -/

/-- A cell given back: the others are as they were, and it reads as zeroes. -/
theorem freeItem_spec (hx : h.IsItem x) :
    ∃ g, g = (h.setItem x fun _ => .zero).set x .released ∧
      (∀ a, g.IsList a ↔ h.IsList a) ∧ (∀ a, g.IsItem a ↔ a ≠ x ∧ h.IsItem a) ∧
      g.list = h.list ∧ ∀ a, a ≠ x → g.item a = h.item a := by
  have hx0 := (isItem_setItem (fun _ => .zero) hx).2 hx
  have hl : ∀ a, ((h.setItem x fun _ => .zero).set x .released).IsList a ↔ h.IsList a := by
    intro a
    rw [isList_set]
    split_ifs with ha
    · subst ha
      simpa using fun hl : h.IsList a => hl.not_isItem hx
    · exact isList_setItem _ hx
  refine ⟨_, rfl, hl, fun a => ?_, ?_, fun a ha => ?_⟩
  · rw [isItem_set]
    split_ifs with ha
    · simp [ha]
    · rw [isItem_setItem _ hx]
      exact ⟨fun h => ⟨ha, h⟩, fun h => h.2⟩
  · funext a
    by_cases ha : a = x
    · subst ha
      have hn : ¬ h.IsList a := fun hl => hl.not_isItem hx
      rw [list_of_not hn, list_of_not ((hl a).not.2 hn)]
    · rw [list_set_ne ha, list_setItem _ hx]
  · rw [item_set_ne ha, item_setItem, if_neg ha]

/-- What unlinking and giving back a linked item changes: its cell, the links between the other
items and the count. -/
theorem unlinkItem_spec (hl : h.IsList l) (hx : h.IsItem x)
    (hn : (h.item x).tqe_next = 0 ∨ h.IsItem (h.item x).tqe_next)
    (hnx : (h.item x).tqe_next ≠ x) (hp : h.SlotLive (h.item x).tqe_prev) :
    (∀ a, (unlinkItem h l x).IsList a ↔ h.IsList a) ∧
      (∀ a, (unlinkItem h l x).IsItem a ↔ a ≠ x ∧ h.IsItem a) ∧
      (∀ l' ys, x ∉ ys → IsQueue 0 (h.links.remove 0 l x) l' ys →
        IsQueue 0 (unlinkItem h l x).links l' ys) ∧
      (∀ a, ((unlinkItem h l x).list a).m_Size =
        if a = l then i32 ((h.list l).m_Size - 1) else (h.list a).m_Size) ∧
      ∀ a, a ≠ x → ((unlinkItem h l x).item a).p_Container = (h.item a).p_Container ∧
        ((unlinkItem h l x).item a).p_Data = (h.item a).p_Data := by
  obtain ⟨hr, hlk⟩ := tailq_remove hl hn hnx hp
  obtain ⟨g, hg, gl, gi, glist, gother⟩ := freeItem_spec ((hr.isItem x).2 hx)
  have hlg := (gl l).2 ((hr.isList l).2 hl)
  obtain ⟨s1, s2, s3⟩ := setSize_spec hlg fun c => i32 (c.m_Size - 1)
  have heq : unlinkItem h l x = g.setList l fun c => { c with m_Size := i32 (c.m_Size - 1) } := by
    rw [hg]
    rfl
  rw [heq]
  refine ⟨fun a => ?_, fun a => ?_, fun l' ys hxy hq => ?_, fun a => ?_, fun a ha => ?_⟩
  · rw [isList_setList _ hlg, gl, hr.isList]
  · rw [isItem_setList _ hlg, gi, hr.isItem]
  · have hne : ∀ a ∈ ys, a ≠ x := fun a ha he => hxy (he ▸ ha)
    rw [← hlk] at hq
    rw [s1]
    refine hq.congr ?_ ?_ (fun a ha => ?_) fun a ha => ?_
    · simp only [links, glist]
    · simp only [links, glist]
    · simp only [links, gother a (hne a ha)]
    · simp only [links, gother a (hne a ha)]
  · rw [s3, glist, hr.size, hr.size]
  · rw [s2, gother a ha, hr.owner, hr.data]
    exact ⟨rfl, rfl⟩

/-- The neighbours of a linked item are live. -/
theorem Linked.neighbours (hL : Linked h l xs) (hl : h.IsList l) (hx : x ∈ xs.map Prod.fst) :
    ((h.item x).tqe_next = 0 ∨ h.IsItem (h.item x).tqe_next) ∧ (h.item x).tqe_next ≠ x ∧
      h.SlotLive (h.item x).tqe_prev := by
  obtain ⟨hn, hnx⟩ := hL.queue.next_cases hx
  refine ⟨hn.imp id fun hy => (hL.isItem hy).1, hnx, ?_⟩
  rcases hL.queue.prev_cases hx with he | ⟨y, hy, -, he⟩
  · rw [show (h.item x).tqe_prev = .head l from he]
    exact hl
  · rw [show (h.item x).tqe_prev = .cell y from he]
    exact (hL.isItem hy).1

theorem rep_unlinkItem (hR : Rep h A) (hA : A l = some (us ++ (x, d) :: vs)) :
    Rep (unlinkItem h l x) (Function.update A l (some (us ++ vs))) := by
  have hl := hR.isList hA
  have hL := hR.linked l _ hA
  have hlen := hR.short l _ hA
  have hmap : (us ++ (x, d) :: vs).map Prod.fst = us.map Prod.fst ++ x :: vs.map Prod.fst := by
    simp
  have hxm : x ∈ (us ++ (x, d) :: vs).map Prod.fst := by simp
  obtain ⟨hn, hnx, hp⟩ := hL.neighbours hl hxm
  obtain ⟨hkl, hki, hqueue, hs, hkeep⟩ := unlinkItem_spec hl (hL.isItem hxm).1 hn hnx hp
  have hq := hL.queue
  rw [hmap] at hq hxm
  have hxn : x ∉ (us ++ vs).map Prod.fst := by
    rw [List.map_append]
    exact (List.nodup_cons.1 (List.nodup_middle.1 hq.nodup)).1
  simp only [List.length_append, List.length_cons] at hlen
  have hnull := null_of_kinds hR.null (hkl 0).1 fun h0 => ((hki 0).1 h0).2
  refine hR.replace hA hnull hkl ⟨?_, fun p hp => ?_, ?_⟩
    (by simp only [List.length_append]; omega) (fun l' ys hne hA' => ?_) fun i hi => ?_
  · refine hqueue l _ hxn ?_
    rw [List.map_append]
    exact isQueue_remove hq
  · have hne : p.1 ≠ x := fun he => hxn (he ▸ List.mem_map_of_mem hp)
    have hp' : p ∈ us ++ (x, d) :: vs := by
      rcases List.mem_append.1 hp with h | h <;> simp [h]
    obtain ⟨h1, h2, h3⟩ := hL.owned p hp'
    exact ⟨(hki _).2 ⟨hne, h1⟩, (hkeep _ hne).1.trans h2, (hkeep _ hne).2.trans h3⟩
  · rw [hs, if_pos rfl, hL.size]
    simp only [List.length_append, List.length_cons]
    rw [i32_of_mem (by omega) (by omega)]
    push_cast
    ring
  · have hL' := hR.linked l' ys hA'
    have hdis := hL.disjoint hL' hne
    rw [hmap] at hdis
    have hxy : x ∉ ys.map Prod.fst := fun hy => hdis hxm hy
    refine hL'.of_kept (hqueue l' _ hxy (remove_other hne hq hL'.queue hxm hdis))
      (fun i hi => ?_) ?_
    · have hix : i ≠ x := fun he => hxy (he ▸ hi)
      exact ⟨(hki i).2 ⟨hix, (hL'.isItem hi).1⟩, hkeep i hix⟩
    · rw [hs, if_neg hne]
  · obtain ⟨hix, hi⟩ := (hki i).1 hi
    by_cases hm : i ∈ (us ++ vs).map Prod.fst
    · exact .inl hm
    · refine .inr ⟨hi, ?_⟩
      rw [hmap, List.mem_append, List.mem_cons]
      rw [List.map_append, List.mem_append] at hm
      tauto

/-! ## Giving back a list -/

/-- Giving back the container of an empty list. -/
theorem rep_freeList (hR : Rep h A) (hA : A l = some []) :
    Rep (h.set l .released) (Function.update A l none) := by
  have hl := hR.isList hA
  have hki : ∀ a, (h.set l .released).IsItem a ↔ h.IsItem a := by
    intro a
    rw [isItem_set]
    split_ifs with ha
    · subst ha
      simpa using hl.not_isItem
    · rfl
  have hitem : (h.set l .released).item = h.item := by
    funext a
    by_cases ha : a = l
    · subst ha
      rw [item_of_not hl.not_isItem, item_of_not ((hki a).not.2 hl.not_isItem)]
    · exact item_set_ne ha _
  have hnull : (h.set l .released) 0 = .released := by
    rw [set_ne (hR.ne_zero hA).symm, hR.null]
  refine hR.update hnull (fun a => ?_) (fun xs hv => by cases hv) (fun l' ys hne hA' => ?_)
    fun i hi => .inr ⟨(hki i).1 hi, fun xs hA' => ?_⟩
  · rw [isList_set]
    split_ifs <;> simp
  · have hL' := hR.linked l' ys hA'
    have hlist : (h.set l .released).list l' = h.list l' := list_set_ne hne _
    refine hL'.of_kept (hL'.queue.congr ?_ ?_ (fun a _ => ?_) fun a _ => ?_) (fun i hi => ?_) ?_
    · simp only [links, hlist]
    · simp only [links, hlist]
    · simp only [links, hitem]
    · simp only [links, hitem]
    · rw [hki, hitem]
      exact ⟨(hL'.isItem hi).1, rfl, rfl⟩
    · rw [hlist]
  · rw [hA, Option.some.injEq] at hA'
    subst hA'
    simp

end Contents

end NetTool

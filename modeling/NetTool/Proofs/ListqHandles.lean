import Mathlib.Tactic.Push
import NetTool.Proofs.ListqRun

/-!
# Handles of removed items

An item handle is an address, and the list module knows an item by it. The handle of a removed
item reads as zeroes, which name no owner, so a removal with it is refused
(`removeItem_of_not_mem`), until `calloc` hands the address out for another item of the list: it
is that item's handle then (`removed_again_iff`).
-/

namespace NetTool

open TailQueue Heap

/-- The address was handed out for an item. -/
def HandedOut (cs : List Call) (i : Addr) : Prop :=
  ∃ l d, l ≠ 0 ∧ d ≠ 0 ∧ Call.add_tail l d i ∈ cs

/-- As `Admissible`, where a removal may be given any item handle there ever was. -/
def HandleAdmissible (cs : List Call) (h : Heap) : Call → Prop
  | .removeItem l i => (l = 0 ∨ h.IsList l) ∧ (i = 0 ∨ HandedOut cs i)
  | c => Admissible (contents cs) h c

/-- The runs of calls that return, with old handles too. -/
inductive HandleRun : List Call → Heap → Prop
  | start : HandleRun [] Heap.empty
  | step {cs : List Call} {h h' : Heap} {c : Call} {r : Ret} {fuel : ℕ} :
    HandleRun cs h → HandleAdmissible cs h c → exec fuel h c = some (r, h') →
      HandleRun (cs ++ [c]) h'

/-- A removal with this handle returns a negative code and changes nothing. -/
def Refused (h : Heap) (l i : Addr) : Prop :=
  ∃ r < 0, ∀ fuel, listq_removeItem fuel h l i = some (r, h)

section Step

variable {h h' : Heap} {A : Contents} {l i : Addr} {xs : List (Addr × Addr)} {fuel : ℕ}

theorem removeItem_of_not_mem (hR : Rep h A) (hno : ∀ xs, A l = some xs → i ∉ xs.map Prod.fst) :
    listq_removeItem fuel h l i = some (-1, h) := by
  rw [listq_removeItem, if_pos]
  by_contra hrej
  simp only [not_or, not_not] at hrej
  obtain ⟨xs, hA, hx⟩ := hR.mem_of_owner (isItem_of_owner hrej.1 hrej.2.2) hrej.2.2
  exact hno xs hA hx

theorem refused_iff (hR : Rep h A) :
    Refused h l i ↔ ∀ xs, A l = some xs → i ∉ xs.map Prod.fst := by
  refine ⟨fun ⟨r, hr, hrem⟩ xs hA hx => ?_,
    fun hno => ⟨-1, by omega, fun fuel => removeItem_of_not_mem hR hno⟩⟩
  rcases removeItem_cases hR (hrem 0) with ⟨-, -, hno⟩ | ⟨h1, -⟩
  · exact hno xs hA hx
  · omega

theorem exec_handle_rep (hR : Rep h A) {cs : List Call} {c : Call} {r : Ret}
    (hA : A = contents cs) (hc : HandleAdmissible cs h c) (he : exec fuel h c = some (r, h')) :
    Rep h' (A.step c) := by
  subst hA
  cases c with
  | removeItem l i => exact (exec_removeItem hR he).1
  | create x => exact (exec_rep (c := .create x) hR hc he).1
  | add_tail l d x => exact (exec_rep (c := .add_tail l d x) hR hc he).1
  | clean l => exact (exec_rep (c := .clean l) hR hc he).1
  | destroy l => exact (exec_rep (c := .destroy l) hR hc he).1

end Step

/-! ## Runs -/

theorem handleRun_rep {cs : List Call} {h : Heap} (hr : HandleRun cs h) : Rep h (contents cs) := by
  induction hr with
  | start => exact rep_start
  | step hr hc he ih =>
    rw [contents, List.foldl_append, List.foldl_cons, List.foldl_nil]
    exact exec_handle_rep ih rfl hc he

/-- What a run has done before each of its calls is a run. -/
theorem handleRun_prefix {cs : List Call} {h : Heap} (hr : HandleRun cs h) :
    ∀ {pre post : List Call}, cs = pre ++ post → ∃ g, HandleRun pre g := by
  induction hr with
  | start =>
    intro pre post he
    obtain ⟨rfl, -⟩ := List.append_eq_nil_iff.1 he.symm
    exact ⟨_, .start⟩
  | @step cs h h' c r fuel hr hc hex ih =>
    intro pre post he
    rcases List.eq_nil_or_concat post with rfl | ⟨post, c', rfl⟩
    · rw [List.append_nil] at he
      exact ⟨h', he ▸ .step hr hc hex⟩
    · rw [List.concat_eq_append, ← List.append_assoc] at he
      exact ih (List.append_inj_left' he rfl)

/-- A call puts no item in a list but by an addition there. -/
theorem mem_step {A : Contents} {c : Call} {l i : Addr} {xs : List (Addr × Addr)}
    (hA : A.step c l = some xs) (hi : i ∈ xs.map Prod.fst) :
    (∃ ys, A l = some ys ∧ i ∈ ys.map Prod.fst) ∨ ∃ d, c = .add_tail l d i := by
  have hupd : ∀ {a : Addr} {v : Option (List (Addr × Addr))}, Function.update A a v l = some xs →
      l = a ∧ v = some xs ∨ ∃ ys, A l = some ys ∧ i ∈ ys.map Prod.fst := by
    intro a v hv
    rw [Function.update_apply] at hv
    split_ifs at hv with hl
    · exact .inl ⟨hl, hv⟩
    · exact .inr ⟨xs, hv, hi⟩
  cases c with
  | create x =>
    rcases hupd hA with ⟨-, hv⟩ | h
    · cases hv
      cases hi
    · exact .inl h
  | add_tail a d x =>
    rw [Contents.step] at hA
    split_ifs at hA with h0
    · exact .inl ⟨xs, hA, hi⟩
    · rcases hupd hA with ⟨rfl, hv⟩ | h
      · obtain ⟨ys, hys, rfl⟩ := Option.map_eq_some_iff.1 hv
        rw [List.map_append, List.mem_append] at hi
        rcases hi with hi | hi
        · exact .inl ⟨ys, hys, hi⟩
        · obtain rfl : i = x := List.mem_singleton.1 hi
          exact .inr ⟨d, rfl⟩
      · exact .inl h
  | removeItem a x =>
    rcases hupd hA with ⟨rfl, hv⟩ | h
    · obtain ⟨ys, hys, rfl⟩ := Option.map_eq_some_iff.1 hv
      exact .inl ⟨ys, hys, List.map_subset Prod.fst (List.filter_subset_self _) hi⟩
    · exact .inl h
  | clean a =>
    rcases hupd hA with ⟨-, hv⟩ | h
    · obtain ⟨ys, -, rfl⟩ := Option.map_eq_some_iff.1 hv
      cases hi
    · exact .inl h
  | destroy a =>
    rcases hupd hA with ⟨-, hv⟩ | h
    · cases hv
    · exact .inl h

/-- An item that calls put in a list was there before or was added there by one of them. -/
theorem mem_steps {l i : Addr} : ∀ {cs : List Call} {A : Contents} {xs : List (Addr × Addr)},
    cs.foldl Contents.step A l = some xs → i ∈ xs.map Prod.fst →
      (∃ ys, A l = some ys ∧ i ∈ ys.map Prod.fst) ∨ ∃ d, Call.add_tail l d i ∈ cs
  | [], A, xs, hA, hi => .inl ⟨xs, hA, hi⟩
  | c :: cs, A, xs, hA, hi => by
    rcases @mem_steps l i cs _ _ hA hi with ⟨ys, hys, hi'⟩ | ⟨d, hd⟩
    · rcases mem_step hys hi' with h | ⟨d, rfl⟩
      · exact .inl h
      · exact .inr ⟨d, List.mem_cons_self⟩
    · exact .inr ⟨d, List.mem_cons_of_mem _ hd⟩

/-- A removed item is in no list. -/
theorem not_mem_removed {h : Heap} {A : Contents} (hR : Rep h A) {l₀ l i : Addr}
    {xs ys : List (Addr × Addr)} (hA : A l₀ = some xs) (hi : i ∈ xs.map Prod.fst)
    (hl : A.step (.removeItem l₀ i) l = some ys) : i ∉ ys.map Prod.fst := by
  rw [Contents.step, Function.update_apply] at hl
  split_ifs at hl with hll
  · rw [hA, Option.map_some, Option.some.injEq] at hl
    subst hl
    intro hm
    obtain ⟨p, hp, he⟩ := List.mem_map.1 hm
    have := (List.mem_filter.1 hp).2
    simp [he] at this
  · exact fun hm => (hR.linked l₀ xs hA).disjoint (hR.linked l ys hl) hll hi hm

/-- A further removal with the handle of a removed item is refused exactly unless the address is
that of an item of the list again; it was added there since then. -/
theorem removed_again_iff {pre post : List Call} {h : Heap} {l₀ i : Addr}
    {xs : List (Addr × Addr)} (hr : HandleRun (pre ++ .removeItem l₀ i :: post) h)
    (hA : contents pre l₀ = some xs) (hi : i ∈ xs.map Prod.fst) (l : Addr) :
    (Refused h l i ↔ ∀ ys, contents (pre ++ .removeItem l₀ i :: post) l = some ys →
      i ∉ ys.map Prod.fst) ∧
    (¬ Refused h l i → ∃ d, Call.add_tail l d i ∈ post) := by
  have hiff := refused_iff (l := l) (i := i) (handleRun_rep hr)
  refine ⟨hiff, fun hn => ?_⟩
  rw [hiff] at hn
  push Not at hn
  obtain ⟨ys, hys, hm⟩ := hn
  obtain ⟨g, hg⟩ := handleRun_prefix hr rfl
  rw [contents, List.foldl_append, List.foldl_cons] at hys
  rcases mem_steps hys hm with ⟨zs, hzs, hm'⟩ | h
  · exact absurd hm' (not_mem_removed (handleRun_rep hg) hA hi hzs)
  · exact h

/-- An item is added and removed. -/
def removedOne : List Call := [.create 1, .add_tail 1 10 2, .removeItem 1 2]

def removedOneHeap : Heap :=
  unlinkItem (listq_add_tail (listq_create .empty 1).2 1 10 2).2 1 2

theorem removedOne_run : HandleRun removedOne removedOneHeap := by
  have h1 : HandleRun [.create 1] _ := @HandleRun.step [] _ _ _ _ 0 .start ⟨by simp, rfl⟩ rfl
  have h2 : HandleRun [.create 1, .add_tail 1 10 2] _ := @HandleRun.step _ _ _ _ _ 0 h1
    ⟨.inr ⟨_, rfl⟩, fun _ _ => ⟨⟨by simp, rfl⟩, fun xs h => by cases h; simp⟩⟩ rfl
  exact @HandleRun.step _ _ _ _ _ 1 h2
    ⟨.inr ⟨_, rfl⟩, .inr ⟨1, 10, by simp, by simp, by simp⟩⟩ rfl

/-- The next item added gets the cell `x`. -/
theorem addedAgain_run {x : Addr} (hx : removedOneHeap.Fresh x) :
    HandleRun (removedOne ++ [.add_tail 1 11 x]) (listq_add_tail removedOneHeap 1 11 x).2 :=
  @HandleRun.step _ _ _ _ _ 0 removedOne_run
    ⟨.inr ⟨_, rfl⟩, fun _ _ => ⟨hx, fun xs h => by cases h; simp⟩⟩ rfl

theorem otherAddress_refused :
    HandleRun (removedOne ++ [.add_tail 1 11 3]) (listq_add_tail removedOneHeap 1 11 3).2 ∧
      Refused (listq_add_tail removedOneHeap 1 11 3).2 1 2 := by
  have hr := @addedAgain_run 3 ⟨by simp, rfl⟩
  refine ⟨hr, ?_⟩
  by_contra hn
  obtain ⟨d, hd⟩ := (@removed_again_iff [.create 1, .add_tail 1 10 2] [.add_tail 1 11 3] _ 1 2
    [(2, 10)] hr rfl (by simp) 1).2 hn
  simp at hd

/-- The removed item's address is handed out again: its handle removes the new item. -/
theorem sameAddress_not_refused :
    HandleRun (removedOne ++ [.add_tail 1 11 2]) (listq_add_tail removedOneHeap 1 11 2).2 ∧
      contents [.create 1, .add_tail 1 10 2] 1 = some [(2, 10)] ∧
      ¬ Refused (listq_add_tail removedOneHeap 1 11 2).2 1 2 ∧
      ∃ h', listq_removeItem 1 (listq_add_tail removedOneHeap 1 11 2).2 1 2 = some (1, h') ∧
        h' 2 = .released := by
  have hr := @addedAgain_run 2 ⟨by simp, rfl⟩
  refine ⟨hr, rfl, fun href => ?_, _, rfl, rfl⟩
  have hno := (refused_iff (handleRun_rep hr)).1 href [(2, 11)] rfl
  simp at hno

end NetTool

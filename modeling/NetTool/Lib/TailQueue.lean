import Mathlib.Data.List.Nodup
import Mathlib.Logic.Function.Basic

/-!
# Tail queues

A queue whose forward pointers sit in slots: one in the queue's head, one in each cell. A cell's
back pointer names the slot that points at it, and the head keeps the slot the next cell will be
hung from, so inserting at the tail and removing any cell are a few stores with no search.

`Path` follows the forward pointers from one slot to another and checks the back pointers on the
way; `IsQueue` is a path from the head to the slot the head keeps, with nothing hung there. A
queue's cells are determined by the pointers and have no duplicates (`Path.unique`, `Path.nodup`);
the two operations do to the list of cells what they say (`isQueue_insertTail`,
`isQueue_remove`), and leave every other queue as it was (`insertTail_other`, `remove_other`).
-/

namespace TailQueue

/-- Where a forward pointer is stored: in a queue's head or in a cell. -/
inductive Slot (H A : Type*)
  | null
  | head (h : H)
  | cell (a : A)
  deriving DecidableEq

/-- The pointers of all the queues and cells there are. -/
@[ext]
structure Links (H A : Type*) where
  first : H → A
  last : H → Slot H A
  next : A → A
  prev : A → Slot H A

variable {H A : Type*}

namespace Links

/-- What the slot points at. -/
def load (nil : A) (L : Links H A) : Slot H A → A
  | .null => nil
  | .head h => L.first h
  | .cell a => L.next a

variable [DecidableEq H] [DecidableEq A]

def store (L : Links H A) (s : Slot H A) (a : A) : Links H A :=
  match s with
  | .null => L
  | .head h => { L with first := Function.update L.first h a }
  | .cell b => { L with next := Function.update L.next b a }

def init (nil : A) (L : Links H A) (h : H) : Links H A :=
  { L with
    first := Function.update L.first h nil
    last := Function.update L.last h (.head h) }

/-- The cell `x` made ready to hang from slot `s`, with nothing hung from it. -/
def place (nil : A) (L : Links H A) (x : A) (s : Slot H A) : Links H A :=
  { L with
    next := Function.update L.next x nil
    prev := Function.update L.prev x s }

def insertTail (nil : A) (L : Links H A) (h : H) (x : A) : Links H A :=
  let L₁ := L.place nil x (L.last h)
  let L₂ := L₁.store (L₁.last h) x
  { L₂ with last := Function.update L₂.last h (.cell x) }

def remove (nil : A) (L : Links H A) (h : H) (x : A) : Links H A :=
  let L₁ : Links H A :=
    if L.next x ≠ nil then { L with prev := Function.update L.prev (L.next x) (L.prev x) }
    else { L with last := Function.update L.last h (L.prev x) }
  L₁.store (L₁.prev x) (L₁.next x)

end Links

variable (nil : A)

/-- From slot `s` the forward pointers lead through `xs` to slot `e`, and each cell's back pointer
names the slot that points at it. -/
def Path (L : Links H A) : Slot H A → List A → Slot H A → Prop
  | s, [], e => e = s
  | s, x :: xs, e => L.load nil s = x ∧ x ≠ nil ∧ L.prev x = s ∧ Path L (.cell x) xs e

/-- The queue at `h` holds the cells `xs`. -/
def IsQueue (L : Links H A) (h : H) (xs : List A) : Prop :=
  Path nil L (.head h) xs (L.last h) ∧ L.load nil (L.last h) = nil

variable {nil} {L L' : Links H A}

namespace Path

theorem append {e : Slot H A} : ∀ {xs ys : List A} {s : Slot H A},
    Path nil L s (xs ++ ys) e ↔ ∃ m, Path nil L s xs m ∧ Path nil L m ys e
  | [], ys, s => by simp [Path]
  | x :: xs, ys, s => by
    have ih : Path nil L (.cell x) (xs ++ ys) e ↔ _ := append
    simp only [List.cons_append, Path, ih]
    constructor
    · rintro ⟨h1, h2, h3, m, h4, h5⟩
      exact ⟨m, ⟨h1, h2, h3, h4⟩, h5⟩
    · rintro ⟨m, ⟨h1, h2, h3, h4⟩, h5⟩
      exact ⟨h1, h2, h3, m, h4, h5⟩

/-- A path ends at the slot it started from or at the slot of one of its cells. -/
theorem end_cases {e : Slot H A} : ∀ {xs : List A} {s : Slot H A}, Path nil L s xs e →
    (xs = [] ∧ e = s) ∨ ∃ x ∈ xs, e = .cell x
  | [], s, h => .inl ⟨rfl, h⟩
  | x :: xs, s, ⟨_, _, _, h⟩ => by
    rcases end_cases h with ⟨-, rfl⟩ | ⟨y, hy, rfl⟩
    · exact .inr ⟨x, List.mem_cons_self, rfl⟩
    · exact .inr ⟨y, List.mem_cons_of_mem _ hy, rfl⟩

theorem ne_nil {e : Slot H A} : ∀ {xs : List A} {s : Slot H A}, Path nil L s xs e →
    ∀ x ∈ xs, x ≠ nil
  | [], _, _, _, hx => by simp at hx
  | y :: ys, _, ⟨_, hy, _, h⟩, x, hx => by
    rcases List.mem_cons.1 hx with rfl | hx
    · exact hy
    · exact ne_nil h x hx

/-- A path that ends where nothing is hung is determined by where it starts. -/
theorem unique {e e' : Slot H A} : ∀ {xs ys : List A} {s : Slot H A},
    Path nil L s xs e → L.load nil e = nil → Path nil L s ys e' → L.load nil e' = nil → xs = ys
  | [], [], _, _, _, _, _ => rfl
  | [], y :: ys, s, hx, he, ⟨hy, hne, _, _⟩, _ => by
    cases hx
    exact absurd (hy.symm.trans he) hne
  | x :: xs, [], s, ⟨hx, hne, _, _⟩, _, hy, he => by
    cases hy
    exact absurd (hx.symm.trans he) hne
  | x :: xs, y :: ys, s, ⟨hx, _, _, h⟩, he, ⟨hy, _, _, h'⟩, he' => by
    obtain rfl : x = y := hx.symm.trans hy
    rw [unique h he h' he']

theorem nodup {e : Slot H A} (he : L.load nil e = nil) : ∀ {xs : List A} {s : Slot H A},
    Path nil L s xs e → xs.Nodup
  | [], _, _ => List.nodup_nil
  | x :: xs, s, ⟨_, _, _, h⟩ => by
    refine List.nodup_cons.2 ⟨fun hx => ?_, nodup he h⟩
    obtain ⟨us, vs, rfl⟩ := List.append_of_mem hx
    obtain ⟨m, -, -, -, -, hv⟩ := append.1 h
    have hlen := congrArg List.length (unique h he hv he)
    simp only [List.length_append, List.length_cons] at hlen
    omega

/-- A path depends only on the slots it leaves its cells by and on their back pointers. -/
theorem congr {e : Slot H A} : ∀ {xs : List A} {s : Slot H A}, Path nil L s xs e →
    (∀ sl, sl = s ∨ (∃ a ∈ xs, sl = .cell a) → L.load nil sl ∈ xs →
      L'.load nil sl = L.load nil sl) →
    (∀ a ∈ xs, L'.prev a = L.prev a) → Path nil L' s xs e
  | [], _, h, _, _ => h
  | x :: xs, s, ⟨hx, hne, hp, h⟩, hl, hb => by
    refine ⟨?_, hne, ?_, congr h (fun sl hsl hm => ?_) fun a ha => hb a (List.mem_cons_of_mem _ ha)⟩
    · rw [hl s (.inl rfl) (by rw [hx]; exact List.mem_cons_self), hx]
    · rw [hb x List.mem_cons_self, hp]
    · refine hl sl (.inr ?_) (List.mem_cons_of_mem _ hm)
      rcases hsl with rfl | ⟨a, ha, rfl⟩
      · exact ⟨x, List.mem_cons_self, rfl⟩
      · exact ⟨a, List.mem_cons_of_mem _ ha, rfl⟩

end Path

theorem IsQueue.nodup {h : H} {xs : List A} (hq : IsQueue nil L h xs) : xs.Nodup :=
  Path.nodup hq.2 hq.1

/-- A queue depends only on its head and its own cells. -/
theorem IsQueue.congr {h : H} {xs : List A} (hq : IsQueue nil L h xs)
    (hf : L'.first h = L.first h) (hl : L'.last h = L.last h)
    (hn : ∀ a ∈ xs, L'.next a = L.next a) (hp : ∀ a ∈ xs, L'.prev a = L.prev a) :
    IsQueue nil L' h xs := by
  have hload : ∀ sl, sl = .head h ∨ (∃ a ∈ xs, sl = .cell a) →
      L'.load nil sl = L.load nil sl := by
    rintro sl (rfl | ⟨a, ha, rfl⟩)
    · exact hf
    · exact hn a ha
  refine ⟨?_, ?_⟩
  · rw [hl]
    exact hq.1.congr (fun sl hsl _ => hload sl hsl) hp
  · have hend : L.last h = .head h ∨ ∃ a ∈ xs, L.last h = .cell a := by
      rcases hq.1.end_cases with ⟨-, he⟩ | he
      · exact .inl he
      · exact .inr he
    rw [hl, hload _ hend, hq.2]

theorem IsQueue.ne_nil {h : H} {xs : List A} (hq : IsQueue nil L h xs) : ∀ x ∈ xs, x ≠ nil :=
  Path.ne_nil hq.1

/-- The head keeps its own slot or that of one of the queue's cells. -/
theorem IsQueue.last_cases {h : H} {xs : List A} (hq : IsQueue nil L h xs) :
    L.last h = .head h ∨ ∃ x ∈ xs, L.last h = .cell x := by
  rcases Path.end_cases hq.1 with ⟨-, he⟩ | he
  · exact .inl he
  · exact .inr he

theorem IsQueue.first_nil {h : H} {xs : List A} (hq : IsQueue nil L h xs) :
    L.first h = nil ↔ xs = [] := by
  rcases xs with _ | ⟨x, xs⟩
  · have he : L.last h = .head h := hq.1
    have := hq.2
    rw [he] at this
    simpa [Links.load] using this
  · obtain ⟨hx, hne, -, -⟩ := hq.1
    simp only [Links.load] at hx
    simp [hx, hne]

theorem IsQueue.first_cons {h : H} {x : A} {xs : List A} (hq : IsQueue nil L h (x :: xs)) :
    L.first h = x := hq.1.1

theorem IsQueue.next_cons {h : H} {x y : A} {xs : List A} (hq : IsQueue nil L h (x :: y :: xs)) :
    L.next x = y := by
  obtain ⟨-, -, -, hy, -⟩ := hq.1
  exact hy

/-- The slot a cell of a queue hangs from is the head's or that of another of its cells. -/
theorem IsQueue.prev_cases {h : H} {xs : List A} (hq : IsQueue nil L h xs) {x : A} (hx : x ∈ xs) :
    L.prev x = .head h ∨ ∃ y ∈ xs, y ≠ x ∧ L.prev x = .cell y := by
  have hnd := hq.nodup
  obtain ⟨us, vs, rfl⟩ := List.append_of_mem hx
  obtain ⟨m, hm, -, -, hp, -⟩ := Path.append.1 hq.1
  rcases Path.end_cases hm with ⟨-, rfl⟩ | ⟨y, hy, rfl⟩
  · exact .inl hp
  · refine .inr ⟨y, List.mem_append_left _ hy, ?_, hp⟩
    rintro rfl
    exact (List.disjoint_of_nodup_append hnd) hy List.mem_cons_self

theorem load_congr (hf : L'.first = L.first) (hn : L'.next = L.next) (s : Slot H A) :
    L'.load nil s = L.load nil s := by
  cases s <;> simp [Links.load, hf, hn]

/-- What follows a cell of a queue is another of its cells, or nothing. -/
theorem IsQueue.next_cases {h : H} {xs : List A} (hq : IsQueue nil L h xs) {x : A} (hx : x ∈ xs) :
    (L.next x = nil ∨ L.next x ∈ xs) ∧ L.next x ≠ x := by
  have hne := hq.ne_nil x hx
  have hnd := hq.nodup
  obtain ⟨us, vs, rfl⟩ := List.append_of_mem hx
  obtain ⟨m, -, -, -, -, hv⟩ := Path.append.1 hq.1
  rcases vs with _ | ⟨y, vs⟩
  · have hlast : L.last h = .cell x := hv
    have hn : L.next x = nil := by
      have := hq.2
      rwa [hlast] at this
    exact ⟨.inl hn, fun h => hne (h.symm.trans hn)⟩
  · have hy : L.next x = y := hv.1
    have hxv := (List.nodup_cons.1 (List.Nodup.of_append_right hnd)).1
    refine ⟨.inr (by rw [hy]; simp), fun h => hxv ?_⟩
    rw [← h, hy]
    exact List.mem_cons_self

section Ops

variable [DecidableEq H]

theorem isQueue_init (h : H) : IsQueue nil (L.init nil h) h [] := by
  simp [IsQueue, Path, Links.init, Links.load]

theorem init_other {h h' : H} (hne : h' ≠ h) {xs : List A} (hq : IsQueue nil L h' xs) :
    IsQueue nil (L.init nil h) h' xs := by
  have hload : ∀ sl, sl ≠ .head h → (L.init nil h).load nil sl = L.load nil sl := by
    intro sl hsl
    cases sl <;> simp_all [Links.init, Links.load, Function.update_of_ne]
  have hlast : (L.init nil h).last h' = L.last h' := by
    simp [Links.init, Function.update_of_ne hne]
  refine ⟨?_, ?_⟩
  · rw [hlast]
    refine hq.1.congr (fun sl hsl _ => hload sl ?_) fun a _ => rfl
    rcases hsl with rfl | ⟨a, -, rfl⟩ <;> simp [hne]
  · rw [hlast, hload, hq.2]
    rcases hq.last_cases with he | ⟨x, -, he⟩ <;> rw [he] <;> simp [hne]

variable [DecidableEq A]

theorem load_store_self {s : Slot H A} (hs : s ≠ .null) (a : A) :
    (L.store s a).load nil s = a := by
  cases s <;> simp_all [Links.store, Links.load]

theorem load_store_ne {s t : Slot H A} (h : t ≠ s) (a : A) :
    (L.store s a).load nil t = L.load nil t := by
  cases s <;> cases t <;> simp_all [Links.store, Links.load, Function.update_of_ne]

@[simp] theorem prev_store (s : Slot H A) (a : A) : (L.store s a).prev = L.prev := by
  cases s <;> rfl

@[simp] theorem last_store (s : Slot H A) (a : A) : (L.store s a).last = L.last := by
  cases s <;> rfl

theorem load_insertTail_of_ne {h : H} {x : A} {sl : Slot H A} (hx : sl ≠ .cell x)
    (hl : sl ≠ L.last h) : (L.insertTail nil h x).load nil sl = L.load nil sl := by
  calc (L.insertTail nil h x).load nil sl
      = ((L.place nil x (L.last h)).store (L.last h) x).load nil sl := load_congr rfl rfl sl
    _ = (L.place nil x (L.last h)).load nil sl := load_store_ne hl x
    _ = L.load nil sl := by
      cases sl <;> simp_all [Links.load, Links.place, Function.update_of_ne]

theorem load_insertTail_last {h : H} {x : A} (hl : L.last h ≠ .null) :
    (L.insertTail nil h x).load nil (L.last h) = x :=
  (load_congr rfl rfl _).trans (load_store_self hl x)

theorem load_insertTail_cell {h : H} {x : A} (hl : L.last h ≠ .cell x) :
    (L.insertTail nil h x).load nil (.cell x) = nil := by
  calc (L.insertTail nil h x).load nil (.cell x)
      = ((L.place nil x (L.last h)).store (L.last h) x).load nil (.cell x) := load_congr rfl rfl _
    _ = (L.place nil x (L.last h)).load nil (.cell x) := load_store_ne hl.symm x
    _ = nil := by simp [Links.load, Links.place]

theorem prev_insertTail (h : H) (x : A) :
    (L.insertTail nil h x).prev = Function.update L.prev x (L.last h) := by
  simp [Links.insertTail, Links.place]

theorem last_insertTail (h : H) (x : A) :
    (L.insertTail nil h x).last = Function.update L.last h (.cell x) := by
  simp [Links.insertTail, Links.place]

/-- A cell inserted at the tail is the queue's last. -/
theorem isQueue_insertTail {h : H} {xs : List A} {x : A} (hq : IsQueue nil L h xs)
    (hx : x ∉ xs) (hne : x ≠ nil) : IsQueue nil (L.insertTail nil h x) h (xs ++ [x]) := by
  have hend : L.last h ≠ .cell x ∧ L.last h ≠ .null := by
    rcases hq.last_cases with he | ⟨y, hy, he⟩ <;> rw [he] <;> simp
    rintro rfl
    exact hx hy
  have hpath : Path nil (L.insertTail nil h x) (.head h) xs (L.last h) := by
    refine hq.1.congr (fun sl hsl hm => load_insertTail_of_ne ?_ ?_) fun a ha => ?_
    · rcases hsl with rfl | ⟨a, ha, rfl⟩
      · simp
      · simp only [ne_eq, Slot.cell.injEq]
        rintro rfl
        exact hx ha
    · rintro rfl
      rw [hq.2] at hm
      exact hq.ne_nil _ hm rfl
    · rw [prev_insertTail, Function.update_of_ne (fun hax : a = x => hx (hax ▸ ha))]
  refine ⟨Path.append.2 ⟨L.last h, hpath, load_insertTail_last hend.2, hne, ?_, ?_⟩, ?_⟩
  · rw [prev_insertTail, Function.update_self]
  · rw [last_insertTail, Function.update_self]
    rfl
  · rw [last_insertTail, Function.update_self, load_insertTail_cell hend.1]

theorem insertTail_other {h h' : H} (hne : h' ≠ h) {xs ys : List A} {x : A}
    (hq : IsQueue nil L h xs) (hq' : IsQueue nil L h' ys) (hx : x ∉ ys)
    (hd : List.Disjoint xs ys) : IsQueue nil (L.insertTail nil h x) h' ys := by
  have hload : ∀ sl, sl = .head h' ∨ (∃ a ∈ ys, sl = .cell a) →
      (L.insertTail nil h x).load nil sl = L.load nil sl := by
    intro sl hsl
    refine load_insertTail_of_ne ?_ ?_
    · rcases hsl with rfl | ⟨a, ha, rfl⟩
      · simp
      · simp only [ne_eq, Slot.cell.injEq]
        rintro rfl
        exact hx ha
    · rcases hq.last_cases with he | ⟨y, hy, he⟩ <;> rw [he] <;>
        rcases hsl with rfl | ⟨a, ha, rfl⟩ <;> simp [hne]
      rintro rfl
      exact hd hy ha
  have hlast : (L.insertTail nil h x).last h' = L.last h' := by
    rw [last_insertTail, Function.update_of_ne hne]
  refine ⟨?_, ?_⟩
  · rw [hlast]
    refine hq'.1.congr (fun sl hsl _ => hload sl hsl) fun a ha => ?_
    rw [prev_insertTail, Function.update_of_ne (fun hax : a = x => hx (hax ▸ ha))]
  · rw [hlast, hload _ hq'.last_cases, hq'.2]

/-- The last cell's removal: the head keeps the slot it hung from. -/
theorem remove_nil {h : H} {x : A} (hn : L.next x = nil) :
    L.remove nil h x = ({ L with last := Function.update L.last h (L.prev x) } : Links H A).store
      (L.prev x) nil := by
  simp [Links.remove, hn]

/-- A cell's removal before `y`: `y` hangs from the slot the cell hung from. -/
theorem remove_cons {h : H} {x y : A} (hn : L.next x = y) (hy : y ≠ nil) (hxy : y ≠ x) :
    L.remove nil h x = ({ L with prev := Function.update L.prev y (L.prev x) } : Links H A).store
      (L.prev x) y := by
  simp [Links.remove, hn, hy, Function.update_of_ne hxy.symm]

theorem load_remove {h : H} {x : A} {sl : Slot H A} (hx : L.next x ≠ x) (hs : sl ≠ L.prev x) :
    (L.remove nil h x).load nil sl = L.load nil sl := by
  by_cases hn : L.next x = nil
  · rw [remove_nil hn, load_store_ne hs]
    cases sl <;> rfl
  · rw [remove_cons rfl hn hx, load_store_ne hs]
    cases sl <;> rfl

/-- Removing the last cell of a queue. -/
theorem isQueue_remove_last {h : H} {us : List A} {x : A} (hq : IsQueue nil L h (us ++ [x])) :
    IsQueue nil (L.remove nil h x) h us := by
  have hxu : x ∉ us := fun hx => List.disjoint_of_nodup_append hq.nodup hx List.mem_cons_self
  obtain ⟨m, hu, hx, -, hp, hv⟩ := Path.append.1 hq.1
  have hm : m ≠ .null := by
    rcases hu.end_cases with ⟨-, rfl⟩ | ⟨y, -, rfl⟩ <;> simp
  have hlast : L.last h = .cell x := hv
  have hn : L.next x = nil := by
    have := hq.2
    rwa [hlast] at this
  rw [remove_nil hn, hp]
  refine ⟨?_, ?_⟩
  · simp only [last_store, Function.update_self]
    refine hu.congr (fun sl hsl hmem => ?_) fun a _ => by simp
    rw [load_store_ne]
    · cases sl <;> rfl
    · rintro rfl
      exact hxu (hx ▸ hmem)
  · simp only [last_store, Function.update_self]
    exact load_store_self hm _

/-- Removing a cell of a queue that another one follows. -/
theorem isQueue_remove_middle {h : H} {us vs : List A} {x y : A}
    (hq : IsQueue nil L h (us ++ x :: y :: vs)) :
    IsQueue nil (L.remove nil h x) h (us ++ y :: vs) := by
  have hnd := hq.nodup
  have hxu : x ∉ us := fun hx => List.disjoint_of_nodup_append hnd hx List.mem_cons_self
  have hxv : x ∉ y :: vs := (List.nodup_cons.1 hnd.of_append_right).1
  have hyu : y ∉ us := fun hy => List.disjoint_of_nodup_append hnd hy (by simp)
  have hyv : y ∉ vs := (List.nodup_cons.1 (List.nodup_cons.1 hnd.of_append_right).2).1
  have hyx : y ≠ x := fun h => hxv (h ▸ List.mem_cons_self)
  obtain ⟨m, hu, hx, -, hp, hy, hyn, -, hv⟩ := Path.append.1 hq.1
  have hm : m ≠ .null := by
    rcases hu.end_cases with ⟨-, rfl⟩ | ⟨y, -, rfl⟩ <;> simp
  have hmx : ∀ a ∈ y :: vs, m ≠ .cell a := by
    intro a ha
    rcases hu.end_cases with ⟨-, rfl⟩ | ⟨z, hz, rfl⟩
    · simp
    · simp only [ne_eq, Slot.cell.injEq]
      rintro rfl
      exact List.disjoint_of_nodup_append hnd hz (List.mem_cons_of_mem _ ha)
  have hload : ∀ sl, sl ≠ m → (({ L with prev := Function.update L.prev y m } : Links H A).store
      m y).load nil sl = L.load nil sl := by
    intro sl hsl
    rw [load_store_ne hsl]
    cases sl <;> rfl
  have hrest : ∀ sl, sl = .cell y ∨ (∃ a ∈ vs, sl = .cell a) → sl ≠ m := by
    rintro sl (rfl | ⟨a, ha, rfl⟩)
    · exact (hmx y List.mem_cons_self).symm
    · exact (hmx a (List.mem_cons_of_mem _ ha)).symm
  rw [remove_cons hy hyn hyx, hp]
  refine ⟨?_, ?_⟩
  · simp only [last_store]
    refine Path.append.2 ⟨m, ?_, load_store_self hm _, hyn, by simp, ?_⟩
    · refine hu.congr (fun sl hsl hmem => hload sl ?_) fun a ha => ?_
      · rintro rfl
        exact hxu (hx ▸ hmem)
      · rw [prev_store]
        exact Function.update_of_ne (fun hay : a = y => hyu (hay ▸ ha)) _ _
    · refine hv.congr (fun sl hsl _ => hload sl (hrest sl hsl)) fun a ha => ?_
      rw [prev_store]
      exact Function.update_of_ne (fun hay : a = y => hyv (hay ▸ ha)) _ _
  · simp only [last_store]
    rw [hload _ (hrest _ ?_), hq.2]
    rcases hv.end_cases with ⟨-, he⟩ | ⟨a, ha, he⟩
    · exact .inl he
    · exact .inr ⟨a, ha, he⟩

/-- Removing a cell of a queue takes it out of the list and leaves the others in order. -/
theorem isQueue_remove {h : H} {us vs : List A} {x : A} (hq : IsQueue nil L h (us ++ x :: vs)) :
    IsQueue nil (L.remove nil h x) h (us ++ vs) := by
  rcases vs with _ | ⟨y, vs⟩
  · rw [List.append_nil]
    exact isQueue_remove_last hq
  · exact isQueue_remove_middle hq

theorem remove_other {h h' : H} (hne : h' ≠ h) {xs ys : List A} {x : A}
    (hq : IsQueue nil L h xs) (hq' : IsQueue nil L h' ys) (hx : x ∈ xs)
    (hd : List.Disjoint xs ys) : IsQueue nil (L.remove nil h x) h' ys := by
  obtain ⟨hnext, hself⟩ := hq.next_cases hx
  have hload : ∀ sl, sl = .head h' ∨ (∃ a ∈ ys, sl = .cell a) →
      (L.remove nil h x).load nil sl = L.load nil sl := by
    intro sl hsl
    refine load_remove hself ?_
    rcases hq.prev_cases hx with he | ⟨y, hy, -, he⟩ <;> rw [he] <;>
      rcases hsl with rfl | ⟨a, ha, rfl⟩ <;> simp [hne]
    rintro rfl
    exact hd hy ha
  have hlast : (L.remove nil h x).last h' = L.last h' := by
    by_cases hn : L.next x = nil
    · rw [remove_nil hn, last_store]
      exact Function.update_of_ne hne _ _
    · rw [remove_cons rfl hn hself, last_store]
  have hprev : ∀ a ∈ ys, (L.remove nil h x).prev a = L.prev a := by
    intro a ha
    by_cases hn : L.next x = nil
    · rw [remove_nil hn, prev_store]
    · rw [remove_cons rfl hn hself, prev_store]
      refine Function.update_of_ne (fun hax => ?_) _ _
      exact hd (hnext.resolve_left hn) (hax ▸ ha)
  refine ⟨?_, ?_⟩
  · rw [hlast]
    exact hq'.1.congr (fun sl hsl _ => hload sl hsl) hprev
  · rw [hlast, hload _ hq'.last_cases, hq'.2]

end Ops

end TailQueue

import NetTool.Listq

/-!
# The tail queue of the heap

Reads of the heap after each kind of write. Relinking changes no cell's kind, owner, data or
count (`Relinked`), and on the pointers the `TAILQ_*` macros are the tail queue's operations.
-/

namespace NetTool

open CInt TailQueue

namespace Heap

variable {h : Heap} {a b i l : Addr}

@[simp] theorem set_self (c : Cell) : h.set a c a = c := by simp [set]

theorem set_ne (hb : b ≠ a) (c : Cell) : h.set a c b = h b := by simp [set, hb]

theorem IsList.not_isItem (hl : h.IsList a) : ¬ h.IsItem a := by
  rintro ⟨c, hc⟩
  obtain ⟨d, hd⟩ := hl
  rw [hc] at hd
  cases hd

theorem item_of_not (hi : ¬ h.IsItem i) : h.item i = .zero := by
  unfold item
  split
  · exact absurd ⟨_, ‹_›⟩ hi
  · rfl

theorem list_of_not (hl : ¬ h.IsList l) : h.list l = .zero := by
  unfold list
  split
  · exact absurd ⟨_, ‹_›⟩ hl
  · rfl

theorem not_isList_of_released (ha : h a = .released) : ¬ h.IsList a := by
  rintro ⟨c, hc⟩
  rw [ha] at hc
  cases hc

theorem not_isItem_of_released (ha : h a = .released) : ¬ h.IsItem a := by
  rintro ⟨c, hc⟩
  rw [ha] at hc
  cases hc

theorem item_set_ne (hb : b ≠ a) (c : Cell) : (h.set a c).item b = h.item b := by
  simp [item, set_ne hb]

theorem list_set_ne (hb : b ≠ a) (c : Cell) : (h.set a c).list b = h.list b := by
  simp [list, set_ne hb]

theorem item_setItem (f : slistqContainerItem → slistqContainerItem) (b : Addr) :
    (h.setItem i f).item b = if b = i then f (h.item i) else h.item b := by
  split_ifs with hb
  · simp [hb, setItem, item]
  · exact item_set_ne hb _

theorem list_setList (f : sListqContainer → sListqContainer) (b : Addr) :
    (h.setList l f).list b = if b = l then f (h.list l) else h.list b := by
  split_ifs with hb
  · simp [hb, setList, list]
  · exact list_set_ne hb _

theorem isItem_set (c : Cell) :
    (h.set a c).IsItem b ↔ if b = a then ∃ i, c = .item i else h.IsItem b := by
  by_cases hb : b = a
  · simp [IsItem, hb]
  · simp [IsItem, hb, set_ne hb]

theorem isList_set (c : Cell) :
    (h.set a c).IsList b ↔ if b = a then ∃ i, c = .list i else h.IsList b := by
  by_cases hb : b = a
  · simp [IsList, hb]
  · simp [IsList, hb, set_ne hb]

theorem isItem_setItem (f : slistqContainerItem → slistqContainerItem) (hi : h.IsItem i) :
    (h.setItem i f).IsItem b ↔ h.IsItem b := by
  rw [setItem, isItem_set]
  split_ifs with hb
  · simp [hb, hi]
  · rfl

theorem isList_setItem (f : slistqContainerItem → slistqContainerItem) (hi : h.IsItem i) :
    (h.setItem i f).IsList b ↔ h.IsList b := by
  rw [setItem, isList_set]
  split_ifs with hb
  · subst hb
    simp only [exists_false, false_iff]
    exact fun hl => hl.not_isItem hi
  · rfl

theorem isList_setList (f : sListqContainer → sListqContainer) (hl : h.IsList l) :
    (h.setList l f).IsList b ↔ h.IsList b := by
  rw [setList, isList_set]
  split_ifs with hb
  · simp [hb, hl]
  · rfl

theorem isItem_setList (f : sListqContainer → sListqContainer) (hl : h.IsList l) :
    (h.setList l f).IsItem b ↔ h.IsItem b := by
  rw [setList, isItem_set]
  split_ifs with hb
  · subst hb
    simpa using hl.not_isItem
  · rfl

theorem item_setList (f : sListqContainer → sListqContainer) (hl : h.IsList l) :
    (h.setList l f).item = h.item := by
  funext b
  by_cases hb : b = l
  · subst hb
    rw [item_of_not hl.not_isItem, item_of_not ((isItem_setList f hl).not.2 hl.not_isItem)]
  · exact item_set_ne hb _

theorem list_setItem (f : slistqContainerItem → slistqContainerItem) (hi : h.IsItem i) :
    (h.setItem i f).list = h.list := by
  funext b
  by_cases hb : b = i
  · subst hb
    have hn : ¬ h.IsList b := fun hl => hl.not_isItem hi
    rw [list_of_not hn, list_of_not ((isList_setItem f hi).not.2 hn)]
  · exact list_set_ne hb _

/-- A cell fresh from `calloc` reads as before. -/
theorem item_set_zero (ha : h a = .released) {c : Cell} (hc : c = .item .zero ∨ c = .list .zero) :
    (h.set a c).item = h.item := by
  funext b
  by_cases hb : b = a
  · subst hb
    rw [item_of_not (not_isItem_of_released ha)]
    rcases hc with rfl | rfl <;> simp [item]
  · exact item_set_ne hb _

theorem list_set_zero (ha : h a = .released) {c : Cell} (hc : c = .item .zero ∨ c = .list .zero) :
    (h.set a c).list = h.list := by
  funext b
  by_cases hb : b = a
  · subst hb
    rw [list_of_not (not_isList_of_released ha)]
    rcases hc with rfl | rfl <;> simp [list]
  · exact list_set_ne hb _

theorem links_congr {h' : Heap} (hi : h'.item = h.item) (hl : h'.list = h.list) :
    h'.links = h.links := by
  simp [links, hi, hl]

/-- The slot is in a live cell. -/
def SlotLive (h : Heap) : FwdPtr → Prop
  | .null => False
  | .head l => h.IsList l
  | .cell i => h.IsItem i

end Heap

open Heap

/-! ## Relinking -/

/-- `h'` is `h` with other pointers: the cells' kinds, owners, data and counts are the same. -/
structure Relinked (h h' : Heap) : Prop where
  isList : ∀ a, h'.IsList a ↔ h.IsList a
  isItem : ∀ a, h'.IsItem a ↔ h.IsItem a
  data : ∀ a, (h'.item a).p_Data = (h.item a).p_Data
  owner : ∀ a, (h'.item a).p_Container = (h.item a).p_Container
  size : ∀ a, (h'.list a).m_Size = (h.list a).m_Size

section Relinking

variable {h h' h'' : Heap} {i l x : Addr} {s : FwdPtr}

theorem Relinked.trans (h1 : Relinked h h') (h2 : Relinked h' h'') : Relinked h h'' where
  isList a := (h2.isList a).trans (h1.isList a)
  isItem a := (h2.isItem a).trans (h1.isItem a)
  data a := (h2.data a).trans (h1.data a)
  owner a := (h2.owner a).trans (h1.owner a)
  size a := (h2.size a).trans (h1.size a)

theorem Relinked.slotLive (hr : Relinked h h') : h'.SlotLive s ↔ h.SlotLive s := by
  cases s
  · rfl
  · exact hr.isList _
  · exact hr.isItem _

theorem relinked_setItem (hi : h.IsItem i) {f : slistqContainerItem → slistqContainerItem}
    (hf : ∀ c, (f c).p_Data = c.p_Data ∧ (f c).p_Container = c.p_Container) :
    Relinked h (h.setItem i f) where
  isList _ := isList_setItem f hi
  isItem _ := isItem_setItem f hi
  data a := by
    rw [item_setItem]
    split_ifs with ha
    · rw [ha, (hf _).1]
    · rfl
  owner a := by
    rw [item_setItem]
    split_ifs with ha
    · rw [ha, (hf _).2]
    · rfl
  size a := by rw [list_setItem f hi]

theorem relinked_setList (hl : h.IsList l) {f : sListqContainer → sListqContainer}
    (hf : ∀ c, (f c).m_Size = c.m_Size) : Relinked h (h.setList l f) where
  isList _ := isList_setList f hl
  isItem _ := isItem_setList f hl
  data a := by rw [item_setList f hl]
  owner a := by rw [item_setList f hl]
  size a := by
    rw [list_setList]
    split_ifs with ha
    · rw [ha, hf]
    · rfl

theorem relinked_store (hs : h.SlotLive s) (a : Addr) : Relinked h (h.store s a) := by
  cases s with
  | null => exact hs.elim
  | head l => exact relinked_setList (f := fun c => { c with tqh_first := a }) hs fun _ => rfl
  | cell i =>
    exact relinked_setItem (f := fun c => { c with tqe_next := a }) hs fun _ => ⟨rfl, rfl⟩

theorem links_setItem (hi : h.IsItem i) (f : slistqContainerItem → slistqContainerItem) :
    (h.setItem i f).links = { h.links with
      next := Function.update h.links.next i (f (h.item i)).tqe_next
      prev := Function.update h.links.prev i (f (h.item i)).tqe_prev } := by
  ext b
  · simp only [links, list_setItem f hi]
  · simp only [links, list_setItem f hi]
  · by_cases hb : b = i <;> simp [links, item_setItem, hb]
  · by_cases hb : b = i <;> simp [links, item_setItem, hb]

theorem links_setList (hl : h.IsList l) (f : sListqContainer → sListqContainer) :
    (h.setList l f).links = { h.links with
      first := Function.update h.links.first l (f (h.list l)).tqh_first
      last := Function.update h.links.last l (f (h.list l)).tqh_last } := by
  ext b
  · by_cases hb : b = l <;> simp [links, list_setList, hb]
  · by_cases hb : b = l <;> simp [links, list_setList, hb]
  · simp only [links, item_setList f hl]
  · simp only [links, item_setList f hl]

theorem links_setItem_of (hi : h.IsItem i) {f : slistqContainerItem → slistqContainerItem}
    (hf : ∀ c, (f c).tqe_next = c.tqe_next ∧ (f c).tqe_prev = c.tqe_prev) :
    (h.setItem i f).links = h.links := by
  have h1 : (h.item i).tqe_next = h.links.next i := rfl
  have h2 : (h.item i).tqe_prev = h.links.prev i := rfl
  rw [links_setItem hi, (hf _).1, (hf _).2, h1, h2, Function.update_eq_self,
    Function.update_eq_self]

theorem links_setList_of (hl : h.IsList l) {f : sListqContainer → sListqContainer}
    (hf : ∀ c, (f c).tqh_first = c.tqh_first ∧ (f c).tqh_last = c.tqh_last) :
    (h.setList l f).links = h.links := by
  have h1 : (h.list l).tqh_first = h.links.first l := rfl
  have h2 : (h.list l).tqh_last = h.links.last l := rfl
  rw [links_setList hl, (hf _).1, (hf _).2, h1, h2, Function.update_eq_self,
    Function.update_eq_self]

theorem links_store (hs : h.SlotLive s) (a : Addr) : (h.store s a).links = h.links.store s a := by
  cases s with
  | null => exact hs.elim
  | head l =>
    have he : (h.list l).tqh_last = h.links.last l := rfl
    simp only [store, links_setList hs, Links.store, he, Function.update_eq_self]
  | cell i =>
    have he : (h.item i).tqe_prev = h.links.prev i := rfl
    simp only [store, links_setItem hs, Links.store, he, Function.update_eq_self]

theorem tailq_init (hl : h.IsList l) :
    Relinked h (TAILQ_INIT h l) ∧ (TAILQ_INIT h l).links = h.links.init 0 l := by
  have h1 := relinked_setList (f := fun c => { c with tqh_first := 0 }) hl fun _ => rfl
  have hl1 := (h1.isList l).2 hl
  refine ⟨h1.trans (relinked_setList (f := fun c => { c with tqh_last := .head l }) hl1
    fun _ => rfl), ?_⟩
  simp [TAILQ_INIT, links_setList hl1, links_setList hl, Links.init, list_setList]

theorem tailq_insert_tail (hl : h.IsList l) (hx : h.IsItem x)
    (hs : h.SlotLive (h.list l).tqh_last) :
    Relinked h (TAILQ_INSERT_TAIL h l x) ∧
      (TAILQ_INSERT_TAIL h l x).links = h.links.insertTail 0 l x := by
  have r1 := relinked_setItem (f := fun c => { c with tqe_next := 0 }) hx fun _ => ⟨rfl, rfl⟩
  have hx1 := (r1.isItem x).2 hx
  have r2 := r1.trans (relinked_setItem (f := fun c => { c with tqe_prev := (h.list l).tqh_last })
    hx1 fun _ => ⟨rfl, rfl⟩)
  have hplace : ((h.setItem x fun c => { c with tqe_next := 0 }).setItem x
      fun c => { c with tqe_prev := (h.list l).tqh_last }).links
        = h.links.place 0 x (h.links.last l) := by
    simp only [links_setItem hx1, links_setItem hx, Links.place, item_setItem, if_true,
      Function.update_idem]
    rfl
  have hs2 := r2.slotLive.2 hs
  have r3 := r2.trans (relinked_store hs2 x)
  have hl3 := (r3.isList l).2 hl
  have heq : TAILQ_INSERT_TAIL h l x = (((h.setItem x fun c => { c with tqe_next := 0 }).setItem x
      fun c => { c with tqe_prev := (h.list l).tqh_last }).store (h.list l).tqh_last x).setList l
        fun c => { c with tqh_last := .cell x } := by
    simp only [TAILQ_INSERT_TAIL, list_setItem _ hx1, list_setItem _ hx]
  rw [heq]
  refine ⟨r3.trans (relinked_setList (f := fun c => { c with tqh_last := .cell x }) hl3
    fun _ => rfl), ?_⟩
  have hst := links_store hs2 x
  rw [hplace] at hst
  have he : ∀ g : Heap, (g.list l).tqh_first = g.links.first l := fun _ => rfl
  simp only [links_setList hl3, he, Function.update_eq_self, hst]
  rfl

theorem tailq_remove (hl : h.IsList l)
    (hn : (h.item x).tqe_next = 0 ∨ h.IsItem (h.item x).tqe_next)
    (hne : (h.item x).tqe_next ≠ x) (hs : h.SlotLive (h.item x).tqe_prev) :
    Relinked h (TAILQ_REMOVE h l x) ∧ (TAILQ_REMOVE h l x).links = h.links.remove 0 l x := by
  by_cases h0 : (h.item x).tqe_next = 0
  · have r1 := relinked_setList (f := fun c => { c with tqh_last := (h.item x).tqe_prev }) hl
      fun _ => rfl
    have hs1 := r1.slotLive.2 hs
    have heq : TAILQ_REMOVE h l x = (h.setList l fun c =>
        { c with tqh_last := (h.item x).tqe_prev }).store (h.item x).tqe_prev 0 := by
      simp only [TAILQ_REMOVE, h0, ne_eq, not_true_eq_false, if_false, item_setList _ hl]
    rw [heq]
    refine ⟨r1.trans (relinked_store hs1 0), ?_⟩
    have he : (h.list l).tqh_first = h.links.first l := rfl
    rw [links_store hs1, TailQueue.remove_nil (show h.links.next x = 0 from h0)]
    simp only [links_setList hl, he, Function.update_eq_self]
    rfl
  · have hy := hn.resolve_left h0
    have r1 := relinked_setItem (f := fun c => { c with tqe_prev := (h.item x).tqe_prev }) hy
      fun _ => ⟨rfl, rfl⟩
    have hs1 := r1.slotLive.2 hs
    have heq : TAILQ_REMOVE h l x = (h.setItem (h.item x).tqe_next fun c =>
        { c with tqe_prev := (h.item x).tqe_prev }).store (h.item x).tqe_prev
          (h.item x).tqe_next := by
      simp only [TAILQ_REMOVE, ne_eq, h0, not_false_eq_true, if_true, item_setItem, hne.symm,
        if_false]
    rw [heq]
    refine ⟨r1.trans (relinked_store hs1 _), ?_⟩
    have he : ∀ y, (h.item y).tqe_next = h.links.next y := fun _ => rfl
    rw [links_store hs1, remove_cons (show h.links.next x = _ from rfl) h0 hne, links_setItem hy]
    simp only [he, Function.update_eq_self]
    rfl

theorem setSize_spec (hl : h.IsList l) (n : sListqContainer → ℤ) :
    (h.setList l fun c => { c with m_Size := n c }).links = h.links ∧
      (h.setList l fun c => { c with m_Size := n c }).item = h.item ∧
      ∀ a, ((h.setList l fun c => { c with m_Size := n c }).list a).m_Size
        = if a = l then n (h.list l) else (h.list a).m_Size := by
  refine ⟨links_setList_of hl fun _ => ⟨rfl, rfl⟩, item_setList _ hl, fun a => ?_⟩
  rw [list_setList]
  split_ifs <;> rfl

/-- The cell of a new item, before it is hung: every other cell is as it was. -/
theorem newItem_spec (hx : h.Fresh x) (d l : Addr) :
    ∃ g, g = ((h.set x (.item .zero)).setItem x fun c => { c with p_Data := d }).setItem x
        (fun c => { c with p_Container := l }) ∧
      (∀ a, g.IsList a ↔ h.IsList a) ∧ (∀ a, g.IsItem a ↔ a = x ∨ h.IsItem a) ∧
      g.list = h.list ∧ g.links = h.links ∧ (∀ a, a ≠ x → g.item a = h.item a) ∧
      (g.item x).p_Data = d ∧ (g.item x).p_Container = l := by
  have hx0 : (h.set x (.item .zero)).IsItem x := ⟨.zero, set_self _⟩
  have hx1 := (isItem_setItem (fun c => { c with p_Data := d }) hx0).2 hx0
  refine ⟨_, rfl, fun a => ?_, fun a => ?_, ?_, ?_, fun a ha => ?_, ?_, ?_⟩
  · rw [isList_setItem _ hx1, isList_setItem _ hx0, isList_set]
    split_ifs with ha
    · simp [ha, not_isList_of_released hx.2]
    · rfl
  · rw [isItem_setItem _ hx1, isItem_setItem _ hx0, isItem_set]
    split_ifs with ha <;> simp [ha]
  · rw [list_setItem _ hx1, list_setItem _ hx0, list_set_zero hx.2 (.inl rfl)]
  · rw [links_setItem_of (f := fun c => { c with p_Container := l }) hx1 fun _ => ⟨rfl, rfl⟩,
      links_setItem_of (f := fun c => { c with p_Data := d }) hx0 fun _ => ⟨rfl, rfl⟩]
    exact links_congr (item_set_zero hx.2 (.inl rfl)) (list_set_zero hx.2 (.inl rfl))
  · rw [item_setItem, if_neg ha, item_setItem, if_neg ha, item_set_ne ha]
  · simp [item_setItem]
  · simp [item_setItem]

end Relinking

end NetTool

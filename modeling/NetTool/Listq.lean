import NetTool.Lib.CInt
import NetTool.Lib.TailQueue

/-!
# The list module

`listq.c` keeps a list as a container cell, with a `sys/queue.h` tail queue and a count, and one
cell for each item, which names its container. A list handle and an item handle are the addresses
of these cells. A cell given back with `free` is `released`; an item's was zeroed first, so a
handle kept past the removal reads zeroes until `calloc` hands the address out again.

A search or a clean-up that does not end takes the fuel it is given and returns nothing.
-/

namespace NetTool

open CInt TailQueue

/-- An address, with `0` for the null pointer. -/
abbrev Addr := ℕ

/-- The place of a forward pointer: a container's `tqh_first` or an item's `tqe_next`. -/
abbrev FwdPtr := Slot Addr Addr

structure sListqContainer where
  tqh_first : Addr
  tqh_last : FwdPtr
  m_Size : ℤ
  deriving DecidableEq

structure slistqContainerItem where
  tqe_next : Addr
  tqe_prev : FwdPtr
  p_Data : Addr
  p_Container : Addr
  deriving DecidableEq

/-- What `calloc` returns, and what `memset` leaves. -/
def sListqContainer.zero : sListqContainer := ⟨0, .null, 0⟩

def slistqContainerItem.zero : slistqContainerItem := ⟨0, .null, 0, 0⟩

inductive Cell
  | released
  | list (c : sListqContainer)
  | item (i : slistqContainerItem)
  deriving DecidableEq

def Heap := Addr → Cell

namespace Heap

def empty : Heap := fun _ => .released

def list (h : Heap) (l : Addr) : sListqContainer :=
  match h l with
  | .list c => c
  | _ => .zero

def item (h : Heap) (i : Addr) : slistqContainerItem :=
  match h i with
  | .item c => c
  | _ => .zero

def set (h : Heap) (a : Addr) (c : Cell) : Heap := fun b => if b = a then c else h b

def setList (h : Heap) (l : Addr) (f : sListqContainer → sListqContainer) : Heap :=
  h.set l (.list (f (h.list l)))

def setItem (h : Heap) (i : Addr) (f : slistqContainerItem → slistqContainerItem) : Heap :=
  h.set i (.item (f (h.item i)))

/-- `*(s) = a`. -/
def store (h : Heap) (s : FwdPtr) (a : Addr) : Heap :=
  match s with
  | .null => h
  | .head l => h.setList l fun c => { c with tqh_first := a }
  | .cell i => h.setItem i fun c => { c with tqe_next := a }

/-- The tail queues of the heap. -/
def links (h : Heap) : Links Addr Addr where
  first l := (h.list l).tqh_first
  last l := (h.list l).tqh_last
  next i := (h.item i).tqe_next
  prev i := (h.item i).tqe_prev

def IsList (h : Heap) (l : Addr) : Prop := ∃ c, h l = .list c

def IsItem (h : Heap) (i : Addr) : Prop := ∃ c, h i = .item c

end Heap

def TAILQ_INIT (h : Heap) (l : Addr) : Heap :=
  let h := h.setList l fun c => { c with tqh_first := 0 }
  h.setList l fun c => { c with tqh_last := .head l }

def TAILQ_INSERT_TAIL (h : Heap) (l x : Addr) : Heap :=
  let h := h.setItem x fun c => { c with tqe_next := 0 }
  let h := h.setItem x fun c => { c with tqe_prev := (h.list l).tqh_last }
  let h := h.store (h.list l).tqh_last x
  h.setList l fun c => { c with tqh_last := .cell x }

def TAILQ_REMOVE (h : Heap) (l x : Addr) : Heap :=
  let h := if (h.item x).tqe_next ≠ 0 then
      h.setItem (h.item x).tqe_next fun c => { c with tqe_prev := (h.item x).tqe_prev }
    else h.setList l fun c => { c with tqh_last := (h.item x).tqe_prev }
  h.store (h.item x).tqe_prev (h.item x).tqe_next

/-- `listq_create`, with the cell `calloc` returns. -/
def listq_create (h : Heap) (fresh : Addr) : Addr × Heap :=
  (fresh, TAILQ_INIT (h.set fresh (.list .zero)) fresh)

def listq_size (h : Heap) (a_pList : Addr) : ℤ :=
  if a_pList ≠ 0 then (h.list a_pList).m_Size else -1

def listq_head (h : Heap) (a_pList : Addr) : Addr := (h.list a_pList).tqh_first

def listq_next (h : Heap) (a_pItem : Addr) : Addr :=
  if a_pItem ≠ 0 then (h.item a_pItem).tqe_next else 0

def listq_getData (h : Heap) (a_pItem : Addr) : Addr :=
  if a_pItem ≠ 0 then (h.item a_pItem).p_Data else 0

/-- `listq_add_tail`, with the cell `calloc` returns. -/
def listq_add_tail (h : Heap) (a_pList a_pData fresh : Addr) : Addr × Heap :=
  if a_pList = 0 ∨ a_pData = 0 then (0, h)
  else
    let h := h.set fresh (.item .zero)
    let h := h.setItem fresh fun c => { c with p_Data := a_pData }
    let h := h.setItem fresh fun c => { c with p_Container := a_pList }
    let h := TAILQ_INSERT_TAIL h a_pList fresh
    (fresh, h.setList a_pList fun c => { c with m_Size := i32 (c.m_Size + 1) })

/-- The search loop of `listq_FindItem`, at `pItem`. -/
def findLoop (h : Heap) (a_pList a_pItem : Addr) : ℕ → Addr → Option ℤ
  | 0, _ => none
  | fuel + 1, pItem =>
    if pItem = 0 then some 0
    else if pItem = a_pItem then some 1
    else findLoop h a_pList a_pItem fuel (h.item (h.list a_pList).tqh_first).tqe_next

def listq_FindItem (fuel : ℕ) (h : Heap) (a_pList a_pItem : Addr) : Option ℤ :=
  if a_pList = 0 ∨ a_pItem = 0 ∨ (h.item a_pItem).p_Container ≠ a_pList then some (-1)
  else findLoop h a_pList a_pItem fuel (h.list a_pList).tqh_first

/-- What `listq_removeItem` does with an item it found. -/
def unlinkItem (h : Heap) (l i : Addr) : Heap :=
  let h := TAILQ_REMOVE h l i
  let h := h.setItem i fun _ => .zero
  let h := h.set i .released
  h.setList l fun c => { c with m_Size := i32 (c.m_Size - 1) }

def listq_removeItem (fuel : ℕ) (h : Heap) (a_pList a_pItem : Addr) : Option (ℤ × Heap) :=
  if a_pList = 0 ∨ a_pItem = 0 ∨ (h.item a_pItem).p_Container ≠ a_pList then some (-1, h)
  else
    (listq_FindItem fuel h a_pList a_pItem).map fun vRetcode =>
      if vRetcode ≠ 0 then (vRetcode, unlinkItem h a_pList a_pItem) else (-2, h)

/-- The loop of `listq_clean`, at `pItem`. -/
def cleanLoop (l : Addr) : ℕ → Heap → Addr → Option Heap
  | 0, _, _ => none
  | fuel + 1, h, pItem =>
    if pItem = 0 then some h
    else (listq_removeItem fuel h l pItem).bind fun r => cleanLoop l fuel r.2 (r.2.list l).tqh_first

def listq_clean (fuel : ℕ) (h : Heap) (a_pList : Addr) : Option (ℤ × Heap) :=
  if a_pList ≠ 0 then
    (cleanLoop a_pList fuel h (h.list a_pList).tqh_first).map fun h =>
      (0, h.setList a_pList fun c => { c with m_Size := 0 })
  else some (-1, h)

def listq_destroy (fuel : ℕ) (h : Heap) (a_pList : Addr) : Option (ℤ × Heap) :=
  (if a_pList ≠ 0 then listq_clean fuel h a_pList else some (-1, h)).map fun (vRetcode, h) =>
    if a_pList ≠ 0 then (vRetcode, h.set a_pList .released) else (vRetcode, h)

/-- What a call of `listq_removeItem` gives to `free`. -/
def removeItem_frees (fuel : ℕ) (h : Heap) (a_pList a_pItem : Addr) : List Addr :=
  if a_pList = 0 ∨ a_pItem = 0 ∨ (h.item a_pItem).p_Container ≠ a_pList then []
  else
    match listq_FindItem fuel h a_pList a_pItem with
    | some vRetcode => if vRetcode ≠ 0 then [a_pItem] else []
    | none => []

/-- What the loop of `listq_clean` gives to `free`, in order. -/
def cleanLoop_frees (l : Addr) : ℕ → Heap → Addr → List Addr
  | 0, _, _ => []
  | fuel + 1, h, pItem =>
    if pItem = 0 then []
    else
      removeItem_frees fuel h l pItem ++
        match listq_removeItem fuel h l pItem with
        | some r => cleanLoop_frees l fuel r.2 (r.2.list l).tqh_first
        | none => []

def clean_frees (fuel : ℕ) (h : Heap) (a_pList : Addr) : List Addr :=
  if a_pList ≠ 0 then cleanLoop_frees a_pList fuel h (h.list a_pList).tqh_first else []

/-- What `listq_destroy` gives to `free`, in order. -/
def destroy_frees (fuel : ℕ) (h : Heap) (a_pList : Addr) : List Addr :=
  (if a_pList ≠ 0 then clean_frees fuel h a_pList else []) ++
    if a_pList ≠ 0 then [a_pList] else []

/-- The loop a caller reads a list with, from `pItemList` on. -/
def readLoop (h : Heap) : ℕ → Addr → Option (List Addr)
  | 0, _ => none
  | fuel + 1, pItemList =>
    if pItemList = 0 then some []
    else (readLoop h fuel (listq_next h pItemList)).map (listq_getData h pItemList :: ·)

/-- A call of the module; `fresh` is the cell `calloc` returns in it. -/
inductive Call
  | create (fresh : Addr)
  | add_tail (l data fresh : Addr)
  | removeItem (l i : Addr)
  | clean (l : Addr)
  | destroy (l : Addr)
  deriving DecidableEq

inductive Ret
  | code (r : ℤ)
  | ptr (p : Addr)
  deriving DecidableEq

/-- The codes of a call that was not carried out. -/
def Ret.Rejected (r : Ret) : Prop := r = .code (-1) ∨ r = .ptr 0

def exec (fuel : ℕ) (h : Heap) : Call → Option (Ret × Heap)
  | .create fresh => some ((listq_create h fresh).map .ptr id)
  | .add_tail l data fresh => some ((listq_add_tail h l data fresh).map .ptr id)
  | .removeItem l i => (listq_removeItem fuel h l i).map (Prod.map .code id)
  | .clean l => (listq_clean fuel h l).map (Prod.map .code id)
  | .destroy l => (listq_destroy fuel h l).map (Prod.map .code id)

/-! ## What the lists hold -/

/-- The items of each live list, with their data, in order of addition. -/
abbrev Contents := Addr → Option (List (Addr × Addr))

/-- What a call does to the lists it is meant for. -/
def Contents.step (A : Contents) : Call → Contents
  | .create fresh => Function.update A fresh (some [])
  | .add_tail l data fresh =>
    if l = 0 ∨ data = 0 then A else Function.update A l ((A l).map (· ++ [(fresh, data)]))
  | .removeItem l i => Function.update A l ((A l).map (·.filter (·.1 ≠ i)))
  | .clean l => Function.update A l ((A l).map fun _ => [])
  | .destroy l => Function.update A l none

/-- What a run of calls leaves in the lists. -/
def contents (cs : List Call) : Contents := cs.foldl Contents.step fun _ => none

/-- `calloc` returns a cell that is not live. -/
def Heap.Fresh (h : Heap) (a : Addr) : Prop := a ≠ 0 ∧ h a = .released

/-- The handles a call is given are null or live, what it allocates is not live, and its list
keeps fewer than `2 ^ 31` items. -/
def Admissible (A : Contents) (h : Heap) : Call → Prop
  | .create fresh => h.Fresh fresh
  | .add_tail l data fresh => (l = 0 ∨ h.IsList l) ∧
      (l ≠ 0 → data ≠ 0 → h.Fresh fresh ∧ ∀ xs, A l = some xs → xs.length + 1 < 2 ^ 31)
  | .removeItem l i => (l = 0 ∨ h.IsList l) ∧ (i = 0 ∨ h.IsItem i)
  | .clean l => l = 0 ∨ h.IsList l
  | .destroy l => l = 0 ∨ h.IsList l

/-- The runs of calls that return, with the heap they leave. -/
inductive Run : List Call → Heap → Prop
  | start : Run [] Heap.empty
  | step {cs : List Call} {h h' : Heap} {c : Call} {r : Ret} {fuel : ℕ} :
    Run cs h → Admissible (contents cs) h c → exec fuel h c = some (r, h') → Run (cs ++ [c]) h'

/-- The list at `l` is made of the items `xs`: the chain and its back links, the items' owner and
data, and the count. -/
structure Linked (h : Heap) (l : Addr) (xs : List (Addr × Addr)) : Prop where
  queue : IsQueue 0 h.links l (xs.map Prod.fst)
  owned : ∀ x ∈ xs, h.IsItem x.1 ∧ (h.item x.1).p_Container = l ∧ (h.item x.1).p_Data = x.2
  size : (h.list l).m_Size = xs.length

end NetTool

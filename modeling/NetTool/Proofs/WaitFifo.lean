import NetTool.Lib.Loop
import NetTool.WaitFifo

/-!
# The wait on a FIFO of the test program

Of each chunk only the first byte is tested. So the call returns in the round in which the
character first occurs exactly where it begins the first chunk that has it, and otherwise how the
stream is split decides whether it returns (`splits_right_iff`).
-/

namespace NetTool

open Bytes CInt Loop

/-- A FIFO that brings these bytes, chunk by chunk. -/
def Fifo.bringing (fd : ℕ) (chunks : List (List UInt8)) : Fifo := ⟨0, fd, chunks.map .chunk⟩

section Wait

variable (c : Libc) (a_FifoName : String) (a : UInt8) (fd : ℕ) (chunks : List (List UInt8))

/-- The call returns in the round in which `a` first occurs, or waits where it does not. -/
def RightRound : Prop :=
  ∃ w, WaitFifoChar c a_FifoName a (.bringing fd chunks) = some w ∧
    w.ret.map (fun _ => w.rounds) = (chunks.findIdx? fun bytes => a ∈ bytes).map (· + 1)

def Returns : Prop :=
  ∃ w, WaitFifoChar c a_FifoName a (.bringing fd chunks) = some w ∧ w.ret.isSome

/-- The first chunk with `a` in it begins with it. -/
def BeginsChunk (a : UInt8) (chunks : List (List UInt8)) : Prop :=
  ∀ bytes, chunks.find? (fun bytes => a ∈ bytes) = some bytes → bytes.head? = some a

variable {c a_FifoName a fd chunks}

/-- The loop returns in the first round whose chunk begins with `a`. -/
theorem wait_rounds_chunks : ∀ {chunks : List (List UInt8)} {ii : ℕ},
    (∀ bytes ∈ chunks, bytes.length ≤ 1024) →
      ∃ w, wait_rounds c a (chunks.map .chunk) ii = some w ∧ w.ret.map (fun _ => w.rounds) =
        (chunks.findIdx? fun bytes => bytes.head? = some a).map (· + (ii + 1))
  | [], ii, _ => ⟨_, rfl, rfl⟩
  | bytes :: chunks, ii, h => by
    have hlen := h bytes List.mem_cons_self
    obtain ⟨w, hw, hr⟩ := @wait_rounds_chunks chunks (ii + 1)
      fun bytes hb => h bytes (List.mem_cons_of_mem _ hb)
    have htest : (0 < bytes.length ∧ setBytes (fun _ => 0) 0 bytes 0 = a) ↔
        bytes.head? = some a := by
      rcases bytes with _ | ⟨b, bytes⟩
      · simp
      · simp [setBytes]
    rw [List.map_cons, wait_rounds]
    simp only [htest]
    rw [if_neg (by omega), List.findIdx?_cons]
    by_cases hb : bytes.head? = some a
    · rw [if_pos hb, if_pos (decide_eq_true hb)]
      refine ⟨_, rfl, ?_⟩
      rw [Option.map_some, Option.map_some, Nat.zero_add]
    · rw [if_neg hb, if_neg (by rwa [decide_eq_true_eq])]
      refine ⟨w, hw, hr.trans ?_⟩
      rw [Option.map_map]
      congr 1
      funext k
      simp only [Function.comp_apply]
      omega

theorem waitFifoChar_chunks (h : ∀ bytes ∈ chunks, bytes.length ≤ 1024) :
    ∃ w, WaitFifoChar c a_FifoName a (.bringing fd chunks) = some w ∧
      w.ret.map (fun _ => w.rounds) =
        (chunks.findIdx? fun bytes => bytes.head? = some a).map (· + 1) := by
  have hfd : ¬ (fd : ℤ) < 0 := by omega
  unfold WaitFifoChar Fifo.bringing
  simp only [ne_eq, not_true_eq_false, if_false, hfd]
  exact wait_rounds_chunks h

theorem rightRound_iff (h : ∀ bytes ∈ chunks, bytes.length ≤ 1024) :
    RightRound c a_FifoName a fd chunks ↔ BeginsChunk a chunks := by
  obtain ⟨w, hw, hr⟩ := @waitFifoChar_chunks c a_FifoName a fd chunks h
  have hhead : ∀ bytes : List UInt8, decide (bytes.head? = some a) = true →
      decide (a ∈ bytes) = true := fun bytes hb =>
    decide_eq_true (List.mem_of_head? (of_decide_eq_true hb))
  rw [RightRound, hw]
  simp only [Option.some.injEq, exists_eq_left', hr, map_succ_inj, findIdx?_eq_iff hhead,
    decide_eq_true_eq]
  rfl

/-- A call that returns in the right round returns if the stream has the character. -/
theorem returns_iff_of_rightRound (h : RightRound c a_FifoName a fd chunks) :
    Returns c a_FifoName a fd chunks ↔ a ∈ chunks.flatten := by
  obtain ⟨w, hw, hr⟩ := h
  have hsome := congrArg Option.isSome hr
  rw [Option.isSome_map, Option.isSome_map] at hsome
  rw [Returns, hw]
  simp only [Option.some.injEq, exists_eq_left', hsome, List.findIdx?_isSome, List.any_eq_true,
    decide_eq_true_eq, List.mem_flatten]

end Wait

/-- For two splits of one stream, the call returns in the round in which the character first
occurs, and in both or in neither, exactly where the character begins the first chunk that has it
in each of them. -/
theorem splits_right_iff (c : Libc) (a_FifoName : String) (a : UInt8) (fd : ℕ)
    {xs ys : List (List UInt8)} (hstream : xs.flatten = ys.flatten)
    (hx : ∀ bytes ∈ xs, bytes.length ≤ 1024) (hy : ∀ bytes ∈ ys, bytes.length ≤ 1024) :
    (RightRound c a_FifoName a fd xs ∧ RightRound c a_FifoName a fd ys ∧
      (Returns c a_FifoName a fd xs ↔ Returns c a_FifoName a fd ys)) ↔
        BeginsChunk a xs ∧ BeginsChunk a ys := by
  rw [← @rightRound_iff c a_FifoName a fd xs hx, ← @rightRound_iff c a_FifoName a fd ys hy]
  constructor
  · rintro ⟨h1, h2, -⟩
    exact ⟨h1, h2⟩
  · rintro ⟨h1, h2⟩
    refine ⟨h1, h2, ?_⟩
    rw [returns_iff_of_rightRound h1, returns_iff_of_rightRound h2, hstream]

theorem oneThenTwo_right :
    [[49], [50]].flatten = [[(49 : UInt8), 50]].flatten ∧
      (∀ bytes ∈ [[(49 : UInt8)], [50]], bytes.length ≤ 1024) ∧
      (∀ bytes ∈ [[(49 : UInt8), 50]], bytes.length ≤ 1024) ∧
      ((RightRound .bare "wait.fifo" 49 3 [[49], [50]] ∧
        RightRound .bare "wait.fifo" 49 3 [[49, 50]] ∧
        (Returns .bare "wait.fifo" 49 3 [[49], [50]] ↔ Returns .bare "wait.fifo" 49 3 [[49, 50]])) ↔
          BeginsChunk 49 [[49], [50]] ∧ BeginsChunk 49 [[49, 50]]) :=
  ⟨rfl, by decide, by decide,
    splits_right_iff .bare "wait.fifo" 49 3 rfl (by decide) (by decide)⟩

/-- Of the stream `01` the call takes the character `1` if it is read on its own, and otherwise
waits on. -/
theorem zeroThenOne_not_right :
    Returns .bare "wait.fifo" 49 3 [[48], [49]] ∧ ¬ Returns .bare "wait.fifo" 49 3 [[48, 49]] ∧
      ¬ RightRound .bare "wait.fifo" 49 3 [[48, 49]] := by
  refine ⟨⟨_, rfl, rfl⟩, ?_, ?_⟩
  · rintro ⟨w, hw, hret⟩
    obtain rfl : _ = w := Option.some.inj hw
    cases hret
  · rw [rightRound_iff (by decide)]
    exact fun h => absurd (h [48, 49] rfl) (by decide)

end NetTool

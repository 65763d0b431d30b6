import NetTool.Lib.Bytes
import NetTool.Lib.Loop

/-!
# Length-prefixed frames

A format of frames that carry their own length in a header and are padded to an alignment, one
after the other. A frame is accepted where its header and its length fit what is left;
`offsets` lists where the accepted frames stand when the next one is looked for past the padding,
until one is refused.

The accepted frames lie in the bytes they were looked for in, one after the other
(`offsets_bounds`, `offsets_pairwise`), and depend on no other byte (`offsets_congr`). Where the
bytes are an encoded list of frames, they are that list (`offsets_encode`). A loop whose cursor
keeps the remaining length in any machine integer, while the integer follows the true length, is
a pass over them (`forLoop_walk`).
-/

namespace Frames

open Bytes Loop

structure Format where
  hdr : ℕ
  align : ℕ
  len : Mem → ℕ
  hdr_pos : 0 < hdr
  align_pos : 0 < align
  len_congr : ∀ m m', (∀ a < hdr, m a = m' a) → len m = len m'

namespace Format

variable (F : Format)

/-- The room a frame of length `n` takes. -/
def pad (n : ℕ) : ℕ := (n + (F.align - 1)) / F.align * F.align

def lenAt (m : Mem) (o : ℕ) : ℕ := F.len (shift m o)

/-- The frame at `o` fits in the `rem` bytes left. -/
def Ok (m : Mem) (o rem : ℕ) : Prop := F.hdr ≤ rem ∧ F.hdr ≤ F.lenAt m o ∧ F.lenAt m o ≤ rem

instance (m : Mem) (o rem : ℕ) : Decidable (F.Ok m o rem) := inferInstanceAs (Decidable (_ ∧ _))

def offsetsAux (m : Mem) : ℕ → ℕ → ℕ → List ℕ
  | 0, _, _ => []
  | fuel + 1, o, rem =>
    if F.Ok m o rem then
      o :: offsetsAux m fuel (o + F.pad (F.lenAt m o)) (rem - F.pad (F.lenAt m o))
    else []

/-- Where the frames in the `rem` bytes from `o` on stand. -/
def offsets (m : Mem) (o rem : ℕ) : List ℕ := F.offsetsAux m rem o rem

/-- Where the walk over the `rem` bytes from `o` on stops: behind the last accepted frame. -/
def stop (m : Mem) (o rem : ℕ) : ℕ :=
  ((F.offsets m o rem).getLast?.map fun p => p + F.pad (F.lenAt m p)).getD o

theorem le_pad (n : ℕ) : n ≤ F.pad n := by
  have h := Nat.lt_div_mul_add F.align_pos (a := n + (F.align - 1))
  have := F.align_pos
  unfold pad
  omega

theorem pad_lt (n : ℕ) : F.pad n < n + F.align := by
  have h := Nat.div_mul_le_self (n + (F.align - 1)) F.align
  have := F.align_pos
  unfold pad
  omega

variable {F} {m m' : Mem}

theorem not_ok_of_lt {o rem : ℕ} (h : rem < F.hdr) : ¬ F.Ok m o rem :=
  fun hok => absurd hok.1 (by omega)

theorem offsetsAux_fuel : ∀ (n k o rem : ℕ), rem ≤ n → rem ≤ k →
    F.offsetsAux m n o rem = F.offsetsAux m k o rem
  | 0, 0, _, _, _, _ => rfl
  | 0, k + 1, o, rem, h, _ => by
    have := F.hdr_pos
    rw [offsetsAux, offsetsAux, if_neg (not_ok_of_lt (by omega))]
  | n + 1, 0, o, rem, _, h => by
    have := F.hdr_pos
    rw [offsetsAux, offsetsAux, if_neg (not_ok_of_lt (by omega))]
  | n + 1, k + 1, o, rem, hn, hk => by
    rw [offsetsAux, offsetsAux]
    split_ifs with hok
    · have := F.hdr_pos
      have := F.le_pad (F.lenAt m o)
      have := hok.2.1
      rw [offsetsAux_fuel n k _ _ (by omega) (by omega)]
    · rfl

theorem offsets_eq (o rem : ℕ) : F.offsets m o rem =
    if F.Ok m o rem then
      o :: F.offsets m (o + F.pad (F.lenAt m o)) (rem - F.pad (F.lenAt m o))
    else [] := by
  have := F.hdr_pos
  rw [offsets, offsetsAux_fuel rem (rem + 1) o rem le_rfl (by omega), offsetsAux]
  split_ifs with hok
  · have := F.le_pad (F.lenAt m o)
    have := hok.2.1
    rw [offsets, offsetsAux_fuel _ (rem - F.pad (F.lenAt m o)) _ _ (by omega) (by omega)]
  · rfl

theorem offsets_of_ok {o rem : ℕ} (h : F.Ok m o rem) : F.offsets m o rem =
    o :: F.offsets m (o + F.pad (F.lenAt m o)) (rem - F.pad (F.lenAt m o)) := by
  rw [offsets_eq, if_pos h]

theorem offsets_of_not_ok {o rem : ℕ} (h : ¬ F.Ok m o rem) : F.offsets m o rem = [] := by
  rw [offsets_eq, if_neg h]

theorem stop_of_not_ok {o rem : ℕ} (h : ¬ F.Ok m o rem) : F.stop m o rem = o := by
  rw [stop, offsets_of_not_ok h]
  rfl

/-- No frame stands where less than a header is left. -/
theorem offsets_of_lt {o rem : ℕ} (h : rem < F.hdr) : F.offsets m o rem = [] :=
  offsets_of_not_ok (not_ok_of_lt h)

theorem stop_of_lt {o rem : ℕ} (h : rem < F.hdr) : F.stop m o rem = o :=
  stop_of_not_ok (not_ok_of_lt h)

theorem stop_of_ok {o rem : ℕ} (h : F.Ok m o rem) : F.stop m o rem =
    F.stop m (o + F.pad (F.lenAt m o)) (rem - F.pad (F.lenAt m o)) := by
  rw [stop, stop, offsets_of_ok h, List.getLast?_cons]
  rcases (F.offsets m (o + F.pad (F.lenAt m o)) (rem - F.pad (F.lenAt m o))).getLast? with _ | p
  · rfl
  · rfl

/-- What a walk meets: a statement about the rest of the walk at every accepted frame holds of the
whole. -/
theorem offsets_induction {P : ℕ → ℕ → List ℕ → Prop}
    (stop : ∀ o rem, ¬ F.Ok m o rem → P o rem [])
    (step : ∀ o rem, F.Ok m o rem →
      P (o + F.pad (F.lenAt m o)) (rem - F.pad (F.lenAt m o))
        (F.offsets m (o + F.pad (F.lenAt m o)) (rem - F.pad (F.lenAt m o))) →
      P o rem (F.offsets m o rem)) (o rem : ℕ) : P o rem (F.offsets m o rem) := by
  induction rem using Nat.strong_induction_on generalizing o with
  | _ rem ih =>
    by_cases hok : F.Ok m o rem
    · refine step o rem hok (ih _ ?_ _)
      have := F.hdr_pos
      have := F.le_pad (F.lenAt m o)
      have := hok.2.1
      have := hok.1
      omega
    · rw [offsets_of_not_ok hok]
      exact stop o rem hok

/-- No frame is accepted where the walk stops. -/
theorem not_ok_stop (o rem : ℕ) : ¬ F.Ok m (F.stop m o rem) (o + rem - F.stop m o rem) := by
  refine offsets_induction (F := F) (m := m) (P := fun o rem _ =>
    ¬ F.Ok m (F.stop m o rem) (o + rem - F.stop m o rem)) (fun o rem hok => ?_)
    (fun o rem hok ih => ?_) o rem
  · rwa [stop_of_not_ok hok, Nat.add_sub_cancel_left]
  · rw [stop_of_ok hok]
    by_cases hle : F.pad (F.lenAt m o) ≤ rem
    · rwa [show o + F.pad (F.lenAt m o) + (rem - F.pad (F.lenAt m o)) = o + rem by omega] at ih
    · have hpos := F.hdr_pos
      rw [stop_of_lt (by omega)]
      exact not_ok_of_lt (by omega)

theorem offsets_bounds (o rem : ℕ) : ∀ p ∈ F.offsets m o rem,
    o ≤ p ∧ F.hdr ≤ F.lenAt m p ∧ p + F.lenAt m p ≤ o + rem := by
  refine offsets_induction (P := fun o rem l => ∀ p ∈ l,
    o ≤ p ∧ F.hdr ≤ F.lenAt m p ∧ p + F.lenAt m p ≤ o + rem) (by simp) (fun o rem hok ih => ?_) o rem
  intro p hp
  rw [offsets_of_ok hok] at hp
  obtain ⟨h1, h2, h3⟩ := hok
  rcases List.mem_cons.1 hp with rfl | hp
  · exact ⟨le_rfl, h2, by omega⟩
  · obtain ⟨h4, h5, h6⟩ := ih p hp
    have := F.hdr_pos
    refine ⟨by omega, h5, ?_⟩
    by_cases hle : F.pad (F.lenAt m o) ≤ rem
    · omega
    · rw [offsets_of_lt (by omega)] at hp
      simp at hp

theorem le_stop (o rem : ℕ) : o ≤ F.stop m o rem := by
  rw [stop]
  rcases hp : (F.offsets m o rem).getLast? with _ | p
  · exact le_rfl
  · have := (offsets_bounds o rem p (List.mem_of_getLast? hp)).1
    simp only [Option.map_some, Option.getD_some]
    omega

/-- No accepted frame reaches past where the walk stops. -/
theorem end_le_stop (o rem : ℕ) :
    ∀ p ∈ F.offsets m o rem, p + F.pad (F.lenAt m p) ≤ F.stop m o rem := by
  refine offsets_induction (P := fun o rem l =>
    ∀ p ∈ l, p + F.pad (F.lenAt m p) ≤ F.stop m o rem) (by simp) (fun o rem hok ih => ?_) o rem
  intro p hp
  rw [offsets_of_ok hok] at hp
  rw [stop_of_ok hok]
  rcases List.mem_cons.1 hp with rfl | hp
  · exact le_stop _ _
  · exact ih p hp

theorem offsets_pairwise (o rem : ℕ) :
    (F.offsets m o rem).Pairwise fun p q => p + F.pad (F.lenAt m p) ≤ q := by
  refine offsets_induction (P := fun _ _ l => l.Pairwise fun p q =>
    p + F.pad (F.lenAt m p) ≤ q) (fun _ _ _ => List.Pairwise.nil) (fun o rem hok ih => ?_) o rem
  rw [offsets_of_ok hok]
  exact List.pairwise_cons.2 ⟨fun q hq => (offsets_bounds _ _ q hq).1, ih⟩

theorem lenAt_congr {o : ℕ} (h : ∀ a, o ≤ a → a < o + F.hdr → m a = m' a) :
    F.lenAt m o = F.lenAt m' o :=
  F.len_congr _ _ fun a ha => h (o + a) (by omega) (by omega)

theorem offsets_congr (o rem : ℕ) (h : ∀ a, o ≤ a → a < o + rem → m a = m' a) :
    F.offsets m o rem = F.offsets m' o rem := by
  revert h
  refine offsets_induction (P := fun o rem l => (∀ a, o ≤ a → a < o + rem → m a = m' a) →
    l = F.offsets m' o rem) (fun o rem hok h => ?_) (fun o rem hok ih h => ?_) o rem
  · by_cases hr : F.hdr ≤ rem
    · have hlen := lenAt_congr (F := F) fun a h1 h2 => h a h1 (by omega)
      rw [offsets_of_not_ok]
      rwa [Ok, ← hlen]
    · rw [offsets_of_lt (by omega)]
  · have hlen := lenAt_congr (F := F) (o := o) fun a h1 h2 => h a h1 (by have := hok.1; omega)
    have hok' : F.Ok m' o rem := by rwa [Ok, ← hlen]
    rw [offsets_of_ok hok, offsets_of_ok hok', ← hlen, ih fun a h1 h2 => h a (by omega) (by omega)]

/-! ## Encoded frames -/

/-- A complete frame, with what follows it up to the alignment. -/
structure Frame (F : Format) where
  bytes : List UInt8
  padding : List UInt8
  long : F.hdr ≤ bytes.length
  len_eq : F.len (ofList bytes) = bytes.length
  padded : bytes.length + padding.length = F.pad bytes.length

def encode (fs : List (Frame F)) : List UInt8 := fs.flatMap fun f => f.bytes ++ f.padding

/-- The frame `f` stands at `o`. -/
def Holds (m : Mem) (o : ℕ) (f : Frame F) : Prop := slice m o f.bytes.length = f.bytes

theorem Holds.lenAt {o : ℕ} {f : Frame F} (h : Holds m o f) : F.lenAt m o = f.bytes.length := by
  have hl := f.long
  rw [Format.lenAt, ← f.len_eq]
  exact F.len_congr _ _ fun a ha => shift_eq_overlay h _ (by omega)

theorem encode_cons (f : Frame F) (fs : List (Frame F)) :
    encode (f :: fs) = f.bytes ++ f.padding ++ encode fs := rfl

theorem offsets_encode_nil (o : ℕ) : F.offsets m o (encode ([] : List (Frame F))).length = [] :=
  offsets_of_lt F.hdr_pos

theorem length_encode_cons (f : Frame F) (fs : List (Frame F)) :
    (encode (f :: fs)).length = F.pad f.bytes.length + (encode fs).length := by
  rw [encode_cons, List.length_append, List.length_append, f.padded]

/-- Encoded frames hold the first one, which is accepted, and then the others. -/
theorem holds_head {f : Frame F} {fs : List (Frame F)} {o : ℕ}
    (h : slice m o (encode (f :: fs)).length = encode (f :: fs)) :
    Holds m o f ∧ F.Ok m o (encode (f :: fs)).length ∧
      slice m (o + F.pad f.bytes.length) (encode fs).length = encode fs := by
  have hl := f.long
  have hp := F.le_pad f.bytes.length
  rw [length_encode_cons, ← f.padded, slice_append, slice_append, encode_cons] at h
  obtain ⟨h1, h3⟩ := List.append_inj h (by simp)
  obtain ⟨h1, h2⟩ := List.append_inj h1 (by simp)
  have hf : Holds m o f := h1
  refine ⟨hf, ?_, f.padded ▸ h3⟩
  rw [Ok, hf.lenAt, length_encode_cons]
  omega

/-- The walk over encoded frames meets them all, in order. -/
theorem offsets_encode : ∀ (fs : List (Frame F)) (o : ℕ),
    slice m o (encode fs).length = encode fs →
      List.Forall₂ (Holds m) (F.offsets m o (encode fs).length) fs
  | [], o, _ => by
    rw [offsets_encode_nil]
    exact List.Forall₂.nil
  | f :: fs, o, h => by
    obtain ⟨hf, hok, h3⟩ := holds_head h
    rw [offsets_of_ok hok, hf.lenAt, length_encode_cons, Nat.add_sub_cancel_left]
    exact List.Forall₂.cons hf (offsets_encode fs _ h3)

/-- The walk over encoded frames stops behind them and their padding. -/
theorem stop_encode : ∀ (fs : List (Frame F)) (o : ℕ),
    slice m o (encode fs).length = encode fs →
      F.stop m o (encode fs).length = o + (encode fs).length
  | [], o, _ => by
    rw [stop, offsets_encode_nil]
    rfl
  | f :: fs, o, h => by
    obtain ⟨hf, hok, h3⟩ := holds_head h
    rw [stop_of_ok hok, hf.lenAt, length_encode_cons, Nat.add_sub_cancel_left,
      stop_encode fs _ h3, Nat.add_assoc]

section Encoded

variable {fs : List (Frame F)} {o p : ℕ} (h : slice m o (encode fs).length = encode fs)

include h

/-- The last of the encoded frames ends, with its padding, where the bytes end. -/
theorem offsets_encode_last (hp : (F.offsets m o (encode fs).length).getLast? = some p) :
    p + F.pad (F.lenAt m p) = o + (encode fs).length := by
  rw [← stop_encode fs o h, stop, hp]
  rfl

/-- Encoded frames and their padding lie within the bytes. -/
theorem offsets_encode_within (hp : p ∈ F.offsets m o (encode fs).length) :
    p + F.pad (F.lenAt m p) ≤ o + (encode fs).length := by
  rw [← stop_encode fs o h]
  exact end_le_stop _ _ p hp

end Encoded

/-! ## Loops over frames -/

/-- A loop over a cursor of an offset and a machine integer, where the integer follows the length
that is left, is a pass over the accepted frames. -/
theorem forLoop_walk {σ ρ : Type*} {ok : ℕ × ℤ → Bool} {next : ℕ × ℤ → ℕ × ℤ}
    {body : ℕ → σ → σ × Option ρ} {I : ℤ → Prop}
    (hok : ∀ o len, I len → (ok (o, len) = true ↔ F.Ok m o len.toNat))
    (hnext : ∀ o len, I len → F.Ok m o len.toNat → I (next (o, len)).2 ∧
      (next (o, len)).1 = o + F.pad (F.lenAt m o) ∧
      (next (o, len)).2.toNat = len.toNat - F.pad (F.lenAt m o))
    {fuel o : ℕ} {len : ℤ} (hI : I len) (hf : len.toNat < fuel) (s : σ) :
    forLoop ok next (fun t s => body t.1 s) fuel (o, len) s =
      (foldBrk body (F.offsets m o len.toNat) s).map id Exit.ofBrk := by
  obtain ⟨n, rfl⟩ : ∃ n, fuel = n + 1 := ⟨fuel - 1, by omega⟩
  have hpos := F.hdr_pos
  have hstop : ∀ {n o len} (s : σ), I len → ¬ F.Ok m o len.toNat →
      forLoop ok next (fun t s => body t.1 s) (n + 1) (o, len) s =
        (foldBrk body (F.offsets m o len.toNat) s).map id Exit.ofBrk := by
    intro n o len s hI hn
    have hof : ok (o, len) = false := by
      rw [← Bool.not_eq_true, hok o len hI]
      exact hn
    simp [forLoop, hof, offsets_of_not_ok hn, foldBrk, Exit.ofBrk]
  induction n generalizing o len s with
  | zero =>
    exact hstop s hI (not_ok_of_lt (by omega))
  | succ n ih =>
    by_cases hk : F.Ok m o len.toNat
    · obtain ⟨h1, h2, h3⟩ := hnext o len hI hk
      have := F.le_pad (F.lenAt m o)
      have := hk.2.1
      rw [forLoop, (hok o len hI).2 hk, offsets_of_ok hk, foldBrk]
      rcases body o s with ⟨s, _ | r⟩
      · have := ih (o := (next (o, len)).1) h1 s (by omega)
        rw [h2, h3] at this
        rw [← this, ← h2]
        rfl
      · rfl
    · exact hstop s hI hk

end Format

end Frames

import NetTool.WaitGpio

/-!
# The file watcher of the test program

At an `IN_MODIFY` event the file is copied over the start of the batch that is being walked, and
the length of the event is read afterwards. Where the copy stays in front of that length, nothing
the loop still reads is changed (`check_event_agrees`), and it visits the events as the kernel
wrote them; otherwise the bytes of the file decide where it goes on (`batch_visited_iff`).
-/

namespace NetTool

open Bytes CInt

/-! ## Batches -/

/-- An event as the kernel writes it, with the bytes of its name and their padding. -/
structure InotifyEvent where
  wd : ℕ
  mask : ℕ
  cookie : ℕ
  name : List UInt8
  mask_lt : mask < 2 ^ 32

namespace InotifyEvent

def bytes (e : InotifyEvent) : List UInt8 :=
  le32 e.wd ++ (le32 e.mask ++ (le32 e.cookie ++ (le32 e.name.length ++ e.name)))

@[simp] theorem length_bytes (e : InotifyEvent) : e.bytes.length = 16 + e.name.length := by
  simp only [bytes, List.length_append, length_le32]
  omega

def encode (evs : List InotifyEvent) : List UInt8 := evs.flatMap bytes

theorem encode_cons (e : InotifyEvent) (evs : List InotifyEvent) :
    encode (e :: evs) = e.bytes ++ encode evs := rfl

/-- Where each event begins and ends. -/
def boundaries : ℕ → List InotifyEvent → List (ℕ × ℕ)
  | _, [] => []
  | p, e :: evs => (p, p + e.bytes.length) :: boundaries (p + e.bytes.length) evs

/-- The events stand at `p`. -/
def Stands (m : Mem) (p : ℕ) (evs : List InotifyEvent) : Prop :=
  slice m p (encode evs).length = encode evs

section Stands

variable {m m' : Mem} {p : ℕ} {e : InotifyEvent} {evs : List InotifyEvent}

theorem Stands.head (h : Stands m p (e :: evs)) : slice m p e.bytes.length = e.bytes :=
  (slice_append_inj h).1

theorem Stands.tail (h : Stands m p (e :: evs)) : Stands m (p + e.bytes.length) evs :=
  (slice_append_inj h).2

theorem Stands.congr (h : Stands m p evs) (ha : ∀ a, p ≤ a → m' a = m a) : Stands m' p evs :=
  (slice_congr fun a h1 _ => ha a h1).trans h

theorem Stands.mask (h : Stands m p (e :: evs)) : event_mask m p = e.mask :=
  get32_le32 e.mask_lt (slice_append_inj (slice_append_inj h.head).2).1

theorem Stands.len (h : Stands m p (e :: evs)) (hlt : e.name.length < 2 ^ 32) :
    event_len m p = e.name.length :=
  get32_le32 hlt (slice_append_inj (slice_append_inj (slice_append_inj (slice_append_inj
    h.head).2).2).2).1

end Stands

end InotifyEvent

open InotifyEvent

theorem event_len_mod (m : Mem) (p : ℕ) : event_len m p % 256 = (m (p + 12)).toNat := by
  have hlt := (m (p + 12)).toNat_lt
  unfold event_len get32 get16 get8
  omega

/-! ## The copy of the file -/

/-- `ReadBuffer` after the file is read into it. -/
def copied (file : List UInt8) (m : Mem) : Mem := set8 (setBytes m 0 file) (file.length - 1) 0

section Copied

variable {m : Mem} {file : List UInt8} {a : ℕ}

theorem copied_of_le (h : file.length ≤ a) (h0 : 0 < file.length) : copied file m a = m a := by
  rw [copied, set8, setBytes_apart (by unfold Apart; rw [List.length_singleton]; omega),
    setBytes_apart (by unfold Apart; omega)]

theorem copied_last (h : file.length = a + 1) : copied file m a = 0 := by
  rw [copied, set8, h, Nat.add_sub_cancel, setBytes, if_pos (Nat.le_refl a), Nat.sub_self]
  rfl

theorem copied_of_lt (h : a + 1 < file.length) : copied file m a = file[a] := by
  rw [copied, set8, setBytes_apart (by unfold Apart; omega), setBytes, if_pos (Nat.zero_le a),
    Nat.sub_zero, List.getD_eq_getElem?_getD, List.getElem?_eq_getElem (by omega), Option.getD_some]

theorem read_file_eq (h0 : 0 < file.length) (h : file.length ≤ BUF_LEN) :
    ∃ out, read_file file m = some (copied file m, (file.length : ℤ), out) := by
  have hlast : ((file.length : ℤ) - 1).toNat = file.length - 1 := by omega
  unfold read_file
  simp only [if_pos h0]
  rw [if_pos ⟨by omega, h⟩, hlast]
  exact ⟨_, rfl⟩

theorem read_file_some {r : Mem × ℤ × List Ev} (h : read_file file m = some r) :
    0 < file.length ∧ file.length ≤ BUF_LEN ∧ r.1 = copied file m := by
  by_cases h0 : 0 < file.length
  · by_cases hle : file.length ≤ BUF_LEN
    · obtain ⟨out, he⟩ := @read_file_eq m file h0 hle
      rw [he] at h
      obtain rfl := Option.some.inj h
      exact ⟨h0, hle, rfl⟩
    · unfold read_file at h
      rw [if_neg fun hc => hle hc.2] at h
      cases h
  · unfold read_file at h
    simp only [if_neg h0] at h
    rw [if_neg fun hc => absurd hc.1 (by omega)] at h
    cases h

end Copied

/-! ## One event -/

/-- A file of `n` bytes that is copied at the event at `p` leaves the length of the event as it
is. -/
def Spared (p n : ℕ) (e : InotifyEvent) : Prop :=
  e.mask &&& IN_MODIFY ≠ 0 →
    0 < n ∧ (n ≤ p + 12 ∨ n = p + 13 ∧ e.name.length % 256 = 0)

section Event

variable {p : ℕ} {e : InotifyEvent} {evs : List InotifyEvent} {file : List UInt8} {s : Mem × ℤ}
  (h : Stands s.1 p (e :: evs)) (hp : p + 16 ≤ BUF_LEN)

include h hp

theorem check_event_eq : check_event file p s =
    if e.mask &&& IN_MODIFY ≠ 0 then read_file file s.1 else some (s.1, s.2, []) := by
  rw [check_event, if_neg (Nat.not_lt.2 hp), h.mask]

theorem check_event_isSome (hs : Spared p file.length e) (hfile : file.length ≤ BUF_LEN) :
    ∃ r, check_event file p s = some r := by
  rw [check_event_eq h hp]
  split_ifs with hmask
  · obtain ⟨out, he⟩ := @read_file_eq s.1 file (hs hmask).1 hfile
    exact ⟨_, he⟩
  · exact ⟨_, rfl⟩

/-- Nothing from the length of the event on is changed. -/
theorem check_event_agrees (hlt : e.name.length < 2 ^ 32) (hs : Spared p file.length e)
    {r : Mem × ℤ × List Ev} (hr : check_event file p s = some r) :
    ∀ a, p + 12 ≤ a → r.1 a = s.1 a := by
  intro a ha
  rw [check_event_eq h hp] at hr
  split_ifs at hr with hmask
  · obtain ⟨h0, hn⟩ := hs hmask
    obtain ⟨-, -, hcopied⟩ := read_file_some hr
    rw [hcopied]
    rcases Nat.lt_or_ge a file.length with hin | hout
    · obtain ⟨hlen, hlow⟩ := hn.resolve_left (by omega)
      obtain rfl : a = p + 12 := by omega
      have hmod := event_len_mod s.1 p
      rw [h.len hlt, hlow] at hmod
      rw [copied_last hlen]
      exact (UInt8.toNat_inj.1 hmod.symm).symm
    · exact copied_of_le hout h0
  · obtain rfl := Option.some.inj hr
    rfl

end Event

/-! ## A whole batch -/

/-- At each `IN_MODIFY` event the file, of this length, leaves the length of the event as it is. -/
def Spares : List InotifyEvent → ℕ → (ℕ → ℕ) → Prop
  | [], _, _ => True
  | e :: evs, p, LenToRead =>
    Spared p (LenToRead 0) e ∧ Spares evs (p + e.bytes.length) fun k => LenToRead (k + 1)

/-- From `p` on the loop visits these events, each once and with the boundaries it was written
with. -/
def VisitsFrom (numRead : ℕ) (evs : List InotifyEvent) (file : ℕ → List UInt8) (p : ℕ)
    (s : Mem × ℤ) : Prop :=
  ∃ vs s', check_events numRead file p s = some (vs, s') ∧
    vs.map (fun v => (v.p, v.next)) = boundaries p evs

section Batches

variable {numRead p : ℕ} {e : InotifyEvent} {evs : List InotifyEvent} {file : ℕ → List UInt8}
  {s : Mem × ℤ}

theorem visitsFrom_nil : VisitsFrom numRead [] file numRead s := by
  refine ⟨[], s, ?_, rfl⟩
  rw [check_events, if_neg (Nat.lt_irrefl _)]

theorem visitsFrom_cons (hlt : p < numRead) : VisitsFrom numRead (e :: evs) file p s ↔
    ∃ r, check_event (file 0) p s = some r ∧ event_len r.1 p = e.name.length ∧
      VisitsFrom numRead evs (fun k => file (k + 1)) (p + e.bytes.length) (r.1, r.2.1) := by
  rw [VisitsFrom, check_events, if_pos hlt]
  constructor
  · rintro ⟨vs, s', he, hv⟩
    obtain ⟨r, hr, he⟩ := Option.bind_eq_some_iff.1 he
    obtain ⟨t, ht, he⟩ := Option.map_eq_some_iff.1 he
    obtain ⟨rfl, rfl⟩ := Prod.mk.inj he
    rw [List.map_cons, boundaries] at hv
    obtain ⟨hhead, htail⟩ := List.cons.inj hv
    have hnext : p + (16 + event_len r.1 p) = p + e.bytes.length := (Prod.mk.inj hhead).2
    rw [hnext] at ht
    rw [length_bytes] at hnext
    exact ⟨r, hr, by omega, t.1, t.2, ht, htail⟩
  · rintro ⟨r, hr, hlen, vs, s', ht, hv⟩
    rw [hr, Option.bind_some, hlen, ← length_bytes, ht, Option.map_some]
    exact ⟨_, _, rfl, by rw [List.map_cons, boundaries, hv]⟩

theorem visitsFrom_of_spares (hbuf : numRead ≤ BUF_LEN) :
    ∀ {evs : List InotifyEvent} {p : ℕ} {file : ℕ → List UInt8} {s : Mem × ℤ},
      Stands s.1 p evs → p + (encode evs).length = numRead → (∀ k, (file k).length ≤ BUF_LEN) →
        Spares evs p (fun k => (file k).length) → VisitsFrom numRead evs file p s
  | [], p, file, s, _, hn, _, _ => by
    obtain rfl : p = numRead := hn
    exact visitsFrom_nil
  | e :: evs, p, file, s, h, hn, hfile, hs => by
    have hlen := e.length_bytes
    rw [encode_cons, List.length_append] at hn
    obtain ⟨r, hr⟩ := check_event_isSome h (by omega) hs.1 (hfile 0)
    have hagree := check_event_agrees h (by omega) (by unfold BUF_LEN at hbuf; omega) hs.1 hr
    refine (visitsFrom_cons (by omega)).2 ⟨r, hr, ?_, ?_⟩
    · rw [← h.len (by unfold BUF_LEN at hbuf; omega)]
      exact get32_congr fun a h1 _ => hagree a h1
    · exact visitsFrom_of_spares hbuf (h.tail.congr fun a ha => hagree a (by omega)) (by omega)
        (fun k => hfile (k + 1)) hs.2

/-- A file with these first bytes, and with others at the later events. -/
def thenFiles (f : List UInt8) (file : ℕ → List UInt8) : ℕ → List UInt8
  | 0 => f
  | k + 1 => file k

/-- A byte that is copied into the length of an event can be another one. -/
theorem spared_of_len (h : Stands s.1 p (e :: evs)) (hp : p + 16 ≤ BUF_LEN) {n : ℕ}
    (hlen : ∀ f : List UInt8, f.length = n →
      ∃ r, check_event f p s = some r ∧ event_len r.1 p = e.name.length) : Spared p n e := by
  intro hmask
  have hcopied : ∀ f : List UInt8, f.length = n → 0 < n ∧
      e.name.length % 256 = (copied f s.1 (p + 12)).toNat := by
    intro f hf
    obtain ⟨r, hr, he⟩ := hlen f hf
    rw [check_event_eq h hp, if_pos hmask] at hr
    obtain ⟨h0, -, hr⟩ := read_file_some hr
    rw [← he, event_len_mod, hr]
    exact ⟨hf ▸ h0, rfl⟩
  obtain ⟨h0, hbyte⟩ := hcopied (List.replicate n (UInt8.ofNat (e.name.length + 1)))
    List.length_replicate
  refine ⟨h0, ?_⟩
  rcases Nat.lt_or_ge (p + 12) n with hlt | hge
  · rcases Nat.lt_or_eq_of_le (show p + 13 ≤ n from hlt) with hmore | rfl
    · rw [copied_of_lt (by rw [List.length_replicate]; omega), List.getElem_replicate,
        UInt8.toNat_ofNat'] at hbyte
      omega
    · rw [copied_last List.length_replicate] at hbyte
      exact .inr ⟨rfl, hbyte⟩
  · exact .inl hge

theorem spares_of_visitsFrom (hbuf : numRead ≤ BUF_LEN) :
    ∀ {evs : List InotifyEvent} {p : ℕ} {LenToRead : ℕ → ℕ} {s : Mem × ℤ},
      Stands s.1 p evs → p + (encode evs).length = numRead →
        (∀ file : ℕ → List UInt8, (∀ k, (file k).length = LenToRead k) →
          VisitsFrom numRead evs file p s) → Spares evs p LenToRead
  | [], _, _, _, _, _, _ => trivial
  | e :: evs, p, LenToRead, s, h, hn, hv => by
    have hlen := e.length_bytes
    rw [encode_cons, List.length_append] at hn
    have hstep := fun file hfile => (visitsFrom_cons (by omega)).1 (hv file hfile)
    have hfirst : ∀ {f : List UInt8} {file : ℕ → List UInt8}, f.length = LenToRead 0 →
        (∀ k, (file k).length = LenToRead (k + 1)) →
          ∀ k, (thenFiles f file k).length = LenToRead k := fun hf hfile k =>
      match k with
      | 0 => hf
      | k + 1 => hfile k
    have hzeros : ∀ k, (List.replicate (LenToRead k) (0 : UInt8)).length = LenToRead k :=
      fun k => List.length_replicate
    have hs : Spared p (LenToRead 0) e := spared_of_len h (by omega) fun f hf => by
      obtain ⟨r, hr, he, -⟩ := hstep _ (hfirst hf fun k => hzeros (k + 1))
      exact ⟨r, hr, he⟩
    refine ⟨hs, ?_⟩
    obtain ⟨r, hr, -, -⟩ := hstep _ hzeros
    have hagree := check_event_agrees h (by omega) (by unfold BUF_LEN at hbuf; omega)
      (by rw [hzeros]; exact hs) hr
    refine spares_of_visitsFrom (s := (r.1, r.2.1)) hbuf
      (h.tail.congr fun a ha => hagree a (by omega)) (by omega) fun file hfile => ?_
    obtain ⟨r', hr', -, hv'⟩ := hstep _ (hfirst (hzeros 0) hfile)
    obtain rfl := Option.some.inj (hr.symm.trans hr')
    exact hv'

end Batches

/-- The loop over a batch that was read to `ReadBuffer`. -/
def VisitsBatch (evs : List InotifyEvent) (file : ℕ → List UInt8) (s : Mem × ℤ) : Prop :=
  VisitsFrom (encode evs).length evs file 0 (setBytes s.1 0 (encode evs), s.2)

theorem stands_read (m : Mem) (evs : List InotifyEvent) :
    Stands (setBytes m 0 (encode evs)) 0 evs := slice_setBytes m 0 (encode evs)

theorem visitsBatch_of_spares {evs : List InotifyEvent} (hbuf : (encode evs).length ≤ BUF_LEN)
    {file : ℕ → List UInt8} (hfile : ∀ k, (file k).length < BUF_LEN) (s : Mem × ℤ)
    (hs : Spares evs 0 fun k => (file k).length) : VisitsBatch evs file s :=
  visitsFrom_of_spares hbuf (stands_read s.1 evs) (Nat.zero_add _)
    (fun k => Nat.le_of_lt (hfile k)) hs

/-- For files of these lengths the loop visits the events as they were written, whatever the bytes
of the files, exactly where no file reaches the length of its event. -/
theorem batch_visited_iff {evs : List InotifyEvent} (hbuf : (encode evs).length ≤ BUF_LEN)
    {LenToRead : ℕ → ℕ} (hfile : ∀ k, LenToRead k < BUF_LEN) (s : Mem × ℤ) :
    (∀ file : ℕ → List UInt8, (∀ k, (file k).length = LenToRead k) → VisitsBatch evs file s) ↔
      Spares evs 0 LenToRead := by
  constructor
  · exact spares_of_visitsFrom hbuf (stands_read s.1 evs) (Nat.zero_add _)
  · intro hs file hlen
    obtain rfl : LenToRead = fun k => (file k).length := funext fun k => (hlen k).symm
    exact visitsBatch_of_spares hbuf hfile s hs

/-- The events of a write to the watched file by a program that then closes it. -/
def written : List InotifyEvent :=
  [⟨1, IN_MODIFY, 0, [], by decide⟩, ⟨1, 8, 0, [], by decide⟩]

theorem written_visited : (encode written).length ≤ BUF_LEN ∧ 5 < BUF_LEN ∧
    ((∀ file : ℕ → List UInt8, (∀ k, (file k).length = 5) →
      VisitsBatch written file (fun _ => 0, 0)) ↔ Spares written 0 fun _ => 5) := by
  have hfile : 5 < BUF_LEN := by decide
  exact ⟨by decide, hfile, batch_visited_iff (by decide) (fun _ => hfile) _⟩

/-- With 14 letters in the file, the second event is not visited. -/
theorem letters_not_visited :
    ¬ VisitsBatch written (fun _ => List.replicate 14 97) (fun _ => 0, 0) := by
  intro h
  obtain ⟨r, hr, hlen, -⟩ := (visitsFrom_cons (by decide)).1 h
  have hmod := event_len_mod r.1 0
  rw [check_event_eq (stands_read _ written) (by decide), if_pos (by decide)] at hr
  rw [hlen, (read_file_some hr).2.2, copied_of_lt (by decide)] at hmod
  revert hmod
  decide

/-! ## Runs -/

/-- A batch whose files leave its events as they are, or a `read` that fails. -/
def Batch.Clear (b : Batch) : Prop :=
  ∀ events, b.events = some events → ∃ evs, events = encode evs ∧ events.length ≤ BUF_LEN ∧
    (∀ k, (b.file k).length < BUF_LEN) ∧ Spares evs 0 fun k => (b.file k).length

theorem read_events_isSome {b : Batch} (h : b.Clear) (s : Mem × ℤ) :
    ∃ r, read_events b s = some r := by
  unfold read_events
  rcases hb : b.events with _ | events
  · exact ⟨_, rfl⟩
  · obtain ⟨evs, rfl, hbuf, hfile, hs⟩ := h events hb
    obtain ⟨vs, s', he, -⟩ := visitsBatch_of_spares hbuf hfile s hs
    exact ⟨_, congrArg (Option.map _) he⟩

theorem read_batches_isSome : ∀ {batches : List Batch} {s : Mem × ℤ},
    (∀ b ∈ batches, b.Clear) → (read_batches batches s).isSome
  | [], _, _ => rfl
  | b :: batches, s, h => by
    obtain ⟨r, hr⟩ := read_events_isSome (h b List.mem_cons_self) s
    obtain ⟨out, hout⟩ := Option.isSome_iff_exists.1
      (@read_batches_isSome batches r.2 fun b hb => h b (List.mem_cons_of_mem _ hb))
    rw [read_batches, hr, Option.bind_some, hout]
    rfl

/-- No run over such batches leaves `ReadBuffer`. -/
theorem checkReadFile_isSome (c : Libc) {batches : List Batch} (h : ∀ b ∈ batches, b.Clear) :
    (CheckReadFile c batches).isSome := by
  rw [CheckReadFile, Option.isSome_map]
  exact read_batches_isSome h

end NetTool

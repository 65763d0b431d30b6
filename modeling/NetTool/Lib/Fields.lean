import Mathlib.Algebra.Ring.Nat
import Mathlib.Data.List.Basic

/-!
# Texts of separated fields

Loops over a text whose fields a separator joins: `skip` goes behind the `n`-th separator,
`toPair` stops at the first pair of adjacent separators and counts those it passes, and `pairs`
counts such pairs. On the fields joined by `List.intercalate`, `skip` finds the field of each
number (`field_intercalate`), and a pair is only where the fields end (`toPair_intercalate`).
-/

namespace Fields

variable {α : Type*} [DecidableEq α] (sep : α)

/-- The text behind the `n`-th separator, where there are as many. -/
def skip : ℕ → List α → Option (List α)
  | 0, s => some s
  | _ + 1, [] => none
  | n + 1, a :: s => skip (if a = sep then n else n + 1) s

/-- The field at the text's start. -/
def field (s : List α) : List α := s.takeWhile (· ≠ sep)

/-- The separators before the first pair of adjacent ones, and the text from this pair on. -/
def toPair : List α → ℕ × List α
  | a :: b :: s =>
    if a = sep ∧ b = sep then (0, a :: b :: s)
    else ((toPair (b :: s)).1 + if a = sep then 1 else 0, (toPair (b :: s)).2)
  | s => (0, s)

/-- How many separators stand right behind another. -/
def pairs : List α → ℕ
  | a :: b :: s => (if a = sep ∧ b = sep then 1 else 0) + pairs (b :: s)
  | _ => 0

variable {sep} {s tl f : List α} {fs : List (List α)}

/-- Fields that are not empty and have no separator in them. -/
def Plain (sep : α) (fs : List (List α)) : Prop := ∀ f ∈ fs, f ≠ [] ∧ sep ∉ f

omit [DecidableEq α] in
theorem Plain.tail (h : Plain sep (f :: fs)) : Plain sep fs :=
  fun g hg => h g (List.mem_cons_of_mem _ hg)

omit [DecidableEq α] in
theorem Plain.head (h : Plain sep (f :: fs)) : f ≠ [] ∧ sep ∉ f := h f List.mem_cons_self

theorem skip_field (n : ℕ) : ∀ {f : List α}, sep ∉ f →
    skip sep (n + 1) (f ++ s) = skip sep (n + 1) s
  | [], _ => rfl
  | a :: f, h => by
    rw [List.mem_cons, not_or] at h
    rw [List.cons_append, skip, if_neg (Ne.symm h.1), skip_field n h.2]

theorem skip_sep (n : ℕ) : skip sep (n + 1) (sep :: s) = skip sep n s := by
  rw [skip, if_pos rfl]

theorem field_append (h : sep ∉ f) (htl : ∀ a ∈ tl.head?, a = sep) : field sep (f ++ tl) = f := by
  have hall : ∀ a ∈ f, decide (a ≠ sep) = true := fun a ha => by
    rw [decide_eq_true_eq]
    exact fun he => h (he ▸ ha)
  unfold field
  rw [List.takeWhile_append_of_pos hall]
  rcases tl with _ | ⟨a, tl⟩
  · exact List.append_nil f
  · rw [htl a rfl, List.takeWhile_cons_of_neg (by simp), List.append_nil]

theorem field_append_sep (h : sep ∉ f) : field sep (f ++ ([sep] ++ s)) = f :=
  field_append h fun _ ha => (Option.some.inj ha).symm

/-- The field of each number, where the text ends with the fields or goes on with a separator. -/
theorem field_intercalate (htl : ∀ a ∈ tl.head?, a = sep) : ∀ {fs : List (List α)} {n : ℕ},
    Plain sep fs → (hn : n < fs.length) →
      (skip sep n ([sep].intercalate fs ++ tl)).map (field sep) = some fs[n]
  | [f], 0, h, _ => by
    rw [List.intercalate_singleton, skip, Option.map_some, field_append h.head.2 htl]
    rfl
  | f :: g :: fs, 0, h, _ => by
    rw [List.intercalate_cons_cons, List.append_assoc, List.append_assoc, skip, Option.map_some,
      field_append_sep h.head.2]
    rfl
  | f :: g :: fs, n + 1, h, hn => by
    have ih := field_intercalate htl h.tail (Nat.lt_of_succ_lt_succ hn)
    rw [List.intercalate_cons_cons, List.append_assoc, List.append_assoc, skip_field n h.head.2,
      List.singleton_append, skip_sep, ih]
    rfl

/-- The field of each number, behind what `skip` leaves. -/
theorem skip_intercalate (h : Plain sep fs) {n : ℕ} (hn : n < fs.length) :
    ∃ y, skip sep n ([sep].intercalate fs) = some y ∧ field sep y = fs[n] := by
  have hf := @field_intercalate α _ sep [] (by simp) fs n h hn
  rw [List.append_nil] at hf
  exact Option.map_eq_some_iff.1 hf

theorem pairs_field : ∀ {f : List α}, sep ∉ f → pairs sep (f ++ s) = pairs sep s
  | [], _ => rfl
  | a :: f, h => by
    rw [List.mem_cons, not_or] at h
    have ih := @pairs_field f h.2
    rw [List.cons_append]
    rcases hs : f ++ s with _ | ⟨b, t⟩
    · rw [hs] at ih
      rw [← ih]
      rfl
    · rw [hs] at ih
      rw [pairs, if_neg fun he => h.1 he.1.symm, Nat.zero_add, ih]

theorem pairs_intercalate : ∀ {fs : List (List α)}, Plain sep fs →
    pairs sep ([sep].intercalate fs) = 0
  | [], _ => rfl
  | [f], h => by
    have hf := pairs_field (s := []) h.head.2
    rw [List.append_nil] at hf
    rw [List.intercalate_singleton, hf]
    rfl
  | f :: g :: fs, h => by
    have ih := pairs_intercalate h.tail
    obtain ⟨a, g', rfl⟩ := List.exists_cons_of_ne_nil h.tail.head.1
    have ha : a ≠ sep := fun he => h.tail.head.2 (he ▸ List.mem_cons_self)
    rw [List.intercalate_cons_cons, List.append_assoc, pairs_field h.head.2]
    rw [List.intercalate_cons_cons_left] at ih ⊢
    rw [List.singleton_append, pairs, if_neg fun he => ha he.2, Nat.zero_add, ih]

theorem pairs_pos : ∀ l : List α, 0 < pairs sep (l ++ sep :: sep :: s)
  | [] => by
    rw [List.nil_append, pairs, if_pos ⟨rfl, rfl⟩]
    omega
  | a :: l => by
    have ih := @pairs_pos l
    rw [List.cons_append]
    rcases hs : l ++ sep :: sep :: s with _ | ⟨b, t⟩
    · simp at hs
    · rw [hs] at ih
      rw [pairs]
      omega

theorem toPair_field (hs : s ≠ []) : ∀ {f : List α}, sep ∉ f → toPair sep (f ++ s) = toPair sep s
  | [], _ => rfl
  | a :: f, h => by
    rw [List.mem_cons, not_or] at h
    have ih := toPair_field hs h.2
    rw [List.cons_append]
    rcases hfs : f ++ s with _ | ⟨b, t⟩
    · exact absurd (List.append_eq_nil_iff.1 hfs).2 hs
    · rw [hfs] at ih
      rw [toPair, if_neg fun he => h.1 he.1.symm, if_neg (Ne.symm h.1), ih, Nat.add_zero]

theorem toPair_intercalate : ∀ {fs : List (List α)}, Plain sep fs →
    toPair sep ([sep].intercalate fs ++ sep :: sep :: s) = (fs.length - 1, sep :: sep :: s)
  | [], _ => by
    rw [List.intercalate_nil, List.nil_append, toPair, if_pos ⟨rfl, rfl⟩]
    rfl
  | [f], h => by
    rw [List.intercalate_singleton, toPair_field (by simp) h.head.2, toPair, if_pos ⟨rfl, rfl⟩]
    rfl
  | f :: g :: fs, h => by
    have ih := @toPair_intercalate (g :: fs) h.tail
    obtain ⟨a, g', rfl⟩ := List.exists_cons_of_ne_nil h.tail.head.1
    have ha : a ≠ sep := fun he => h.tail.head.2 (he ▸ List.mem_cons_self)
    rw [List.intercalate_cons_cons, List.append_assoc, List.append_assoc,
      toPair_field (by simp) h.head.2]
    rw [List.intercalate_cons_cons_left] at ih ⊢
    rw [List.singleton_append, List.cons_append, toPair, if_neg fun he => ha he.2, if_pos rfl,
      ← List.cons_append, ih]
    rfl

theorem count_field (h : sep ∉ f) : (f ++ s).count sep = s.count sep := by
  rw [List.count_append, List.count_eq_zero.2 h, Nat.zero_add]

theorem count_intercalate : ∀ {fs : List (List α)}, Plain sep fs →
    ([sep].intercalate fs).count sep = fs.length - 1
  | [], _ => rfl
  | [f], h => by
    rw [List.intercalate_singleton]
    exact List.count_eq_zero.2 h.head.2
  | f :: g :: fs, h => by
    have ih := count_intercalate h.tail
    rw [List.intercalate_cons_cons, List.append_assoc, count_field h.head.2, List.singleton_append,
      List.count_cons_self, ih]
    rfl

omit [DecidableEq α] in
theorem forall_mem_intercalate {P : α → Prop} (hs : P sep) : ∀ {fs : List (List α)},
    (∀ f ∈ fs, ∀ a ∈ f, P a) → ∀ a ∈ [sep].intercalate fs, P a
  | [], _, _, ha => nomatch ha
  | [f], h, a, ha => h f List.mem_cons_self a (by rwa [List.intercalate_singleton] at ha)
  | f :: g :: fs, h, a, ha => by
    rw [List.intercalate_cons_cons, List.mem_append, List.mem_append, List.mem_singleton] at ha
    rcases ha with (ha | rfl) | ha
    · exact h f List.mem_cons_self a ha
    · exact hs
    · exact forall_mem_intercalate hs (fun f hf => h f (List.mem_cons_of_mem _ hf)) a ha

omit [DecidableEq α] in
theorem mem_intercalate {a : α} : ∀ {fs : List (List α)}, f ∈ fs → a ∈ f → a ∈ [sep].intercalate fs
  | [g], h, ha => by
    rw [List.intercalate_singleton]
    exact List.mem_singleton.1 h ▸ ha
  | g :: g' :: fs, h, ha => by
    rw [List.intercalate_cons_cons, List.mem_append]
    rcases List.mem_cons.1 h with rfl | h
    · exact .inl (List.mem_append_left _ ha)
    · exact .inr (mem_intercalate h ha)

omit [DecidableEq α] in
theorem intercalate_ne_nil (h : Plain sep fs) (hfs : fs ≠ []) : [sep].intercalate fs ≠ [] := by
  obtain ⟨f, fs, rfl⟩ := List.exists_cons_of_ne_nil hfs
  obtain ⟨a, f, rfl⟩ := List.exists_cons_of_ne_nil h.head.1
  rw [List.intercalate_cons_cons_left]
  exact List.cons_ne_nil _ _

omit [DecidableEq α] in
theorem getLast?_intercalate : ∀ {fs : List (List α)}, Plain sep fs →
    ([sep].intercalate fs).getLast? ≠ some sep
  | [], _ => nofun
  | [f], h => by
    rw [List.intercalate_singleton]
    exact fun hl => h.head.2 (List.mem_of_getLast? hl)
  | f :: g :: fs, h => by
    have hne := intercalate_ne_nil h.tail (List.cons_ne_nil g fs)
    rw [List.intercalate_cons_cons, List.getLast?_append_of_ne_nil _ hne]
    exact getLast?_intercalate h.tail

omit [DecidableEq α] in
/-- A text with a pair of separators does not end in a single one. -/
theorem last_pair {ls rs : List (List α)} (hr : Plain sep rs) {t : List α}
    (ht : t = [sep].intercalate ls ++ sep :: sep :: [sep].intercalate rs) :
    ¬ (t[t.length - 1]? = some sep ∧ t[t.length - 2]? ≠ some sep) := by
  rintro ⟨h1, h2⟩
  rw [← List.getLast?_eq_getElem?] at h1
  rcases eq_or_ne rs [] with rfl | hrs
  · rw [List.intercalate_nil] at ht
    rw [ht, List.length_append, List.length_cons, List.length_singleton, Nat.add_sub_cancel,
      List.getElem?_append_right (Nat.le_refl _), Nat.sub_self] at h2
    exact h2 rfl
  · have hne := intercalate_ne_nil hr hrs
    rw [ht, List.append_cons, List.append_cons, List.getLast?_append_of_ne_nil _ hne] at h1
    exact getLast?_intercalate hr h1

/-- `skip` needs as many separators as it counts. -/
theorem skip_isSome : ∀ {n : ℕ} {s : List α}, (skip sep n s).isSome ↔ n ≤ s.count sep
  | 0, s => by simp [skip]
  | n + 1, [] => by simp [skip]
  | n + 1, a :: s => by
    rw [skip, skip_isSome, List.count_cons]
    simp only [beq_iff_eq]
    split_ifs <;> omega

/-- Behind the last field there is none. -/
theorem skip_intercalate_none (h : Plain sep fs) (hfs : fs ≠ []) {n : ℕ} (hn : fs.length ≤ n) :
    skip sep n ([sep].intercalate fs) = none := by
  have hpos := List.length_pos_of_ne_nil hfs
  rw [← Option.not_isSome_iff_eq_none, skip_isSome, count_intercalate h]
  omega

end Fields

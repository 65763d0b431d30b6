import Mathlib.Data.List.Forall2

/-!
# Loops over a cursor

`for (t = start; ok t; t = next t) body` with a body that may leave the loop. `forLoop` runs it
for as many rounds as it has fuel and keeps the state it reached, also when the fuel runs out.
Where the cursors a loop visits are known to be a list, the loop is a pass over that list
(`foldBrk`), and what happens past an early exit does not matter. A variable set at each index
where a test holds is the last of them (`LastSet.rounds`).
-/

namespace Loop

/-- How a loop was left: by its fuel running out, by its test, or by its body. -/
inductive Exit (ρ : Type*)
  | running
  | done
  | brk (r : ρ)
  deriving DecidableEq

/-- The exit of a pass over a list. -/
def Exit.ofBrk {ρ : Type*} : Option ρ → Exit ρ
  | none => .done
  | some r => .brk r

variable {τ υ σ ρ : Type*}

def forLoop (ok : τ → Bool) (next : τ → τ) (body : τ → σ → σ × Option ρ) :
    ℕ → τ → σ → σ × Exit ρ
  | 0, _, s => (s, .running)
  | fuel + 1, t, s =>
    if ok t then
      match body t s with
      | (s, some r) => (s, .brk r)
      | (s, none) => forLoop ok next body fuel (next t) s
    else (s, .done)

/-- A pass over a list that may be left early. -/
def foldBrk (body : τ → σ → σ × Option ρ) : List τ → σ → σ × Option ρ
  | [], s => (s, none)
  | t :: ts, s =>
    match body t s with
    | (s, some r) => (s, some r)
    | (s, none) => foldBrk body ts s

variable {ok : τ → Bool} {next : τ → τ} {body : τ → σ → σ × Option ρ}

/-- A pass that only notes what it meets. -/
theorem foldBrk_collect : ∀ (ts acc : List τ),
    foldBrk (fun t l => (l ++ [t], (none : Option ρ))) ts acc = (acc ++ ts, none)
  | [], acc => by rw [foldBrk, List.append_nil]
  | t :: ts, acc => by
    rw [foldBrk]
    exact (foldBrk_collect ts (acc ++ [t])).trans (by rw [List.append_assoc]; rfl)

/-- A loop that its body never leaves is a fold over what it meets. -/
theorem forLoop_foldl {α : Type*} (key : τ → α) (f : σ → α → σ) (s₀ : σ) :
    ∀ (fuel : ℕ) (t : τ) (acc : List α),
      (forLoop ok next (fun t s => (f s (key t), (none : Option ρ))) fuel t (acc.foldl f s₀)).1 =
        (forLoop ok next (fun t l => (l ++ [key t], (none : Option ρ))) fuel t acc).1.foldl f s₀
  | 0, _, _ => rfl
  | fuel + 1, t, acc => by
    rw [forLoop, forLoop]
    split_ifs with h
    · have ih := forLoop_foldl key f s₀ fuel (next t) (acc ++ [key t])
      rw [List.foldl_append] at ih
      exact ih
    · rfl

/-- A variable assigned where a test holds keeps what was assigned last. -/
theorem foldl_last {α β : Type*} (P : α → Bool) (v : α → β) : ∀ (as : List α) (x : β),
    as.foldl (fun x a => if P a then v a else x) x = ((as.filter P).getLast?.map v).getD x
  | [], _ => rfl
  | a :: as, x => by
    rw [List.foldl_cons, foldl_last P v as, List.filter_cons]
    split_ifs
    · rw [List.getLast?_cons]
      rcases (as.filter P).getLast? with _ | b <;> rfl
    · rfl

/-- The number, counted from 1, of the last index below `k` at which `bit` is set, or 0. -/
structure LastSet (bit : ℕ → Bool) (k n : ℕ) : Prop where
  le : n ≤ k
  set : 0 < n → bit (n - 1) = true
  last : ∀ i, n ≤ i → i < k → bit i = false

namespace LastSet

variable {bit : ℕ → Bool} {k n : ℕ}

theorem zero : LastSet bit 0 0 := ⟨Nat.le_refl 0, fun h => absurd h (Nat.lt_irrefl 0), by omega⟩

theorem unique {n' : ℕ} (h : LastSet bit k n) (h' : LastSet bit k n') : n = n' := by
  rcases Nat.lt_trichotomy n n' with hlt | he | hlt
  · have hset := h'.set (by omega)
    rw [h.last (n' - 1) (by omega) (by have := h'.le; omega)] at hset
    cases hset
  · exact he
  · have hset := h.set (by omega)
    rw [h'.last (n - 1) (by omega) (by have := h.le; omega)] at hset
    cases hset

theorem step (h : LastSet bit k n) : LastSet bit (k + 1) (if bit k then k + 1 else n) := by
  split_ifs with hb
  · exact ⟨Nat.le_refl _, fun _ => hb, by omega⟩
  · refine ⟨Nat.le_succ_of_le h.le, h.set, fun i h1 h2 => ?_⟩
    rcases Nat.lt_succ_iff_lt_or_eq.1 h2 with hlt | rfl
    · exact h.last i h1 hlt
    · exact Bool.eq_false_iff.2 hb

/-- A loop over the next `j` indices keeps it. -/
theorem rounds (h : LastSet bit k n) {f : ℕ → ℕ → ℕ} : ∀ {j : ℕ},
    (∀ i < j, ∀ n, f n i = if bit (k + i) then k + i + 1 else n) →
      LastSet bit (k + j) ((List.range j).foldl f n)
  | 0, _ => h
  | j + 1, hf => by
    have ih := rounds h fun i hi => hf i (Nat.lt_succ_of_lt hi)
    rw [List.range_succ, List.foldl_append, List.foldl_cons, List.foldl_nil,
      hf j (Nat.lt_succ_self j)]
    exact ih.step

/-- Bits that are set up to a point and not behind it. -/
theorem of_mask {p : ℕ} (hp : p ≤ k) (hb : ∀ i < k, (bit i = true ↔ i < p)) : LastSet bit k p := by
  refine ⟨hp, fun h => (hb _ (by omega)).2 (by omega), fun i h1 h2 => ?_⟩
  rw [Bool.eq_false_iff, Ne, hb i h2]
  omega

end LastSet

/-- Two passes whose rounds keep their states related and leave alike do so as a whole. -/
theorem foldBrk_sim {σ' : Type*} {R : τ → υ → Prop} {S : σ → σ' → Prop}
    {body' : υ → σ' → σ' × Option ρ}
    (hb : ∀ t u s s', R t u → S s s' →
      S (body t s).1 (body' u s').1 ∧ (body t s).2 = (body' u s').2)
    {ts : List τ} {us : List υ} (h : List.Forall₂ R ts us) : ∀ {s : σ} {s' : σ'}, S s s' →
      S (foldBrk body ts s).1 (foldBrk body' us s').1 ∧
        (foldBrk body ts s).2 = (foldBrk body' us s').2 := by
  induction h with
  | nil => exact fun hs => ⟨hs, rfl⟩
  | @cons t u ts us htu _ ih =>
    intro s s' hs
    obtain ⟨h1, h2⟩ := hb t u s s' htu hs
    rw [foldBrk, foldBrk]
    rcases hbt : body t s with ⟨s1, e⟩
    rcases hbu : body' u s' with ⟨s1', e'⟩
    rw [hbt, hbu] at h1 h2
    obtain rfl : e = e' := h2
    rcases e with _ | r
    · exact ih h1
    · exact ⟨h1, rfl⟩

theorem foldBrk_isSome_of_mem {t : τ} (hb : ∀ s, (body t s).2.isSome) :
    ∀ {ts : List τ} {s : σ}, t ∈ ts → (foldBrk body ts s).2.isSome
  | u :: ts, s, ht => by
    have hs := hb s
    rw [foldBrk]
    rcases hu : body u s with ⟨s', _ | r⟩
    · rcases List.mem_cons.1 ht with rfl | ht
      · rw [hu] at hs
        cases hs
      · exact foldBrk_isSome_of_mem hb ht
    · rfl

theorem exists_of_mem_forall₂ {R : τ → υ → Prop} {ts : List τ} {us : List υ} {t : τ}
    (h : List.Forall₂ R ts us) (ht : t ∈ ts) : ∃ u ∈ us, R t u := by
  induction h with
  | nil => cases ht
  | cons htu _ ih =>
    rcases List.mem_cons.1 ht with rfl | ht
    · exact ⟨_, List.mem_cons_self, htu⟩
    · obtain ⟨u, hu, h⟩ := ih ht
      exact ⟨u, List.mem_cons_of_mem _ hu, h⟩

/-- A search meets the counterparts of what a search in the related list meets. -/
theorem find?_forall₂ {γ : Type*} {R : τ → υ → Prop} {p : τ → Bool} {q : υ → Bool} {f : τ → γ}
    {g : υ → γ} {ts : List τ} {us : List υ} (h : List.Forall₂ R ts us)
    (hpq : ∀ t, ∀ u ∈ us, R t u → p t = q u)
    (hfg : ∀ t, ∀ u ∈ us, R t u → q u = true → f t = g u) :
    (ts.find? p).map f = (us.find? q).map g := by
  induction h with
  | nil => rfl
  | @cons t u ts us htu _ ih =>
    have hp := hpq t u List.mem_cons_self htu
    rw [List.find?_cons, List.find?_cons, hp]
    rcases hq : q u
    · exact ih (fun t u hu => hpq t u (List.mem_cons_of_mem _ hu))
        fun t u hu => hfg t u (List.mem_cons_of_mem _ hu)
    · simp only [Option.map_some, hfg t u List.mem_cons_self htu hq]

/-- The first element with a weaker property is the first with a stronger one where it has it. -/
theorem find?_of_weaker {p q : τ → Bool} (hpq : ∀ t, p t = true → q t = true) {ts : List τ} {t : τ}
    (hq : ts.find? q = some t) (hp : p t = true) : ts.find? p = some t := by
  obtain ⟨-, as, bs, hts, has⟩ := List.find?_eq_some_iff_append.1 hq
  refine List.find?_eq_some_iff_append.2 ⟨hp, as, bs, hts, fun u hu => ?_⟩
  have hn := has u hu
  rcases hpu : p u
  · rfl
  · rw [hpq u hpu] at hn
    exact hn

theorem map_succ_inj {i j : Option ℕ} : i.map (· + 1) = j.map (· + 1) ↔ i = j :=
  (Option.map_injective fun _ _ => Nat.add_right_cancel).eq_iff

/-- The first element with a stronger property stands where the first with a weaker one does
exactly where that one has it. -/
theorem findIdx?_eq_iff {p q : τ → Bool} (hpq : ∀ t, p t = true → q t = true) : ∀ {ts : List τ},
    ts.findIdx? p = ts.findIdx? q ↔ ∀ t, ts.find? q = some t → p t = true
  | [] => by simp
  | t :: ts => by
    have ih := @findIdx?_eq_iff p q hpq ts
    rw [List.findIdx?_cons, List.findIdx?_cons, List.find?_cons]
    rcases hq : q t
    · have hp : p t = false := by
        rw [← Bool.not_eq_true]
        exact fun hp => absurd (hpq t hp) (by rw [hq]; exact Bool.false_ne_true)
      rw [hp, if_neg Bool.false_ne_true, if_neg Bool.false_ne_true, map_succ_inj, ih]
    · rcases hp : p t <;> simp [hp]

theorem any_forall₂ {R : τ → υ → Prop} {p : τ → Bool} {q : υ → Bool} {ts : List τ} {us : List υ}
    (h : List.Forall₂ R ts us) (hpq : ∀ t u, R t u → p t = q u) : ts.any p = us.any q := by
  induction h with
  | nil => rfl
  | @cons t u ts us htu _ ih => rw [List.any_cons, List.any_cons, hpq t u htu, ih]

/-- Two passes that write equally much for related elements write the same exactly when they do so
for each. -/
theorem flatMap_eq_iff {γ : Type*} {R : τ → υ → Prop} {Q : τ → Prop} {f : τ → List γ}
    {g : υ → List γ} {ts : List τ} {us : List υ} (h : List.Forall₂ R ts us)
    (hlen : ∀ t, ∀ u ∈ us, R t u → (f t).length = (g u).length)
    (heq : ∀ t, ∀ u ∈ us, R t u → (f t = g u ↔ Q t)) :
    ts.flatMap f = us.flatMap g ↔ ∀ t ∈ ts, Q t := by
  induction h with
  | nil => simp
  | @cons t u ts us htu _ ih =>
    have hl := hlen t u List.mem_cons_self htu
    have hq := heq t u List.mem_cons_self htu
    rw [List.flatMap_cons, List.flatMap_cons, List.forall_mem_cons, ← hq,
      ← ih (fun t u hu => hlen t u (List.mem_cons_of_mem _ hu))
        fun t u hu => heq t u (List.mem_cons_of_mem _ hu)]
    exact ⟨fun h => List.append_inj h hl, fun h => by rw [h.1, h.2]⟩

/-- A pass fails where one of its rounds does. -/
theorem foldlM_eq_none {f : σ → τ → Option σ} {t : τ} (hf : ∀ s, f s t = none) :
    ∀ {ts : List τ} {s : σ}, t ∈ ts → ts.foldlM f s = none
  | u :: ts, s, ht => by
    rw [List.foldlM_cons]
    rcases List.mem_cons.1 ht with rfl | ht
    · rw [hf s]
      rfl
    · rcases f s u with _ | s'
      · rfl
      · exact foldlM_eq_none hf ht

/-- What is seen of a state follows the parts of what each step is given, over a run as well. -/
theorem foldlM_refines {υ ω : Type*} {f : σ → τ → Option σ} {see : σ → υ} {g : υ → ω → υ}
    {parts : τ → List ω} : ∀ {ts : List τ} {s : σ},
      (∀ s, ∀ t ∈ ts, ∃ s', f s t = some s' ∧ see s' = (parts t).foldl g (see s)) →
      ∃ s', ts.foldlM f s = some s' ∧ see s' = (ts.flatMap parts).foldl g (see s)
  | [], s, _ => ⟨s, rfl, rfl⟩
  | t :: ts, s, h => by
    obtain ⟨s1, h1, hs1⟩ := h s t List.mem_cons_self
    obtain ⟨s2, h2, hs2⟩ := @foldlM_refines _ _ _ _ _ _ ts s1 fun s u hu =>
      h s u (List.mem_cons_of_mem _ hu)
    refine ⟨s2, ?_, ?_⟩
    · rw [List.foldlM_cons, h1]
      exact h2
    · rw [hs2, hs1, List.flatMap_cons, List.foldl_append]

/-- What every round keeps, the pass keeps. -/
theorem foldBrk_invariant {I : σ → Prop} : ∀ {ts : List τ} {s : σ},
    (∀ t ∈ ts, ∀ s, I s → I (body t s).1) → I s → I (foldBrk body ts s).1
  | [], _, _, hs => hs
  | t :: ts, s, hb, hs => by
    have h1 := hb t List.mem_cons_self s hs
    rw [foldBrk]
    rcases hbt : body t s with ⟨s', _ | r⟩
    · rw [hbt] at h1
      exact foldBrk_invariant (fun u hu => hb u (List.mem_cons_of_mem _ hu)) h1
    · rwa [hbt] at h1

/-- What every round keeps, the loop keeps, however far it runs. -/
theorem forLoop_invariant {I : τ → σ → Prop}
    (hb : ∀ t s, ok t = true → I t s → I t (body t s).1)
    (hn : ∀ t s, ok t = true → I t s → I (next t) s) {J : σ → Prop} (hJ : ∀ t s, I t s → J s) :
    ∀ (fuel : ℕ) (t : τ) (s : σ), I t s → J (forLoop ok next body fuel t s).1
  | 0, t, s, h => hJ t s h
  | fuel + 1, t, s, h => by
    rw [forLoop]
    split_ifs with hok
    · have h1 := hb t s hok h
      rcases hbt : body t s with ⟨s1, _ | r⟩
      · rw [hbt] at h1
        exact forLoop_invariant hb hn hJ fuel _ _ (hn t s1 hok h1)
      · rw [hbt] at h1
        exact hJ t s1 h1
    · exact hJ t s h

/-- A loop whose rounds take a measure down ends before its fuel does, by its test or as a round
leaves it. -/
theorem forLoop_ends {I : τ → Prop} {μ : τ → ℕ} {P : ρ → Prop}
    (hn : ∀ t s, I t → ok t = true → (body t s).2 = none → I (next t) ∧ μ (next t) < μ t)
    (hr : ∀ t s r, I t → ok t = true → (body t s).2 = some r → P r) :
    ∀ {fuel : ℕ} {t : τ} {s : σ}, I t → μ t < fuel →
      (forLoop ok next body fuel t s).2 = .done ∨
        ∃ r, (forLoop ok next body fuel t s).2 = .brk r ∧ P r
  | fuel + 1, t, s, ht, hf => by
    rw [forLoop]
    split_ifs with hok
    · rcases hb : body t s with ⟨s1, _ | r⟩
      · obtain ⟨hi, hlt⟩ := hn t s ht hok (by rw [hb])
        exact forLoop_ends hn hr hi (by omega)
      · exact .inr ⟨r, rfl, hr t s r ht hok (by rw [hb])⟩
    · exact .inl rfl

end Loop

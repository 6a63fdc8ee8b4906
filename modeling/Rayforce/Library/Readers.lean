import Rayforce.Library.Words

/-! Readers that take a value off the front of a byte list. -/

namespace Rayforce.Library.Readers

open Library.Words List

variable {p rest : Bytes} {n : ℕ} {c : Prop}

abbrev Reader (ε α : Type) := StateT Bytes (Except ε) α

variable {ε α β : Type} {x : Reader ε α} {f : α → Reader ε β} {bs cs : Bytes} {a : α} {b : β}

def take (e : ε) (n : ℕ) : Reader ε Bytes := fun p => if n ≤ p.length then .ok (p.take n, p.drop n) else .error e

def fail (e : ε) : Reader ε α := fun _ => .error e

def many (r : Reader ε α) : ℕ → Reader ε (List α)
  | 0 => pure []
  | n + 1 => do
    let a ← r
    let as ← many r n
    pure (a :: as)

def piece (e : ε) (size : ℕ) (f : (bs : Bytes) → bs.length = size → α) : Reader ε α := fun p =>
  if h : size ≤ p.length then .ok
    (f (p.take size) (by rw [List.length_take, min_eq_left h]), p.drop size) else .error e

def pieces (size : ℕ) (f : (bs : Bytes) → bs.length = size → α) :
    (n : ℕ) → (bs : Bytes) → bs.length = n * size → List α
  | 0, _, _ => []
  | n + 1, bs, h =>
    f (bs.take size) (by rw [List.length_take, h, Nat.succ_mul]; omega) ::
      pieces size f n (bs.drop size) (by rw [List.length_drop, h, Nat.succ_mul]; omega)

def Reads (r : Reader ε α) (bs : Bytes) (a : α) : Prop := ∀ rest, r (bs ++ rest) = .ok (a, rest)

def Yields (r : Reader ε α) (bs : Bytes) (P : α → Prop) : Prop :=
  ∀ rest a rest', r (bs ++ rest) = .ok (a, rest') → P a

def Gives (r : Reader ε α) (P : α → Bytes → Prop) : Prop :=
  ∀ p a rest, r p = .ok (a, rest) → ∃ bs, p = bs ++ rest ∧ P a bs

def Local (r : Reader ε α) : Prop := ∀ p a rest q, r p = .ok (a, rest) → r (p ++ q) = .ok (a, rest ++ q)

lemma bind_ok (p : Bytes) : (x >>= f) p = (x p).bind fun q => f q.1 q.2 := rfl

lemma bind_eq_ok : (x >>= f) p = .ok (b, rest) ↔ ∃ a q, x p = .ok (a, q) ∧ f a q = .ok (b, rest) := by
  rw [bind_ok]
  cases hx : x p with
  | error e => simp [Except.bind]
  | ok q => exact ⟨fun h => ⟨q.1, q.2, rfl, h⟩, fun ⟨_, _, h, h'⟩ => by cases h; exact h'⟩

section

variable {size : ℕ} {f : (bs : Bytes) → bs.length = size → α}

lemma pieces_congr {bs cs : Bytes} (h : bs = cs) (hb : bs.length = n * size) :
    pieces size f n bs hb = pieces size f n cs (h ▸ hb) := by
  subst h
  rfl

lemma many_piece (e : ε) (n : ℕ) (p : Bytes) : many (piece e size f) n p =
    if h : n * size ≤ p.length then .ok
    (pieces size f n (p.take (n * size)) (by rw [List.length_take, min_eq_left h]), p.drop (n * size))
    else .error e := by
  induction n generalizing p with
  | zero =>
    have h : 0 * size ≤ p.length := by omega
    have hdrop : p.drop (0 * size) = p := by rw [Nat.zero_mul, drop_zero]
    rw [dif_pos h, hdrop]
    rfl
  | succ n ih =>
    rw [many, bind_ok, piece]
    by_cases hone : size ≤ p.length
    · rw [dif_pos hone]
      change ((many (piece e size f) n >>= fun as => Pure.pure (f (p.take size) _ :: as)) (p.drop size)) = _
      rw [bind_ok, ih]
      by_cases hall : (n + 1) * size ≤ p.length
      · have hrest : n * size ≤ (p.drop size).length := by
          rw [length_drop]
          rw [Nat.succ_mul] at hall
          omega
        have hhead : (p.take ((n + 1) * size)).take size = p.take size := by
          rw [take_take, Nat.succ_mul, min_eq_left (by omega)]
        have htail : (p.take ((n + 1) * size)).drop size = (p.drop size).take (n * size) := by
          rw [drop_take, Nat.succ_mul, Nat.add_sub_cancel]
        have hpast : (p.drop size).drop (n * size) = p.drop ((n + 1) * size) := by
          rw [drop_drop, Nat.succ_mul, Nat.add_comm]
        rw [dif_pos hrest, dif_pos hall, hpast]
        simp only [pieces, hhead, pieces_congr htail]
        rfl
      · have hrest : ¬ n * size ≤ (p.drop size).length := by
          rw [length_drop]
          rw [Nat.succ_mul] at hall
          omega
        rw [dif_neg hrest, dif_neg hall]
        rfl
    · have hall : ¬ (n + 1) * size ≤ p.length := by
        rw [Nat.succ_mul]
        omega
      rw [dif_neg hone, dif_neg hall]
      rfl

end

lemma Reads.pure : Reads (pure a : Reader ε α) [] a := fun _ => rfl

lemma Reads.bind (hx : Reads x bs a) (hf : Reads (f a) cs b) : Reads (x >>= f) (bs ++ cs) b := by
  intro rest
  rw [bind_ok, append_assoc, hx]
  exact hf rest

lemma Reads.bind_pure {g : α → β} (hx : Reads x bs a) : Reads (x >>= fun a => Pure.pure (g a)) bs (g a) := by
  intro rest
  rw [bind_ok, hx]
  rfl

lemma reads_take (e : ε) (h : bs.length = n) : Reads (take e n) bs bs := by
  subst h
  intro rest
  rw [take, if_pos (by simp)]
  simp

lemma take_length {e : ε} (h : take e n p = .ok (bs, rest)) : bs.length = n := by
  rw [take] at h
  split_ifs at h with hn
  cases h
  rw [length_take, min_eq_left hn]

lemma reads_many {r : Reader ε α} {l : List β} (enc : β → Bytes) (dec : β → α)
    (h : ∀ x ∈ l, Reads r (enc x) (dec x)) :
    Reads (many r l.length) (l.flatMap enc) (l.map dec) := by
  induction l with
  | nil => exact Reads.pure
  | cons x l ih =>
    have htail := ih fun y hy => h y (mem_cons_of_mem _ hy)
    exact (h x mem_cons_self).bind htail.bind_pure

section

variable {P : α → Prop} {Q : β → Prop}

lemma Yields.mono {P' : α → Prop} (h : Yields x bs P) (hp : ∀ a, P a → P' a) : Yields x bs P' :=
  fun rest a rest' heq => hp a (h rest a rest' heq)

lemma Reads.bind_yields (hx : Reads x bs a) (hf : Yields (f a) cs Q) : Yields (x >>= f) (bs ++ cs) Q := by
  intro rest b rest' heq
  rw [bind_ok, append_assoc, hx] at heq
  exact hf rest b rest' heq

lemma Yields.bind (hx : Yields x bs P) (hf : ∀ a, P a → ∀ q b rest, f a q = .ok (b, rest) → Q b) :
    Yields (x >>= f) (bs ++ cs) Q := by
  intro rest b rest' heq
  rw [append_assoc] at heq
  obtain ⟨a, q, ha, hb⟩ := bind_eq_ok.mp heq
  exact hf a (hx _ a q ha) q b rest' hb

lemma many_length {r : Reader ε α} {as : List α} (h : many r n p = .ok (as, rest)) : as.length = n := by
  induction n generalizing p as rest with
  | zero =>
    cases h
    rfl
  | succ n ih =>
    obtain ⟨a, q, -, htail⟩ := bind_eq_ok.mp h
    obtain ⟨as', q', has', hpure⟩ := bind_eq_ok.mp htail
    cases hpure
    rw [length_cons, ih has']

lemma yields_many {r : Reader ε α} {pre post : List β} {x : β} (enc : β → Bytes) (dec : β → α)
    (hpre : ∀ y ∈ pre, Reads r (enc y) (dec y)) (hx : Yields r (enc x) P) :
    Yields (many r (pre ++ x :: post).length) ((pre ++ x :: post).flatMap enc) fun as =>
      ∃ a, as[pre.length]? = some a ∧ P a := by
  induction pre with
  | nil =>
    refine hx.bind fun a ha q b rest hb => ?_
    obtain ⟨as, q', -, hpure⟩ := bind_eq_ok.mp hb
    cases hpure
    exact ⟨a, rfl, ha⟩
  | cons y pre ih =>
    have htail := ih fun z hz => hpre z (mem_cons_of_mem _ hz)
    refine (hpre y mem_cons_self).bind_yields fun rest as rest' heq => ?_
    obtain ⟨as', q', has', hpure⟩ := bind_eq_ok.mp heq
    cases hpure
    exact htail rest as' _ has'

end

section

variable {P P' : α → Bytes → Prop} {Q : β → Bytes → Prop}

lemma Gives.mono (h : Gives x P) (hp : ∀ a bs, P a bs → P' a bs) : Gives x P' := by
  intro p a rest hx
  obtain ⟨bs, hbs, ha⟩ := h p a rest hx
  exact ⟨bs, hbs, hp a bs ha⟩

lemma Gives.pure (h : P a []) : Gives (pure a : Reader ε α) P := by
  intro p b rest hx
  cases hx
  exact ⟨[], rfl, h⟩

lemma Gives.fail (e : ε) : Gives (fail e : Reader ε α) P := by
  intro p b rest hx
  cases hx

lemma Gives.bind (hx : Gives x P) (hf : ∀ a bs, P a bs → Gives (f a) fun b cs => Q b (bs ++ cs)) :
    Gives (x >>= f) Q := by
  intro p b rest h
  obtain ⟨a, q, ha, hb⟩ := bind_eq_ok.mp h
  obtain ⟨bs, rfl, hP⟩ := hx p a q ha
  obtain ⟨cs, rfl, hQ⟩ := hf a bs hP q b rest hb
  exact ⟨bs ++ cs, (append_assoc bs cs rest).symm, hQ⟩

lemma Gives.ite [Decidable c] {y : Reader ε α} (hx : c → Gives x P) (hy : ¬ c → Gives y P) :
    Gives (if c then x else y) P := by
  split_ifs with hc
  · exact hx hc
  · exact hy hc

lemma gives_take (e : ε) (n : ℕ) : Gives (take e n) fun cs bs => cs = bs ∧ bs.length = n := by
  intro p cs rest h
  have hlen := take_length h
  rw [take] at h
  split_ifs at h with hn
  cases h
  exact ⟨p.take n, (take_append_drop n p).symm, rfl, hlen⟩

lemma gives_piece (e : ε) {size : ℕ} {f : (bs : Bytes) → bs.length = size → α} : Gives (piece e size f) fun a bs =>
    ∃ h, a = f bs h := by
  intro p a rest h
  rw [piece] at h
  split_ifs at h with hn
  cases h
  exact ⟨p.take size, (take_append_drop size p).symm, _, rfl⟩

lemma gives_many {r : Reader ε α} (h : Gives r P) (n : ℕ) : Gives (many r n) fun as bs =>
    ∃ parts : List (α × Bytes), (∀ q ∈ parts, P q.1 q.2) ∧ parts.length = n ∧ as = parts.map Prod.fst ∧
      bs = parts.flatMap Prod.snd := by
  induction n with
  | zero => exact Gives.pure ⟨[], by simp, rfl, rfl, rfl⟩
  | succ n ih =>
    refine h.bind fun a bs ha => ih.bind fun as cs has => Gives.pure ?_
    obtain ⟨parts, hparts, hlen, rfl, rfl⟩ := has
    refine ⟨(a, bs) :: parts, forall_mem_cons.mpr ⟨ha, hparts⟩, by rw [length_cons, hlen], rfl, ?_⟩
    rw [append_nil, flatMap_cons]

lemma gives_many_enc {r : Reader ε α} {enc : α → Bytes} (h : Gives r fun a bs => bs = enc a) (n : ℕ) :
    Gives (many r n) fun as bs => as.length = n ∧ bs = as.flatMap enc := by
  refine (gives_many h n).mono fun as bs hall => ?_
  obtain ⟨parts, hparts, hlen, rfl, rfl⟩ := hall
  refine ⟨by rw [length_map, hlen], ?_⟩
  rw [flatMap_map]
  exact flatMap_congr hparts

end

lemma Local.pure : Local (pure a : Reader ε α) := by
  intro p b rest q h
  cases h
  rfl

lemma Local.fail (e : ε) : Local (fail e : Reader ε α) := by
  intro p b rest q h
  cases h

lemma Local.take (e : ε) (n : ℕ) : Local (take e n) := by
  intro p b rest q h
  rw [Readers.take] at h ⊢
  split_ifs at h with hn
  cases h
  rw [if_pos (by rw [length_append]; omega), take_append_of_le_length hn, drop_append_of_le_length hn]

lemma Local.bind (hx : Local x) (hf : ∀ a, Local (f a)) : Local (x >>= f) := by
  intro p b rest q h
  obtain ⟨a, p', ha, hb⟩ := bind_eq_ok.mp h
  exact bind_eq_ok.mpr ⟨a, p' ++ q, hx p a p' q ha, hf a p' b rest q hb⟩

lemma Local.ite [Decidable c] {y : Reader ε α} (hx : Local x) (hy : Local y) : Local (if c then x else y) := by
  split_ifs
  · exact hx
  · exact hy

lemma Local.many {r : Reader ε α} (h : Local r) (n : ℕ) : Local (many r n) := by
  induction n with
  | zero => exact Local.pure
  | succ n ih => exact h.bind fun a => ih.bind fun as => Local.pure

end Rayforce.Library.Readers

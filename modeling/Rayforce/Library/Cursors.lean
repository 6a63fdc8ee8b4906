import Rayforce.Library.Readers

/-! Readers with a pointer and a count of the bytes behind it. -/

namespace Rayforce.Library.Cursors

open Library.Words Library.Readers

structure Cursor where
  pos : ℕ
  left : ℕ

abbrev Scan (ε : Type) := ReaderT Bytes (StateT Cursor (ExceptT ε Option))

section

variable {ε α : Type}

def stop (e : ε) : Scan ε α := fun _ _ => some (.error e)

def fault : Scan ε α := fun _ _ => none

def left : Scan ε ℕ := fun _ c => some (.ok (c.left, c))

def demand (e : ε) (n : ℕ) : Scan ε Unit := fun _ c => if c.left < n then some (.error e) else some (.ok ((), c))

def peek (n : ℕ) : Scan ε {bs : Bytes // bs.length = n} := fun m c =>
  if h : c.pos + n ≤ m.length then some
    (.ok (⟨(m.drop c.pos).take n, by rw [List.length_take, List.length_drop]; omega⟩, c)) else none

def advance (n : ℕ) : Scan ε Unit := fun _ c => some (.ok ((), ⟨c.pos + n, c.left - n⟩))

def fetch (e : ε) (n : ℕ) : Scan ε Bytes := do
  demand e n
  let bs ← peek n
  advance n
  pure bs.val

def fetchAll (e : ε) (size : ℕ) (f : (bs : Bytes) → bs.length = size → α) (n : ℕ) : Scan ε (List α) := do
  demand e (n * size)
  let bs ← peek (n * size)
  advance (n * size)
  pure (pieces size f n bs.val bs.property)

def times (x : Scan ε α) : ℕ → Scan ε (List α)
  | 0 => pure []
  | n + 1 => do
    let a ← x
    let as ← times x n
    pure (a :: as)

end

section

variable {ε α β : Type} {m : Bytes} {c : Cursor} {k n : ℕ} {e : ε} {x : Scan ε α} {r : Reader ε α}
    {f : α → Scan ε β} {g : α → Reader ε β}

def Scan.on (x : Scan ε α) (m : Bytes) (c : Cursor) : Option (Except ε (α × Cursor)) := x m c

inductive Tracks (m : Bytes) (n : ℕ) : Option (Except ε (α × Cursor)) → Except ε (α × Bytes) → Prop
  | error (e : ε) : Tracks m n (some (.error e)) (.error e)
  | ok (a : α) (c : Cursor) (inside : c.pos + c.left = m.length) (less : c.left ≤ n) :
    Tracks m n (some (.ok (a, c))) (.ok (a, m.drop c.pos))

def Follows (k : ℕ) (x : Scan ε α) (r : Reader ε α) : Prop :=
  ∀ (m : Bytes) (c : Cursor), c.pos + c.left = m.length → c.left < k →
    Tracks m c.left (x.on m c) (r (m.drop c.pos))

lemma Tracks.mono {n' : ℕ} {y : Option (Except ε (α × Cursor))} {z : Except ε (α × Bytes)} (h : Tracks m n y z)
    (hn : n ≤ n') :
    Tracks m n' y z := by
  cases h with
  | error e => exact .error e
  | ok a c inside less => exact .ok a c inside (less.trans hn)

lemma on_bind (m : Bytes) (c : Cursor) : (x >>= f).on m c = (x.on m c).bind fun
    | .error e => some (.error e)
    | .ok q => (f q.1).on m q.2 := by
  change Option.bind (x.on m c) _ = _
  cases x.on m c with
  | none => rfl
  | some y => cases y <;> rfl

lemma Follows.pure (a : α) : Follows (ε := ε) k (pure a) (pure a) := fun _ c hc _ => .ok a c hc le_rfl

lemma Follows.stop (e : ε) : Follows (α := α) k (stop e) (fail e) := fun _ _ _ _ => .error e

lemma Follows.ite {p : Prop} [Decidable p] {y : Scan ε α} {s : Reader ε α} (hx : Follows k x r)
    (hy : Follows k y s) :
    Follows k (if p then x else y) (if p then r else s) := by
  split_ifs
  · exact hx
  · exact hy

lemma Follows.bind (hx : Follows k x r) (hf : ∀ a, Follows k (f a) (g a)) : Follows k (x >>= f) (r >>= g) := by
  intro m c hc hlt
  have h := hx m c hc hlt
  rw [Readers.bind_ok, on_bind]
  generalize x.on m c = y at h
  generalize r (m.drop c.pos) = z at h
  cases h with
  | error e => exact .error e
  | ok a c' hc' hless => exact (hf a m c' hc' (by omega)).mono hless

lemma Follows.times (hx : Follows k x r) (n : ℕ) : Follows k (times x n) (many r n) := by
  induction n with
  | zero => exact Follows.pure []
  | succ n ih => exact hx.bind fun a => ih.bind fun as => Follows.pure (a :: as)

lemma on_demand_peek (hc : c.pos + c.left = m.length) {f : {bs : Bytes // bs.length = n} → β} :
    (do demand e n; let bs ← peek n; advance n; Pure.pure (f bs) : Scan ε β).on m c =
      if h : n ≤ c.left then some (.ok
        (f ⟨(m.drop c.pos).take n, by rw [List.length_take, List.length_drop]; omega⟩, ⟨c.pos + n, c.left - n⟩))
      else some (.error e) := by
  rw [on_bind]
  by_cases h : n ≤ c.left
  · have hdemand : (demand e n : Scan ε Unit).on m c = some (.ok ((), c)) := if_neg (by omega)
    have hpeek : (peek n : Scan ε _).on m c =
        some (.ok (⟨(m.drop c.pos).take n, by rw [List.length_take, List.length_drop]; omega⟩, c)) :=
      dif_pos (by omega)
    rw [hdemand, dif_pos h]
    change ((peek n >>= fun bs => advance n >>= fun _ => Pure.pure (f bs) : Scan ε β).on m c) = _
    rw [on_bind, hpeek]
    rfl
  · have hdemand : (demand e n : Scan ε Unit).on m c = some (.error e) := if_pos (by omega)
    rw [hdemand, dif_neg h]
    rfl

lemma on_fetch (hc : c.pos + c.left = m.length) : (fetch e n).on m c =
    if n ≤ c.left then some (.ok ((m.drop c.pos).take n, ⟨c.pos + n, c.left - n⟩)) else some (.error e) := by
  rw [fetch, on_demand_peek hc]
  split_ifs <;> rfl

lemma follows_fetch (e : ε) (n : ℕ) : Follows k (fetch e n) (take e n) := by
  intro m c hc _
  rw [on_fetch hc, take, List.length_drop]
  by_cases h : n ≤ c.left
  · rw [if_pos h, if_pos (by omega), List.drop_drop]
    exact .ok _ ⟨c.pos + n, c.left - n⟩ (by dsimp only; omega) (by dsimp only; omega)
  · rw [if_neg h, if_neg (by omega)]
    exact .error e

lemma Follows.fetch_bind {f : Bytes → Scan ε β} {g : Bytes → Reader ε β} (hn : 0 < n)
    (hf : ∀ bs, Follows k (f bs) (g bs)) :
    Follows (k + 1) (fetch e n >>= f) (take e n >>= g) := by
  intro m c hc hlt
  rw [Readers.bind_ok, on_bind, on_fetch hc, take, List.length_drop]
  by_cases h : n ≤ c.left
  · rw [if_pos h, if_pos (by omega), List.drop_drop]
    exact (hf _ m ⟨c.pos + n, c.left - n⟩ (by dsimp only; omega) (by dsimp only; omega)).mono
      (by dsimp only; omega)
  · rw [if_neg h, if_neg (by omega)]
    exact .error e

lemma follows_fetchAll (e : ε) {size : ℕ} {f : (bs : Bytes) → bs.length = size → α} (n : ℕ) :
    Follows k (fetchAll e size f n) (many (piece e size f) n) := by
  intro m c hc _
  rw [many_piece, fetchAll, on_demand_peek hc, List.drop_drop]
  by_cases h : n * size ≤ c.left
  · rw [dif_pos h, dif_pos (by rw [List.length_drop]; omega)]
    exact .ok _ ⟨c.pos + n * size, c.left - n * size⟩ (by dsimp only; omega) (by dsimp only; omega)
  · rw [dif_neg h, dif_neg (by rw [List.length_drop]; omega)]
    exact .error e

lemma Follows.run (h : Follows k x r) {off : ℕ} (hoff : off ≤ m.length) (hk : m.length - off < k) :
    (x.on m ⟨off, m.length - off⟩).map (Except.map Prod.fst) = some ((r (m.drop off)).map Prod.fst) := by
  have htracks := h m ⟨off, m.length - off⟩ (by dsimp only; omega) hk
  generalize x.on m ⟨off, m.length - off⟩ = y at htracks
  dsimp only at htracks
  generalize r (m.drop off) = z at htracks
  cases htracks <;> rfl

end

end Rayforce.Library.Cursors

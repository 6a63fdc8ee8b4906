import Rayforce.Symbol.Steps

namespace Rayforce.Symbol

open Library.Words Library.Probing List Option Function

variable {l : LazyMap} {s : Bytes} {β : Type}

/-- `unread` while the string is only in the mapped file. -/
structure Row where
  name : Bytes
  scanned : Bool
  unread : Bool
deriving DecidableEq

def readRecords : ℕ → Bytes → Option (List Bytes × Bytes)
  | 0, rest => some ([], rest)
  | n + 1, rest =>
    if rest.length < 4 then none
    else if (rest.drop 4).length < leNat (rest.take 4) then none
    else (readRecords n ((rest.drop 4).drop (leNat (rest.take 4)))).map fun r =>
      ((rest.drop 4).take (leNat (rest.take 4)) :: r.1, r.2)

def names (rows : List Row) : List Bytes := rows.map Row.name

def known (rows : List Row) : List Bytes := names (rows.filter fun r => !r.unread)

def hidden (rows : List Row) : List Bytes := names (rows.filter fun r => r.unread)

def Row.str (r : Row) : Option Bytes := if r.unread then none else some r.name

structure Stands (T : SymTable) (rows : List Row) : Prop where
  indexed : Indexed T
  views : T.slots.map (fun s => (s.str, s.scanned)) = rows.map fun r => (r.str, r.scanned)
  unread : ∀ i r, rows[i]? = some r → r.unread → ∃ l, T.lazy = some l ∧ l.nextId ≤ i ∧ i < l.count
  mapped : ∀ l, T.lazy = some l → l.nextId ≤ l.count ∧ l.count ≤ rows.length ∧
    ∃ tail, readRecords (l.count - l.nextId) l.rest = some (names ((rows.take l.count).drop l.nextId), tail)

variable {T T' : SymTable} {rows : List Row}

section

variable (h : Stands T rows)
include h

lemma Stands.length : rows.length = T.count := by
  have := congrArg List.length h.views
  simpa [SymTable.count] using this.symm

lemma Stands.view (i : ℕ) : (T.slots[i]?).map (fun s => (s.str, s.scanned)) = (rows[i]?).map fun r =>
    (r.str, r.scanned) := by
  simpa using congrArg (·[i]?) h.views

lemma Stands.strAt (i : ℕ) : T.strAt i = (rows[i]?).bind Row.str := by
  have := h.view i
  cases hs : T.slots[i]? <;> cases hr : rows[i]? <;> simp_all [SymTable.strAt]

lemma Stands.isScanned {i : ℕ} {r : Row} (hr : rows[i]? = some r) : T.isScanned i = r.scanned := by
  have := h.view i
  cases hs : T.slots[i]? <;> simp_all [SymTable.isScanned]

lemma Stands.strAt_eq_some {i : ℕ} : T.strAt i = some s ↔ ∃ r, rows[i]? = some r ∧ r.unread = false ∧
    r.name = s := by
  rw [h.strAt, bind_eq_some_iff]
  constructor
  · rintro ⟨r, hr, hs⟩
    cases hu : r.unread <;> simp_all [Row.str]
  · rintro ⟨r, hr, hu, rfl⟩
    exact ⟨r, hr, by simp [Row.str, hu]⟩

lemma Stands.held : held T = known rows := by
  have hl : ∀ l : List Slot, l.filterMap Slot.str =
      (l.map fun s => (s.str, s.scanned)).filterMap Prod.fst := by
    intro l
    rw [filterMap_map]
    rfl
  rw [Symbol.held, hl, h.views, filterMap_map, known, names]
  have : ∀ l : List Row, l.filterMap (Prod.fst ∘ fun r => (r.str, r.scanned)) =
      (l.filter fun r => !r.unread).map Row.name := by
    intro l
    induction l with
    | nil => rfl
    | cons r l ih =>
      cases hu : r.unread <;> simp_all [Row.str]
  exact this rows

end

lemma mem_known : s ∈ known rows ↔ ∃ (i : ℕ) (r : Row), rows[i]? = some r ∧ r.unread = false ∧ r.name = s := by
  simp only [known, names, List.mem_map, mem_filter, Bool.not_eq_eq_eq_not, Bool.not_true]
  constructor
  · rintro ⟨r, ⟨hm, hu⟩, rfl⟩
    obtain ⟨i, hi⟩ := mem_iff_getElem?.mp hm
    exact ⟨i, r, hi, hu, rfl⟩
  · rintro ⟨i, r, hi, hu, rfl⟩
    exact ⟨r, ⟨mem_of_getElem? hi, hu⟩, rfl⟩

lemma mem_names_iff : s ∈ names rows ↔ s ∈ known rows ∨ s ∈ hidden rows := by
  simp only [names, known, hidden, List.mem_map, mem_filter]
  constructor
  · rintro ⟨r, hm, rfl⟩
    cases hu : r.unread
    · exact .inl ⟨r, ⟨hm, by simp [hu]⟩, rfl⟩
    · exact .inr ⟨r, ⟨hm, hu⟩, rfl⟩
  · rintro (⟨r, ⟨hm, -⟩, rfl⟩ | ⟨r, ⟨hm, -⟩, rfl⟩) <;> exact ⟨r, hm, rfl⟩

lemma Stands.append (h : Stands T rows) (hi : Indexed T') (hl : T'.lazy = T.lazy)
    {tail : List Slot} {more : List Row} (hs : T'.slots = T.slots ++ tail)
    (hv : tail.map (fun s => (s.str, s.scanned)) = more.map fun r => (r.str, r.scanned))
    (hread : ∀ r ∈ more, r.unread = false) : Stands T' (rows ++ more) where
  indexed := hi
  views := by rw [hs, map_append, map_append, h.views, hv]
  unread i r hr hu := by
    rw [hl]
    rcases lt_or_ge i rows.length with hlt | hge
    · rw [getElem?_append_left hlt] at hr
      exact h.unread i r hr hu
    · rw [getElem?_append_right hge] at hr
      have := hread r (mem_of_getElem? hr)
      simp [hu] at this
  mapped l hl' := by
    rw [hl] at hl'
    obtain ⟨hle, hlen, tail, hrec⟩ := h.mapped l hl'
    refine ⟨hle, by simp; omega, tail, ?_⟩
    rwa [take_append_of_le_length hlen]

def plainRow (g : Bytes) : Row := ⟨g, true, false⟩

lemma Stands.plain (h : Stands T rows) (hi : Indexed T') (hl : T'.lazy = T.lazy) {gs : List Bytes}
    (hs : T'.slots = T.slots ++ gs.map plainSlot) : Stands T' (rows ++ gs.map plainRow) :=
  h.append hi hl hs (by simp [plainSlot, plainRow, Row.str]) (by simp [plainRow])

@[simp] lemma names_plain (gs : List Bytes) : names (gs.map plainRow) = gs := by
  simp [names, plainRow, comp_def]

lemma names_append (a b : List Row) : names (a ++ b) = names a ++ names b := by simp [names]

lemma known_append (a b : List Row) : known (a ++ b) = known a ++ known b := by simp [known, names]

lemma hidden_append (a b : List Row) : hidden (a ++ b) = hidden a ++ hidden b := by simp [hidden, names]

@[simp] lemma known_plain (gs : List Bytes) : known (gs.map plainRow) = gs := by
  simp [known, names, plainRow, List.filter_map, comp_def]

@[simp] lemma hidden_plain (gs : List Bytes) : hidden (gs.map plainRow) = [] := by
  simp [hidden, names, plainRow, List.filter_map, comp_def]

def settle (i : ℕ) (rows : List Row) : List Row := rows.modify i fun r => { r with scanned := true }

lemma settle_map (f : Row → β) (hf : ∀ r, f { r with scanned := true } = f r) (i : ℕ)
    (rows : List Row) : (settle i rows).map f = rows.map f := by
  apply ext_getElem?
  intro j
  simp only [settle, getElem?_map]
  by_cases hij : i = j
  · subst hij
    cases h : rows[i]? <;> simp [h, hf]
  · simp [hij]

lemma settle_filter (p : Row → Bool) (hp : ∀ r, p { r with scanned := true } = p r) (i : ℕ)
    (rows : List Row) : names ((settle i rows).filter p) = names (rows.filter p) := by
  induction rows generalizing i with
  | nil => cases i <;> rfl
  | cons r rows ih =>
    cases i with
    | zero => cases hr : p r <;> simp [settle, names, hp, hr]
    | succ i =>
      have := ih i
      simp only [settle, modify_succ_cons] at this ⊢
      cases hr : p r <;> simp_all [names]

@[simp] lemma names_settle (i : ℕ) (rows : List Row) : names (settle i rows) = names rows :=
  settle_map Row.name (fun _ => rfl) i rows

@[simp] lemma known_settle (i : ℕ) (rows : List Row) : known (settle i rows) = known rows :=
  settle_filter (fun r => !r.unread) (fun _ => rfl) i rows

@[simp] lemma hidden_settle (i : ℕ) (rows : List Row) : hidden (settle i rows) = hidden rows :=
  settle_filter (fun r => r.unread) (fun _ => rfl) i rows

lemma getElem?_settle (i j : ℕ) (rows : List Row) :
    (settle i rows)[j]? = (rows[j]?).map fun r => if i = j then { r with scanned := true } else r := by
  simp only [settle, getElem?_modify]
  cases rows[j]? <;> rfl

lemma Stands.settle (h : Stands T rows) (i : ℕ) {f : Slot → Slot} (hf : ∀ s, (f s).str = s.str)
    (hsc : ∀ s, (f s).scanned = true) : Stands (T.update i f) (settle i rows) where
  indexed := h.indexed.update i f hf
  views := by
    apply ext_getElem?
    intro j
    have := h.view j
    simp only [SymTable.update, getElem?_map, getElem?_modify, getElem?_settle]
    cases hs : T.slots[j]? <;> cases hr : rows[j]? <;> simp_all
    by_cases hij : i = j <;> simp [hij, hf, hsc, this, Row.str]
  unread j r hr hu := by
    rw [getElem?_settle] at hr
    obtain ⟨r', hr', rfl⟩ := map_eq_some_iff.mp hr
    refine h.unread j r' hr' ?_
    by_cases hij : i = j <;> simpa [hij] using hu
  mapped l hl := by
    obtain ⟨hle, hlen, tail, hrec⟩ := h.mapped l hl
    refine ⟨hle, by simpa [Symbol.settle] using hlen, tail, ?_⟩
    have : names (((Symbol.settle i rows).take l.count).drop l.nextId) =
        names ((rows.take l.count).drop l.nextId) := by
      simp only [names, map_drop, map_take]
      rw [settle_map Row.name fun _ => rfl]
    rw [this, hrec]

def readUpTo (k : ℕ) (rows : List Row) : List Row :=
  rows.mapIdx fun i r => if i < k then { r with unread := false } else r

lemma getElem?_readUpTo (k i : ℕ) (rows : List Row) :
    (readUpTo k rows)[i]? = (rows[i]?).map fun r => if i < k then { r with unread := false } else r := by
  simp [readUpTo]

lemma readUpTo_map (f : Row → β) (hf : ∀ r, f { r with unread := false } = f r) (k : ℕ)
    (rows : List Row) : (readUpTo k rows).map f = rows.map f := by
  apply ext_getElem?
  intro i
  rw [getElem?_map, getElem?_readUpTo, getElem?_map]
  cases h : rows[i]? with
  | none => rfl
  | some r => by_cases hik : i < k <;> simp [hik, hf]

@[simp] lemma names_readUpTo (k : ℕ) (rows : List Row) : names (readUpTo k rows) = names rows :=
  readUpTo_map Row.name (fun _ => rfl) k rows

@[simp] lemma length_readUpTo (k : ℕ) (rows : List Row) : (readUpTo k rows).length = rows.length := by
  simp [readUpTo]

lemma readUpTo_readUpTo (j k : ℕ) (hjk : j ≤ k) (rows : List Row) :
    readUpTo k (readUpTo j rows) = readUpTo k rows := by
  apply ext_getElem?
  intro i
  rw [getElem?_readUpTo, getElem?_readUpTo, getElem?_readUpTo]
  cases rows[i]? with
  | none => rfl
  | some r =>
    simp only [map_some]
    by_cases hik : i < k
    · by_cases hij : i < j <;> simp [hik, hij]
    · have : ¬ i < j := by omega
      simp [hik, this]

lemma Stands.unread_between (h : Stands T rows) (hl : T.lazy = some l) {i : ℕ} {r : Row} (hr : rows[i]? = some r)
    (hu : r.unread = true) : l.nextId ≤ i ∧ i < l.count := by
  obtain ⟨l', hl', hi⟩ := h.unread i r hr hu
  rwa [some.inj (hl.symm.trans hl')]

lemma Stands.readUpTo_self (h : Stands T rows) (hl : T.lazy = some l) : readUpTo l.nextId rows = rows := by
  apply ext_getElem?
  intro i
  rw [getElem?_readUpTo]
  cases hr : rows[i]? with
  | none => rfl
  | some r =>
    have hplace := h.unread_between hl hr
    simp only [map_some, some.injEq]
    split_ifs with hi
    · cases hu : r.unread with
      | false => cases r; simp_all
      | true => exact absurd (hplace hu).1 (not_le.mpr hi)
    · rfl

lemma materializeNext_spec (h : Stands T rows) (hl : T.lazy = some l) (hlt : l.nextId < l.count) :
    ∃ T' rest, materializeNext T = some (true, T') ∧ Stands T' (readUpTo (l.nextId + 1) rows) ∧
      T'.lazy = some ⟨l.count, l.nextId + 1, rest⟩ := by
  obtain ⟨-, hlen, tail, hrec⟩ := h.mapped l hl
  have hn : l.nextId < rows.length := by omega
  obtain ⟨row, hrow⟩ : ∃ row, rows[l.nextId]? = some row := ⟨_, getElem?_eq_getElem hn⟩
  have hcons : (rows.take l.count).drop l.nextId = row :: (rows.take l.count).drop (l.nextId + 1) := by
    have hn' : l.nextId < (rows.take l.count).length := by simp; omega
    have hget : (rows.take l.count)[l.nextId] = row := by
      rw [getElem_take]
      simpa [getElem?_eq_getElem hn] using hrow
    rw [drop_eq_getElem_cons hn', hget]
  rw [show l.count - l.nextId = (l.count - (l.nextId + 1)) + 1 by omega, hcons] at hrec
  simp only [readRecords, names, map_cons] at hrec
  split_ifs at hrec with h4 hs
  obtain ⟨r, hr, hreq⟩ := map_eq_some_iff.mp hrec
  simp only [Prod.mk.injEq, cons.injEq] at hreq
  obtain ⟨⟨hname, hrest⟩, htail⟩ := hreq
  -- the state after the record, whichever branch stored the string
  have hstands : ∀ T' : SymTable, Indexed T' → T'.slots.map (fun s => (s.str, s.scanned)) =
        (readUpTo (l.nextId + 1) rows).map (fun r => (r.str, r.scanned)) →
      T'.lazy = some ⟨l.count, l.nextId + 1, (l.rest.drop 4).drop (leNat (l.rest.take 4))⟩ →
      Stands T' (readUpTo (l.nextId + 1) rows) := by
    intro T' hi hv hl'
    refine ⟨hi, hv, ?_, ?_⟩
    · intro i r' hr' hu
      rw [getElem?_readUpTo] at hr'
      obtain ⟨r0, hr0, rfl⟩ := map_eq_some_iff.mp hr'
      by_cases hi' : i < l.nextId + 1
      · simp [hi'] at hu
      · rw [if_neg hi'] at hu
        obtain ⟨l', hl2, -, hb⟩ := h.unread i r0 hr0 hu
        obtain rfl : l = l' := some.inj (hl.symm.trans hl2)
        exact ⟨_, hl', by simp only; omega, hb⟩
    · intro l' hl2
      obtain rfl := some.inj (hl'.symm.trans hl2)
      refine ⟨by simp only; omega, by simpa using hlen, tail, ?_⟩
      have hnm : names (((readUpTo (l.nextId + 1) rows).take l.count).drop (l.nextId + 1)) =
          ((rows.take l.count).drop (l.nextId + 1)).map Row.name := by
        simp only [names, map_drop, map_take]
        rw [readUpTo_map Row.name fun _ => rfl]
      simp only [hnm]
      rw [hr, ← hrest, ← htail]
  have hview := h.view
  cases hu : row.unread with
  | false =>
    have hstr : T.strAt l.nextId = some row.name := h.strAt_eq_some.mpr ⟨row, hrow, hu, rfl⟩
    refine ⟨{ T with lazy := some ⟨l.count, l.nextId + 1, (l.rest.drop 4).drop (leNat (l.rest.take 4))⟩ },
      _, ?_, hstands _ (h.indexed.congr rfl rfl le_rfl) ?_ rfl, rfl⟩
    · simp only [materializeNext, hl, h4, if_false, hs, hstr]
      rw [if_pos hname.symm]
    · rw [h.views]
      apply ext_getElem?
      intro i
      rw [getElem?_map, getElem?_map, getElem?_readUpTo]
      cases hri : rows[i]? with
      | none => rfl
      | some r' =>
        simp only [map_some]
        by_cases hi : i < l.nextId
        · have := h.readUpTo_self hl
          have := congrArg (·[i]?) this
          simp only [getElem?_readUpTo, hri, map_some, if_pos hi] at this
          simp [show i < l.nextId + 1 by omega, some.inj this]
        · by_cases hi' : i = l.nextId
          · subst hi'
            obtain rfl : row = r' := some.inj (hrow.symm.trans hri)
            simp [Row.str, hu]
          · simp [show ¬ i < l.nextId + 1 by omega]
  | true =>
    have hstr : T.strAt l.nextId = none := by rw [h.strAt, hrow]; simp [Row.str, hu]
    have hlt' : l.nextId < T.count := h.length ▸ hn
    obtain ⟨b, hb⟩ := isSome_iff_exists.mp
      (place_isSome (symHash row.name) (⟨symHash row.name, l.nextId⟩ : Entry) h.indexed.notFull)
    have hins : htInsert T.buckets (symHash row.name) l.nextId = some b := hb
    refine ⟨{ T.update l.nextId (fun s => { s with str := some row.name }) with
        buckets := b, lazy := some ⟨l.count, l.nextId + 1, (l.rest.drop 4).drop (leNat (l.rest.take 4))⟩ },
      _, ?_, hstands _ (h.indexed.fill hlt' hstr hb) ?_ rfl, rfl⟩
    · simp only [materializeNext, hl, h4, if_false, hs, hstr, hname, hins]
      rfl
    · apply ext_getElem?
      intro i
      have hvi := hview i
      simp only [SymTable.update, getElem?_map, getElem?_modify, getElem?_readUpTo]
      by_cases hi : l.nextId = i
      · subst hi
        rw [hrow] at hvi ⊢
        cases hsl : T.slots[l.nextId]? with
        | none => simp [hsl] at hvi
        | some slot =>
          simp only [hsl, map_some, some.injEq, Prod.mk.injEq] at hvi
          simp [Row.str, hvi.2]
      · have hsame : (rows[i]?).map (fun r => if i < l.nextId + 1 then { r with unread := false } else r) =
            rows[i]? := by
          have := congrArg (·[i]?) (h.readUpTo_self hl)
          simp only [getElem?_readUpTo] at this
          by_cases hlt2 : i < l.nextId
          · simpa [hlt2, show i < l.nextId + 1 by omega] using this
          · simp [show ¬ i < l.nextId + 1 by omega]
        rw [hsame]
        simpa [hi] using hvi

lemma materializeLoop_spec (n : ℕ) (h : Stands T rows) (hl : T.lazy = some l) (hle : l.nextId + n ≤ l.count) :
    ∃ T' rest, materializeLoop n T = some (true, T') ∧ Stands T' (readUpTo (l.nextId + n) rows) ∧
      T'.lazy = some ⟨l.count, l.nextId + n, rest⟩ := by
  induction n generalizing T rows l with
  | zero => exact ⟨T, l.rest, rfl, by simpa [h.readUpTo_self hl] using h, hl⟩
  | succ n ih =>
    obtain ⟨T1, rest1, hm, hs1, hl1⟩ := materializeNext_spec h hl (by omega)
    obtain ⟨T', rest, hm', hs', hl'⟩ := ih hs1 hl1 (show l.nextId + 1 + n ≤ l.count by omega)
    refine ⟨T', rest, by simp [materializeLoop, hm, hm'], ?_, ?_⟩
    · rw [readUpTo_readUpTo _ _ (show l.nextId + 1 ≤ l.nextId + 1 + n by omega)] at hs'
      rwa [show l.nextId + (n + 1) = l.nextId + 1 + n by omega]
    · rw [hl', show l.nextId + (n + 1) = l.nextId + 1 + n by omega]

lemma symLazyMaterializeTo_spec (h : Stands T rows) (hl : T.lazy = some l) {k : ℕ} (hk : k < l.count) :
    ∃ T', symLazyMaterializeTo T k = some (true, T') ∧ Stands T' (readUpTo (k + 1) rows) := by
  obtain ⟨-, hlen, -⟩ := h.mapped l hl
  by_cases hlt : k < l.nextId
  · have hread : readUpTo (k + 1) rows = rows := by
      rw [← h.readUpTo_self hl]
      apply ext_getElem?
      intro i
      rw [getElem?_readUpTo, getElem?_readUpTo]
      cases rows[i]? with
      | none => rfl
      | some r => by_cases hi : i < k + 1 <;> simp [hi, show i < k + 1 → i < l.nextId by omega]
    refine ⟨T, ?_, hread.symm ▸ h⟩
    obtain ⟨row, hrow⟩ : ∃ row, rows[k]? = some row :=
      ⟨_, getElem?_eq_getElem (show k < rows.length by omega)⟩
    have hu : row.unread = false := by
      cases hu : row.unread with
      | false => rfl
      | true =>
        obtain ⟨l', hl', hle, -⟩ := h.unread k row hrow hu
        obtain rfl : l = l' := some.inj (hl.symm.trans hl')
        omega
    have := h.strAt_eq_some.mpr ⟨row, hrow, hu, rfl⟩
    simp [symLazyMaterializeTo, hl, hlt, show ¬ l.count ≤ k by omega, this]
  · obtain ⟨T', rest, hm, hs, -⟩ := materializeLoop_spec (k + 1 - l.nextId) h hl (by omega)
    rw [show l.nextId + (k + 1 - l.nextId) = k + 1 by omega] at hs
    exact ⟨T', by simp [symLazyMaterializeTo, hl, hlt, show ¬ l.count ≤ k by omega, hm], hs⟩

def readAll (rows : List Row) : List Row := rows.map fun r => { r with unread := false }

@[simp] lemma names_readAll (rows : List Row) : names (readAll rows) = names rows := by
  simp [names, readAll, comp_def]

@[simp] lemma known_readAll (rows : List Row) : known (readAll rows) = names rows := by
  simp [known, names, readAll, List.filter_map, comp_def]

@[simp] lemma hidden_readAll (rows : List Row) : hidden (readAll rows) = [] := by
  simp [hidden, names, readAll, List.filter_map, comp_def]

lemma Stands.readUpTo_count (h : Stands T rows) (hl : T.lazy = some l) : readUpTo l.count rows = readAll rows := by
  apply ext_getElem?
  intro i
  rw [getElem?_readUpTo, readAll, getElem?_map]
  cases hr : rows[i]? with
  | none => rfl
  | some r =>
    have hplace := h.unread_between hl hr
    simp only [map_some, some.injEq]
    split_ifs with hi
    · rfl
    · cases hu : r.unread with
      | false => cases r; simp_all
      | true => exact absurd (hplace hu).2 hi

lemma pending_iff : T.pending ↔ ∃ l, T.lazy = some l ∧ l.nextId < l.count := by
  cases h : T.lazy <;> simp [SymTable.pending, h]

lemma materializeAll_spec (h : Stands T rows) (hp : T.pending) :
    ∃ T', materializeAll T = some (true, T') ∧ Stands T' (readAll rows) := by
  obtain ⟨l, hl, hlt⟩ := pending_iff.mp hp
  obtain ⟨T', hm, hs⟩ := symLazyMaterializeTo_spec h hl (show l.count - 1 < l.count by omega)
  rw [show l.count - 1 + 1 = l.count by omega, h.readUpTo_count hl] at hs
  exact ⟨T', by simpa [materializeAll, hl] using hm, hs⟩

lemma Stands.hidden_eq_nil (h : Stands T rows) (hp : T.pending = false) : readAll rows = rows := by
  cases hl : T.lazy with
  | none =>
    apply ext_getElem?
    intro i
    rw [readAll, getElem?_map]
    cases hr : rows[i]? with
    | none => rfl
    | some r =>
      cases hu : r.unread with
      | false => cases r; simp_all
      | true =>
        obtain ⟨l, hl', -⟩ := h.unread i r hr hu
        rw [hl] at hl'
        cases hl'
  | some l =>
    obtain ⟨hle, -⟩ := h.mapped l hl
    have : l.nextId = l.count := by
      simp only [SymTable.pending, hl, elim_some, decide_eq_false_iff_not] at hp
      omega
    rw [← h.readUpTo_count hl, ← this, h.readUpTo_self hl]

end Rayforce.Symbol

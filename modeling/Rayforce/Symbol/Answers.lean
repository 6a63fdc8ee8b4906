import Rayforce.Symbol.Dotted
import Rayforce.Symbol.Snapshot

namespace Rayforce.Symbol

open Library.Words List Option

variable {s : Bytes} {q : Query} {rows' : List Row} {i : ℕ}

inductive Query
  | find (s : Bytes)
  | str (id : ℕ)
  | intern (s : Bytes)
  | internRuntime (s : Bytes)
  | count

inductive Reply
  | id (i : Option ℕ)
  | text (s : Option Bytes)
  | number (n : ℕ)
  deriving DecidableEq

def ask (T : SymTable) : Query → Option (Reply × SymTable)
  | .find s => (raySymFind T s).map fun r => (.id r.1, r.2)
  | .str i => (raySymStr T i).map fun r => (.text r.1, r.2)
  | .intern s => (raySymIntern T s).map fun r => (.id r.1, r.2)
  | .internRuntime s => (raySymInternRuntime T s).map fun r => (.id r.1, r.2)
  | .count => some (.number T.count, T)

def asks (T : SymTable) : List Query → Option (List Reply × SymTable)
  | [] => some ([], T)
  | q :: qs => do
    let (r, T) ← ask T q
    let (rs, T) ← asks T qs
    return (r :: rs, T)

def segsOf (s : Bytes) : List Bytes := (dottedSegs s).getD []

def internName (ns : List Bytes) (s : Bytes) : ℕ × List Bytes :=
  if s ∈ ns then (ns.idxOf s, ns) else (ns.length + (fresh ns s).length, ns ++ (fresh ns s ++ [s]))

def reply (ns : List Bytes) : Query → Reply × List Bytes
  | .find s => (.id (if s ∈ ns then some (ns.idxOf s) else none), ns)
  | .str i => (.text ns[i]?, ns)
  | .intern s => (.id (some (internName ns s).1), (internName ns s).2)
  | .internRuntime s => (.id (some (internName ns s).1), (internName ns s).2)
  | .count => (.number ns.length, ns)

def Preceded (ns : List Bytes) : Prop := ∀ (i : ℕ) (s : Bytes), ns[i]? = some s → ∀ g ∈ segsOf s, g ∈ ns.take i

lemma segsOf_segment {s g : Bytes} (hg : g ∈ segsOf s) : segsOf g = [] := by
  rw [segsOf, dottedSegs_eq] at hg
  split_ifs at hg
  · rw [segsOf, dottedSegs_eq, if_neg (not_dotted_of_mem hg), getD_none]
  · simp at hg

lemma not_mem_segsOf (s : Bytes) : s ∉ segsOf s := by
  intro h
  have hs := segsOf_segment h
  rw [hs] at h
  cases h

lemma mem_fresh {ns : List Bytes} {s g : Bytes} : g ∈ fresh ns s ↔ g ∈ segsOf s ∧ g ∉ ns := by
  simp [fresh, segsOf]

lemma fresh_eq_nil {ns : List Bytes} (h : ∀ g ∈ segsOf s, g ∈ ns) : fresh ns s = [] := by
  apply eq_nil_iff_forall_not_mem.mpr
  intro g hg
  obtain ⟨hs, hn⟩ := mem_fresh.mp hg
  exact hn (h g hs)

lemma Preceded.mem {ns : List Bytes} (h : Preceded ns) (hs : s ∈ ns) : ∀ g ∈ segsOf s, g ∈ ns := by
  intro g hg
  obtain ⟨i, hi⟩ := mem_iff_getElem?.mp hs
  exact mem_of_mem_take (h i s hi g hg)

lemma internName_preceded {ns : List Bytes} (h : Preceded ns) (s : Bytes) : Preceded (internName ns s).2 := by
  rw [internName]
  split_ifs
  · exact h
  intro i t hi g hg
  show g ∈ (ns ++ (fresh ns s ++ [s])).take i
  rcases lt_or_ge i ns.length with hlt | hge
  · rw [getElem?_append_left hlt] at hi
    rw [take_append_of_le_length hlt.le]
    exact h i t hi g hg
  rw [getElem?_append_right hge] at hi
  have hmem := mem_of_getElem? hi
  rcases mem_append.mp hmem with hf | hs
  · rw [segsOf_segment (mem_fresh.mp hf).1] at hg
    cases hg
  · obtain rfl := mem_singleton.mp hs
    have hge' : (fresh ns t).length ≤ i - ns.length := by
      by_contra hlt
      rw [getElem?_append_left (by omega)] at hi
      exact not_mem_segsOf t (mem_fresh.mp (mem_of_getElem? hi)).1
    have htake : (ns ++ (fresh ns t ++ [t])).take (ns.length + (fresh ns t).length) = ns ++ fresh ns t := by
      rw [take_length_add_append, take_left]
    have hle : ns.length + (fresh ns t).length ≤ i := by omega
    have hsub := (take_prefix_take_left hle (l := ns ++ (fresh ns t ++ [t]))).subset
    apply hsub
    rw [htake, mem_append, mem_fresh]
    by_cases hn : g ∈ ns
    · exact .inl hn
    · exact .inr ⟨hg, hn⟩

lemma internName_nodup {ns : List Bytes} (hn : ns.Nodup) (hf : s ∈ ns ∨ (fresh ns s).Nodup) :
    (internName ns s).2.Nodup := by
  rw [internName]
  split_ifs with hs
  · exact hn
  have hfr := hf.resolve_left hs
  refine hn.append (hfr.append (by simp) ?_) ?_
  · intro g hg hgs
    obtain rfl := mem_singleton.mp hgs
    exact not_mem_segsOf g (mem_fresh.mp hg).1
  · intro g hg hg'
    rcases mem_append.mp hg' with h | h
    · exact (mem_fresh.mp h).2 hg
    · obtain rfl := mem_singleton.mp h
      exact hs hg

lemma getElem?_eq_some_idxOf {ns : List Bytes} (hn : ns.Nodup) (h : ns[i]? = some s) :
    s ∈ ns ∧ ns.idxOf s = i := by
  obtain ⟨hi, rfl⟩ := List.getElem?_eq_some_iff.mp h
  exact ⟨getElem_mem hi, hn.idxOf_getElem i hi⟩

variable {T T' : SymTable} {rows : List Row} {ns : List Bytes}

structure Tracks (T : SymTable) (rows : List Row) (ns : List Bytes) : Prop where
  stands : Stands T rows
  names_eq : names rows = ns
  nodup : ns.Nodup
  closed : ∀ s ∈ known rows, ∀ g ∈ segsOf s, g ∈ known rows
  preceded : Preceded ns

def QueryOk (rows : List Row) : Query → Prop
  | .intern s => s ∈ names rows ∨ (fresh (names rows) s).Nodup
  | .internRuntime s => s ∈ known rows ∨
      (s ∉ hidden rows ∧ (∀ g ∈ segsOf s, g ∉ hidden rows) ∧ (fresh (names rows) s).Nodup)
  | _ => True

lemma mem_hidden : s ∈ hidden rows ↔ ∃ r ∈ rows, r.unread = true ∧ r.name = s := by
  simp only [hidden, names, List.mem_map, mem_filter]
  constructor
  · rintro ⟨r, ⟨hm, hu⟩, rfl⟩
    exact ⟨r, hm, hu, rfl⟩
  · rintro ⟨r, hm, hu, rfl⟩
    exact ⟨r, ⟨hm, hu⟩, rfl⟩

lemma getElem?_names (rows : List Row) (i : ℕ) : (names rows)[i]? = (rows[i]?).map Row.name := by
  rw [names, getElem?_map]

lemma Tracks.readUpTo (h : Tracks T rows ns) {k : ℕ} (hs : Stands T' (readUpTo k rows)) :
    Tracks T' (Symbol.readUpTo k rows) ns := by
  have hsub : ∀ g ∈ known rows, g ∈ known (Symbol.readUpTo k rows) := by
    intro g hg
    obtain ⟨i, r, hr, hu, rfl⟩ := mem_known.mp hg
    refine mem_known.mpr ⟨i, if i < k then { r with unread := false } else r, ?_, ?_, ?_⟩
    · rw [getElem?_readUpTo, hr, map_some]
    · split_ifs
      · rfl
      · exact hu
    · split_ifs <;> rfl
  refine ⟨hs, (names_readUpTo k rows).trans h.names_eq, h.nodup, ?_, h.preceded⟩
  intro s hks g hg
  obtain ⟨i, r', hr', hu', rfl⟩ := mem_known.mp hks
  rw [getElem?_readUpTo] at hr'
  obtain ⟨r, hr, rfl⟩ := map_eq_some_iff.mp hr'
  cases hu : r.unread with
  | false =>
    have hname : (if i < k then { r with unread := false } else r).name = r.name := by split_ifs <;> rfl
    rw [hname] at hg
    exact hsub g (h.closed r.name (mem_known.mpr ⟨i, r, hr, hu, rfl⟩) g hg)
  | true =>
    have hik : i < k := by
      by_contra hik
      rw [if_neg hik, hu] at hu'
      cases hu'
    rw [if_pos hik] at hg
    have hi : ns[i]? = some r.name := by rw [← h.names_eq, getElem?_names, hr, map_some]
    obtain ⟨j, hj⟩ := mem_iff_getElem?.mp (h.preceded i r.name hi g hg)
    have hji : j < i := by
      have hlt := (List.getElem?_eq_some_iff.mp hj).1
      rw [length_take] at hlt
      omega
    rw [getElem?_take_of_lt hji, ← h.names_eq, getElem?_names] at hj
    obtain ⟨q, hq, rfl⟩ := map_eq_some_iff.mp hj
    refine mem_known.mpr ⟨j, { q with unread := false }, ?_, rfl, rfl⟩
    rw [getElem?_readUpTo, hq, map_some, if_pos (hji.trans hik)]

lemma Tracks.readAll (h : Tracks T rows ns) (hs : Stands T' (readAll rows)) :
    Tracks T' (Symbol.readAll rows) ns := by
  refine ⟨hs, (names_readAll rows).trans h.names_eq, h.nodup, ?_, h.preceded⟩
  rw [known_readAll, h.names_eq]
  exact fun s hsm => h.preceded.mem hsm

lemma hidden_readUpTo {k : ℕ} {g : Bytes} (hg : g ∈ hidden (readUpTo k rows)) : g ∈ hidden rows := by
  obtain ⟨r', hr', hu, rfl⟩ := mem_hidden.mp hg
  obtain ⟨i, hi⟩ := mem_iff_getElem?.mp hr'
  rw [getElem?_readUpTo] at hi
  obtain ⟨r, hr, rfl⟩ := map_eq_some_iff.mp hi
  split_ifs at hu ⊢
  exact mem_hidden.mpr ⟨r, mem_of_getElem? hr, hu, rfl⟩

lemma Tracks.strAt (h : Tracks T rows ns) (hs : T.strAt i = some s) : s ∈ ns ∧ ns.idxOf s = i := by
  obtain ⟨r, hr, -, rfl⟩ := h.stands.strAt_eq_some.mp hs
  apply getElem?_eq_some_idxOf h.nodup
  rw [← h.names_eq, getElem?_names, hr, map_some]

lemma Tracks.known_iff (h : Tracks T rows ns) : s ∈ known rows ↔ ∃ i, T.strAt i = some s := by
  rw [← h.stands.held, mem_held]

structure Answered (T' : SymTable) (rows : List Row) (ns : List Bytes) : Prop where
  tracks : ∃ rows', Tracks T' rows' ns ∧ ∀ g ∈ hidden rows', g ∈ hidden rows

section

variable (h : Tracks T rows ns)
include h

lemma Tracks.answered : Answered T rows ns := ⟨rows, h, fun _ hg => hg⟩

lemma find_tracks (s : Bytes) :
    ∃ T', raySymFind T s = some (if s ∈ ns then some (ns.idxOf s) else none, T') ∧ Answered T' rows ns := by
  obtain ⟨o, hp, hsome, hnone⟩ := symProbe_spec h.stands.indexed s
  cases o with
  | some i =>
    obtain ⟨hm, hi⟩ := h.strAt (hsome i rfl)
    exact ⟨T, by simp [raySymFind, hp, hm, hi], h.answered⟩
  | none =>
    have hmiss : s ∉ known rows := by
      rw [h.known_iff]
      rintro ⟨i, hi⟩
      exact hnone rfl i hi
    cases hpend : T.pending with
    | false =>
      have hall := h.stands.hidden_eq_nil hpend
      have hn : s ∉ ns := by
        rw [← h.names_eq, ← known_readAll, hall]
        exact hmiss
      exact ⟨T, by simp [raySymFind, hp, hpend, hn], h.answered⟩
    | true =>
      obtain ⟨T₁, hm, hs₁⟩ := materializeAll_spec h.stands hpend
      have h₁ := h.readAll hs₁
      obtain ⟨o, hp₁, hsome₁, hnone₁⟩ := symProbe_spec hs₁.indexed s
      have hans : Answered T₁ rows ns := ⟨_, h₁, by simp⟩
      cases o with
      | some i =>
        obtain ⟨hmem, hi⟩ := h₁.strAt (hsome₁ i rfl)
        exact ⟨T₁, by simp [raySymFind, hp, hpend, hm, hp₁, hmem, hi], hans⟩
      | none =>
        have hn : s ∉ ns := by
          rw [← h.names_eq, ← known_readAll, h₁.known_iff]
          rintro ⟨i, hi⟩
          exact hnone₁ rfl i hi
        exact ⟨T₁, by simp [raySymFind, hp, hpend, hm, hp₁, hn], hans⟩

lemma str_tracks (i : ℕ) : ∃ T', raySymStr T i = some (ns[i]?, T') ∧ Answered T' rows ns := by
  obtain ⟨T', rows', hr, hs, -⟩ := raySymStr_spec h.stands i
  rw [h.names_eq] at hr
  refine ⟨T', hr, ?_⟩
  rw [raySymStr] at hr
  split_ifs at hr with hc hl
  · obtain ⟨-, rfl⟩ := Prod.mk.inj (some.inj hr)
    exact h.answered
  · cases hlz : T.lazy with
    | none => simp [hlz] at hl
    | some l =>
      have hlt : i < l.count := by simpa [hlz] using hl.2
      obtain ⟨T₁, hm, hs₁⟩ := symLazyMaterializeTo_spec h.stands hlz hlt
      rw [hm] at hr
      obtain ⟨-, rfl⟩ := Prod.mk.inj (some.inj hr)
      exact ⟨_, h.readUpTo hs₁, fun g hg => hidden_readUpTo hg⟩
  · obtain ⟨-, rfl⟩ := Prod.mk.inj (some.inj hr)
    exact h.answered

lemma cached_tracks (hs : T.strAt i = some s) :
    ∃ ok T', symCacheSegments T i s = some (ok, T') ∧ Answered T' rows ns := by
  obtain ⟨r, hr, hu, rfl⟩ := h.stands.strAt_eq_some.mp hs
  obtain ⟨ok, T', gs, hc, hp, -, htrue, hfalse⟩ := symCacheSegments_rows h.stands hr r.name
  have hnil : fresh (known rows) r.name = [] := fresh_eq_nil (h.closed r.name (mem_known.mpr ⟨i, r, hr, hu, rfl⟩))
  rw [hnil] at hp
  obtain rfl := prefix_nil.mp hp
  refine ⟨ok, T', hc, ?_⟩
  rw [map_nil, append_nil] at htrue hfalse
  cases ok with
  | true =>
    refine ⟨_, ⟨(htrue rfl).2, (names_settle i rows).trans h.names_eq, h.nodup, ?_, h.preceded⟩, by simp⟩
    rw [known_settle]
    exact h.closed
  | false => exact ⟨_, ⟨hfalse rfl, h.names_eq, h.nodup, h.closed, h.preceded⟩, fun _ hg => hg⟩

omit h in
lemma commitMain_rows (h : Stands T rows) (s : Bytes) : ∃ r T', commitMain T (symHash s) s = some (r, T') ∧
      ∀ i, r = some i → i = rows.length + (fresh (known rows) s).length ∧
        Stands T' (rows ++ ((fresh (known rows) s).map plainRow ++ [plainRow s])) := by
  obtain ⟨r, T', hc, hi, hcommit⟩ := commitMain_spec h.indexed s
  have hnew : newSegs T s = fresh (known rows) s := h.missing_eq s
  refine ⟨r, T', hc, ?_⟩
  intro i hr
  cases hcommit with
  | full gs hp hslots hl => cases hr
  | done ids hslots hl hids =>
    rw [hnew] at hslots hr
    have hview : ((fresh (known rows) s).map plainSlot ++ [mainSlot s ids]).map (fun x => (x.str, x.scanned)) =
        ((fresh (known rows) s).map plainRow ++ [plainRow s]).map fun r => (r.str, r.scanned) := by
      simp only [map_append, List.map_map, map_cons, map_nil, mainSlot]
      congr 1
      cases (scanDotted s).1 <;> simp [plainRow, Row.str]
    refine ⟨?_, h.append hi hl (by rw [hslots, append_assoc]) hview ?_⟩
    · rw [h.length, ← some.inj hr]
    · intro r hr
      simp only [mem_append, List.mem_map, mem_singleton] at hr
      obtain ⟨g, -, rfl⟩ | rfl := hr <;> rfl

lemma committed_tracks (hs : s ∉ ns) (hf : fresh (known rows) s = fresh ns s) (hn : (fresh ns s).Nodup) :
    ∃ r T', commitMain T (symHash s) s = some (r, T') ∧
      ∀ i, r = some i → i = (internName ns s).1 ∧ Answered T' rows (internName ns s).2 := by
  obtain ⟨r, T', hc, hdone⟩ := commitMain_rows h.stands s
  refine ⟨r, T', hc, ?_⟩
  intro i hr
  obtain ⟨rfl, hst⟩ := hdone i hr
  rw [hf] at hst ⊢
  have hlen : rows.length = ns.length := by rw [← h.names_eq, names, length_map]
  have hnames : names (rows ++ ((fresh ns s).map plainRow ++ [plainRow s])) = (internName ns s).2 := by
    rw [internName, if_neg hs, names_append, names_append, names_plain, h.names_eq]
    rfl
  have hknown : known (rows ++ ((fresh ns s).map plainRow ++ [plainRow s])) =
      known rows ++ (fresh ns s ++ [s]) := by
    rw [known_append, known_append, known_plain]
    rfl
  have hhidden : hidden (rows ++ ((fresh ns s).map plainRow ++ [plainRow s])) = hidden rows := by
    rw [hidden_append, hidden_append, hidden_plain, nil_append]
    exact append_nil _
  refine ⟨by rw [internName, if_neg hs, hlen], _, ⟨hst, hnames, internName_nodup h.nodup (.inr hn), ?_,
    internName_preceded h.preceded s⟩, fun g hg => hhidden ▸ hg⟩
  rw [hknown]
  intro t ht g hg
  rcases mem_append.mp ht with ht | ht
  · exact mem_append_left _ (h.closed t ht g hg)
  rcases mem_append.mp ht with ht | ht
  · rw [segsOf_segment (mem_fresh.mp ht).1] at hg
    cases hg
  · obtain rfl := mem_singleton.mp ht
    rw [← hf]
    by_cases hk : g ∈ known rows
    · exact mem_append_left _ hk
    · exact mem_append_right _ (mem_append_left _ (mem_fresh.mpr ⟨hg, hk⟩))

omit h in
lemma Answered.of_hidden (h : Answered T' rows ns) {rows₀ : List Row} (hh : ∀ g ∈ hidden rows, g ∈ hidden rows₀) :
    Answered T' rows₀ ns := by
  obtain ⟨rows', ht, hg⟩ := h.tracks
  exact ⟨rows', ht, fun g hm => hh g (hg g hm)⟩

lemma intern_rest {o : Option ℕ} (hsome : ∀ i, o = some i → T.strAt i = some s)
    (hnone : o = none → s ∉ ns ∧ fresh (known rows) s = fresh ns s ∧ (fresh ns s).Nodup) :
    ∃ r T', (match o with
        | some i => (symCacheSegments T i s).bind fun r => some (some i, r.2)
        | none => commitMain T (symHash s) s) = some (r, T') ∧
      ∀ i, r = some i → i = (internName ns s).1 ∧ Answered T' rows (internName ns s).2 := by
  cases o with
  | some i =>
    obtain ⟨hm, hi⟩ := h.strAt (hsome i rfl)
    obtain ⟨ok, T', hc, hans⟩ := cached_tracks h (hsome i rfl)
    refine ⟨some i, T', by simp [hc], ?_⟩
    intro j hj
    rw [internName, if_pos hm]
    exact ⟨(some.inj hj).symm.trans hi.symm, hans⟩
  | none =>
    obtain ⟨hs, hf, hn⟩ := hnone rfl
    exact committed_tracks h hs hf hn

lemma intern_tracks (hok : QueryOk rows (.intern s)) : ∃ r T', raySymIntern T s = some (r, T') ∧
      ∀ i, r = some i → i = (internName ns s).1 ∧ Answered T' rows (internName ns s).2 := by
  obtain ⟨o, T₁, hp, hs₁, hsome, hnone⟩ := probeMain_spec h.stands s true
  have h₁ : Tracks T₁ (searched true s rows) ns ∧ ∀ g ∈ hidden (searched true s rows), g ∈ hidden rows := by
    rw [searched] at hs₁ ⊢
    split_ifs at hs₁ ⊢
    · exact ⟨h.readAll hs₁, by simp⟩
    · exact ⟨⟨hs₁, h.names_eq, h.nodup, h.closed, h.preceded⟩, fun _ hg => hg⟩
  have hmiss : o = none → s ∉ ns ∧ fresh (known (searched true s rows)) s = fresh ns s ∧ (fresh ns s).Nodup := by
    intro ho
    have hns := hnone ho
    have hall : known (searched true s rows) = ns := by
      rw [searched] at hns ⊢
      split_ifs at hns ⊢ with hc
      · rw [known_readAll, h.names_eq]
      · exact absurd ⟨rfl, hns⟩ hc
    rw [hall] at hns
    rw [QueryOk, h.names_eq] at hok
    exact ⟨hns, by rw [hall], hok.resolve_left hns⟩
  obtain ⟨r, T', hr, hres⟩ := intern_rest h₁.1 hsome hmiss
  refine ⟨r, T', ?_, ?_⟩
  · rw [← hr, raySymIntern, symInternNolock, hp]
    cases o <;> rfl
  · intro i hi
    obtain ⟨hid, hans⟩ := hres i hi
    exact ⟨hid, hans.of_hidden h₁.2⟩

lemma internRuntime_tracks (hok : QueryOk rows (.internRuntime s)) :
    ∃ r T', raySymInternRuntime T s = some (r, T') ∧
      ∀ i, r = some i → i = (internName ns s).1 ∧ Answered T' rows (internName ns s).2 := by
  obtain ⟨o, T₁, hp, hs₁, hsome, hnone⟩ := probeMain_spec h.stands s false
  have hsame : searched false s rows = rows := by simp [searched]
  rw [hsame] at hs₁ hnone
  have h₁ : Tracks T₁ rows ns := ⟨hs₁, h.names_eq, h.nodup, h.closed, h.preceded⟩
  have hmiss : o = none → s ∉ ns ∧ fresh (known rows) s = fresh ns s ∧ (fresh ns s).Nodup := by
    intro ho
    obtain ⟨hh, hseg, hnd⟩ := hok.resolve_left (hnone ho)
    rw [h.names_eq] at hnd
    refine ⟨?_, ?_, hnd⟩
    · rw [← h.names_eq, mem_names_iff]
      rintro (hk | hk)
      · exact hnone ho hk
      · exact hh hk
    · apply filter_congr
      intro g hg
      have hiff : g ∈ known rows ↔ g ∈ ns := by
        rw [← h.names_eq, mem_names_iff]
        exact ⟨.inl, fun hg' => hg'.resolve_right (hseg g hg)⟩
      simp only [hiff]
  obtain ⟨r, T', hr, hres⟩ := intern_rest h₁ hsome hmiss
  refine ⟨r, T', ?_, hres⟩
  rw [← hr, raySymInternRuntime, symInternNolock, hp]
  cases o <;> rfl

end

def Refusal : Query → Reply → Prop
  | .intern _, r => r = .id none
  | .internRuntime _, r => r = .id none
  | _, _ => False

lemma ask_tracks (h : Tracks T rows ns) (hok : QueryOk rows q) :
    ∃ r T', ask T q = some (r, T') ∧ (¬Refusal q r → r = (reply ns q).1 ∧ Answered T' rows (reply ns q).2) := by
  cases q with
  | find s =>
    obtain ⟨T', hr, hans⟩ := find_tracks h s
    exact ⟨_, T', by simp only [ask, hr]; rfl, fun _ => ⟨rfl, hans⟩⟩
  | str i =>
    obtain ⟨T', hr, hans⟩ := str_tracks h i
    exact ⟨_, T', by simp only [ask, hr]; rfl, fun _ => ⟨rfl, hans⟩⟩
  | intern s =>
    obtain ⟨r, T', hr, hres⟩ := intern_tracks h hok
    refine ⟨.id r, T', by simp only [ask, hr]; rfl, fun hn => ?_⟩
    cases r with
    | none => exact absurd rfl hn
    | some i =>
      obtain ⟨rfl, hans⟩ := hres i rfl
      exact ⟨rfl, hans⟩
  | internRuntime s =>
    obtain ⟨r, T', hr, hres⟩ := internRuntime_tracks h hok
    refine ⟨.id r, T', by simp only [ask, hr]; rfl, fun hn => ?_⟩
    cases r with
    | none => exact absurd rfl hn
    | some i =>
      obtain ⟨rfl, hans⟩ := hres i rfl
      exact ⟨rfl, hans⟩
  | count =>
    refine ⟨_, T, rfl, fun _ => ⟨?_, h.answered⟩⟩
    rw [reply, ← h.stands.length, ← h.names_eq, names, length_map]

def AllOk (T : SymTable) : List Query → Prop
  | [] => True
  | q :: qs => QueryOk (rowsOf T) q ∧ ∀ r T', ask T q = some (r, T') → AllOk T' qs

def Served : List Query → List Reply → Prop
  | q :: qs, r :: rs => ¬Refusal q r ∧ Served qs rs
  | _, _ => True

lemma QueryOk.of_names (hn : names rows' = names rows) (hh : ∀ g, g ∉ hidden rows') (hok : QueryOk rows q) :
    QueryOk rows' q := by
  cases q with
  | intern s => rwa [QueryOk, hn]
  | internRuntime s =>
    rw [QueryOk, hn]
    rcases hok with hk | ⟨-, -, hf⟩
    · refine .inl ((mem_names_iff.mp ?_).resolve_right (hh s))
      rw [hn]
      exact mem_names_iff.mpr (.inl hk)
    · exact .inr ⟨hh s, fun g _ => hh g, hf⟩
  | find => trivial
  | str => trivial
  | count => trivial

lemma ask_grows (h : Sound T) (q : Query) : ∃ r T', ask T q = some (r, T') ∧ Sound T' := by
  cases q with
  | find s =>
    obtain ⟨o, T', hr, hf⟩ := raySymFind_reads h s
    exact ⟨.id o, T', by simp only [ask, hr]; rfl, hf.grows.sound⟩
  | str i =>
    obtain ⟨o, T', hr, hf⟩ := raySymStr_reads h i
    exact ⟨.text o, T', by simp only [ask, hr]; rfl, hf.grows.sound⟩
  | intern s =>
    obtain ⟨r, T', hr, hg⟩ := internBy_grows h .locked s
    exact ⟨.id r, T', by rw [ask, show raySymIntern T s = some (r, T') from hr]; rfl, hg.sound⟩
  | internRuntime s =>
    obtain ⟨r, T', hr, hg⟩ := internBy_grows h .runtime s
    exact ⟨.id r, T', by rw [ask, show raySymInternRuntime T s = some (r, T') from hr]; rfl, hg.sound⟩
  | count => exact ⟨_, T, rfl, h⟩

lemma asks_total (h : Sound T) (qs : List Query) : ∃ rs T', asks T qs = some (rs, T') := by
  induction qs generalizing T with
  | nil => exact ⟨[], T, rfl⟩
  | cons q qs ih =>
    obtain ⟨r, T₁, hr, h₁⟩ := ask_grows h q
    obtain ⟨rs, T', hrs⟩ := ih h₁
    exact ⟨r :: rs, T', by simp [asks, hr, hrs]⟩

lemma asks_cons {qs : List Query} {r : Reply} {rs : List Reply} (hr : ask T q = some (r, T'))
    (h : (asks T (q :: qs)).map Prod.fst = some rs) :
      ∃ rs', rs = r :: rs' ∧ (asks T' qs).map Prod.fst = some rs' := by
  simp only [asks, hr, bind_eq_bind, bind_some] at h
  obtain ⟨p, hp, rfl⟩ := map_eq_some_iff.mp h
  obtain ⟨p', hp', he⟩ := bind_eq_some_iff.mp hp
  obtain rfl := some.inj he
  exact ⟨p'.1, rfl, by rw [hp']; rfl⟩

lemma asks_agree {L E : SymTable} (hL : Tracks L rows ns) (hE : Tracks E rows' ns)
    (hh : ∀ g, g ∉ hidden rows') (qs : List Query) (hok : AllOk L qs) {rs rs' : List Reply}
    (h : (asks L qs).map Prod.fst = some rs) (h' : (asks E qs).map Prod.fst = some rs')
    (hs : Served qs rs) (hs' : Served qs rs') : rs = rs' := by
  induction qs generalizing L E rows rows' ns rs rs' with
  | nil =>
    simp only [asks, map_some, some.injEq] at h h'
    exact h.symm.trans h'
  | cons q qs ih =>
    obtain ⟨hq, hrest⟩ := hok
    rw [hL.stands.rowsOf] at hq
    obtain ⟨r, L₁, hr, hres⟩ := ask_tracks hL hq
    obtain ⟨r', E₁, hr', hres'⟩ := ask_tracks hE (hq.of_names (hE.names_eq.trans hL.names_eq.symm) hh)
    obtain ⟨rs₁, rfl, h₁⟩ := asks_cons hr h
    obtain ⟨rs₁', rfl, h₁'⟩ := asks_cons hr' h'
    obtain ⟨hsr, hss⟩ := hs
    obtain ⟨hsr', hss'⟩ := hs'
    obtain ⟨rfl, hans⟩ := hres hsr
    obtain ⟨rfl, hans'⟩ := hres' hsr'
    obtain ⟨rowsL, htL, -⟩ := hans.tracks
    obtain ⟨rowsE, htE, hhE⟩ := hans'.tracks
    have htail := ih htL htE (fun g hg => hh g (hhE g hg)) (hrest _ _ hr) h₁ h₁' hss hss'
    rw [htail]

end Rayforce.Symbol

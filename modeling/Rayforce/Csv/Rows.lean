import Rayforce.Library.Words

/-! The row splitter and the field scanner of `csv.c`. -/

namespace Rayforce.Csv

open Library.Words List Option

variable {c : UInt8}

def quote : UInt8 := 34

def lf : UInt8 := 10

def cr : UInt8 := 13

section

variable (delim : UInt8)

def quotedRaw : Bytes → Bytes × Bool × Bytes
  | [] => ([], false, [])
  | c :: rest =>
    if c = quote then
      match rest with
      | d :: rest' =>
        if d = quote then
          let r := quotedRaw rest'
          (quote :: quote :: r.1, true, r.2.2)
        else ([], false, c :: rest)
      | [] => ([], false, c :: rest)
    else
      let r := quotedRaw rest
      (c :: r.1, r.2.1, r.2.2)

def collapse : Bytes → Bytes
  | [] => []
  | [c] => [c]
  | c :: d :: rest => if c = quote ∧ d = quote then quote :: collapse rest else c :: collapse (d :: rest)

def skip (c : UInt8) (rest : Bytes) : Bytes := if rest.head? = some c then rest.tail else rest

lemma skip_length_le (c : UInt8) (rest : Bytes) : (skip c rest).length ≤ rest.length := by
  rw [skip]
  split_ifs
  · rw [length_tail]
    omega
  · rfl

def scanFieldQuoted (rest : Bytes) : Bytes × Bytes :=
  let r := quotedRaw rest.tail
  (if r.2.1 then collapse r.1 else r.1, skip delim (skip quote r.2.2))

def bareEnd (c : UInt8) : Bool := c == delim || c == lf || c == cr

def scanField (rest : Bytes) : Bytes × Bytes :=
  if rest = [] then ([], [])
  else if rest.head? = some quote then scanFieldQuoted delim rest
  else (rest.takeWhile fun c => !bareEnd delim c, skip delim (rest.dropWhile fun c => !bareEnd delim c))

def scanFields : ℕ → Bytes → List Bytes × Bytes
  | 0, rest => ([], rest)
  | k + 1, rest => ((scanField delim rest).1 :: (scanFields k (scanField delim rest).2).1,
    (scanFields k (scanField delim rest).2).2)

def stripCr (f : Bytes) : Bytes := if f.getLast? = some cr then f.dropLast else f

def serialRow (buf : Bytes) (rowEnd : ℕ) : ℕ → ℕ → List (Option Bytes)
  | 0, _ => []
  | k + 1, p =>
    if rowEnd ≤ p then List.replicate (k + 1) none
    else
      let r := scanField delim (buf.drop p)
      some (if k = 0 then stripCr r.1 else r.1) :: serialRow buf rowEnd k (buf.length - r.2.length)

def csvParseSerial (buf : Bytes) (ncols : ℕ) : List ℕ → List (List (Option Bytes))
  | [] => []
  | off :: offs => serialRow delim buf (offs.headD buf.length) ncols off :: csvParseSerial buf ncols offs

end

section

def memchr (c : UInt8) (s : Bytes) : Option ℕ := s.findIdx? (· == c)

variable (full : ℕ → Bool)

def fastLoop (rest : Bytes) (p n : ℕ) : List ℕ × ℕ :=
  match memchr lf rest with
  | none => ([], p + rest.length)
  | some k =>
    let rest' := skip cr (rest.drop (k + 1))
    let p' := p + (rest.length - rest'.length)
    if rest' = [] then ([], p')
    else if full n then ([], p')
    else (p' :: (fastLoop rest' p' (n + 1)).1, (fastLoop rest' p' (n + 1)).2)
termination_by rest.length
decreasing_by
  all_goals
    rename_i hrest _
    have hskip := skip_length_le cr (rest.drop (k + 1))
    have hpos : 0 < (skip cr (rest.drop (k + 1))).length := List.length_pos_of_ne_nil hrest
    rw [List.length_drop] at hskip
    omega

def slowLoop (rest : Bytes) (inQuote : Bool) (p n : ℕ) : List ℕ × ℕ :=
  match rest with
  | [] => ([], p)
  | c :: rest =>
    if c = quote then slowLoop rest (!inQuote) (p + 1) n
    else if inQuote = false ∧ (c = lf ∨ c = cr) then
      let rest' := if c = cr then skip lf rest else rest
      let p' := p + 1 + (rest.length - rest'.length)
      if rest' = [] then ([], p')
      else if full n then ([], p')
      else (p' :: (slowLoop rest' false p' (n + 1)).1, (slowLoop rest' false p' (n + 1)).2)
    else slowLoop rest inQuote (p + 1) n
termination_by rest.length
decreasing_by
  all_goals simp
  all_goals
    split_ifs
    · exact skip_length_le lf _
    · rfl

def rowLoop (hasQuotes : Bool) (rest : Bytes) (p n : ℕ) : List ℕ × ℕ :=
  if hasQuotes then slowLoop full rest false p n else fastLoop full rest p n

end

def rowOffsets (hasQuotes : Bool) (buf : Bytes) (off : ℕ) : List ℕ :=
  if buf.length ≤ off then [] else off :: (rowLoop (fun _ => false) hasQuotes (buf.drop off) off 1).1

def hasQuotes (buf : Bytes) (off : ℕ) : Bool := (memchr quote (buf.drop off)).isSome

def buildRowOffsets (buf : Bytes) (off : ℕ) : List ℕ := rowOffsets (hasQuotes buf off) buf off

def buildRowOffsetsLimited (buf : Bytes) (off maxRows : ℕ) (dataHasQuotes : Bool) : List ℕ × ℕ :=
  if maxRows = 0 ∨ buf.length ≤ off then ([], off)
  else
    let r := rowLoop (fun n => maxRows ≤ n) dataHasQuotes (buf.drop off) off 1
    (off :: r.1, r.2)

def chunked (buf : Bytes) (dataHasQuotes : Bool) : ℕ → List ℕ → List ℕ
  | _, [] => []
  | off, m :: ms =>
    (buildRowOffsetsLimited buf off m dataHasQuotes).1 ++ chunked buf dataHasQuotes
      (buildRowOffsetsLimited buf off m dataHasQuotes).2 ms

section

variable (delim : UInt8)

def escape : Bytes → Bytes
  | [] => []
  | c :: f => if c = quote then quote :: quote :: escape f else c :: escape f

def Plain (c : UInt8) : Prop := c ≠ delim ∧ c ≠ quote ∧ c ≠ lf ∧ c ≠ cr

instance (c : UInt8) : Decidable (Plain delim c) := inferInstanceAs (Decidable (_ ∧ _))

inductive FieldText : Bytes → Bytes → Prop
  | quoted (f : Bytes) : FieldText f (quote :: escape f ++ [quote])
  | bare {f : Bytes} (h : ∀ c ∈ f, Plain delim c) : FieldText f f

inductive RecordText : List Bytes → Bytes → Prop
  | one {f t : Bytes} (h : FieldText delim f t) : RecordText [f] t
  | cons {f t : Bytes} {r : List Bytes} {u : Bytes} (h : FieldText delim f t) (hr : RecordText r u) :
    RecordText (f :: r) (t ++ delim :: u)

inductive Eol : Bytes → Prop
  | lf : Eol [lf]
  | crlf : Eol [cr, lf]

inductive FileText : List (List Bytes) → Bytes → Prop
  | nil : FileText [] []
  | last {r : List Bytes} {t : Bytes} (h : RecordText delim r t) (hne : t ≠ []) : FileText [r] t
  | cons {r : List Bytes} {t eol : Bytes} {rs : List (List Bytes)} {more : Bytes} (h : RecordText delim r t)
    (heol : Eol eol)
      (hrs : FileText rs more) : FileText (r :: rs) (t ++ eol ++ more)

def Ended (tail : Bytes) : Prop := tail = [] ∨ ∃ c rest, tail = c :: rest ∧ (c = lf ∨ c = cr)

def Separates : Prop := delim ≠ quote ∧ delim ≠ lf ∧ delim ≠ cr

instance : Decidable (Separates delim) := inferInstanceAs (Decidable (_ ∧ _))

end

section

variable {delim : UInt8} {f t tail : Bytes}

lemma quotedRaw_close (htail : tail.head? ≠ some quote) :
    quotedRaw (quote :: tail) = ([], false, quote :: tail) := by
  cases tail with
  | nil => simp [quotedRaw]
  | cons d tail =>
    have hd : d ≠ quote := fun h => htail (congrArg some h)
    simp [quotedRaw, hd]

lemma quotedRaw_pair (rest : Bytes) :
    quotedRaw (quote :: quote :: rest) = (quote :: quote :: (quotedRaw rest).1, true, (quotedRaw rest).2.2) := by
  simp [quotedRaw]

lemma quotedRaw_other (hc : c ≠ quote) (rest : Bytes) :
    quotedRaw (c :: rest) = (c :: (quotedRaw rest).1, (quotedRaw rest).2.1, (quotedRaw rest).2.2) := by
  cases rest <;> simp [quotedRaw, hc]

lemma quotedRaw_escape (f : Bytes) (htail : tail.head? ≠ some quote) :
    quotedRaw (escape f ++ quote :: tail) = (escape f, f.contains quote, quote :: tail) := by
  induction f with
  | nil => exact quotedRaw_close htail
  | cons c f ih =>
    rw [escape]
    by_cases hc : c = quote
    · rw [if_pos hc, cons_append, cons_append, quotedRaw_pair, ih, hc]
      simp
    · rw [if_neg hc, cons_append, quotedRaw_other hc, ih]
      simp [Ne.symm hc]

lemma collapse_cons (hc : c ≠ quote) (f : Bytes) : collapse (c :: f) = c :: collapse f := by
  cases f with
  | nil => rfl
  | cons d f => rw [collapse, if_neg fun h => hc h.1]

lemma collapse_escape (f : Bytes) : collapse (escape f) = f := by
  induction f with
  | nil => rfl
  | cons c f ih =>
    rw [escape]
    split_ifs with hc
    · rw [collapse, if_pos ⟨rfl, rfl⟩, ih, hc]
    · rw [collapse_cons hc, ih]

lemma escape_eq (hf : f.contains quote = false) : escape f = f := by
  induction f with
  | nil => rfl
  | cons c f ih =>
    rw [contains_cons, Bool.or_eq_false_iff, beq_eq_false_iff_ne] at hf
    rw [escape, if_neg hf.1.symm, ih hf.2]

lemma scanField_quoted (f : Bytes) (htail : tail.head? ≠ some quote) :
    scanField delim (quote :: escape f ++ [quote] ++ tail) = (f, skip delim tail) := by
  have hraw := quotedRaw_escape f htail
  have hform : quote :: escape f ++ [quote] ++ tail = quote :: (escape f ++ quote :: tail) := by simp
  rw [hform, scanField, if_neg (cons_ne_nil _ _), if_pos (by rfl), scanFieldQuoted, tail_cons, hraw]
  have hskip : skip quote (quote :: tail) = tail := if_pos rfl
  dsimp only
  rw [hskip]
  by_cases hf : f.contains quote = true
  · rw [if_pos hf, collapse_escape]
  · rw [if_neg hf, escape_eq (Bool.eq_false_of_not_eq_true hf)]

lemma bareEnd_plain (hc : Plain delim c) : (!bareEnd delim c) = true := by
  obtain ⟨hd, -, hlf, hcr⟩ := hc
  simp [bareEnd, hd, hlf, hcr]

lemma scanField_bare (hf : ∀ c ∈ f, Plain delim c) (htail : tail.head? ≠ some quote)
    (hend : ∀ c, tail.head? = some c → bareEnd delim c = true) :
    scanField delim (f ++ tail) = (f, skip delim tail) := by
  have hplain : ∀ c ∈ f, (!bareEnd delim c) = true := fun c hc => bareEnd_plain (hf c hc)
  have htake : tail.takeWhile (fun c => !bareEnd delim c) = [] := by
    cases tail with
    | nil => rfl
    | cons c tail => rw [takeWhile_cons_of_neg (by rw [hend c rfl]; simp)]
  have hdrop : tail.dropWhile (fun c => !bareEnd delim c) = tail := by
    cases tail with
    | nil => rfl
    | cons c tail => rw [dropWhile_cons_of_neg (by rw [hend c rfl]; simp)]
  have hhead : (f ++ tail).head? ≠ some quote := by
    cases f with
    | nil => exact htail
    | cons c f => exact fun h => (hf c mem_cons_self).2.1 (some.inj h)
  have hsplit : (f ++ tail).takeWhile (fun c => !bareEnd delim c) = f ∧
      (f ++ tail).dropWhile (fun c => !bareEnd delim c) = tail := by
    rw [takeWhile_append_of_pos hplain, dropWhile_append_of_pos hplain, htake, hdrop, append_nil]
    exact ⟨rfl, rfl⟩
  rw [scanField, if_neg hhead, hsplit.1, hsplit.2]
  split_ifs with hnil
  · obtain ⟨rfl, rfl⟩ := append_eq_nil_iff.mp hnil
    rfl
  · rfl

lemma FieldText.scan (h : FieldText delim f t) (htail : tail.head? ≠ some quote)
    (hend : ∀ c, tail.head? = some c → bareEnd delim c = true) :
    scanField delim (t ++ tail) = (f, skip delim tail) := by
  cases h with
  | quoted => exact scanField_quoted f htail
  | bare hf => exact scanField_bare hf htail hend

lemma Ended.head (h : Ended tail) (hc : tail.head? = some c) : c = lf ∨ c = cr := by
  obtain rfl | ⟨d, rest, rfl, hd⟩ := h
  · cases hc
  · cases hc
    exact hd

variable (hdelim : Separates delim)

include hdelim

lemma FieldText.scan_separated (h : FieldText delim f t) : scanField delim (t ++ delim :: tail) = (f, tail) := by
  have hhead : (delim :: tail).head? ≠ some quote := fun hq => hdelim.1 (some.inj hq)
  have hend : ∀ c, (delim :: tail).head? = some c → bareEnd delim c = true := by
    intro c hc
    cases hc
    simp [bareEnd]
  rw [h.scan hhead hend, skip, if_pos (by rfl), tail_cons]

lemma FieldText.scan_ended (h : FieldText delim f t) (htail : Ended tail) :
    scanField delim (t ++ tail) = (f, tail) := by
  have hskip : tail.head? ≠ some delim := fun hd => (htail.head hd).elim hdelim.2.1 hdelim.2.2
  have hhead : tail.head? ≠ some quote := fun hq => (htail.head hq).elim (by decide) (by decide)
  have hend : ∀ c, tail.head? = some c → bareEnd delim c = true := by
    intro c hc
    obtain rfl | rfl := htail.head hc <;> simp [bareEnd]
  rw [h.scan hhead hend, skip, if_neg hskip]

lemma scanField_end (htail : Ended tail) : scanField delim tail = ([], tail) := by
  have hblank : FieldText delim [] [] := .bare fun _ hc => absurd hc not_mem_nil
  exact hblank.scan_ended hdelim htail

lemma RecordText.scan {r : List Bytes} (h : RecordText delim r t) (htail : Ended tail) :
    scanFields delim r.length (t ++ tail) = (r, tail) := by
  induction h with
  | one hf => rw [length_singleton, scanFields, hf.scan_ended hdelim htail, scanFields]
  | @cons f t r u hf _ ih =>
    have hform : t ++ delim :: u ++ tail = t ++ delim :: (u ++ tail) := by rw [append_assoc, cons_append]
    rw [length_cons, scanFields, hform, hf.scan_separated hdelim, ih]

end

section

variable {delim : UInt8} {buf t tail : Bytes} {p rowEnd k : ℕ} {r : List Bytes}

def padded (k : ℕ) (r : List Bytes) : List Bytes := (r ++ List.replicate k []).take k

lemma padded_blank (k : ℕ) : padded k [[]] = List.replicate k [] := by
  have h : ([[]] : List Bytes) ++ replicate k [] = replicate (k + 1) [] := by rw [replicate_succ]; rfl
  rw [padded, h, take_replicate, Nat.min_eq_left (Nat.le_succ k)]

lemma padded_cons (k : ℕ) (f : Bytes) (r : List Bytes) : padded (k + 1) (f :: r) = f :: padded k r := by
  rw [padded, padded, cons_append, take_succ_cons, replicate_succ', ← append_assoc, take_append_of_le_length]
  rw [length_append, length_replicate]
  omega

lemma stripCr_eq {f : Bytes} (hf : f.getLast? ≠ some cr) : stripCr f = f := if_neg hf

lemma drop_scanned (hbuf : buf.drop p = t ++ tail) (hp : p ≤ buf.length) :
    buf.drop (buf.length - tail.length) = tail ∧
    buf.length - tail.length = p + t.length := by
  have hlen := congrArg length hbuf
  rw [length_drop, length_append] at hlen
  have hpos : buf.length - tail.length = p + t.length := by omega
  exact ⟨by rw [hpos, ← drop_drop, hbuf, drop_left], hpos⟩

variable (hdelim : Separates delim)

include hdelim

lemma serialRow_blank (htail : Ended tail) (hp : p ≤ buf.length) (hbuf : buf.drop p = tail) :
    (serialRow delim buf rowEnd k p).map (fun c => c.getD []) = List.replicate k [] := by
  induction k with
  | zero => rfl
  | succ k ih =>
    rw [serialRow]
    split_ifs with hend hk
    · rw [map_replicate]
      rfl
    all_goals
      obtain ⟨-, hpos⟩ := drop_scanned (hbuf.trans (nil_append tail).symm) hp
      rw [length_nil, add_zero] at hpos
      dsimp only
      rw [hbuf, scanField_end hdelim htail, hpos, map_cons, ih, replicate_succ]
      rfl

lemma serialRow_record (hr : RecordText delim r t) (htail : Ended tail) (hp : p ≤ buf.length)
    (hbuf : buf.drop p = t ++ tail)
    (hinside : tail = [] ∧ p + t.length ≤ rowEnd ∨ p + t.length < rowEnd)
    (hlast : ∀ f, 0 < k → r[k - 1]? = some f → f.getLast? ≠ some cr) :
    (serialRow delim buf rowEnd k p).map (fun c => c.getD []) = padded k r := by
  induction k generalizing r t p with
  | zero => rw [serialRow, padded, take_zero, map_nil]
  | succ k ih =>
    have hstrip : ∀ f, r.head? = some f → (if k = 0 then stripCr f else f) = f := by
      intro f hf
      split_ifs with hk
      · subst hk
        exact stripCr_eq (hlast f one_pos (head?_eq_getElem?.symm.trans hf))
      · rfl
    rw [serialRow]
    by_cases hend : rowEnd ≤ p
    · -- only the last row can be over before its record is read: one empty field at the end of the buffer
      have hnil : t.length = 0 := by omega
      rw [if_pos hend, map_replicate]
      cases hr with
      | one hf =>
        rw [length_eq_zero_iff.mp hnil] at hf
        cases hf
        exact (padded_blank (k + 1)).symm
      | cons => simp at hnil
    · rw [if_neg hend]
      dsimp only
      cases hr with
      | @one f _ hf =>
        obtain ⟨hrest, -⟩ := drop_scanned hbuf hp
        have hblank := @serialRow_blank delim buf tail (buf.length - tail.length) rowEnd k hdelim htail
          (Nat.sub_le _ _) hrest
        rw [hbuf, hf.scan_ended hdelim htail, hstrip f rfl, map_cons, hblank, padded_cons, padded, nil_append,
          take_of_length_le (length_replicate.le)]
        rfl
      | @cons f t r u hf hu =>
        have hform : t ++ delim :: u ++ tail = (t ++ [delim]) ++ (u ++ tail) := by simp
        obtain ⟨hrest, hpos⟩ := drop_scanned (hbuf.trans hform) hp
        have hlen : (t ++ delim :: u).length = (t ++ [delim]).length + u.length := by
          simp only [length_append, length_cons, length_nil]
          omega
        have hcols := ih hu (Nat.sub_le _ _) hrest
            (hinside.imp (fun h => ⟨h.1, by omega⟩) fun h => by omega) fun g hk hg =>
          hlast g (Nat.succ_pos k) (by rw [Nat.add_sub_cancel, ← Nat.sub_add_cancel hk, getElem?_cons_succ, hg])
        have hsep : t ++ delim :: u ++ tail = t ++ delim :: (u ++ tail) := by simp
        rw [hbuf, hsep, hf.scan_separated hdelim, hstrip f rfl, map_cons, hcols, padded_cons]
        rfl

end

section

variable {delim : UInt8} {full : ℕ → Bool} {f t line more rest : Bytes} {r : List Bytes} {rs : List (List Bytes)}
    {q : Bool} {p n : ℕ}

lemma memchr_append (h : c ∉ line) (more : Bytes) : memchr c (line ++ c :: more) = some line.length := by
  induction line with
  | nil => rw [nil_append, memchr, findIdx?_cons, if_pos (beq_self_eq_true c), length_nil]
  | cons d line ih =>
    obtain ⟨hd, hline⟩ := not_or.mp (mem_cons.not.mp h)
    have hrec := ih hline
    rw [memchr] at hrec
    rw [memchr, cons_append, findIdx?_cons, if_neg (by simpa using Ne.symm hd), hrec]
    rfl

lemma memchr_none (h : c ∉ line) : memchr c line = none := by
  rw [memchr, findIdx?_eq_none_iff]
  intro d hd
  exact beq_eq_false_iff_ne.mpr fun hdc => h (hdc ▸ hd)

def resume (loop : Bytes → ℕ → ℕ → List ℕ × ℕ) (full : ℕ → Bool) (rest : Bytes) (p n : ℕ) : List ℕ × ℕ :=
  if rest = [] then ([], p)
  else if full n then ([], p) else (p :: (loop rest p (n + 1)).1, (loop rest p (n + 1)).2)

lemma skip_drop (c : UInt8) (rest : Bytes) : ∃ k, skip c rest = rest.drop k ∧ k ≤ rest.length := by
  rw [skip]
  split_ifs with h
  · cases rest with
    | nil => cases h
    | cons d rest => exact ⟨1, rfl, by simp⟩
  · exact ⟨0, rfl, Nat.zero_le _⟩

lemma fastLoop_last (h : lf ∉ line) : fastLoop full line p n = ([], p + line.length) := by
  rw [fastLoop, memchr_none h]

lemma fastLoop_line (h : lf ∉ line) {k : ℕ} (hk : skip cr more = more.drop k) (hle : k ≤ more.length) :
    fastLoop full (line ++ lf :: more) p n = resume (fastLoop full) full (more.drop k)
    (p + line.length + 1 + k) n := by
  have hdrop : (line ++ lf :: more).drop (line.length + 1) = more := by
    rw [← drop_drop, drop_left]
    rfl
  have hpos : p + ((line ++ lf :: more).length - (more.drop k).length) = p + line.length + 1 + k := by
    rw [length_append, length_cons, length_drop]
    omega
  rw [fastLoop, memchr_append h]
  dsimp only
  rw [hdrop, hk, hpos, resume]

lemma slowLoop_quote : slowLoop full (quote :: rest) q p n = slowLoop full rest (!q) (p + 1) n := by
  rw [slowLoop, if_pos rfl]

lemma slowLoop_byte (hc : c ≠ quote) (h : q = true ∨ c ≠ lf ∧ c ≠ cr) :
    slowLoop full (c :: rest) q p n = slowLoop full rest q (p + 1) n := by
  have hrow : ¬ (q = false ∧ (c = lf ∨ c = cr)) := by
    rintro ⟨rfl, hend⟩
    exact hend.elim (h.resolve_left (by simp)).1 (h.resolve_left (by simp)).2
  rw [slowLoop, if_neg hc, if_neg hrow]

lemma slowLoop_lf : slowLoop full (lf :: more) false p n =
    resume (fun rest => slowLoop full rest false) full more (p + 1) n := by
  have hcr : ¬ (lf = cr) := by decide
  rw [slowLoop, if_neg (by decide), if_pos ⟨rfl, Or.inl rfl⟩, if_neg hcr]
  dsimp only
  rw [Nat.sub_self, add_zero, resume]

lemma slowLoop_crlf : slowLoop full (cr :: lf :: more) false p n =
    resume (fun rest => slowLoop full rest false) full more (p + 2) n := by
  have hskip : (if cr = cr then skip lf (lf :: more) else lf :: more) = more := by
    rw [if_pos rfl, skip, if_pos (by rfl), tail_cons]
  have hpos : p + 1 + ((lf :: more).length - more.length) = p + 2 := by
    rw [length_cons]
    omega
  rw [slowLoop, if_neg (by decide), if_pos ⟨rfl, Or.inr rfl⟩, hskip]
  dsimp only
  rw [hpos, resume]

lemma slowLoop_escape (f : Bytes) :
    slowLoop full (escape f ++ rest) true p n = slowLoop full rest true (p + (escape f).length) n := by
  induction f generalizing p with
  | nil => rfl
  | cons c f ih =>
    rw [escape]
    split_ifs with hc
    · rw [cons_append, cons_append, slowLoop_quote, slowLoop_quote, Bool.not_not, ih]
      congr 1
      simp only [length_cons]
      omega
    · rw [cons_append, slowLoop_byte hc (Or.inl rfl), ih]
      congr 1
      simp only [length_cons]
      omega

lemma slowLoop_bare (hf : ∀ c ∈ f, Plain delim c) :
    slowLoop full (f ++ rest) false p n = slowLoop full rest false (p + f.length) n := by
  induction f generalizing p with
  | nil => rfl
  | cons c f ih =>
    obtain ⟨-, hc, hline⟩ := hf c mem_cons_self
    rw [cons_append, slowLoop_byte hc (Or.inr hline), ih fun d hd => hf d (mem_cons_of_mem c hd)]
    congr 1
    simp only [length_cons]
    omega

lemma FieldText.slow (h : FieldText delim f t) :
    slowLoop full (t ++ rest) false p n = slowLoop full rest false (p + t.length) n := by
  cases h with
  | bare hf => exact slowLoop_bare hf
  | quoted =>
    have hform : quote :: escape f ++ [quote] ++ rest = quote :: (escape f ++ quote :: rest) := by simp
    rw [hform, slowLoop_quote, Bool.not_false, slowLoop_escape, slowLoop_quote, Bool.not_true]
    congr 1
    simp only [length_append, length_cons, length_nil]
    omega

lemma RecordText.slow (hdelim : Separates delim) (h : RecordText delim r t) :
    slowLoop full (t ++ rest) false p n = slowLoop full rest false (p + t.length) n := by
  induction h generalizing p with
  | one hf => exact hf.slow
  | @cons f t r u hf _ ih =>
    have hform : t ++ delim :: u ++ rest = t ++ delim :: (u ++ rest) := by simp
    rw [hform, hf.slow, slowLoop_byte hdelim.1 (Or.inr hdelim.2), ih]
    congr 1
    simp only [length_append, length_cons]
    omega

lemma RecordText.unbroken (hdelim : Separates delim) (h : RecordText delim r t) (hquote : quote ∉ t) :
    lf ∉ t ∧ cr ∉ t := by
  have hfield : ∀ {f u : Bytes}, FieldText delim f u → quote ∉ u → lf ∉ u ∧ cr ∉ u := by
    intro f u hf hu
    cases hf with
    | quoted => exact absurd mem_cons_self hu
    | bare hf => exact ⟨fun hmem => (hf _ hmem).2.2.1 rfl, fun hmem => (hf _ hmem).2.2.2 rfl⟩
  induction h with
  | one hf => exact hfield hf hquote
  | @cons f t r u hf _ ih =>
    rw [mem_append, mem_cons, not_or, not_or] at hquote
    obtain ⟨ht, -, hu⟩ := hquote
    rw [mem_append, mem_cons, mem_append, mem_cons]
    have htl := hfield hf ht
    have hul := ih hu
    exact ⟨by simp [htl.1, hul.1, Ne.symm hdelim.2.1], by simp [htl.2, hul.2, Ne.symm hdelim.2.2]⟩

lemma RecordText.head (hdelim : Separates delim) (h : RecordText delim r t) : t.head? ≠ some cr := by
  have hfield : ∀ {f u : Bytes}, FieldText delim f u → u.head? ≠ some cr := by
    intro f u hf
    cases hf with
    | quoted => exact fun hc => absurd (some.inj hc) (by decide)
    | bare hf =>
      cases f with
      | nil => exact fun hc => by cases hc
      | cons c f => exact fun hc => (hf c mem_cons_self).2.2.2 (some.inj hc)
  cases h with
  | one hf => exact hfield hf
  | @cons f t r u hf _ =>
    cases t with
    | nil => exact fun hc => hdelim.2.2 (some.inj hc)
    | cons c t => exact fun hc => hfield hf hc

lemma FileText.skip_cr (hdelim : Separates delim) (h : FileText delim rs more) :
    FileText delim rs (skip cr more) := by
  rw [skip]
  split_ifs with hcr
  · cases h with
    | nil => cases hcr
    | last hr => exact absurd hcr (hr.head hdelim)
    | @cons r t eol rs more hr heol hrs =>
      cases t with
      | cons c t => exact (hr.head hdelim hcr).elim
      | nil =>
        cases heol with
        | lf => exact absurd (some.inj hcr) (by decide)
        | crlf => exact .cons hr .lf hrs
  · exact h

lemma rowLoop_last (hdelim : Separates delim) (hr : RecordText delim r t) (hq : q = true ∨ quote ∉ t) :
    rowLoop full q t p n = ([], p + t.length) := by
  cases q with
  | true =>
    have hslow := @RecordText.slow delim full t [] r p n hdelim hr
    rw [append_nil, slowLoop.eq_1] at hslow
    exact hslow
  | false => exact fastLoop_last (hr.unbroken hdelim (hq.resolve_left Bool.false_ne_true)).1

lemma rowLoop_step {eol : Bytes} (hdelim : Separates delim) (hr : RecordText delim r t) (heol : Eol eol)
    (hrs : FileText delim rs more)
    (hq : q = true ∨ quote ∉ t) : ∃ k ≤ more.length, FileText delim rs (more.drop k) ∧
      rowLoop full q (t ++ eol ++ more) p n = resume (rowLoop full q) full (more.drop k)
        (p + t.length + eol.length + k) n := by
  cases q with
  | true =>
    refine ⟨0, Nat.zero_le _, hrs, ?_⟩
    have hslow := @RecordText.slow delim full t (eol ++ more) r p n hdelim hr
    rw [← append_assoc] at hslow
    refine hslow.trans ?_
    cases heol with
    | lf => exact slowLoop_lf
    | crlf => exact slowLoop_crlf
  | false =>
    obtain ⟨hlf, hcr⟩ := hr.unbroken hdelim (hq.resolve_left Bool.false_ne_true)
    obtain ⟨k, hk, hle⟩ := skip_drop cr more
    refine ⟨k, hle, hk ▸ hrs.skip_cr hdelim, ?_⟩
    cases heol with
    | lf =>
      have hform : t ++ [lf] ++ more = t ++ lf :: more := by simp
      rw [hform]
      exact fastLoop_line hlf hk hle
    | crlf =>
      have hform : t ++ [cr, lf] ++ more = (t ++ [cr]) ++ lf :: more := by simp
      have hline : lf ∉ t ++ [cr] := by
        rw [mem_append, mem_singleton]
        exact not_or.mpr ⟨hlf, by decide⟩
      have hfast := @fastLoop_line full (t ++ [cr]) more p n hline k hk hle
      rw [length_append, length_singleton] at hfast
      rw [hform]
      exact hfast

end

section

variable {delim : UInt8} {buf text : Bytes} {r : List Bytes} {rs : List (List Bytes)} {q : Bool} {p n off : ℕ}
    {offs : List ℕ}

inductive Split (delim : UInt8) (buf : Bytes) : List (List Bytes) → List ℕ → Prop
  | nil : Split delim buf [] []
  | cons {r : List Bytes} {t tail : Bytes} {rs : List (List Bytes)} {off : ℕ} {offs : List ℕ}
    (hr : RecordText delim r t) (htail : Ended tail)
      (hoff : off ≤ buf.length) (hbuf : buf.drop off = t ++ tail)
      (hnext : tail = [] ∧ off + t.length ≤ offs.headD buf.length ∨ off + t.length < offs.headD buf.length)
        (hrs : Split delim buf rs offs) :
      Split delim buf (r :: rs) (off :: offs)

lemma FileText.eq_nil (h : FileText delim rs []) : rs = [] := by
  generalize htext : ([] : Bytes) = text at h
  cases h with
  | nil => rfl
  | last _ hne => exact absurd htext.symm hne
  | cons _ heol _ => cases heol <;> simp at htext

lemma FileText.ne_nil (h : FileText delim [] text) : text = [] := by
  cases h
  rfl

lemma rowLoop_split (hdelim : Separates delim) (h : FileText delim (r :: rs) text) (hq : q = true ∨ quote ∉ text)
    (hp : p ≤ buf.length)
    (hbuf : buf.drop p = text) : Split delim buf (r :: rs) (p :: (rowLoop (fun _ => false) q text p n).1) := by
  induction hsize : text.length using Nat.strong_induction_on generalizing r rs text p n with
  | _ size ih =>
    have hlen := congrArg length hbuf
    rw [length_drop] at hlen
    cases h with
    | last hr hne =>
      rw [rowLoop_last hdelim hr hq]
      exact .cons hr (Or.inl rfl) hp (hbuf.trans (append_nil _).symm) (Or.inl ⟨rfl, by rw [headD_nil]; omega⟩) .nil
    | @cons _ t eol _ more hr heol hrs =>
      have hqt : q = true ∨ quote ∉ t := hq.imp_right fun hmem ht => hmem (by simp [ht])
      obtain ⟨k, hk, hmore, hloop⟩ :=
        @rowLoop_step delim (fun _ => false) t more r rs q p n eol hdelim hr heol hrs hqt
      have htail : Ended (eol ++ more) := by
        cases heol with
        | lf => exact Or.inr ⟨lf, more, rfl, Or.inl rfl⟩
        | crlf => exact Or.inr ⟨cr, lf :: more, rfl, Or.inr rfl⟩
      have heolpos : 0 < eol.length := by cases heol <;> simp
      rw [length_append, length_append] at hlen hsize
      have hnext : buf.drop (p + t.length + eol.length + k) = more.drop k := by
        have hskip : buf.drop (p + (t.length + eol.length)) = more := by
          rw [← drop_drop, hbuf, ← length_append, drop_left]
        rw [← drop_drop, add_assoc, hskip]
      have hbuf' : buf.drop p = t ++ (eol ++ more) := hbuf.trans (append_assoc _ _ _)
      rw [hloop, resume]
      by_cases hend : more.drop k = []
      · rw [if_pos hend]
        rw [hend] at hmore
        rw [hmore.eq_nil]
        exact .cons hr htail hp hbuf' (Or.inr (by rw [headD_nil]; omega)) .nil
      · rw [if_neg hend, if_neg Bool.false_ne_true]
        rcases rs with _ | ⟨r', rs⟩
        · exact absurd hmore.ne_nil hend
        · refine .cons hr htail hp hbuf' (Or.inr (by rw [headD_cons]; omega)) ?_
          refine ih (more.drop k).length ?_ hmore ?_ ?_ hnext rfl
          · rw [length_drop]
            omega
          · exact hq.imp_right fun hmem hd => hmem (mem_append_right _ (mem_of_mem_drop hd))
          · omega

end

section

variable {full : ℕ → Bool} {rest buf : Bytes} {q : Bool} {p n off : ℕ}

def Next (start loop : (ℕ → Bool) → Bytes → ℕ → ℕ → List ℕ × ℕ) (rest : Bytes) (p : ℕ) : Prop :=
  (∀ full n, start full rest p n = ([], p + rest.length)) ∨
    ∃ k, 0 < k ∧ k ≤ rest.length ∧ ∀ full n, start full rest p n = resume (loop full) full (rest.drop k) (p + k) n

lemma Next.byte {start start' loop : (ℕ → Bool) → Bytes → ℕ → ℕ → List ℕ × ℕ} (h : Next start' loop rest (p + 1))
    (hstep : ∀ full n, start full (c :: rest) p n = start' full rest (p + 1) n) :
      Next start loop (c :: rest) p := by
  obtain hnone | ⟨k, hpos, hle, hrow⟩ := h
  · refine Or.inl fun full n => ?_
    rw [hstep, hnone, length_cons, add_assoc, add_comm 1]
  · refine Or.inr ⟨k + 1, Nat.succ_pos k, by rw [length_cons]; omega, fun full n => ?_⟩
    rw [hstep, hrow, drop_succ_cons, add_assoc, add_comm 1]

lemma fastLoop_next (rest : Bytes) (p : ℕ) : Next fastLoop fastLoop rest p := by
  by_cases h : lf ∈ rest
  · obtain ⟨line, more, rfl, hline⟩ := eq_append_cons_of_mem h
    obtain ⟨k, hk, hle⟩ := skip_drop cr more
    refine Or.inr ⟨line.length + 1 + k, by omega, ?_, fun full n => ?_⟩
    · rw [length_append, length_cons]
      omega
    · have hdrop : (line ++ lf :: more).drop (line.length + 1 + k) = more.drop k := by
        rw [← drop_drop, ← drop_drop, drop_left]
        rfl
      rw [fastLoop_line hline hk hle, hdrop, add_assoc p, add_assoc p]
  · exact Or.inl fun full n => fastLoop_last h

lemma slowLoop_next (rest : Bytes) (q : Bool) (p : ℕ) :
    Next (fun full rest => slowLoop full rest q) (fun full rest => slowLoop full rest false) rest p := by
  induction rest generalizing q p with
  | nil => exact Or.inl fun full n => slowLoop.eq_1 full q p n
  | cons c rest ih =>
    by_cases hc : c = quote
    · exact (ih (!q) (p + 1)).byte fun full n => by rw [slowLoop, if_pos hc]
    by_cases hrow : q = false ∧ (c = lf ∨ c = cr)
    · obtain ⟨k, hk, hle⟩ : ∃ k, (if c = cr then skip lf rest else rest) = rest.drop k ∧ k ≤ rest.length := by
        split_ifs
        · exact skip_drop lf rest
        · exact ⟨0, rfl, Nat.zero_le _⟩
      refine Or.inr ⟨k + 1, Nat.succ_pos k, by rw [length_cons]; omega, fun full n => ?_⟩
      have hpos : p + 1 + (rest.length - (rest.drop k).length) = p + (k + 1) := by
        rw [length_drop]
        omega
      dsimp only
      rw [slowLoop, if_neg hc, if_pos hrow]
      dsimp only
      rw [hk, hpos, drop_succ_cons, resume]
    · exact (ih q (p + 1)).byte fun full n => by rw [slowLoop, if_neg hc, if_neg hrow]

lemma rowLoop_next (q : Bool) (rest : Bytes) (p : ℕ) :
    (∀ full n, rowLoop full q rest p n = ([], p + rest.length)) ∨
    ∃ k, 0 < k ∧ k ≤ rest.length ∧ ∀ full n, rowLoop full q rest p n =
      resume (rowLoop full q) full (rest.drop k) (p + k) n := by
  cases q with
  | true => exact slowLoop_next rest false p
  | false => exact fastLoop_next rest p

lemma rowLoop_unlimited (q : Bool) (rest : Bytes) (p n n' : ℕ) :
    rowLoop (fun _ => false) q rest p n = rowLoop (fun _ => false) q rest p n' := by
  induction hsize : rest.length using Nat.strong_induction_on generalizing rest p n n' with
  | _ size ih =>
    obtain hnone | ⟨k, hpos, hle, hrow⟩ := rowLoop_next q rest p
    · rw [hnone, hnone]
    · have hlt : (rest.drop k).length < size := by
        rw [length_drop]
        omega
      rw [hrow, hrow, resume, resume, ih _ hlt (rest.drop k) (p + k) (n + 1) (n' + 1) rfl]

lemma rowLoop_limited (q : Bool) (rest : Bytes) (p n m : ℕ) :
    (rowLoop (fun n' => n + m ≤ n') q rest p n).1 = (rowLoop (fun _ => false) q rest p 1).1.take m ∧
      ((rowLoop (fun _ => false) q rest p 1).1.drop m = [] ∧ (rowLoop (fun n' => n + m ≤ n') q rest p n).2 =
        p + rest.length ∨
        ∃ j, rest.drop j ≠ [] ∧ (rowLoop (fun n' => n + m ≤ n') q rest p n).2 = p + j ∧
          (rowLoop (fun _ => false) q rest p 1).1.drop m =
            (p + j) :: (rowLoop (fun _ => false) q (rest.drop j) (p + j) 1).1) := by
  induction hsize : rest.length using Nat.strong_induction_on generalizing rest p n m with
  | _ size ih =>
    obtain hnone | ⟨k, hpos, hle, hrow⟩ := rowLoop_next q rest p
    · rw [hnone, hnone]
      exact ⟨(take_nil).symm, Or.inl ⟨drop_nil, hsize ▸ rfl⟩⟩
    · rw [hrow, hrow, resume, resume]
      by_cases hend : rest.drop k = []
      · rw [if_pos hend, if_pos hend]
        have hk := drop_eq_nil_iff.mp hend
        exact ⟨(take_nil).symm, Or.inl ⟨drop_nil, by omega⟩⟩
      · rw [if_neg hend, if_neg hend, if_neg Bool.false_ne_true, rowLoop_unlimited q (rest.drop k) (p + k) 2 1]
        cases m with
        | zero =>
          rw [if_pos (by simp)]
          exact ⟨rfl, Or.inr ⟨k, hend, rfl, rfl⟩⟩
        | succ m =>
          have hlt : (rest.drop k).length < size := by
            rw [length_drop]
            omega
          obtain ⟨hrows, hstop⟩ := ih _ hlt (rest.drop k) (p + k) (n + 1) m rfl
          have hshift : n + 1 + m = n + (m + 1) := by omega
          rw [hshift] at hrows hstop
          rw [if_neg (by simp), take_succ_cons, drop_succ_cons, hrows]
          refine ⟨rfl, hstop.imp (fun h => ⟨h.1, ?_⟩) fun ⟨j, hj, hat, hdrop⟩ => ⟨k + j, ?_, ?_, ?_⟩⟩
          · rw [h.2, length_drop]
            omega
          · rwa [← drop_drop]
          · rw [hat, add_assoc]
          · rw [hdrop, drop_drop, add_assoc]

lemma limited_rows (buf : Bytes) (off m : ℕ) (q : Bool) :
    (buildRowOffsetsLimited buf off m q).1 = (rowOffsets q buf off).take m ∧
      rowOffsets q buf (buildRowOffsetsLimited buf off m q).2 = (rowOffsets q buf off).drop m := by
  rw [buildRowOffsetsLimited]
  by_cases hlong : buf.length ≤ off
  · have hnone : rowOffsets q buf off = [] := if_pos hlong
    rw [if_pos (Or.inr hlong), hnone, take_nil, drop_nil]
    exact ⟨rfl, rfl⟩
  · cases m with
    | zero => exact ⟨rfl, rfl⟩
    | succ m =>
      have hrows : rowOffsets q buf off = off :: (rowLoop (fun _ => false) q (buf.drop off) off 1).1 :=
        if_neg hlong
      obtain ⟨htake, hstop⟩ := rowLoop_limited q (buf.drop off) off 1 m
      rw [add_comm 1 m] at htake hstop
      rw [if_neg (by omega), hrows, take_succ_cons, drop_succ_cons]
      refine ⟨congrArg (off :: ·) htake, ?_⟩
      obtain ⟨hdone, hend⟩ | ⟨j, hj, hat, hdrop⟩ := hstop
      · have hover : buf.length ≤ (rowLoop (fun n' => m + 1 ≤ n') q (buf.drop off) off 1).2 := by
          rw [hend, length_drop]
          omega
        rw [hdone]
        exact if_pos hover
      · have hin : ¬ buf.length ≤ off + j := by
          rw [drop_drop] at hj
          exact fun hle => hj (drop_eq_nil_iff.mpr hle)
        rw [hdrop, drop_drop]
        dsimp only
        rw [hat]
        exact if_neg hin

lemma chunked_rows (buf : Bytes) (q : Bool) (off : ℕ) (limits : List ℕ) :
    chunked buf q off limits = (rowOffsets q buf off).take limits.sum := by
  induction limits generalizing off with
  | nil => rfl
  | cons m ms ih =>
    obtain ⟨hrows, hnext⟩ := limited_rows buf off m q
    rw [chunked, ih, hnext, hrows, sum_cons, take_add]

end

section

variable {delim : UInt8} {buf text : Bytes} {rs : List (List Bytes)} {q : Bool} {offs : List ℕ}

lemma rowOffsets_split (hdelim : Separates delim) (before : Bytes) (h : FileText delim rs text)
    (hq : q = true ∨ quote ∉ text) :
    Split delim (before ++ text) rs (rowOffsets q (before ++ text) before.length) := by
  rw [rowOffsets, drop_left]
  cases rs with
  | nil =>
    rw [h.ne_nil, append_nil, if_pos le_rfl]
    exact .nil
  | cons r rs =>
    have hne : 0 < text.length := length_pos_of_ne_nil fun hnil => by
      subst hnil
      exact absurd h.eq_nil (cons_ne_nil r rs)
    rw [length_append, if_neg (by omega)]
    exact rowLoop_split hdelim h hq (by rw [length_append]; omega) drop_left

lemma hasQuotes_or (before text : Bytes) : hasQuotes (before ++ text) before.length = true ∨ quote ∉ text := by
  by_cases h : quote ∈ text
  · obtain ⟨line, more, rfl, hline⟩ := eq_append_cons_of_mem h
    rw [hasQuotes, drop_left, memchr_append hline]
    exact Or.inl rfl
  · exact Or.inr h

def Read (delim : UInt8) (buf : Bytes) (r : List Bytes) (off : ℕ) : Prop :=
  (scanFields delim r.length (buf.drop off)).1 = r ∧ Ended (scanFields delim r.length (buf.drop off)).2

lemma Split.read (hdelim : Separates delim) (h : Split delim buf rs offs) :
    List.Forall₂ (Read delim buf) rs offs := by
  induction h with
  | nil => exact .nil
  | cons hr htail _ hbuf _ _ ih =>
    have hscan := hr.scan hdelim htail
    exact .cons (by rw [Read, hbuf, hscan]; exact ⟨rfl, htail⟩) ih

lemma Split.serial (hdelim : Separates delim) (h : Split delim buf rs offs) {ncols : ℕ}
    (hlast : ∀ r ∈ rs, ∀ f, r[ncols - 1]? = some f → f.getLast? ≠ some cr) :
    (csvParseSerial delim buf ncols offs).map (fun row => row.map fun c => c.getD []) = rs.map (padded ncols) := by
  induction h with
  | nil => rfl
  | cons hr htail hoff hbuf hnext _ ih =>
    obtain ⟨hrow, hrows⟩ := forall_mem_cons.mp hlast
    rw [csvParseSerial, map_cons, serialRow_record hdelim hr htail hoff hbuf hnext fun f _ hf =>
      hrow f hf, ih hrows, map_cons]

lemma read_same {rs' : List (List Bytes)} {buf' : Bytes} {offs' : List ℕ}
    (h : List.Forall₂ (Read delim buf) rs offs)
    (h' : List.Forall₂ (Read delim buf') rs' offs') {i : ℕ} {r : List Bytes} {off off' : ℕ} (hr : rs[i]? = some r)
    (hr' : rs'[i]? = some r) (hoff : offs[i]? = some off) (hoff' : offs'[i]? = some off') :
    (scanFields delim r.length (buf.drop off)).1 = (scanFields delim r.length (buf'.drop off')).1 := by
  have hread : ∀ {rs : List (List Bytes)} {buf : Bytes} {offs : List ℕ} {off : ℕ},
    List.Forall₂ (Read delim buf) rs offs → rs[i]? = some r →
      offs[i]? = some off → (scanFields delim r.length (buf.drop off)).1 = r := by
    intro rs buf offs off h hr hoff
    obtain ⟨hi, rfl⟩ := List.getElem?_eq_some_iff.mp hr
    obtain ⟨hj, rfl⟩ := List.getElem?_eq_some_iff.mp hoff
    exact ((forall₂_iff_get.mp h).2 i hi hj).1
  rw [hread h hr hoff, hread h' hr' hoff']

/-- The rows and fields of a rendered list of records, however the rows are split, and its columns. -/
theorem records_recovered (hdelim : Separates delim) (h : FileText delim rs text) (before : Bytes) :
    (∀ q, q = true ∨ quote ∉ text →
      List.Forall₂ (Read delim (before ++ text)) rs (rowOffsets q (before ++ text) before.length)) ∧
    List.Forall₂ (Read delim (before ++ text)) rs (buildRowOffsets (before ++ text) before.length) ∧
    (∀ buf off limits, chunked buf (hasQuotes buf off) off limits = (buildRowOffsets buf off).take limits.sum) ∧
    (∀ rs' text', FileText delim rs' text' → ∀ (i : ℕ) (r : List Bytes) off off', rs[i]? = some r →
      rs'[i]? = some r →
      (buildRowOffsets (before ++ text) before.length)[i]? = some off →
        (buildRowOffsets (before ++ text') before.length)[i]? = some off' →
      (scanFields delim r.length ((before ++ text).drop off)).1 =
        (scanFields delim r.length ((before ++ text').drop off')).1) ∧
    ∀ ncols, (∀ r ∈ rs, ∀ f, r[ncols - 1]? = some f → f.getLast? ≠ some cr) →
      (csvParseSerial delim (before ++ text) ncols (buildRowOffsets (before ++ text) before.length)).map
        (fun row => row.map fun c => c.getD []) =
        rs.map (padded ncols) := by
  have hsplit : ∀ {rs text}, FileText delim rs text →
      Split delim (before ++ text) rs (buildRowOffsets (before ++ text) before.length) :=
    fun h => rowOffsets_split hdelim before h (hasQuotes_or before _)
  exact ⟨fun q hq => (rowOffsets_split hdelim before h hq).read hdelim, (hsplit h).read hdelim,
    fun buf off limits => chunked_rows buf _ off limits, fun rs' text' h' i r off off' hr hr' hoff hoff' =>
      read_same ((hsplit h).read hdelim) ((hsplit h').read hdelim) hr hr' hoff hoff', fun ncols hlast =>
        (hsplit h).serial hdelim hlast⟩

/-- A quoted separator, an empty line, an unterminated last record. -/
theorem records_recovered_quoted :
    List.Forall₂ (Read 44 [34, 97, 44, 34, 44, 98, 13, 10, 10, 99]) [[[97, 44], [98]], [[]], [[99]]]
      (buildRowOffsets [34, 97, 44, 34, 44, 98, 13, 10, 10, 99] 0) := by
  have hbare : ∀ c : UInt8, Plain 44 c → FieldText 44 [c] [c] :=
    fun c hc => .bare fun d hd => mem_singleton.mp hd ▸ hc
  have hblank : FieldText 44 [] [] := .bare fun _ hc => absurd hc not_mem_nil
  have hthird : FileText 44 [[[99]]] [99] := .last (.one (hbare 99 (by decide))) (by decide)
  have htext : FileText 44 [[[97, 44], [98]], [[]], [[99]]] [34, 97, 44, 34, 44, 98, 13, 10, 10, 99] :=
    .cons (.cons (.quoted [97, 44]) (.one (hbare 98 (by decide)))) .crlf (.cons (.one hblank) .lf hthird)
  exact (records_recovered (by decide) htext []).2.1

/-- A last record of one empty field without quotes leaves no trace. -/
theorem blank_last_lost :
    ¬ ∀ r r' t t', RecordText 44 r t → RecordText 44 r' t' → (buildRowOffsets (t ++ [lf] ++ t') 0).length =
    [r, r'].length := by
  intro h
  have hone : RecordText 44 [[97]] [97] := .one (.bare fun d hd => mem_singleton.mp hd ▸ by decide)
  have hblank : RecordText 44 [[]] [] := .one (.bare fun _ hc => absurd hc not_mem_nil)
  have hrows : buildRowOffsets [97, 10] 0 = [0] := by
    have hloop := @fastLoop_line (fun _ => false) [97] [] 0 1 (by decide) 0 rfl le_rfl
    exact congrArg (fun l : List ℕ × ℕ => 0 :: l.1) hloop
  have hlen := h _ _ _ _ hone hblank
  exact absurd (hlen.symm.trans (congrArg length hrows)) (by decide)

end

end Rayforce.Csv

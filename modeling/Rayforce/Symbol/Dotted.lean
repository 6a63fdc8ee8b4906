import Rayforce.Symbol.Sound

namespace Rayforce.Symbol

open Library.Words List Option

def pieces (s : Bytes) : List Bytes :=
  if s.head? = some dot then ((s.drop 1).splitOn dot).modifyHead (dot :: ·) else s.splitOn dot

def Dotted (s : Bytes) : Prop := 2 ≤ (pieces s).length ∧ (pieces s).length ≤ 255 ∧ [] ∉ pieces s

instance (s : Bytes) : Decidable (Dotted s) := inferInstanceAs (Decidable (_ ∧ _ ∧ _))

section

variable {s r g : Bytes}

lemma length_splitOn (s : Bytes) : (s.splitOn dot).length = s.count dot + 1 := by
  induction s with
  | nil => rfl
  | cons c s ih =>
    rw [splitOn_cons_eq_if_modifyHead, count_cons]
    split_ifs
    · rw [length_cons, ih]
    · rw [length_modifyHead, ih]

lemma takeWhile_cut {a : Bytes} (h : dot ∉ a) (as : Bytes) :
    (a ++ dot :: as).takeWhile (· ≠ dot) = a ∧ (a ++ dot :: as).dropWhile (· ≠ dot) = dot :: as := by
  have ha : ∀ c ∈ a, decide (c ≠ dot) = true := by
    intro c hc
    rw [decide_eq_true_eq]
    rintro rfl
    exact h hc
  constructor
  · rw [takeWhile_append_of_pos ha]
    simp
  · rw [dropWhile_append_of_pos ha]
    simp

lemma takeWhile_all (h : dot ∉ s) : s.takeWhile (· ≠ dot) = s ∧ s.dropWhile (· ≠ dot) = [] := by
  have hs : ∀ c ∈ s, decide (c ≠ dot) = true := by
    intro c hc
    rw [decide_eq_true_eq]
    rintro rfl
    exact h hc
  exact ⟨takeWhile_eq_self_iff.mpr hs, dropWhile_eq_nil_iff.mpr hs⟩

lemma cutSeg_single (h : dot ∉ s) : cutSeg false s = (s, none) := by
  obtain ⟨h₁, h₂⟩ := takeWhile_all h
  simp only [cutSeg, Bool.false_eq_true, if_false, drop_zero, take_zero, nil_append, h₁, h₂, tail?_nil]

lemma cutSeg_first {a as : Bytes} (h : dot ∉ a) : cutSeg false (a ++ dot :: as) = (a, some as) := by
  obtain ⟨h₁, h₂⟩ := takeWhile_cut h as
  simp only [cutSeg, Bool.false_eq_true, if_false, drop_zero, take_zero, nil_append, h₁, h₂, tail?_cons]

lemma cutSeg_leading (r : Bytes) : cutSeg true (dot :: r) = (dot :: (cutSeg false r).1, (cutSeg false r).2) := by
  simp [cutSeg]

lemma segLoop_spec (n : ℕ) (hn : (s.splitOn dot).length = n) (hs : s ≠ []) (hlast : s.getLast? ≠ some dot) :
    (segLoop n false s).1 = decide ([] ∉ s.splitOn dot) ∧
      ((segLoop n false s).1 = true → (segLoop n false s).2 = s.splitOn dot) := by
  induction n generalizing s with
  | zero => exact absurd (length_eq_zero_iff.mp hn) (splitOn_ne_nil _ _)
  | succ n ih =>
    by_cases hd : dot ∈ s
    · obtain ⟨a, as, rfl, ha⟩ := eq_append_cons_of_mem hd
      have hsplit : (a ++ dot :: as).splitOn dot = a :: as.splitOn dot := splitOn_append_cons_self_of_not_mem ha as
      have has : as ≠ [] := by
        rintro rfl
        simp at hlast
      have hlast' : as.getLast? ≠ some dot := by
        rw [getLast?_append, getLast?_cons_of_ne_nil has] at hlast
        obtain ⟨x, hx⟩ := ne_none_iff_exists'.mp (show as.getLast? ≠ none by simpa using has)
        rw [hx] at hlast ⊢
        simpa using hlast
      rw [hsplit, length_cons, Nat.succ.injEq] at hn
      obtain ⟨h₁, h₂⟩ := ih hn has hlast'
      rw [segLoop, if_neg hs, cutSeg_first ha, hsplit]
      by_cases hnil : a = []
      · simp [hnil]
      · simp only [if_neg hnil, mem_cons, not_or, h₁]
        refine ⟨?_, fun ht => ?_⟩
        · simp [Ne.symm hnil]
        · rw [h₂ (h₁.trans ht)]
    · rw [segLoop, if_neg hs, cutSeg_single hd, splitOn_eq_singleton hd]
      simp [hs, Ne.symm hs]

lemma pieces_leading (r : Bytes) : pieces (dot :: r) = (r.splitOn dot).modifyHead (dot :: ·) := by
  rw [pieces, head?_cons, if_pos rfl, drop_one, tail_cons]

lemma pieces_plain (h : s.head? ≠ some dot) : pieces s = s.splitOn dot := if_neg h

lemma segLoop_leading (hr : r ≠ []) (hlast : r.getLast? ≠ some dot) :
    (segLoop (r.splitOn dot).length true (dot :: r)).1 = decide ([] ∉ pieces (dot :: r)) ∧
      ((segLoop (r.splitOn dot).length true (dot :: r)).1 = true →
        (segLoop (r.splitOn dot).length true (dot :: r)).2 = pieces (dot :: r)) := by
  rw [pieces_leading]
  by_cases hd : dot ∈ r
  · obtain ⟨a, as, rfl, ha⟩ := eq_append_cons_of_mem hd
    have hsplit : (a ++ dot :: as).splitOn dot = a :: as.splitOn dot := splitOn_append_cons_self_of_not_mem ha as
    have has : as ≠ [] := by
      rintro rfl
      simp at hlast
    have hlast' : as.getLast? ≠ some dot := by
      rw [getLast?_append, getLast?_cons_of_ne_nil has] at hlast
      obtain ⟨x, hx⟩ := ne_none_iff_exists'.mp (show as.getLast? ≠ none by simpa using has)
      rw [hx] at hlast ⊢
      simpa using hlast
    obtain ⟨h₁, h₂⟩ := segLoop_spec (as.splitOn dot).length rfl has hlast'
    rw [hsplit, length_cons, modifyHead_cons, segLoop, if_neg (cons_ne_nil _ _), cutSeg_leading,
      cutSeg_first ha]
    simp only [cons_ne_nil, if_false, h₁]
    refine ⟨by simp, fun ht => ?_⟩
    rw [h₂ (h₁.trans ht)]
  · rw [splitOn_eq_singleton hd, modifyHead_cons, length_singleton, segLoop, if_neg (cons_ne_nil _ _),
      cutSeg_leading, cutSeg_single hd]
    simp

lemma nil_mem_of_last {r : Bytes} (h : r.getLast? = some dot) : ∃ q, r.splitOn dot = q ++ [[]] ∧ q ≠ [] := by
  obtain ⟨q, rfl⟩ := getLast?_eq_some_iff.mp h
  exact ⟨q.splitOn dot, splitOn_append_cons_self q [], splitOn_ne_nil _ _⟩

lemma not_dotted_of_length (h : (pieces s).length = 1) : ¬Dotted s := by
  rintro ⟨h₂, -⟩
  omega

lemma not_dotted_of_last (h : s.getLast? = some dot) : ¬Dotted s := by
  rintro ⟨hlen, -, hnil⟩
  cases s with
  | nil => simp at h
  | cons c r =>
    by_cases hc : c = dot
    · subst hc
      rw [pieces_leading] at hlen hnil
      cases r with
      | nil => simp at hlen
      | cons c' r =>
        rw [getLast?_cons_cons] at h
        obtain ⟨q, hq, hne⟩ := nil_mem_of_last h
        cases q with
        | nil => exact hne rfl
        | cons b q =>
          rw [hq] at hnil
          simp at hnil
    · rw [pieces_plain (by simpa using hc)] at hnil
      obtain ⟨q, hq, -⟩ := nil_mem_of_last h
      rw [hq] at hnil
      simp at hnil

lemma dottedSegs_eq (s : Bytes) : dottedSegs s = if Dotted s then some (pieces s) else none := by
  by_cases hd : dot ∈ s
  · by_cases hlast : s.getLast? = some dot
    · rw [if_neg (not_dotted_of_last hlast)]
      simp [dottedSegs, scanDotted, hd, hlast]
    · have hne : s ≠ [] := ne_nil_of_mem hd
      by_cases hlead : s.head? = some dot
      · obtain ⟨c, r, rfl⟩ := exists_cons_of_ne_nil hne
        obtain rfl : c = dot := by simpa using hlead
        by_cases hr : dot ∈ r
        · have hrne : r ≠ [] := ne_nil_of_mem hr
          have hlast' : r.getLast? ≠ some dot := by rwa [getLast?_cons_of_ne_nil hrne] at hlast
          obtain ⟨h₁, h₂⟩ := segLoop_leading hrne hlast'
          have hlen : (pieces (dot :: r)).length = r.count dot + 1 := by
            rw [pieces_leading, length_modifyHead, length_splitOn]
          have hcount : 1 ≤ r.count dot := count_pos_iff.mpr hr
          rw [length_splitOn] at h₁ h₂
          simp only [dottedSegs, scanDotted, hd, not_true, if_false, hlast, head?_cons, decide_true, drop_one,
            tail_cons, hr, and_false, if_true, Dotted, hlen]
          by_cases hbig : 255 < r.count dot + 1
          · rw [if_pos hbig]
            exact (if_neg fun h => absurd h.2.1 (by omega)).symm
          · rw [if_neg hbig]
            by_cases hok : [] ∉ pieces (dot :: r)
            · rw [if_pos (h₁.trans (decide_eq_true hok)), if_pos ⟨by omega, by omega, hok⟩,
                h₂ (h₁.trans (decide_eq_true hok))]
            · rw [if_neg (by rw [h₁, decide_eq_false hok]; simp), if_neg (fun h => hok h.2.2)]
        · rw [if_neg (not_dotted_of_length (by rw [pieces_leading, splitOn_eq_singleton hr]; rfl))]
          simp [dottedSegs, scanDotted, hlast, hr]
      · obtain ⟨h₁, h₂⟩ := segLoop_spec (s.splitOn dot).length rfl hne hlast
        have hlen : (pieces s).length = s.count dot + 1 := by rw [pieces_plain hlead, length_splitOn]
        have hcount : 1 ≤ s.count dot := count_pos_iff.mpr hd
        rw [length_splitOn] at h₁ h₂
        simp only [dottedSegs, scanDotted, hd, not_true, if_false, hlast, hlead, decide_false,
          Bool.false_eq_true, false_and, Dotted, hlen]
        rw [pieces_plain hlead]
        by_cases hbig : 255 < s.count dot + 1
        · rw [if_pos hbig]
          exact (if_neg fun h => absurd h.2.1 (by omega)).symm
        · rw [if_neg hbig]
          by_cases hok : [] ∉ s.splitOn dot
          · rw [if_pos (h₁.trans (decide_eq_true hok)), if_pos ⟨by omega, by omega, hok⟩,
              h₂ (h₁.trans (decide_eq_true hok))]
          · rw [if_neg (by rw [h₁, decide_eq_false hok]; simp), if_neg (fun h => hok h.2.2)]
  · have hlead : s.head? ≠ some dot := fun h => hd (mem_of_mem_head? h)
    rw [if_neg (not_dotted_of_length (by rw [pieces_plain hlead, splitOn_eq_singleton hd]; rfl))]
    simp [dottedSegs, scanDotted, hd]

lemma join_pieces (s : Bytes) : [dot].intercalate (pieces s) = s := by
  by_cases hlead : s.head? = some dot
  · cases s with
    | nil => simp at hlead
    | cons c r =>
      obtain rfl : c = dot := by simpa using hlead
      have hr : [dot].intercalate (r.splitOn dot) = r := intercalate_splitOn dot
      have hne := splitOn_ne_nil dot r
      rw [pieces_leading]
      generalize r.splitOn dot = l at hr hne
      subst hr
      match l with
      | [] => exact absurd rfl hne
      | [a] => simp
      | a :: b :: l => simp [intercalate_cons_cons]
  · rw [pieces_plain hlead]
    exact intercalate_splitOn dot

lemma not_dotted_of_mem (hg : g ∈ pieces s) : ¬Dotted g := by
  have hfree : ∀ l : Bytes, ∀ p ∈ l.splitOn dot, dot ∉ p := by
    intro l
    induction l with
    | nil => simp
    | cons c l ih =>
      rw [splitOn_cons_eq_if_modifyHead]
      split_ifs with hc
      · intro p hp
        rcases mem_cons.mp hp with rfl | hp
        · simp
        · exact ih p hp
      · have hne := splitOn_ne_nil dot l
        cases hl : l.splitOn dot with
        | nil => exact absurd hl hne
        | cons a as =>
          rw [hl] at ih
          intro p hp
          rcases mem_cons.mp hp with rfl | hp
          · intro hm
            rcases mem_cons.mp hm with heq | hm
            · exact hc (by simp [heq])
            · exact ih a mem_cons_self hm
          · exact ih p (mem_cons_of_mem _ hp)
  apply not_dotted_of_length
  by_cases hlead : s.head? = some dot
  · cases s with
    | nil => simp at hlead
    | cons c r =>
      obtain rfl : c = dot := by simpa using hlead
      have hf := hfree r
      rw [pieces_leading] at hg
      cases hl : r.splitOn dot with
      | nil => exact absurd hl (splitOn_ne_nil dot r)
      | cons a as =>
        rw [hl] at hg hf
        rcases mem_cons.mp hg with rfl | hg
        · rw [pieces_leading, length_modifyHead, splitOn_eq_singleton (hf a mem_cons_self)]
          rfl
        · have hd := hf g (mem_cons_of_mem _ hg)
          rw [pieces_plain (fun h => hd (mem_of_mem_head? h)), splitOn_eq_singleton hd]
          rfl
  · rw [pieces_plain hlead] at hg
    have hd := hfree s g hg
    rw [pieces_plain (fun h => hd (mem_of_mem_head? h)), splitOn_eq_singleton hd]
    rfl

end

end Rayforce.Symbol

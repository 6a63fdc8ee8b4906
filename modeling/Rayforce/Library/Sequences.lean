import Mathlib

/-! Lists: fallible steps, and picking from a sorted list. -/

namespace Rayforce.Library.Sequences

open List

variable {α β : Type}
variable {ε : Type}

lemma mapM_some_rel {f : α → Option β} {R : α → β → Prop} {xs : List α} (h : ∀ a ∈ xs, ∃ b, f a = some b ∧ R a b) :
    ∃ bs, xs.mapM f = some bs ∧ List.Forall₂ R xs bs := by
  induction xs with
  | nil => exact ⟨[], rfl, .nil⟩
  | cons a xs ih =>
    obtain ⟨⟨b, hb, hr⟩, hxs⟩ := forall_mem_cons.mp h
    obtain ⟨bs, hbs, hrs⟩ := ih hxs
    exact ⟨b :: bs, by rw [mapM_cons, hb, hbs]; rfl, .cons hr hrs⟩

lemma mapM_none {f : α → Option β} {xs : List α} {a : α} (ha : a ∈ xs) (hf : f a = none) : xs.mapM f = none := by
  induction xs with
  | nil => exact absurd ha not_mem_nil
  | cons x xs ih =>
    rw [mapM_cons]
    obtain rfl | hmem := mem_cons.mp ha
    · rw [hf]
      rfl
    · rw [ih hmem]
      cases f x <;> rfl

lemma mapM_range {f : ℕ → Option β} {count : ℕ} (h : ∀ i < count, ∃ b, f i = some b) :
    ∃ bs, (List.range count).mapM f = some bs ∧ bs.length = count ∧ ∀ i < count, bs[i]? = f i := by
  obtain ⟨bs, hbs, hrel⟩ := @mapM_some_rel _ _ f (fun i b => f i = some b) (range count) fun i hi => by
    obtain ⟨b, hb⟩ := h i (mem_range.mp hi)
    exact ⟨b, hb, hb⟩
  obtain ⟨hlen, hget⟩ := forall₂_iff_get.mp hrel
  rw [length_range] at hlen
  refine ⟨bs, hbs, hlen.symm, fun i hi => ?_⟩
  have hcell := hget i (by rwa [length_range]) (hlen ▸ hi)
  rw [get_eq_getElem, getElem_range] at hcell
  rw [hcell, getElem?_eq_getElem (hlen ▸ hi)]
  rfl

lemma mapM_zip_rel {γ : Type} {P : α → β → Prop} {Q : α → γ → Prop} {f : α × β → Option γ}
    {xs : List α} {ys : List β}
    (h : List.Forall₂ P xs ys) (hf : ∀ a ∈ xs, ∀ b, P a b → ∃ c, f (a, b) = some c ∧ Q a c) :
    ∃ cs, (xs.zip ys).mapM f = some cs ∧ List.Forall₂ Q xs cs := by
  induction h with
  | nil => exact ⟨[], rfl, .nil⟩
  | cons hab _ ih =>
    obtain ⟨c, hc, hq⟩ := hf _ mem_cons_self _ hab
    obtain ⟨cs, hcs, hqs⟩ := ih fun a ha => hf a (mem_cons_of_mem _ ha)
    exact ⟨c :: cs, by rw [zip_cons_cons, mapM_cons, hc, hcs]; rfl, .cons hq hqs⟩

lemma mapM_eq_ok_map {γ ε : Type} {f : α → Except ε γ} {g : β → γ} {xs : List α} {ys : List β}
    (h : List.Forall₂ (fun a b => f a = .ok (g b)) xs ys) : xs.mapM f = .ok (ys.map g) := by
  induction h with
  | nil => rfl
  | cons hab _ ih =>
    rw [mapM_cons, hab, ih]
    rfl

lemma mapM_except_map {γ ε : Type} {f : α → Except ε β} {f' : α → Except ε γ} {g : β → γ} {xs : List α}
    (h : ∀ a ∈ xs, f' a = (f a).map g) : xs.mapM f' = (xs.mapM f).map (List.map g) := by
  induction xs with
  | nil => rfl
  | cons a xs ih =>
    obtain ⟨ha, hxs⟩ := forall_mem_cons.mp h
    rw [mapM_cons, mapM_cons, ha, ih hxs]
    cases f a with
    | error e => rfl
    | ok b => cases xs.mapM f <;> rfl

lemma forall₂_of_mapM {f : α → Except ε β} {xs : List α} {ys : List β} (h : xs.mapM f = .ok ys) :
    List.Forall₂ (fun a b => f a = .ok b) xs ys := by
  induction xs generalizing ys with
  | nil =>
    obtain rfl := Except.ok.inj h
    exact .nil
  | cons a xs ih =>
    rw [mapM_cons] at h
    cases hf : f a with
    | error e =>
      rw [hf] at h
      cases h
    | ok b =>
      cases hxs : xs.mapM f with
      | error e =>
        rw [hf, hxs] at h
        cases h
      | ok bs =>
        rw [hf, hxs] at h
        obtain rfl := Except.ok.inj h
        exact .cons hf (ih hxs)

lemma mem_of_mapM {f : α → Except ε β} {xs : List α} {ys : List β} {a : α} {b : β} (h : xs.mapM f = .ok ys)
    (ha : a ∈ xs) (hb : f a = .ok b) : b ∈ ys := by
  obtain ⟨i, hi, rfl⟩ := getElem_of_mem ha
  have hrel := forall₂_of_mapM h
  have hi' : i < ys.length := hrel.length_eq ▸ hi
  have hget := (forall₂_iff_get.mp hrel).2 i hi hi'
  rw [get_eq_getElem, hb] at hget
  exact Except.ok.inj hget ▸ getElem_mem hi'

lemma exists_of_mapM {f : α → Except ε β} {xs : List α} {ys : List β} {b : β} (h : xs.mapM f = .ok ys)
    (hb : b ∈ ys) :
    ∃ a ∈ xs, f a = .ok b := by
  obtain ⟨i, hi, rfl⟩ := getElem_of_mem hb
  have hrel := forall₂_of_mapM h
  have hi' : i < xs.length := hrel.length_eq.symm ▸ hi
  exact ⟨xs[i], getElem_mem hi', (forall₂_iff_get.mp hrel).2 i hi' hi⟩

lemma exists_mapM_ok {f : α → Except ε β} {xs : List α} (h : ∀ a ∈ xs, ∃ b, f a = .ok b) :
    ∃ ys, xs.mapM f = .ok ys := by
  induction xs with
  | nil => exact ⟨[], rfl⟩
  | cons a xs ih =>
    obtain ⟨⟨b, hb⟩, hxs⟩ := forall_mem_cons.mp h
    obtain ⟨ys, hys⟩ := ih hxs
    exact ⟨b :: ys, by rw [mapM_cons, hb, hys]; rfl⟩

lemma ok_of_mapM {f : α → Except ε β} {xs : List α} {ys : List β} {a : α} (h : xs.mapM f = .ok ys) (ha : a ∈ xs) :
    ∃ b, f a = .ok b := by
  obtain ⟨i, hi, rfl⟩ := getElem_of_mem ha
  have hrel := forall₂_of_mapM h
  exact ⟨_, (forall₂_iff_get.mp hrel).2 i hi (hrel.length_eq ▸ hi)⟩

inductive SameOutcome {γ ε : Type} (R : β → γ → Prop) : Except ε β → Except ε γ → Prop
  | ok {b : β} {c : γ} (h : R b c) : SameOutcome R (.ok b) (.ok c)
  | error (e : ε) : SameOutcome R (.error e) (.error e)

lemma mapM_sameOutcome {γ ε : Type} {R : β → γ → Prop} {f : α → Except ε β} {f' : α → Except ε γ} {xs : List α}
    (h : ∀ a ∈ xs, SameOutcome R (f a) (f' a)) : SameOutcome (List.Forall₂ R) (xs.mapM f) (xs.mapM f') := by
  induction xs with
  | nil => exact .ok .nil
  | cons a xs ih =>
    obtain ⟨ha, hxs⟩ := forall_mem_cons.mp h
    have hrest := ih hxs
    rw [mapM_cons, mapM_cons]
    generalize f a = x at ha ⊢
    generalize f' a = y at ha ⊢
    generalize xs.mapM f = rest at hrest ⊢
    generalize xs.mapM f' = rest' at hrest ⊢
    cases ha with
    | error e => exact .error e
    | ok hab =>
      cases hrest with
      | error e => exact .error e
      | ok habs => exact .ok (.cons hab habs)

section

variable {le : α → α → Bool} [LT α] {a b : α} {l : List α}

/-- `a` comes before `b` in a stable sort of an increasing list by `le`. -/
def Before (le : α → α → Bool) (a b : α) : Prop := le a b = true ∧ (le b a = true → a < b)

instance [DecidableRel fun a b : α => a < b] : DecidableRel (Before le) := fun _ _ => instDecidableAnd

lemma Before.asymm [Std.Asymm fun a b : α => a < b] (h : Before le a b) : ¬Before le b a :=
  fun h' => Std.Asymm.asymm (r := fun a b : α => a < b) a b (h.2 h'.1) (h'.2 h.1)

section

variable [Std.Total fun a b => le a b = true] [IsTrans α fun a b => le a b = true]

lemma orderedInsert_before (ha : ∀ b ∈ l, a < b) (hl : l.Pairwise (Before le)) :
    (l.orderedInsert (fun a b => le a b = true) a).Pairwise (Before le) := by
  induction l with
  | nil => exact pairwise_singleton _ _
  | cons b l ih =>
    obtain ⟨hb, hl'⟩ := pairwise_cons.mp hl
    by_cases hab : le a b = true
    · rw [orderedInsert, if_pos hab]
      refine pairwise_cons.mpr ⟨fun c hc => ⟨?_, fun _ => ha c hc⟩, hl⟩
      rcases mem_cons.mp hc with rfl | hc
      · exact hab
      · exact IsTrans.trans (r := fun a b => le a b = true) a b c hab (hb c hc).1
    · rw [orderedInsert, if_neg hab]
      refine pairwise_cons.mpr ⟨fun c hc => ?_, ih (fun c hc => ha c (mem_cons_of_mem _ hc)) hl'⟩
      rcases (mem_orderedInsert _).mp hc with rfl | hc
      · exact ⟨(Std.Total.total (r := fun a b => le a b = true) b c).resolve_right hab, fun hcb => absurd hcb hab⟩
      · exact hb c hc

lemma insertionSort_before (hl : l.Pairwise fun a b => a < b) :
    (l.insertionSort fun a b => le a b = true).Pairwise (Before le) := by
  induction l with
  | nil => exact .nil
  | cons a l ih =>
    obtain ⟨ha, hl⟩ := pairwise_cons.mp hl
    exact orderedInsert_before (fun b hb => ha b ((mem_insertionSort _).mp hb)) (ih hl)

end

end

section

variable {R : α → α → Bool} {p : α → Bool} {lt : α → α → Prop} {S A B M : List α} {a b : α}

def Apart (R : α → α → Bool) (g h : List α) : Prop :=
  ∃ (hg : g ≠ []) (hh : h ≠ []), R (g.getLast hg) (h.head hh) = false

def Next (lt : α → α → Prop) (S : List α) (a b : α) : Prop := lt a b ∧ ∀ w ∈ S, lt a w → ¬lt w b

section

variable (hasymm : ∀ a b, lt a b → ¬lt b a)
include hasymm

lemma next_filter (h : (A ++ a :: (M ++ b :: B)).Pairwise lt) (hM : ∀ x ∈ M, p x = false) :
    Next lt ((A ++ a :: (M ++ b :: B)).filter p) a b := by
  obtain ⟨-, hrest, hA⟩ := pairwise_append.mp h
  obtain ⟨ha, hrest⟩ := pairwise_cons.mp hrest
  obtain ⟨-, hB, -⟩ := pairwise_append.mp hrest
  refine ⟨ha b (mem_append_right _ mem_cons_self), fun w hw haw hwb => ?_⟩
  obtain ⟨hw, hpw⟩ := mem_filter.mp hw
  rcases mem_append.mp hw with hwA | hw
  · exact hasymm _ _ haw (hA w hwA a mem_cons_self)
  rcases mem_cons.mp hw with rfl | hw
  · exact hasymm _ _ haw haw
  rcases mem_append.mp hw with hwM | hw
  · exact Bool.false_ne_true ((hM w hwM).symm.trans hpw)
  rcases mem_cons.mp hw with rfl | hwB
  · exact hasymm _ _ hwb hwb
  · exact hasymm _ _ hwb ((pairwise_cons.mp hB).1 w hwB)

lemma isChain_next (h : S.Pairwise lt) : S.IsChain (Next lt S) := by
  rw [isChain_iff_forall_rel_of_append_cons_cons]
  rintro a b A B rfl
  have hnext := @next_filter _ (fun _ => true) lt A B [] a b hasymm h fun x hx => absurd hx not_mem_nil
  rwa [filter_true] at hnext

lemma filter_before [DecidableRel lt] (h : (A ++ a :: B).Pairwise lt) :
    (A ++ a :: B).filter (fun x => lt x a) = A := by
  obtain ⟨-, hrest, hA⟩ := pairwise_append.mp h
  have hleft : A.filter (fun x => lt x a) = A :=
    filter_eq_self.mpr fun x hx => decide_eq_true (hA x hx a mem_cons_self)
  have hright : (a :: B).filter (fun x => lt x a) = [] := by
    refine filter_eq_nil_iff.mpr fun x hx hlt => ?_
    rcases mem_cons.mp hx with rfl | hxB
    · exact hasymm _ _ (of_decide_eq_true hlt) (of_decide_eq_true hlt)
    · exact hasymm _ _ (of_decide_eq_true hlt) ((pairwise_cons.mp hrest).1 x hxB)
  rw [filter_append, hleft, hright, append_nil]

end

lemma splitBy_map {R' : β → β → Bool} {f : β → α} {l : List β} (h : ∀ a ∈ l, ∀ b ∈ l, R (f a) (f b) = R' a b) :
    (l.map f).splitBy R = (l.splitBy R').map (List.map f) := by
  have hmem : ∀ {g a}, g ∈ l.splitBy R' → a ∈ g → a ∈ l := by
    intro g a hg ha
    rw [← flatten_splitBy R' l]
    exact mem_flatten_of_mem hg ha
  refine splitBy_eq_iff.mpr ⟨?_, ?_, ?_, ?_⟩
  · rw [← map_flatten, flatten_splitBy]
  · intro hnil
    obtain ⟨g, hg, hg'⟩ := mem_map.mp hnil
    exact ne_nil_of_mem_splitBy hg (map_eq_nil_iff.mp hg')
  · intro g hg
    obtain ⟨g', hg', rfl⟩ := mem_map.mp hg
    rw [isChain_map]
    refine (isChain_of_mem_splitBy hg').imp_of_mem_imp fun a b ha hb hab => ?_
    rwa [h a (hmem hg' ha) b (hmem hg' hb)]
  · rw [isChain_map]
    refine (isChain_getLast_head_splitBy R' l).imp_of_mem_imp fun g g' hg hg' => ?_
    rintro ⟨hne, hne', hR⟩
    refine ⟨fun hnil => hne (map_eq_nil_iff.mp hnil), fun hnil => hne' (map_eq_nil_iff.mp hnil), ?_⟩
    rw [getLast_map, head_map, h _ (hmem hg (getLast_mem hne)) _ (hmem hg' (head_mem hne')), hR]

lemma filter_flatten {G : List (List α)} (h : ∀ g ∈ G, (∀ x ∈ g, p x = true) ∨ ∀ x ∈ g, p x = false) :
    G.flatten.filter p = (G.filter (·.any p)).flatten := by
  induction G with
  | nil => rfl
  | cons g G ih =>
    rw [flatten_cons, filter_append, ih fun g hg => h g (mem_cons_of_mem _ hg), filter_cons]
    rcases h g mem_cons_self with hall | hnone
    · rw [filter_eq_self.mpr hall]
      cases g with
      | nil => cases any [] p <;> rfl
      | cons x g => rw [if_pos (any_eq_true.mpr ⟨x, mem_cons_self, hall x mem_cons_self⟩), flatten_cons]
    · rw [filter_eq_nil_iff.mpr fun x hx => by rw [hnone x hx]; exact Bool.false_ne_true,
        if_neg fun hany => by
          obtain ⟨x, hx, hpx⟩ := any_eq_true.mp hany
          exact Bool.false_ne_true ((hnone x hx).symm.trans hpx)]
      rfl

lemma not_next (h : (A ++ a :: (M ++ b :: B)).Pairwise lt) (hM : M ≠ []) :
    ¬Next lt (A ++ a :: (M ++ b :: B)) a b := by
  obtain ⟨x, M, rfl⟩ := exists_cons_of_ne_nil hM
  obtain ⟨ha, hrest⟩ := pairwise_cons.mp (pairwise_append.mp h).2.1
  have hax : lt a x := ha x mem_cons_self
  have hxb : lt x b := (pairwise_cons.mp hrest).1 b (mem_append_right _ mem_cons_self)
  exact fun hnext => hnext.2 x (by simp) hax hxb

lemma isChain_filter {β : Type} {Q : β → β → Prop} {keep : β → Bool} {G : List β} (h : G.IsChain Q)
    (hgap : ∀ pre g mid k post, G = pre ++ g :: (mid ++ k :: post) → mid ≠ [] → keep g = true → keep k = true →
      (∀ x ∈ mid, keep x = false) → Q g k) : (G.filter keep).IsChain Q := by
  induction G with
  | nil => exact .nil
  | cons g G ih =>
    have hrest := ih h.tail fun pre g' mid k post hG => hgap (g :: pre) g' mid k post (by rw [hG, cons_append])
    by_cases hg : keep g = true
    · rw [filter_cons_of_pos hg]
      cases hF : G.filter keep with
      | nil => exact .singleton g
      | cons k ks =>
        rw [hF] at hrest
        obtain ⟨mid, post, rfl, hmid, hk, -⟩ := filter_eq_cons_iff.mp hF
        refine isChain_cons_cons.mpr ⟨?_, hrest⟩
        cases mid with
        | nil => exact (isChain_cons_cons.mp h).1
        | cons x mid => exact hgap [] g (x :: mid) k post rfl (cons_ne_nil x mid) hg hk fun x hx =>
          Bool.eq_false_of_not_eq_true (hmid x hx)
    · rwa [filter_cons_of_neg hg]

lemma run_constant {g : List α} (hg : g.IsChain fun x y => p x = p y) :
    (∀ x ∈ g, p x = true) ∨ ∀ x ∈ g, p x = false := by
  induction g with
  | nil => exact .inl fun x hx => absurd hx not_mem_nil
  | cons a g ih =>
    cases g with
    | nil => cases hpa : p a <;> simp [hpa]
    | cons b g =>
      obtain ⟨hab, hg⟩ := isChain_cons_cons.mp hg
      refine (ih hg).imp (fun h => ?_) fun h => ?_ <;>
        exact forall_mem_cons.mpr ⟨hab.trans (h b mem_cons_self), h⟩

section

variable (hasymm : ∀ a b, lt a b → ¬lt b a) (hsorted : S.Pairwise lt)
include hasymm hsorted

lemma isChain_run {g : List α} (hg : g ∈ S.splitBy R) : g.IsChain fun a b => Next lt S a b ∧ R a b = true := by
  have hinfix : g <:+: S := by
    obtain ⟨pre, post, hG⟩ := append_of_mem hg
    exact ⟨pre.flatten, post.flatten,
      by rw [← flatten_splitBy R S, hG, flatten_append, flatten_cons, append_assoc]⟩
  have hchain := IsChain.infix (isChain_next hasymm hsorted) hinfix
  have hnext := isChain_iff_forall_rel_of_append_cons_cons.mp hchain
  have hR := isChain_iff_forall_rel_of_append_cons_cons.mp (isChain_of_mem_splitBy hg)
  exact isChain_iff_forall_rel_of_append_cons_cons.mpr fun a b A B hAB => ⟨hnext hAB, hR hAB⟩

/-- Splitting a part of a sorted list splits the list, where the part's neighbours agree. -/
lemma splitBy_filter (hnext : ∀ a ∈ S, ∀ b ∈ S, Next lt S a b → R a b = true → p a = p b)
    (hgap : ∀ a ∈ S.filter p, ∀ b ∈ S.filter p, Next lt (S.filter p) a b → ¬Next lt S a b → R a b = false) :
    (S.filter p).splitBy R = (S.splitBy R).filter (·.any p) := by
  have hflat := flatten_splitBy R S
  have hconst : ∀ g ∈ S.splitBy R, (∀ x ∈ g, p x = true) ∨ ∀ x ∈ g, p x = false := by
    intro g hg
    have hmem : ∀ x ∈ g, x ∈ S := fun x hx => hflat ▸ mem_flatten_of_mem hg hx
    exact run_constant ((isChain_run hasymm hsorted hg).imp_of_mem_imp fun a b ha hb hab =>
      hnext a (hmem a ha) b (hmem b hb) hab.1 hab.2)
  refine splitBy_eq_iff.mpr ⟨?_, ?_, ?_, ?_⟩
  · rw [← filter_flatten hconst, hflat]
  · exact fun hnil => nil_notMem_splitBy R S (mem_of_mem_filter hnil)
  · exact fun g hg => isChain_of_mem_splitBy (mem_of_mem_filter hg)
  · refine isChain_filter (isChain_getLast_head_splitBy R S) fun pre g mid k post hG hmid hg hk hno => ?_
    have hin : ∀ h ∈ pre ++ g :: (mid ++ k :: post), h ∈ S.splitBy R := fun h hh => hG ▸ hh
    have hgS : g ∈ S.splitBy R := hin g (by simp)
    have hkS : k ∈ S.splitBy R := hin k (by simp)
    have hgne : g ≠ [] := ne_nil_of_mem_splitBy hgS
    have hkne : k ≠ [] := ne_nil_of_mem_splitBy hkS
    have hall : ∀ h ∈ S.splitBy R, h.any p = true → ∀ x ∈ h, p x = true := by
      intro h hh hany
      obtain ⟨x, hx, hpx⟩ := any_eq_true.mp hany
      exact (hconst h hh).resolve_right fun hnone => Bool.false_ne_true ((hnone x hx).symm.trans hpx)
    -- the two groups meet at the last row of the one and the first row of the other
    have hS : S = (pre.flatten ++ g.dropLast) ++ g.getLast hgne ::
        (mid.flatten ++ k.head hkne :: (k.tail ++ post.flatten)) := by
      have hg' : g = g.dropLast ++ [g.getLast hgne] := (dropLast_append_getLast hgne).symm
      have hk' : k = k.head hkne :: k.tail := (cons_head_tail hkne).symm
      calc S = pre.flatten ++ (g ++ (mid.flatten ++ (k ++ post.flatten))) := by
            rw [← hflat, hG, flatten_append, flatten_cons, flatten_append, flatten_cons]
        _ = pre.flatten ++ ((g.dropLast ++ [g.getLast hgne]) ++
          (mid.flatten ++ (k.head hkne :: k.tail ++ post.flatten))) := by
            rw [← hg', ← hk']
        _ = _ := by rw [append_assoc, append_assoc, singleton_append, cons_append]
    have hmidp : ∀ x ∈ mid.flatten, p x = false := by
      intro x hx
      obtain ⟨h, hh, hxh⟩ := mem_flatten.mp hx
      exact Bool.eq_false_of_not_eq_true (List.any_eq_false.mp (hno h hh) x hxh)
    have hmidne : mid.flatten ≠ [] := by
      obtain ⟨h, mid, rfl⟩ := exists_cons_of_ne_nil hmid
      have hh : h ≠ [] := ne_nil_of_mem_splitBy (hin h (by simp))
      simp [hh]
    have hlast := mem_filter.mpr ⟨hflat ▸ mem_flatten_of_mem hgS (getLast_mem hgne),
      hall g hgS hg _ (getLast_mem hgne)⟩
    have hhead := mem_filter.mpr ⟨hflat ▸ mem_flatten_of_mem hkS (head_mem hkne), hall k hkS hk _ (head_mem hkne)⟩
    refine ⟨hgne, hkne, hgap _ hlast _ hhead ?_ ?_⟩
    · rw [hS] at hsorted ⊢
      exact next_filter hasymm hsorted hmidp
    · rw [hS] at hsorted ⊢
      exact not_next hsorted hmidne

lemma splitBy_begins {pre post : List (List α)} {g : List α} (hG : S.splitBy R = pre ++ g :: post) {r : α}
    (hr : r ∈ g.head?) :
    ∀ a ∈ S, Next lt S a r → R a r = false := by
  intro a ha hnext
  have hS : S = pre.flatten ++ r :: (g.tail ++ post.flatten) := by
    rw [← flatten_splitBy R S, hG, flatten_append, flatten_cons, ← cons_append, cons_head?_tail hr]
  have hnil : [] ∉ pre ++ g :: post := hG ▸ nil_notMem_splitBy R S
  have hchain := isChain_getLast_head_splitBy R S
  rw [hG] at hchain
  have hmem : a ∈ pre.flatten := by
    rw [hS] at ha hsorted
    rcases mem_append.mp ha with hpre | hrest
    · exact hpre
    rcases mem_cons.mp hrest with rfl | hrest
    · exact absurd hnext.1 (hasymm _ _ hnext.1)
    · exact absurd hnext.1 (hasymm _ _ ((pairwise_cons.mp (pairwise_append.mp hsorted).2.1).1 a hrest))
  cases pre using List.reverseRecOn with
  | nil => exact absurd hmem not_mem_nil
  | append_singleton pre h _ =>
    obtain ⟨hne, hgne, hR⟩ := (isChain_append.mp hchain).2.2 h (by simp) g (by simp)
    have hhead : g.head hgne = r := by
      rw [head?_eq_some_head hgne] at hr
      exact Option.some_inj.mp hr
    rw [hhead] at hR
    obtain rfl | hlt : a = h.getLast hne ∨ lt a (h.getLast hne) := by
      rw [flatten_append, flatten_singleton, ← dropLast_append_getLast hne, ← append_assoc] at hS hmem
      rw [hS] at hsorted
      rcases mem_append.mp hmem with hbefore | hlast
      · exact .inr ((pairwise_append.mp (pairwise_append.mp hsorted).1).2.2 a hbefore _ (mem_singleton_self _))
      · exact .inl (mem_singleton.mp hlast)
    · exact hR
    · have hlast : h.getLast hne ∈ S := by
        rw [hS]
        exact mem_append_left _ (mem_flatten_of_mem (by simp) (getLast_mem hne))
      have hltr : lt (h.getLast hne) r := by
        rw [hS] at hsorted
        exact (pairwise_append.mp hsorted).2.2 _ (mem_flatten_of_mem (by simp) (getLast_mem hne)) r mem_cons_self
      exact absurd hltr (hnext.2 _ hlast hlt)

lemma splitBy_heads (hnodup : S.Nodup) : ∃ l : List α, l.length = (S.splitBy R).length ∧ l.Nodup ∧
    ∀ r ∈ l, r ∈ S ∧ ∀ a ∈ S, Next lt S a r → R a r = false := by
  have hnil := nil_notMem_splitBy R S
  have hlen : ∀ {G : List (List α)}, [] ∉ G → (G.filterMap head?).length = G.length ∧
      (G.filterMap head?).Sublist G.flatten := by
    intro G hG
    induction G with
    | nil => exact ⟨rfl, .slnil⟩
    | cons g G ih =>
      obtain ⟨hne, hG'⟩ := not_or.mp fun h => hG (mem_cons.mpr h)
      obtain ⟨x, g, rfl⟩ := exists_cons_of_ne_nil (Ne.symm hne)
      obtain ⟨hlen, hsub⟩ := ih hG'
      have hcons : ((x :: g) :: G).filterMap head? = x :: G.filterMap head? := rfl
      rw [hcons, flatten_cons, length_cons, length_cons, hlen]
      exact ⟨rfl, (hsub.trans (sublist_append_right g _)).cons_cons x⟩
  obtain ⟨hlen, hsub⟩ := hlen hnil
  rw [flatten_splitBy] at hsub
  refine ⟨(S.splitBy R).filterMap head?, hlen, hnodup.sublist hsub, fun r hr => ⟨hsub.subset hr, ?_⟩⟩
  obtain ⟨g, hg, hgr⟩ := mem_filterMap.mp hr
  obtain ⟨pre, post, hG⟩ := append_of_mem hg
  exact splitBy_begins hasymm hsorted hG hgr

end

end

end Rayforce.Library.Sequences

import Rayforce.Env.Scopes

namespace Rayforce.Env

open Rayforce.Dict Library.Ordered Library.Words Rayforce.Symbol Option

section

variable (N : Names)

structure Scopes.Ok (E : Scopes) : Prop where
  nodup : ∀ f ∈ E.frames, (keys f).Nodup
  plain : ∀ f ∈ E.frames, ∀ s ∈ keys f, N.segs s = []
  global_nodup : (keys E.global).Nodup
  global_plain : ∀ s ∈ keys E.global, N.segs s = [] ∨ Refused N s

variable {N} {E E' : Scopes} {s t : Sym} {v : Option Val} {x : Val} {st st' f : Store}
    {cap : Option ℕ} {op : EnvOp}

lemma bindSlot_keys (h : bindSlot cap st s v = .ok st') (hn : (keys st).Nodup) :
    (keys st').Nodup ∧ ∀ t ∈ keys st', t ∈ keys st ∨ t = s := by
  cases v with
  | none =>
    obtain rfl := Except.ok.inj h
    refine ⟨nodup_drop hn, fun t ht => ?_⟩
    rw [keys_drop hn] at ht
    exact .inl (List.mem_of_mem_filter ht)
  | some x =>
    obtain rfl := bindSlot_some h
    refine ⟨nodup_put hn, fun t ht => ?_⟩
    rw [keys_put] at ht
    split at ht
    · exact .inl ht
    · rcases List.mem_append.mp ht with ht | ht
      · exact .inl ht
      · exact .inr (List.mem_singleton.mp ht)

lemma setIn_keys (h : setIn N cap st s v = .ok st') (hn : (keys st).Nodup) :
    (keys st').Nodup ∧ ∀ t ∈ keys st', t ∈ keys st ∨ N.segs t = [] := by
  by_cases hp : N.segs s = []
  · rw [setIn, if_pos hp] at h
    obtain ⟨hn', hk⟩ := bindSlot_keys h hn
    refine ⟨hn', fun t ht => (hk t ht).imp_right ?_⟩
    rintro rfl
    exact hp
  · obtain ⟨a, b, l, hsegs⟩ := exists_segs hp
    have ha : N.segs a = [] := segs_of_mem (s := s) (by rw [hsegs]; exact List.mem_cons_self)
    have hslot : ∀ {o}, bindSlot cap st a o = .ok st' → (keys st').Nodup ∧ ∀ t ∈ keys st', t ∈ keys st ∨
        N.segs t = [] := by
      intro o ho
      obtain ⟨hn', hk⟩ := bindSlot_keys ho hn
      refine ⟨hn', fun t ht => (hk t ht).imp_right ?_⟩
      rintro rfl
      exact ha
    cases v with
    | some x =>
      rw [setIn, if_neg hp, hsegs, envSetDotted] at h
      cases hcur : setPath x (lookup a st) (b :: l) with
      | error e =>
        rw [hcur] at h
        cases h
      | ok cur =>
        rw [hcur] at h
        exact hslot (o := some cur) h
    | none =>
      rw [setIn, if_neg hp, hsegs, envSetDotted] at h
      cases hcur : delPath (lookup a st) (b :: l) with
      | error e =>
        rw [hcur] at h
        cases h
      | ok r =>
        rw [hcur] at h
        cases r with
        | none =>
          obtain rfl := Except.ok.inj h
          exact ⟨hn, fun t ht => .inl ht⟩
        | some cur => exact hslot (o := if cur.len = 0 then none else some cur) h

lemma map_ok {ε α β : Type} {f : α → β} {e : Except ε α} {b : β} (h : e.map f = .ok b) :
    ∃ a, e = .ok a ∧ f a = b := by
  cases e with
  | error e => cases h
  | ok a => exact ⟨a, rfl, Except.ok.inj h⟩

lemma rayEnvSet_ok (h : rayEnvSet N E s v = .ok E') :
    ¬ Refused N s ∧ ∃ st', setIn N (some envCap) E.global s v = .ok st' ∧ E' = { E with global := st' } := by
  rw [rayEnvSet] at h
  split at h
  · cases h
  · rename_i hr
    obtain ⟨st', hs, he⟩ := map_ok h
    exact ⟨hr, st', hs, he.symm⟩

lemma rayEnvSetLocal_ok {fs : List Store} (hf : E.frames = f :: fs) (h : rayEnvSetLocal N E s v = .ok E') :
    ¬ Refused N s ∧ ∃ st', setIn N none f s v = .ok st' ∧ E' = { E with frames := st' :: fs } := by
  rw [rayEnvSetLocal, hf] at h
  split at h
  · cases h
  · rename_i hr
    obtain ⟨st', hs, he⟩ := map_ok h
    exact ⟨hr, st', hs, he.symm⟩

lemma rayEnvSetLocal_of_nil (hf : E.frames = []) : rayEnvSetLocal N E s v = rayEnvSet N E s v := by
  rw [rayEnvSetLocal, hf]
  split
  · rename_i hr
    rw [rayEnvSet, if_pos hr]
  · rfl

lemma Scopes.Ok.set (hE : E.Ok N) (h : rayEnvSet N E s v = .ok E') : E'.Ok N := by
  obtain ⟨-, st', hs, rfl⟩ := rayEnvSet_ok h
  obtain ⟨hn, hk⟩ := setIn_keys hs hE.global_nodup
  exact ⟨hE.nodup, hE.plain, hn, fun t ht => (hk t ht).elim (hE.global_plain t) .inl⟩

lemma Scopes.Ok.setLocal (hE : E.Ok N) (h : rayEnvSetLocal N E s v = .ok E') : E'.Ok N := by
  cases hf : E.frames with
  | nil => exact hE.set (by rwa [rayEnvSetLocal_of_nil hf] at h)
  | cons f fs =>
    obtain ⟨-, st', hs, rfl⟩ := rayEnvSetLocal_ok hf h
    have hmem : f ∈ E.frames := by rw [hf]; exact List.mem_cons_self
    have hfs : ∀ g ∈ fs, g ∈ E.frames := fun g hg => by rw [hf]; exact List.mem_cons_of_mem _ hg
    obtain ⟨hn, hk⟩ := setIn_keys hs (hE.nodup f hmem)
    refine ⟨fun g hg => ?_, fun g hg => ?_, hE.global_nodup, hE.global_plain⟩
    · rcases List.mem_cons.mp hg with rfl | hg
      · exact hn
      · exact hE.nodup g (hfs g hg)
    · rcases List.mem_cons.mp hg with rfl | hg
      · exact fun t ht => (hk t ht).elim (hE.plain f hmem t) id
      · exact hE.plain g (hfs g hg)

lemma Scopes.Ok.step (hE : E.Ok N) (op : EnvOp) : (envStep N E op).Ok N := by
  rw [envStep]
  cases h : envCall N E op with
  | error e => exact hE
  | ok E' =>
    cases op with
    | set s v => exact hE.set h
    | setLocal s v => exact hE.setLocal h
    | push =>
      rw [envCall, rayEnvPushScope] at h
      split at h
      · cases h
      · obtain rfl := Except.ok.inj h
        refine ⟨fun f hf => ?_, fun f hf => ?_, hE.global_nodup, hE.global_plain⟩
        · rcases List.mem_cons.mp hf with rfl | hf
          · exact List.nodup_nil
          · exact hE.nodup f hf
        · rcases List.mem_cons.mp hf with rfl | hf
          · exact fun s hs => (List.not_mem_nil hs).elim
          · exact hE.plain f hf
    | pop =>
      obtain rfl := Except.ok.inj h
      exact ⟨fun f hf => hE.nodup f (List.mem_of_mem_tail hf), fun f hf => hE.plain f (List.mem_of_mem_tail hf),
        hE.global_nodup, hE.global_plain⟩

lemma Scopes.Ok.run (hE : E.Ok N) (ops : List EnvOp) : (envRun N E ops).Ok N := by
  induction ops generalizing E with
  | nil => exact hE
  | cons op ops ih => exact ih (hE.step op)

lemma registered_ok {builtins : List (Sym × Val)} (hb : ∀ b ∈ builtins, N.segs b.1 = [] ∨ Refused N b.1) :
    (registered builtins).Ok N := by
  suffices ∀ E : Scopes, E.Ok N → (builtins.foldl rayEnvBindFlat E).Ok N from
    this ⟨[], []⟩ ⟨fun _ hf => (List.not_mem_nil hf).elim, fun _ hf => (List.not_mem_nil hf).elim, List.nodup_nil,
      fun _ hs => (List.not_mem_nil hs).elim⟩
  induction builtins with
  | nil => exact fun E hE => hE
  | cons b builtins ih =>
    intro E hE
    refine ih (fun c hc => hb c (List.mem_cons_of_mem _ hc)) _ ?_
    rw [rayEnvBindFlat]
    cases hs : bindSlot (some envCap) E.global b.1 (some b.2) with
    | error e => exact hE
    | ok st =>
      obtain ⟨hn, hk⟩ := bindSlot_keys hs hE.global_nodup
      refine ⟨hE.nodup, hE.plain, hn, fun t ht => (hk t ht).elim (hE.global_plain t) ?_⟩
      rintro rfl
      exact hb b List.mem_cons_self

end

section

variable {N : Names} {E : Scopes} {s t : Sym} {v : Option Val} {x w : Val} {st st' f f' : Store} {fs : List Store}
   {cap : Option ℕ}

lemma lookupFlat_eq (E : Scopes) (t : Sym) :
    E.lookupFlat t = (E.frames.findSome? (lookup t)).or (lookup t E.global) := by
  rw [Scopes.lookupFlat, List.findSome?_append, List.findSome?_singleton]

lemma lookupFlat_cons (hf : E.frames = f :: fs) (t : Sym) :
    E.lookupFlat t = (lookup t f).or (Scopes.lookupFlat ⟨E.global, fs⟩ t) := by
  rw [Scopes.lookupFlat, hf, List.cons_append, List.findSome?_cons]
  cases lookup t f with
  | none => rfl
  | some v => rfl

lemma lookupFlat_mk (g : Store) (f : Store) (fs : List Store) (t : Sym) :
    Scopes.lookupFlat ⟨g, f :: fs⟩ t = (lookup t f).or (Scopes.lookupFlat ⟨g, fs⟩ t) := lookupFlat_cons rfl t

lemma rayEnvGet_eq (E : Scopes) (s : Sym) :
    rayEnvGet N E s = (E.lookupFlat s).or (walk (N.rest s) (E.lookupFlat (N.head s))) := by
  rw [rayEnvGet, Names.rest, Names.head]
  cases N.segs s with
  | nil =>
    change (E.lookupFlat s).or none = (E.lookupFlat s).or (E.lookupFlat s)
    rw [or_none, Option.or_self]
  | cons h rest => rfl

lemma lookup_of_not_mem (h : s ∉ keys st) : lookup s st = none := lookup_eq_none h

lemma Scopes.Ok.lookupFlat_dotted (hE : E.Ok N) (hr : ¬ Refused N s) (hs : N.segs s ≠ []) :
    E.lookupFlat s = none := by
  have hframes : E.frames.findSome? (lookup s) = none :=
    List.findSome?_eq_none_iff.mpr fun f hf => lookup_of_not_mem fun hm => hs (hE.plain f hf s hm)
  rw [lookupFlat_eq, hframes, none_or]
  exact lookup_of_not_mem fun hm => (hE.global_plain s hm).elim hs hr

lemma Scopes.Ok.get_eq (hE : E.Ok N) (hr : ¬ Refused N s) :
    rayEnvGet N E s = walk (N.rest s) (E.lookupFlat (N.head s)) := by
  rw [rayEnvGet_eq]
  by_cases hs : N.segs s = []
  · rw [head_of_plain hs, Names.rest, hs]
    exact or_self
  · rw [hE.lookupFlat_dotted hr hs, none_or]

lemma pathGet_path (st : Store) (s : Sym) : pathGet st (N.path s) = walk (N.rest s) (lookup (N.head s) st) := by
  rw [path_eq]
  rfl

structure Changed (N : Names) (st : Store) (s : Sym) (st' : Store) : Prop where
  others : ∀ q, ¬ q <+: N.path s → ¬ N.path s <+: q → pathGet st' q = pathGet st q
  heads : ∀ t, t ≠ N.head s → lookup t st' = lookup t st

lemma setIn_changed (hn : (keys st).Nodup) (hc : ClearIn N st s) (h : setIn N cap st s v = .ok st') :
    Changed N st s st' := by
  have hhead : ∀ t, t ≠ N.head s → some t ≠ (N.path s).head? := by
    intro t ht he
    rw [path_eq] at he
    exact ht (some.inj he)
  cases v with
  | some x =>
    have hb := setIn_bound hc h
    exact ⟨hb.others, fun t ht => hb.heads t (hhead t ht)⟩
  | none =>
    have hb := setIn_unbound hn hc h
    exact ⟨hb.others, fun t ht => hb.heads t (hhead t ht)⟩

lemma Changed.walk_eq (h : Changed N st s st') (ht : ¬ Related N s t) :
    walk (N.rest t) (lookup (N.head t) st') = walk (N.rest t) (lookup (N.head t) st) := by
  rw [← pathGet_path, ← pathGet_path]
  exact h.others _ (fun hp => ht (.inr hp)) fun hp => ht (.inl hp)

lemma lookupFlat_global (hn : E.frames.findSome? (lookup t) = none) (st : Store) :
    Scopes.lookupFlat { E with global := st } t = lookup t st := by
  rw [lookupFlat_eq, hn, none_or]

lemma get_global_others (h : Changed N E.global s st') (ht : ¬ Related N s t) :
    rayEnvGet N { E with global := st' } t = rayEnvGet N E t := by
  have hflat : Scopes.lookupFlat { E with global := st' } t = E.lookupFlat t := by
    rw [lookupFlat_eq, lookupFlat_eq, h.heads t (ne_head ht)]
  rw [rayEnvGet_eq, rayEnvGet_eq, hflat]
  congr 1
  rw [lookupFlat_eq, lookupFlat_eq]
  cases E.frames.findSome? (lookup (N.head t)) with
  | none => exact h.walk_eq ht
  | some w => rfl

lemma lookupFlat_local (hf : E.frames = f :: fs) (h : Changed N f s f') (ht : t ≠ N.head s) :
    Scopes.lookupFlat { E with frames := f' :: fs } t = E.lookupFlat t := by
  rw [lookupFlat_cons hf, lookupFlat_mk, h.heads t ht]

lemma get_local_others (hf : E.frames = f :: fs) (h : Changed N f s f') (ht : ¬ Related N s t)
    (hb : N.head t = N.head s → (lookup (N.head s) f = none ↔ lookup (N.head s) f' = none)) :
    rayEnvGet N { E with frames := f' :: fs } t = rayEnvGet N E t := by
  rw [rayEnvGet_eq, rayEnvGet_eq, lookupFlat_local hf h (ne_head ht)]
  congr 1
  by_cases he : N.head t = N.head s
  · have hw := h.walk_eq ht
    rw [lookupFlat_cons hf, lookupFlat_mk]
    cases hl : lookup (N.head t) f with
    | none =>
      have hl' : lookup (N.head t) f' = none := by
        rw [he] at hl ⊢
        exact (hb he).mp hl
      rw [hl']
    | some w =>
      cases hl' : lookup (N.head t) f' with
      | none =>
        rw [he] at hl hl'
        rw [(hb he).mpr hl'] at hl
        cases hl
      | some w' =>
        rw [hl, hl'] at hw
        exact hw
  · rw [lookupFlat_local hf h he]

lemma get_local_hidden (hf : E.frames = f :: fs) (h : Changed N f s f') (ht : ¬ Related N s t)
    (he : N.head t = N.head s) (hl : lookup (N.head s) f = none) (hl' : lookup (N.head s) f' ≠ none) :
    rayEnvGet N { E with frames := f' :: fs } t = E.lookupFlat t := by
  have hw := h.walk_eq ht
  rw [rayEnvGet_eq, lookupFlat_local hf h (ne_head ht), lookupFlat_mk]
  rw [he, hl, walk_none] at hw
  rw [he, or_of_isSome (isSome_iff_ne_none.mpr hl'), hw, or_none]

lemma get_local_outer (hE : Scopes.Ok N { E with frames := f' :: fs }) (he : N.head t = N.head s)
    (hl : lookup (N.head s) f' = none) :
    rayEnvGet N { E with frames := f' :: fs } t = rayEnvGet N ⟨E.global, fs⟩ t := by
  have ht : lookup t f' = none := by
    by_cases hp : N.segs t = []
    · rwa [← he, head_of_plain hp] at hl
    · exact lookup_of_not_mem fun hm => hp (hE.plain f' List.mem_cons_self t hm)
  rw [rayEnvGet_eq, rayEnvGet_eq, lookupFlat_mk, lookupFlat_mk, ht, he, hl, none_or, none_or]

end

section

variable {N : Names} {E E' : Scopes} {base : List Store} {op : EnvOp} {ops : List EnvOp}

lemma suffix_tail {α : Type} {l m : List α} (h : l <:+ m) (hl : l.length < m.length) : l <:+ m.tail := by
  cases m with
  | nil => exact h
  | cons a m =>
    rcases List.suffix_cons_iff.mp h with rfl | h
    · exact (Nat.lt_irrefl _ hl).elim
    · exact h

lemma envStep_frames (h : base <:+ E.frames.tail) (hl : base.length < (envStep N E op).frames.length) :
    base <:+ (envStep N E op).frames.tail := by
  rw [envStep] at hl ⊢
  cases hs : envCall N E op with
  | error e => exact h
  | ok E' =>
    rw [hs] at hl
    cases op with
    | set s v =>
      obtain ⟨-, st', -, rfl⟩ := rayEnvSet_ok hs
      exact h
    | setLocal s v =>
      cases hf : E.frames with
      | nil =>
        obtain ⟨-, st', -, rfl⟩ := rayEnvSet_ok ((rayEnvSetLocal_of_nil hf).symm.trans hs)
        exact h
      | cons f fs =>
        obtain ⟨-, st', -, rfl⟩ := rayEnvSetLocal_ok hf hs
        rwa [hf] at h
    | push =>
      rw [envCall, rayEnvPushScope] at hs
      split at hs
      · cases hs
      · obtain rfl := Except.ok.inj hs
        exact h.trans (List.tail_suffix _)
    | pop =>
      obtain rfl := Except.ok.inj hs
      exact suffix_tail h hl

lemma envRun_frames (h : base <:+ E.frames.tail)
    (hl : ∀ k, base.length < (envRun N E (ops.take k)).frames.length) : base <:+ (envRun N E ops).frames.tail := by
  induction ops generalizing E with
  | nil => exact h
  | cons op ops ih =>
    refine ih (envStep_frames h ?_) fun k => hl (k + 1)
    exact hl 1

lemma envStep_global (hne : E.frames ≠ []) (hop : ∀ s v, op ≠ .set s v) : (envStep N E op).global = E.global := by
  rw [envStep]
  cases hs : envCall N E op with
  | error e => rfl
  | ok E' =>
    cases op with
    | set s v => exact (hop s v rfl).elim
    | setLocal s v =>
      obtain ⟨f, fs, hf⟩ := List.exists_cons_of_ne_nil hne
      obtain ⟨-, st', -, rfl⟩ := rayEnvSetLocal_ok hf hs
      rfl
    | push =>
      rw [envCall, rayEnvPushScope] at hs
      split at hs
      · cases hs
      · obtain rfl := Except.ok.inj hs
        rfl
    | pop =>
      obtain rfl := Except.ok.inj hs
      rfl

lemma envRun_global (hl : ∀ k, base.length < (envRun N E (ops.take k)).frames.length)
    (hop : ∀ s v, EnvOp.set s v ∉ ops) : (envRun N E ops).global = E.global := by
  induction ops generalizing E with
  | nil => rfl
  | cons op ops ih =>
    have hne : E.frames ≠ [] := by
      intro hnil
      have h0 := hl 0
      rw [List.take_zero, envRun, List.foldl_nil, hnil] at h0
      exact Nat.not_lt_zero _ h0
    have hstep : (envStep N E op).global = E.global :=
      envStep_global hne fun s v he => hop s v (he ▸ List.mem_cons_self)
    rw [← hstep]
    exact ih (fun k => hl (k + 1)) fun s v hm => hop s v (List.mem_cons_of_mem _ hm)

lemma pop_frames (hp : rayEnvPushScope E = .ok E')
    (hl : ∀ k, E.frames.length < (envRun N E' (ops.take k)).frames.length)
    (htop : (envRun N E' ops).frames.length = E.frames.length + 1) :
    (rayEnvPopScope (envRun N E' ops)).frames = E.frames := by
  have hE' : E' = { E with frames := [] :: E.frames } := by
    rw [rayEnvPushScope] at hp
    split at hp
    · cases hp
    · exact (Except.ok.inj hp).symm
  have hsuf : E.frames <:+ (envRun N E' ops).frames.tail :=
    envRun_frames (by rw [hE']; exact List.suffix_refl _) hl
  refine (hsuf.eq_of_length ?_).symm
  rw [List.length_tail, htop, Nat.add_sub_cancel]

lemma pop_eq (hp : rayEnvPushScope E = .ok E')
    (hl : ∀ k, E.frames.length < (envRun N E' (ops.take k)).frames.length)
    (htop : (envRun N E' ops).frames.length = E.frames.length + 1) (hop : ∀ s v, EnvOp.set s v ∉ ops) :
    rayEnvPopScope (envRun N E' ops) = E := by
  have hframes := pop_frames hp hl htop
  have hglobal : (rayEnvPopScope (envRun N E' ops)).global = E.global := by
    rw [rayEnvPopScope, envRun_global hl hop]
    rw [rayEnvPushScope] at hp
    split at hp
    · cases hp
    · obtain rfl := Except.ok.inj hp
      rfl
  cases E with
  | mk g fs => exact Scopes.mk.injEq .. ▸ ⟨hglobal, hframes⟩

end

section

variable {N : Names} {E E' : Scopes} {s t : Sym} {v : Option Val} {x w : Val} {f : Store} {fs : List Store}
    {p : List Sym}

lemma set_found (hE : E.Ok N) (h : rayEnvSet N E s (some x) = .ok E') (hc : ClearIn N E.global s)
    (hn : E.frames.findSome? (lookup (N.head s)) = none) : rayEnvGet N E' s = some x := by
  have hE' := hE.set h
  obtain ⟨hr, st', hs, rfl⟩ := rayEnvSet_ok h
  have hb := (setIn_bound hc hs).found
  rw [pathGet_path] at hb
  rw [hE'.get_eq hr, lookupFlat_global hn, hb]

lemma set_others (hE : E.Ok N) (h : rayEnvSet N E s v = .ok E') (hc : ClearIn N E.global s)
    (ht : ¬ Related N s t) :
    rayEnvGet N E' t = rayEnvGet N E t := by
  obtain ⟨-, st', hs, rfl⟩ := rayEnvSet_ok h
  exact get_global_others (setIn_changed hE.global_nodup hc hs) ht

lemma set_through (hr : ¬ Refused N s) (hp : p <+: N.path s) (hne : p ≠ N.path s)
    (hw : pathGet E.global p = some w) (hd : w.isDict = false) : rayEnvSet N E s (some x) = .error .type := by
  rw [rayEnvSet, if_neg hr, setIn_type hp hne hw hd]
  rfl

lemma set_deleted (hE : E.Ok N) (h : rayEnvSet N E s none = .ok E') (hc : ClearIn N E.global s) :
    rayEnvGet N ⟨E'.global, []⟩ s = none ∧ Unbound N E.global s E'.global := by
  have hE' := hE.set h
  obtain ⟨hr, st', hs, rfl⟩ := rayEnvSet_ok h
  have hu := setIn_unbound hE.global_nodup hc hs
  have halone : Scopes.Ok N ⟨st', []⟩ :=
    ⟨fun _ hf => (List.not_mem_nil hf).elim, fun _ hf =>
      (List.not_mem_nil hf).elim, hE'.global_nodup, hE'.global_plain⟩
  have hgone := hu.gone
  rw [pathGet_path] at hgone
  refine ⟨?_, hu⟩
  rw [halone.get_eq hr, lookupFlat_eq]
  exact hgone

lemma setLocal_found (hE : E.Ok N) (hf : E.frames = f :: fs) (h : rayEnvSetLocal N E s (some x) = .ok E')
    (hc : ClearIn N f s) : rayEnvGet N E' s = some x := by
  have hE' := hE.setLocal h
  obtain ⟨hr, f', hs, rfl⟩ := rayEnvSetLocal_ok hf h
  have hb := (setIn_bound hc hs).found
  rw [pathGet_path] at hb
  have hne : lookup (N.head s) f' ≠ none := by
    intro hnone
    rw [hnone, walk_none] at hb
    cases hb
  rw [hE'.get_eq hr, lookupFlat_mk, or_of_isSome (isSome_iff_ne_none.mpr hne), hb]

lemma setLocal_changed (hE : E.Ok N) (hf : E.frames = f :: fs) (h : rayEnvSetLocal N E s v = .ok E')
    (hc : ClearIn N f s) : ∃ f', E' = { E with frames := f' :: fs } ∧ Changed N f s f' := by
  obtain ⟨-, f', hs, rfl⟩ := rayEnvSetLocal_ok hf h
  exact ⟨f', rfl, setIn_changed (hE.nodup f (hf ▸ List.mem_cons_self)) hc hs⟩

lemma setLocal_through (hf : E.frames = f :: fs) (hr : ¬ Refused N s) (hp : p <+: N.path s) (hne : p ≠ N.path s)
    (hw : pathGet f p = some w) (hd : w.isDict = false) : rayEnvSetLocal N E s (some x) = .error .type := by
  rw [rayEnvSetLocal, if_neg hr, hf]
  change (setIn N none f s (some x)).map _ = _
  rw [setIn_type hp hne hw hd]
  rfl

lemma setLocal_hidden (hE : E.Ok N) (hf : E.frames = f :: fs) (h : rayEnvSetLocal N E s (some x) = .ok E')
    (hc : ClearIn N f s) (hl : lookup (N.head s) f = none) (ht : ¬ Related N s t) (he : N.head t = N.head s) :
    rayEnvGet N E' t = E.lookupFlat t := by
  obtain ⟨-, f', hs, rfl⟩ := rayEnvSetLocal_ok hf h
  have hb := (setIn_bound hc hs).found
  refine get_local_hidden hf (setIn_changed (hE.nodup f (hf ▸ List.mem_cons_self)) hc hs) ht he hl fun hnone => ?_
  rw [pathGet_path, hnone, walk_none] at hb
  cases hb

lemma setLocal_deleted (hE : E.Ok N) (hf : E.frames = f :: fs) (h : rayEnvSetLocal N E s none = .ok E')
    (hc : ClearIn N f s) : ∃ f', E' = { E with frames := f' :: fs } ∧ rayEnvGet N ⟨f', []⟩ s = none ∧
      Unbound N f s f' ∧
      (lookup (N.head s) f' = none → ∀ t, N.head t = N.head s →
        rayEnvGet N E' t = rayEnvGet N ⟨E.global, fs⟩ t) := by
  have hE' := hE.setLocal h
  obtain ⟨hr, f', hs, rfl⟩ := rayEnvSetLocal_ok hf h
  have hu := setIn_unbound (hE.nodup f (hf ▸ List.mem_cons_self)) hc hs
  have halone : Scopes.Ok N ⟨f', []⟩ :=
    ⟨fun _ hf => (List.not_mem_nil hf).elim, fun _ hf =>
      (List.not_mem_nil hf).elim, hE'.nodup f' List.mem_cons_self,
      fun t ht => .inl (hE'.plain f' List.mem_cons_self t ht)⟩
  have hgone := hu.gone
  rw [pathGet_path] at hgone
  refine ⟨f', rfl, ?_, hu, fun hl t he => get_local_outer hE' he hl⟩
  rw [halone.get_eq hr, lookupFlat_eq]
  exact hgone

structure EnvLaws (N : Names) (E : Scopes) : Prop where
  set_found : ∀ s x E', rayEnvSet N E s (some x) = .ok E' → ClearIn N E.global s →
    E.frames.findSome? (lookup (N.head s)) = none → rayEnvGet N E' s = some x
  set_others : ∀ s v E', rayEnvSet N E s v = .ok E' → ClearIn N E.global s →
    ∀ t, ¬ Related N s t → rayEnvGet N E' t = rayEnvGet N E t
  set_through : ∀ s x p w, ¬ Refused N s → p <+: N.path s → p ≠ N.path s → pathGet E.global p = some w →
    w.isDict = false → rayEnvSet N E s (some x) = .error .type ∧ envStep N E (.set s (some x)) = E
  set_deleted : ∀ s E', rayEnvSet N E s none = .ok E' → ClearIn N E.global s →
    rayEnvGet N ⟨E'.global, []⟩ s = none ∧ Unbound N E.global s E'.global
  setLocal_nil : E.frames = [] → ∀ s v, rayEnvSetLocal N E s v = rayEnvSet N E s v
  setLocal_found : ∀ f fs s x E', E.frames = f :: fs → rayEnvSetLocal N E s (some x) = .ok E' → ClearIn N f s →
    rayEnvGet N E' s = some x
  setLocal_others : ∀ f fs s v E', E.frames = f :: fs → rayEnvSetLocal N E s v = .ok E' → ClearIn N f s →
    ∃ f', E' = { E with frames := f' :: fs } ∧ ∀ t, ¬ Related N s t →
      (N.head t = N.head s → (lookup (N.head s) f = none ↔ lookup (N.head s) f' = none)) →
      rayEnvGet N E' t = rayEnvGet N E t
  setLocal_hidden : ∀ f fs s x E', E.frames = f :: fs → rayEnvSetLocal N E s (some x) = .ok E' → ClearIn N f s →
    lookup (N.head s) f = none → ∀ t, ¬ Related N s t → N.head t = N.head s → rayEnvGet N E' t = E.lookupFlat t
  setLocal_through : ∀ f fs s x p w, E.frames = f :: fs → ¬ Refused N s → p <+: N.path s → p ≠ N.path s →
    pathGet f p = some w → w.isDict = false →
    rayEnvSetLocal N E s (some x) = .error .type ∧ envStep N E (.setLocal s (some x)) = E
  setLocal_deleted : ∀ f fs s E', E.frames = f :: fs → rayEnvSetLocal N E s none = .ok E' → ClearIn N f s →
    ∃ f', E' = { E with frames := f' :: fs } ∧ rayEnvGet N ⟨f', []⟩ s = none ∧ Unbound N f s f' ∧
      (lookup (N.head s) f' = none → ∀ t, N.head t = N.head s → rayEnvGet N E' t = rayEnvGet N ⟨E.global, fs⟩ t)
  pop_restores : ∀ E₁ ops, rayEnvPushScope E = .ok E₁ →
    (∀ k, E.frames.length < (envRun N E₁ (ops.take k)).frames.length) →
    (envRun N E₁ ops).frames.length = E.frames.length + 1 →
    (rayEnvPopScope (envRun N E₁ ops)).frames = E.frames ∧
      ((∀ s v, EnvOp.set s v ∉ ops) → rayEnvPopScope (envRun N E₁ ops) = E)

lemma Scopes.Ok.laws (hE : E.Ok N) : EnvLaws N E where
  set_found := fun _ _ _ h hc hn => set_found hE h hc hn
  set_others := fun _ _ _ h hc _ ht => set_others hE h hc ht
  set_through := fun s x _ _ hr hp hne hw hd => by
    have h : rayEnvSet N E s (some x) = .error .type := set_through hr hp hne hw hd
    refine ⟨h, ?_⟩
    rw [envStep, envCall, h]
  set_deleted := fun _ _ h hc => set_deleted hE h hc
  setLocal_nil := fun hf _ _ => rayEnvSetLocal_of_nil hf
  setLocal_found := fun _ _ _ _ _ hf h hc => setLocal_found hE hf h hc
  setLocal_others := fun _ _ _ _ _ hf h hc => by
    obtain ⟨f', he, hch⟩ := setLocal_changed hE hf h hc
    refine ⟨f', he, fun t ht hb => ?_⟩
    rw [he]
    exact get_local_others hf hch ht hb
  setLocal_hidden := fun _ _ _ _ _ hf h hc hl _ ht he => setLocal_hidden hE hf h hc hl ht he
  setLocal_through := fun _ _ s x _ _ hf hr hp hne hw hd => by
    have h : rayEnvSetLocal N E s (some x) = .error .type := setLocal_through hf hr hp hne hw hd
    refine ⟨h, ?_⟩
    rw [envStep, envCall, h]
  setLocal_deleted := fun _ _ _ _ hf h hc => setLocal_deleted hE hf h hc
  pop_restores := fun _ _ hp hl htop => ⟨pop_frames hp hl htop, pop_eq hp hl htop⟩

variable (N) in
theorem envRun_laws (builtins : List (Sym × Val)) (hb : ∀ b ∈ builtins, N.segs b.1 = [] ∨ Refused N b.1)
    (ops : List EnvOp) : EnvLaws N (envRun N (registered builtins) ops) := ((registered_ok hb).run ops).laws

end

def symOf (n : ℕ) : Sym := if h : KeyType.admits .sym (.int n) = true then ⟨n, h⟩ else ⟨0, by decide⟩

def sampleStr (s : Sym) : Option Bytes :=
  if 0 ≤ s.1 then [[97], [98], [99], [97, 46, 98], [97, 46, 99]][s.1.toNat]? else none

def sampleSegs (s : Sym) : List Sym :=
  if s.1 = 3 then [symOf 0, symOf 1] else if s.1 = 4 then [symOf 0, symOf 2] else []

lemma sampleStr_cases {s : Sym} {b : Bytes} (h : sampleStr s = some b) :
    (s.1, b) ∈ [((0 : ℤ), ([97] : Bytes)), (1, [98]), (2, [99]), (3, [97, 46, 98]), (4, [97, 46, 99])] := by
  rw [sampleStr] at h
  split at h
  · rename_i h0
    obtain ⟨n, hn⟩ := Int.eq_ofNat_of_zero_le h0
    rw [hn, Int.toNat_natCast] at h
    rw [hn]
    match n with
    | 0 | 1 | 2 | 3 | 4 =>
      obtain rfl := some.inj h
      decide
    | n + 5 => cases h
  · cases h

def sample : Names where
  str := sampleStr
  segs := sampleSegs
  str_inj := by
    intro s t b hs ht
    have h : ∀ p ∈ [((0 : ℤ), ([97] : Bytes)), (1, [98]), (2, [99]), (3, [97, 46, 98]), (4, [97, 46, 99])],
        ∀ q ∈ [((0 : ℤ), ([97] : Bytes)), (1, [98]), (2, [99]), (3, [97, 46, 98]), (4, [97, 46, 99])],
          p.2 = q.2 → p.1 = q.1 := by decide
    exact Subtype.ext (h _ (sampleStr_cases hs) _ (sampleStr_cases ht) rfl)
  segs_dotted := by
    intro s b hs hd
    have h : ∀ p ∈ [((0 : ℤ), ([97] : Bytes)), (1, [98]), (2, [99]), (3, [97, 46, 98]), (4, [97, 46, 99])],
      Dotted p.2 → ∀ s : Sym, s.1 = p.1 → (sampleSegs s).map sampleStr = (pieces p.2).map some := by
      intro p hp hd s hs
      rw [sampleSegs, hs]
      clear hs s
      revert hd
      revert p
      decide
    exact h _ (sampleStr_cases hs) hd s rfl
  segs_plain := by
    intro s h
    rw [sampleSegs]
    split
    · rename_i hs
      have h3 : sampleStr s = some [97, 46, 98] := by rw [sampleStr, hs]; rfl
      exact (h _ h3 (by decide)).elim
    · split
      · rename_i hs
        have h4 : sampleStr s = some [97, 46, 99] := by rw [sampleStr, hs]; rfl
        exact (h _ h4 (by decide)).elim
      · rfl

theorem envRun_laws_sample : EnvLaws sample
    (envRun sample (registered [(symOf 2, .leaf 1)])
      [.set (symOf 4) (some (.leaf 7)), .push, .setLocal (symOf 3) none]) :=
  envRun_laws sample [(symOf 2, .leaf 1)] (fun b hb => by
      obtain rfl := List.mem_singleton.mp hb
      exact .inl rfl)
    [.set (symOf 4) (some (.leaf 7)), .push, .setLocal (symOf 3) none]

theorem local_set_hides_global : ∃ E E' : Scopes,
    E = envRun sample (registered []) [.set (symOf 4) (some (.leaf 7)), .push] ∧
    rayEnvSetLocal sample E (symOf 3) (some (.leaf 5)) = .ok E' ∧ ¬ Related sample (symOf 3) (symOf 4) ∧
    rayEnvGet sample E (symOf 4) = some (.leaf 7) ∧ rayEnvGet sample E' (symOf 4) = none :=
  ⟨_, _, rfl, rfl, by rw [Related]; decide, rfl, rfl⟩

end Rayforce.Env

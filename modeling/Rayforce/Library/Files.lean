import Rayforce.Library.Words

/-! Sequences of file operations that may stop anywhere. -/

namespace Rayforce.Library.Files

open Library.Words List Option Function

variable {Loc : Type} [DecidableEq Loc]
variable {stale : Loc → Bool}

abbrev Disk (Loc : Type) := Loc → Option Bytes

def Disk.put (d : Disk Loc) (f : Loc) (c : Option Bytes) : Disk Loc := Function.update d f c

/-- `checked`: an error on closing a file is noticed; `abandon`: a file begun and removed. -/
inductive Op (Loc : Type)
  | create (f : Loc)
  | write (f : Loc) (bs : Bytes) (checked : Bool)
  | abandon (f : Loc)
  | rename (src dst : Loc)
  | remove (f : Loc)
  | sidecar (tmp f : Loc) (bs : Bytes)
  | sweep (stale : Loc → Bool)

inductive Does : Op Loc → Disk Loc → Disk Loc → Prop
  | create (d : Disk Loc) (f : Loc) : Does (.create f) d (d.put f (some ((d f).getD [])))
  | written (d : Disk Loc) (f : Loc) (bs : Bytes) (checked : Bool) :
    Does (.write f bs checked) d (d.put f (some bs))
  | short (d : Disk Loc) (f : Loc) {p bs : Bytes} (h : p <+: bs) : Does (.write f bs false) d (d.put f (some p))
  | abandon (d : Disk Loc) (f : Loc) (c : Option Bytes) : Does (.abandon f) d (d.put f c)
  | rename (d : Disk Loc) (src dst : Loc) {c : Bytes} (h : d src = some c) :
    Does (.rename src dst) d ((d.put src none).put dst (some c))
  | remove (d : Disk Loc) (f : Loc) : Does (.remove f) d (d.put f none)
  | left (d : Disk Loc) (f : Loc) : Does (.remove f) d d
  | sidecar (d : Disk Loc) (tmp f : Loc) {p bs : Bytes} (h : p <+: bs) :
    Does (.sidecar tmp f bs) d ((d.put tmp none).put f (some p))
  | noSidecar (d : Disk Loc) (tmp f : Loc) {bs : Bytes} : Does (.sidecar tmp f bs) d d
  | halfSidecar (d : Disk Loc) (tmp f : Loc) {bs : Bytes} (c : Option Bytes) :
    Does (.sidecar tmp f bs) d (d.put tmp c)
  | sweep {d d' : Disk Loc} {stale : Loc → Bool} (h : ∀ f, d' f = d f ∨ stale f = true ∧ d' f = none) :
    Does (.sweep stale) d d'

inductive Breaks : Op Loc → Disk Loc → Disk Loc → Prop
  | before (op : Op Loc) (d : Disk Loc) : Breaks op d d
  | after {op : Op Loc} {d d' : Disk Loc} (h : Does op d d') : Breaks op d d'
  | torn (d : Disk Loc) (f : Loc) {p bs : Bytes} {checked : Bool} (h : p <+: bs) :
    Breaks (.write f bs checked) d (d.put f (some p))
  | undone (d : Disk Loc) (f : Loc) {bs : Bytes} {checked : Bool} : Breaks (.write f bs checked) d (d.put f none)
  | refused (d : Disk Loc) (src dst : Loc) : Breaks (.rename src dst) d (d.put src none)

inductive Done : List (Op Loc) → Disk Loc → Disk Loc → Prop
  | nil (d : Disk Loc) : Done [] d d
  | cons {op : Op Loc} {ops : List (Op Loc)} {d e d' : Disk Loc} (h : Does op d e) (t : Done ops e d') :
    Done (op :: ops) d d'

inductive Stops : List (Op Loc) → Disk Loc → Disk Loc → Prop
  | nil (d : Disk Loc) : Stops [] d d
  | here {op : Op Loc} {ops : List (Op Loc)} {d d' : Disk Loc} (h : Breaks op d d') : Stops (op :: ops) d d'
  | later {op : Op Loc} {ops : List (Op Loc)} {d e d' : Disk Loc} (h : Does op d e) (t : Stops ops e d') :
    Stops (op :: ops) d d'

def Op.Touches : Op Loc → Loc → Prop
  | .create f, g | .write f _ _, g | .abandon f, g | .remove f, g => g = f
  | .rename src dst, g => g = src ∨ g = dst
  | .sidecar tmp f _, g => g = tmp ∨ g = f
  | .sweep stale, g => stale g = true

variable {op : Op Loc} {ops ops' : List (Op Loc)} {d e d' : Disk Loc} {f g : Loc}

@[simp] lemma put_self (d : Disk Loc) (f : Loc) (c : Option Bytes) : d.put f c f = c := update_self ..

lemma put_of_ne (d : Disk Loc) {f g : Loc} (c : Option Bytes) (h : g ≠ f) : d.put f c g = d g := update_of_ne h ..

lemma Does.frame (h : Does op d d') (hg : ¬ op.Touches g) : d' g = d g := by
  cases h with
  | create | written | short | abandon | remove | halfSidecar =>
    exact put_of_ne _ _ fun heq => hg (by simp [Op.Touches, heq])
  | rename | sidecar =>
    obtain ⟨hsrc, hdst⟩ := not_or.mp hg
    rw [put_of_ne _ _ hdst, put_of_ne _ _ hsrc]
  | left | noSidecar => rfl
  | sweep h => exact (h g).resolve_right fun hs => hg hs.1

lemma Breaks.frame (h : Breaks op d d') (hg : ¬ op.Touches g) : d' g = d g := by
  cases h with
  | before => rfl
  | after h => exact h.frame hg
  | torn | undone => exact put_of_ne _ _ hg
  | refused => exact put_of_ne _ _ (not_or.mp hg).1

lemma Stops.frame (h : Stops ops d d') (hg : ∀ op ∈ ops, ¬ op.Touches g) : d' g = d g := by
  induction h with
  | nil => rfl
  | here h => exact h.frame (hg _ mem_cons_self)
  | later h _ ih => rw [ih fun op hop => hg op (mem_cons_of_mem _ hop), h.frame (hg _ mem_cons_self)]

lemma Stops.refl (ops : List (Op Loc)) (d : Disk Loc) : Stops ops d d := by
  cases ops with
  | nil => exact .nil d
  | cons op ops => exact .here (.before op d)

lemma Does.swept (h : Does (.sweep stale) d d') (g : Loc) : d' g = d g ∨ d' g = none := by
  cases h with
  | sweep hall => exact (hall g).imp_right And.right

lemma Stops.sweep (h : Stops [.sweep stale] d d') (g : Loc) : d' g = d g ∨ d' g = none := by
  cases h with
  | here hop =>
    cases hop with
    | before => exact .inl rfl
    | after hdoes => exact hdoes.swept g
  | later hop hnil =>
    cases hnil
    exact hop.swept g

lemma Done.stops (h : Done ops d d') : Stops ops d d' := by
  induction h with
  | nil => exact .nil _
  | cons h _ ih => exact .later h ih

lemma Done.append (h : Done ops d e) (h' : Done ops' e d') : Done (ops ++ ops') d d' := by
  induction h with
  | nil => exact h'
  | cons h _ ih => exact .cons h (ih h')

lemma Done.split (h : Done (ops ++ ops') d d') : ∃ e, Done ops d e ∧ Done ops' e d' := by
  induction ops generalizing d with
  | nil => exact ⟨d, .nil d, h⟩
  | cons op ops ih =>
    cases h with
    | cons hop htail =>
      obtain ⟨e, he, hrest⟩ := ih htail
      exact ⟨e, .cons hop he, hrest⟩

lemma Stops.split (h : Stops (ops ++ ops') d d') : Stops ops d d' ∨ ∃ e, Done ops d e ∧ Stops ops' e d' := by
  induction ops generalizing d with
  | nil => exact .inr ⟨d, .nil d, h⟩
  | cons op ops ih =>
    cases h with
    | here hop => exact .inl (.here hop)
    | later hop htail =>
      rcases ih htail with hin | ⟨e, he, hrest⟩
      · exact .inl (.later hop hin)
      · exact .inr ⟨e, .cons hop he, hrest⟩

lemma Stops.keeps {P : Disk Loc → Prop} {parts : List (List (Op Loc))}
    (hP : ∀ part ∈ parts, ∀ d d', P d → Stops part d d' → P d')
    (hd : P d) (h : Stops parts.flatten d d') : P d' := by
  induction parts generalizing d with
  | nil =>
    cases h
    exact hd
  | cons part parts ih =>
    rw [flatten_cons] at h
    rcases h.split with hin | ⟨e, he, hrest⟩
    · exact hP part mem_cons_self d d' hd hin
    · exact ih (fun q hq => hP q (mem_cons_of_mem _ hq)) (hP part mem_cons_self d e hd he.stops) hrest

section

variable {tmp : Loc} {bs : Bytes} {checked : Bool}

def replace (tmp f : Loc) (bs : Bytes) (checked : Bool) : List (Op Loc) := [.write tmp bs checked, .rename tmp f]

omit [DecidableEq Loc] in
lemma replace_touches (hop : op ∈ replace tmp f bs checked) (h : op.Touches g) : g = tmp ∨ g = f := by
  rcases mem_cons.mp hop with rfl | hop
  · exact .inl h
  · obtain rfl := mem_singleton.mp hop
    exact h

lemma Does.written_eq (h : Does (.write f bs checked) d d') :
    ∃ p, p <+: bs ∧ (checked = true → p = bs) ∧ d' = d.put f (some p) := by
  cases h with
  | written => exact ⟨bs, prefix_rfl, fun _ => rfl, rfl⟩
  | short _ _ hp => exact ⟨_, hp, nofun, rfl⟩

lemma Done.replace (h : Done (replace tmp f bs checked) d d') :
    ∃ p, p <+: bs ∧ (checked = true → p = bs) ∧ d' f = some p := by
  cases h with
  | cons hwrite hrest =>
    obtain ⟨p, hp, hall, rfl⟩ := hwrite.written_eq
    cases hrest with
    | cons hrename hnil =>
      cases hnil
      cases hrename with
      | rename _ _ _ hsrc =>
        rw [put_self] at hsrc
        cases hsrc
        exact ⟨p, hp, hall, put_self ..⟩

lemma Stops.replace (h : Stops (replace tmp f bs checked) d d') (hne : f ≠ tmp) :
    d' f = d f ∨ ∃ p, p <+: bs ∧ (checked = true → p = bs) ∧ d' f = some p := by
  cases h with
  | here hwrite => exact .inl (hwrite.frame hne)
  | later hwrite hrest =>
    cases hrest with
    | here hrename =>
      cases hrename with
      | before => exact .inl (hwrite.frame hne)
      | after hdoes => exact .inr (Done.replace (.cons hwrite (.cons hdoes (.nil _))))
      | refused => exact .inl ((put_of_ne _ _ hne).trans (hwrite.frame hne))
    | later hrename hnil =>
      cases hnil
      exact .inr (Done.replace (.cons hwrite (.cons hrename (.nil _))))

end

def Op.run : Op Loc → Disk Loc → Option (Disk Loc)
  | .create f, d => some (d.put f (some ((d f).getD [])))
  | .write f bs _, d => some (d.put f (some bs))
  | .abandon f, d | .remove f, d => some (d.put f none)
  | .rename src dst, d => (d src).map fun c => (d.put src none).put dst (some c)
  | .sidecar tmp f bs, d => some ((d.put tmp none).put f (some bs))
  | .sweep stale, d => some fun f => if stale f then none else d f

def runAll (ops : List (Op Loc)) (d : Disk Loc) : Option (Disk Loc) := ops.foldlM (fun d op => op.run d) d

lemma run_does (h : op.run d = some d') : Does op d d' := by
  cases op with
  | rename src dst =>
    obtain ⟨c, hc, rfl⟩ := map_eq_some_iff.mp h
    exact .rename d src dst hc
  | create f =>
    cases h
    exact .create d f
  | write f bs checked =>
    cases h
    exact .written d f bs checked
  | abandon f =>
    cases h
    exact .abandon d f none
  | remove f =>
    cases h
    exact .remove d f
  | sidecar tmp f bs =>
    cases h
    exact .sidecar d tmp f prefix_rfl
  | sweep stale =>
    cases h
    refine .sweep fun f => ?_
    split_ifs with hf
    · exact .inr ⟨hf, rfl⟩
    · exact .inl rfl

lemma runAll_done (h : runAll ops d = some d') : Done ops d d' := by
  induction ops generalizing d with
  | nil =>
    cases h
    exact .nil _
  | cons op ops ih =>
    rw [runAll, foldlM_cons] at h
    obtain ⟨e, he, hrest⟩ := bind_eq_some_iff.mp h
    exact .cons (run_does he) (ih hrest)

lemma runAll_split (h : runAll (ops ++ ops') d = some d') :
    ∃ e, runAll ops d = some e ∧ runAll ops' e = some d' := by
  rw [runAll, foldlM_append] at h
  exact bind_eq_some_iff.mp h

lemma runAll_replace {tmp : Loc} {bs : Bytes} {checked : Bool}
    (h : runAll (replace tmp f bs checked) d = some d') : d' f = some bs := by
  obtain ⟨e, hwrite, hrest⟩ := runAll_split
    (show runAll ([.write tmp bs checked] ++ [.rename tmp f]) d = some d' from h)
  cases hwrite
  obtain ⟨e', hrename, hnil⟩ := bind_eq_some_iff.mp hrest
  cases hnil
  obtain ⟨c, hc, rfl⟩ := map_eq_some_iff.mp hrename
  rw [put_self] at hc
  cases hc
  exact put_self ..

lemma runAll_replace_gone {tmp : Loc} {bs : Bytes} {checked : Bool}
    (h : runAll (replace tmp f bs checked) d = some d') (hne : tmp ≠ f) :
    d' tmp = none := by
  obtain ⟨e, hwrite, hrest⟩ := runAll_split
    (show runAll ([.write tmp bs checked] ++ [.rename tmp f]) d = some d' from h)
  cases hwrite
  obtain ⟨e', hrename, hnil⟩ := bind_eq_some_iff.mp hrest
  cases hnil
  obtain ⟨c, -, rfl⟩ := map_eq_some_iff.mp hrename
  rw [put_of_ne _ _ hne, put_self]

end Rayforce.Library.Files

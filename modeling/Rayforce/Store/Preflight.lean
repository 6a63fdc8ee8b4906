import Rayforce.Store.Reload

namespace Rayforce.Store

open Library.Words List

variable {o : Obj} {e : Err}
variable {v : SymVec} {names : List Bytes} {offset len : ℕ} {x : Extra}

inductive Refused : Obj → Prop
  | nullPtr : Refused .nullPtr
  | error : Refused .error
  | other (tag : UInt8) : Refused (.other tag)
  | elem {es : List Obj} {o : Obj} (ho : o ∈ es) (h : Refused o) : Refused (.list es)
  | col {ids : List ℕ} {cols : List Obj} {o : Obj} (ho : o ∈ cols.take ids.length) (h : Refused o) :
    Refused (.table ids cols)
  | missing {ids : List ℕ} {cols : List Obj} (h : cols.length < ids.length) : Refused (.table ids cols)
  | keys {k v : Obj} (h : Refused k) : Refused (.dict k v)
  | vals {k v : Obj} (h : Refused v) : Refused (.dict k v)

def RefusedColumn : Obj → Prop
  | .atom _ | .dict _ _ => True
  | o => Refused o

def Err.Refuses (e : Err) : Prop := e = .type ∨ e = .nyi

lemma mapM_error {α β ε : Type} {f : α → Except ε β} {l : List α} {x : ε} (h : l.mapM f = .error x) :
    ∃ a ∈ l, f a = .error x := by
  induction l with
  | nil => cases h
  | cons a l ih =>
    rw [mapM_cons] at h
    cases ha : f a with
    | error y =>
      rw [ha] at h
      cases h
      exact ⟨a, mem_cons_self, ha⟩
    | ok b =>
      rw [ha] at h
      cases hl : l.mapM f with
      | error y =>
        rw [hl] at h
        cases h
        obtain ⟨c, hc, hx⟩ := ih hl
        exact ⟨c, mem_cons_of_mem _ hc, hx⟩
      | ok bs =>
        rw [hl] at h
        cases h

lemma raySymVecCell_error {offset i : ℕ} (h : v.raySymVecCell offset i = .error (.error e)) : e = .corrupt := by
  rw [SymVec.raySymVecCell] at h
  split at h
  · cases h
  · split at h <;> cases h
    rfl

lemma writeSyms_error (h : writeSyms v offset len = .error (.error e)) : e = .corrupt := by
  obtain ⟨i, -, hi⟩ := mapM_error (map_eq_error h)
  exact raySymVecCell_error hi

lemma saveSyms_error {attrs : UInt8} (h : saveSyms names x attrs v offset len = .error (.error e)) :
    e = .corrupt := by
  rw [saveSyms] at h
  split_ifs at h
  obtain ⟨i, -, hi⟩ := mapM_error (map_eq_error h)
  exact raySymVecCell_error (map_eq_error hi)

lemma Err.Refuses.ne_corrupt (h : e.Refuses) : e ≠ .corrupt := by
  rcases h with rfl | rfl <;> nofun

mutual

theorem refused_of_write : ∀ (o : Obj), e.Refuses → colWriteRecursive o = .error (.error e) → Refused o
  | .nullPtr, _, _ => .nullPtr
  | .error, _, _ => .error
  | .atom _, _, h => by cases h
  | .vec _ _, _, h => by cases h
  | .symVec _, he, h => absurd (writeSyms_error h) he.ne_corrupt
  | .symSlice _ _ _ _, he, h => absurd (writeSyms_error h) he.ne_corrupt
  | .strVec _, _, h => by cases h
  | .strSlice _ _ _ _, _, h => by
    rw [colWriteRecursive] at h
    split_ifs at h
    cases h
  | .list es, he, h => by
    obtain ⟨o, ho, hr⟩ := refused_of_elems es he (map_eq_error h)
    exact .elem ho hr
  | .table ids cols, he, h => by
    rcases refused_of_cols ids cols he (map_eq_error h) with hm | ⟨o, ho, hr⟩
    · exact .missing hm
    · exact .col ho hr
  | .dict k v, he, h => by
    rw [colWriteRecursive] at h
    cases hk : colWriteRecursive k with
    | error f =>
      rw [hk] at h
      cases h
      exact .keys (refused_of_write k he hk)
    | ok ks =>
      rw [hk] at h
      cases hv : colWriteRecursive v with
      | error f =>
        rw [hv] at h
        cases h
        exact .vals (refused_of_write v he hv)
      | ok vs =>
        rw [hv] at h
        cases h
  | .other tag, _, _ => .other tag

theorem refused_of_elems : ∀ (es : List Obj), e.Refuses → writeElems es = .error (.error e) → ∃ o ∈ es, Refused o
  | [], _, h => by cases h
  | o :: es, he, h => by
    rw [writeElems] at h
    cases ho : colWriteRecursive o with
    | error f =>
      rw [ho] at h
      cases h
      exact ⟨o, mem_cons_self, refused_of_write o he ho⟩
    | ok b =>
      rw [ho] at h
      cases hes : writeElems es with
      | error f =>
        rw [hes] at h
        cases h
        obtain ⟨o', ho', hr⟩ := refused_of_elems es he hes
        exact ⟨o', mem_cons_of_mem _ ho', hr⟩
      | ok bs =>
        rw [hes] at h
        cases h

theorem refused_of_cols : ∀ (ids : List ℕ) (cols : List Obj), e.Refuses → writeCols ids cols = .error (.error e) →
    cols.length < ids.length ∨ ∃ o ∈ cols.take ids.length, Refused o
  | [], _, _, h => by
    rw [writeCols] at h
    cases h
  | _ :: ids, [], _, _ => .inl (by simp)
  | i :: ids, c :: cols, he, h => by
    rw [writeCols] at h
    cases hc : colWriteRecursive c with
    | error f =>
      rw [hc] at h
      cases h
      exact .inr ⟨c, by simp, refused_of_write c he hc⟩
    | ok b =>
      rw [hc] at h
      cases hcs : writeCols ids cols with
      | error f =>
        rw [hcs] at h
        cases h
        rcases refused_of_cols ids cols he hcs with hm | ⟨o, ho, hr⟩
        · exact .inl (by simpa using hm)
        · exact .inr ⟨o, by simp [ho], hr⟩
      | ok bs =>
        rw [hcs] at h
        cases h

end

lemma preflight_refused (h : Refused o) : colPreflightRecursive o ≠ .ok () := by
  have helems : ∀ {es : List Obj} {o : Obj}, o ∈ es → colPreflightRecursive o ≠ .ok () →
      preflightElems es ≠ .ok () := by
    intro es
    induction es with
    | nil => simp
    | cons c es ih =>
      intro o ho hne hok
      rw [preflightElems] at hok
      obtain ⟨_, hc, hrest⟩ := bind_eq_ok' hok
      rcases mem_cons.mp ho with rfl | ho
      · exact hne hc
      · exact ih ho hne hrest
  have hcols : ∀ {ids : List ℕ} {cols : List Obj} {o : Obj}, o ∈ cols.take ids.length →
    colPreflightRecursive o ≠ .ok () → preflightCols ids cols ≠ .ok () := by
    intro ids
    induction ids with
    | nil => simp
    | cons i ids ih =>
      intro cols o ho hne hok
      cases cols with
      | nil => simp at ho
      | cons c cols =>
        rw [preflightCols] at hok
        obtain ⟨_, hc, hrest⟩ := bind_eq_ok' hok
        rw [length_cons, take_succ_cons] at ho
        rcases mem_cons.mp ho with rfl | ho
        · exact hne hc
        · exact ih ho hne hrest
  have hmissing : ∀ {ids : List ℕ} {cols : List Obj}, cols.length < ids.length →
      preflightCols ids cols ≠ .ok () := by
    intro ids
    induction ids with
    | nil => simp
    | cons i ids ih =>
      intro cols hlt hok
      cases cols with
      | nil => cases hok
      | cons c cols =>
        rw [preflightCols] at hok
        obtain ⟨_, -, hrest⟩ := bind_eq_ok' hok
        exact ih (by simpa using hlt) hrest
  induction h with
  | nullPtr | error | other => nofun
  | elem ho _ ih => exact helems ho ih
  | col ho _ ih => exact hcols ho ih
  | missing hlt => exact hmissing hlt
  | keys _ ih =>
    intro hok
    obtain ⟨_, hk, -⟩ := bind_eq_ok' hok
    exact ih hk
  | vals _ ih =>
    intro hok
    obtain ⟨_, -, hv⟩ := bind_eq_ok' hok
    exact ih hv

lemma rayColSavePreflight_refused (h : RefusedColumn o) : rayColSavePreflight o ≠ .ok () := by
  cases o with
  | atom | dict | nullPtr | error | other => nofun
  | vec | symVec | symSlice | strVec | strSlice => cases h
  | list es => exact preflight_refused h
  | table ids cols => exact preflight_refused h

lemma refusedColumn_of_save (he : e.Refuses) (h : rayColSave names x o = .error (.error e)) : RefusedColumn o := by
  cases o with
  | atom | dict => trivial
  | nullPtr => exact .nullPtr
  | error => exact .error
  | other tag => exact .other tag
  | vec | strVec => cases h
  | symVec => exact absurd (saveSyms_error h) he.ne_corrupt
  | symSlice => exact absurd (saveSyms_error h) he.ne_corrupt
  | strSlice =>
    rw [rayColSave] at h
    split_ifs at h
    cases h
  | list es =>
    rw [rayColSave] at h
    split_ifs at h
    exact refused_of_write _ he (map_eq_error h)
  | table ids cols => exact refused_of_write (.table ids cols) he (map_eq_error h)

end Rayforce.Store

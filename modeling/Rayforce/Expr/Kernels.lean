import Rayforce.Expr.Linear
import Rayforce.Exec.Atoms

namespace Rayforce.Expr

open Rayforce.Exec Library.Binary64 List Option

variable {t : ElemType} {cv : Int64}

def atRow {α : Type} (xs : List α) (row : ℕ) : Option α := if xs.length = 1 then xs[0]? else xs[row]?

section

variable {α β : Type} {ls : List α} {rs : List β} {ps : List (α × β)} {p : α × β} {row : ℕ}

lemma atRow_map (f : α → β) (xs : List α) (row : ℕ) : atRow (xs.map f) row = (atRow xs row).map f := by
  rw [atRow, atRow, length_map]
  split <;> rw [getElem?_map]

lemma pairRows_atRow (h : pairRows ls rs = some ps) (hp : atRow ps row = some p) :
    atRow ls row = some p.1 ∧ atRow rs row = some p.2 := by
  have hzip : ∀ {ls : List α} {rs : List β}, (if ls.length = rs.length then some (ls.zip rs) else none) = some ps →
      atRow ls row = some p.1 ∧ atRow rs row = some p.2 := by
    intro ls rs hz
    split at hz
    next hlen =>
      obtain rfl := some.inj hz
      have hlen' : (ls.zip rs).length = ls.length := by rw [length_zip, ← hlen, min_self]
      rw [atRow, hlen'] at hp
      rw [atRow, atRow, ← hlen]
      by_cases h1 : ls.length = 1
      · rw [if_pos h1] at hp ⊢
        rw [if_pos h1]
        exact getElem?_zip_eq_some.mp hp
      · rw [if_neg h1] at hp ⊢
        rw [if_neg h1]
        exact getElem?_zip_eq_some.mp hp
    · cases hz
  match ls, rs with
  | [a], rs =>
    obtain rfl := some.inj h
    rw [atRow_map, map_eq_some_iff] at hp
    obtain ⟨b, hb, rfl⟩ := hp
    exact ⟨rfl, hb⟩
  | [], [b] =>
    obtain rfl := some.inj h
    cases hp
  | a :: a' :: ls, [b] =>
    obtain rfl := some.inj h
    rw [atRow_map, map_eq_some_iff] at hp
    obtain ⟨x, hx, rfl⟩ := hp
    exact ⟨hx, rfl⟩
  | [], [] => exact hzip h
  | [], _ :: _ :: _ => exact hzip h
  | _ :: _ :: _, [] => exact hzip h
  | _ :: _ :: _, _ :: _ :: _ => exact hzip h

lemma mapM_getElem? {f : α → Option β} {xs : List α} {ys : List β} (h : xs.mapM f = some ys) :
    ys.length = xs.length ∧ ∀ (k : ℕ) (y : β), ys[k]? = some y → ∃ x, xs[k]? = some x ∧ f x = some y := by
  induction xs generalizing ys with
  | nil =>
    obtain rfl := some.inj h
    exact ⟨rfl, fun k y hy => by simp at hy⟩
  | cons x xs ih =>
    rw [mapM_cons, bind_eq_bind, bind_eq_some_iff] at h
    obtain ⟨z, hz, hrest⟩ := h
    rw [bind_eq_bind, bind_eq_some_iff] at hrest
    obtain ⟨zs, hzs, heq⟩ := hrest
    obtain rfl := some.inj heq
    obtain ⟨hlen, hcells⟩ := ih hzs
    refine ⟨by rw [length_cons, length_cons, hlen], fun k y hy => ?_⟩
    cases k with
    | zero =>
      obtain rfl := some.inj hy
      exact ⟨x, rfl, hz⟩
    | succ k => exact hcells k y hy

lemma mapM_atRow {f : α → Option β} {xs : List α} {ys : List β} {y : β} (h : xs.mapM f = some ys)
    (hy : atRow ys row = some y) :
    ∃ x, atRow xs row = some x ∧ f x = some y := by
  obtain ⟨hlen, hcells⟩ := mapM_getElem? h
  rw [atRow, hlen] at hy
  rw [atRow]
  split at hy
  next h1 =>
    rw [if_pos h1]
    exact hcells 0 y hy
  next h1 =>
    rw [if_neg h1]
    exact hcells row y hy

end

structure Width (α : Type) [Add α] [Sub α] [Mul α] [LT α] where
  widen : α → Int64
  cut : Int64 → α
  cut_widen : ∀ a, cut (widen a) = a
  cut_add : ∀ x y, cut (x + y) = cut x + cut y
  cut_sub : ∀ x y, cut (x - y) = cut x - cut y
  cut_mul : ∀ x y, cut (x * y) = cut x * cut y
  widen_lt : ∀ a b, widen a < widen b ↔ a < b

def wrapOp {α : Type} [Add α] [Sub α] [Mul α] [LT α] [DecidableLT α] (op : ArithOp) (a b : α) : Option α :=
  match op with
  | .add => some (a + b)
  | .sub => some (a - b)
  | .mul => some (a * b)
  | .min2 => some (if a < b then a else b)
  | .max2 => some (if b < a then a else b)
  | _ => none

section

def width64 : Width Int64 := ⟨id, id, fun _ => rfl, fun _ _ => rfl, fun _ _ => rfl, fun _ _ =>
  rfl, fun _ _ => Iff.rfl⟩

def width32 : Width Int32 :=
  ⟨Int32.toInt64, Int64.toInt32, Int32.toInt32_toInt64, Int64.toInt32_add, Int64.toInt32_sub, Int64.toInt32_mul,
    fun _ _ => Int32.toInt64_lt⟩

def width16 : Width Int16 :=
  ⟨Int16.toInt64, Int64.toInt16, Int16.toInt16_toInt64, Int64.toInt16_add, Int64.toInt16_sub, Int64.toInt16_mul,
    fun _ _ => Int16.toInt64_lt⟩

lemma toInt_byte (b : UInt8) : b.toUInt64.toInt64.toInt = b.toNat := by
  revert b
  decide +kernel

def width8 : Width UInt8 where
  widen b := b.toUInt64.toInt64
  cut x := x.toUInt64.toUInt8
  cut_widen b := by simp
  cut_add x y := by simp
  cut_sub x y := by simp
  cut_mul x y := by simp
  widen_lt a b := by
    rw [Int64.lt_iff_toInt_lt, toInt_byte, toInt_byte, UInt8.lt_iff_toNat_lt]
    omega

variable {α : Type} [Add α] [Sub α] [Mul α] [LT α] [DecidableLT α] {w : Width α} {op : ArithOp}
    {a b c : α} {z : Int64}

lemma Width.wrapOp_eq (hf : foldI64 op (w.widen a) (w.widen b) = some z) (hz : w.widen (w.cut z) = z)
    (hc : wrapOp op a b = some c) :
    w.widen c = z := by
  have hback : c = w.cut z → w.widen c = z := by
    rintro rfl
    exact hz
  cases op with
  | add =>
    obtain rfl := some.inj hf
    obtain rfl := some.inj hc
    exact hback (by rw [w.cut_add, w.cut_widen, w.cut_widen])
  | sub =>
    obtain rfl := some.inj hf
    obtain rfl := some.inj hc
    exact hback (by rw [w.cut_sub, w.cut_widen, w.cut_widen])
  | mul =>
    obtain rfl := some.inj hf
    obtain rfl := some.inj hc
    exact hback (by rw [w.cut_mul, w.cut_widen, w.cut_widen])
  | min2 =>
    obtain rfl := some.inj hf
    obtain rfl := some.inj hc
    simp only [w.widen_lt]
    split <;> rfl
  | max2 =>
    obtain rfl := some.inj hf
    obtain rfl := some.inj hc
    simp only [w.widen_lt]
    split <;> rfl
  | div | idiv | mod | pow => cases hc

lemma widen_i32 (h : -2 ^ 31 ≤ z.toInt ∧ z.toInt < 2 ^ 31) : width32.widen (width32.cut z) = z := by
  change z.toInt32.toInt64 = z
  rw [← Int64.toInt_inj, Int32.toInt_toInt64, Int64.toInt_toInt32]
  exact Int.bmod_eq_of_le (by simpa using h.1) (by simp; omega)

lemma widen_i16 (h : -2 ^ 15 ≤ z.toInt ∧ z.toInt < 2 ^ 15) : width16.widen (width16.cut z) = z := by
  change z.toInt16.toInt64 = z
  rw [← Int64.toInt_inj, Int16.toInt_toInt64, Int64.toInt_toInt16]
  exact Int.bmod_eq_of_le (by simpa using h.1) (by simp; omega)

lemma widen_u8 (h : 0 ≤ z.toInt ∧ z.toInt < 2 ^ 8) : width8.widen (width8.cut z) = z := by
  have hz : width8.widen (UInt8.ofNat z.toInt.toNat) = z := by
    rw [← Int64.toInt_inj]
    refine (toInt_byte _).trans ?_
    rw [UInt8.toNat_ofNat']
    omega
  rw [← hz, width8.cut_widen]

end

def Representable (x : Int64) : Prop := Double.ofInt x.toInt = .fin x.toInt

section

variable {x y z : Int64} {op : ArithOp}

lemma castInt_exact {lo hi k : ℤ} (hx : Representable x) (h : castInt lo hi (Double.ofInt x.toInt) = some k) :
    k = x.toInt ∧ lo ≤ x.toInt ∧ x.toInt ≤ hi := by
  rw [castInt, hx, Double.trunc_fin_intCast, filter_eq_some_iff] at h
  obtain ⟨hk, hr⟩ := h
  obtain rfl := some.inj hk
  simpa using hr

lemma castI64_exact (hx : Representable x) : castI64 (Double.ofInt x.toInt) = some x := by
  have hlo := x.le_toInt
  have hhi := x.toInt_lt
  rw [castI64_eq_some, hx]
  exact ⟨x.toInt, Double.trunc_fin_intCast _, hlo, by omega, Int64.ofInt_toInt x⟩

lemma castI32_exact {a : Int32} (hx : Representable x) (h : castI32 (Double.ofInt x.toInt) = some a) :
    a.toInt64 = x := by
  obtain ⟨k, hk, rfl⟩ := map_eq_some_iff.mp h
  obtain ⟨rfl, hlo, hhi⟩ := castInt_exact hx hk
  rw [← Int64.toInt_inj, Int32.toInt_toInt64, Int32.toInt_ofInt]
  exact Int.bmod_eq_of_le (by simpa using hlo) (by simp; omega)

lemma castI16_exact {a : Int16} (hx : Representable x) (h : castI16 (Double.ofInt x.toInt) = some a) :
    a.toInt64 = x := by
  obtain ⟨k, hk, rfl⟩ := map_eq_some_iff.mp h
  obtain ⟨rfl, hlo, hhi⟩ := castInt_exact hx hk
  rw [← Int64.toInt_inj, Int16.toInt_toInt64, Int16.toInt_ofInt]
  exact Int.bmod_eq_of_le (by simpa using hlo) (by simp; omega)

lemma castU8_exact {a : UInt8} (hx : Representable x) (h : castU8 (Double.ofInt x.toInt) = some a) :
    a.toUInt64.toInt64 = x := by
  obtain ⟨k, hk, rfl⟩ := map_eq_some_iff.mp h
  obtain ⟨rfl, hlo, hhi⟩ := castInt_exact hx hk
  rw [← Int64.toInt_inj, toInt_byte, UInt8.ofInt, UInt8.toNat_ofNat']
  omega

lemma wrap_exact {α : Type} [Add α] [Sub α] [Mul α] [LT α] [DecidableLT α] {w : Width α}
    {cast : Double → Option α} {c : α}
    (hcast : ∀ {x : Int64} {a : α}, Representable x → cast (Double.ofInt x.toInt) = some a → w.widen a = x)
    (hx : Representable x) (hy : Representable y) (hf : foldI64 op x y = some z) (hz : w.widen (w.cut z) = z)
    (hc : ((cast (Double.ofInt x.toInt)).bind fun a => (cast (Double.ofInt y.toInt)).bind fun b => wrapOp op a b) =
      some c) :
    w.widen c = z := by
  obtain ⟨a, ha, hrest⟩ := bind_eq_some_iff.mp hc
  obtain ⟨b, hb, hc⟩ := bind_eq_some_iff.mp hrest
  rw [← hcast hx ha, ← hcast hy hb] at hf
  exact w.wrapOp_eq hf hz hc

def ArithOp.wraps (op : ArithOp) : Prop := op = .add ∨ op = .sub ∨ op = .mul ∨ op = .min2 ∨ op = .max2

variable {lv rv : Double}

section

variable (hop : ArithOp.wraps op)
include hop

lemma arithI64_wraps : arithI64 op lv rv = (castI64 lv).bind fun a => (castI64 rv).bind fun b =>
    wrapOp op a b := by
  obtain rfl | rfl | rfl | rfl | rfl := hop <;> rfl

lemma arithI32_wraps : arithI32 op lv rv = (castI32 lv).bind fun a => (castI32 rv).bind fun b =>
    wrapOp op a b := by
  obtain rfl | rfl | rfl | rfl | rfl := hop <;> rfl

lemma arithI16_wraps : arithI16 op lv rv = (castI16 lv).bind fun a => (castI16 rv).bind fun b =>
    wrapOp op a b := by
  obtain rfl | rfl | rfl | rfl | rfl := hop <;> rfl

lemma arithU8_wraps : arithU8 op lv rv = (castU8 lv).bind fun a => (castU8 rv).bind fun b => wrapOp op a b := by
  obtain rfl | rfl | rfl | rfl | rfl := hop <;> rfl

end

lemma bind_pair {α β : Type} {p q : Option α} {f : α → α → β} {c : β} (h : (do return f (← p) (← q)) = some c) :
    ∃ a b, p = some a ∧ q = some b ∧ f a b = c := by
  obtain ⟨a, ha, hrest⟩ := bind_eq_some_iff.mp h
  obtain ⟨b, hb, hc⟩ := bind_eq_some_iff.mp hrest
  exact ⟨a, b, ha, hb, some.inj hc⟩

lemma foldI64_divides_ne (hop : op.divides = true) (hf : foldI64 op x y = some z) : y ≠ 0 := by
  rintro rfl
  cases op with
  | div | idiv | mod => cases hf
  | add | sub | mul | pow | min2 | max2 => simp [ArithOp.divides] at hop

lemma modI64_fold (hf : foldI64 .mod x y = some z) : modI64 x y = z := by
  rw [foldI64] at hf
  split at hf
  · cases hf
  next hy =>
    obtain rfl := some.inj hf
    rw [modI64]
    split
    next h =>
      obtain ⟨rfl, rfl⟩ := h.resolve_left hy
      decide
    · rfl

lemma modI32_fold {a b : Int32} (hf : foldI64 .mod a.toInt64 b.toInt64 = some z)
    (hz : -2 ^ 31 ≤ z.toInt ∧ z.toInt < 2 ^ 31) : (modI32 a b).toInt64 = z := by
  rw [foldI64] at hf
  split at hf
  · cases hf
  next hb =>
    obtain rfl := some.inj hf
    have hinj : ∀ u v : Int32, u.toInt64 = v.toInt64 ↔ u = v := fun u v =>
      ⟨fun h => by rw [← Int32.toInt32_toInt64 u, h, Int32.toInt32_toInt64], congrArg _⟩
    have hzero : (0 : Int32).toInt64 = 0 := rfl
    rw [← hzero, hinj] at hb
    simp only [← Int32.toInt64_mod, ← Int32.toInt64_xor, ← hzero, Int32.toInt64_lt, ne_eq, hinj] at hz ⊢
    rw [modI32]
    split
    next h =>
      obtain ⟨rfl, rfl⟩ := h.resolve_left hb
      decide
    · split
      next h =>
        rw [if_pos h] at hz
        have hcut := widen_i32 hz
        rw [width32.cut_add] at hcut
        change ((a % b).toInt64.toInt32 + b.toInt64.toInt32).toInt64 = _ at hcut
        rwa [Int32.toInt32_toInt64, Int32.toInt32_toInt64] at hcut
      · rfl

end

def Fits : ElemType → Int64 → Prop
  | .i64, z | .timestamp, z => z ≠ Int64.minValue
  | .i32, z | .date, z | .time, z => -2 ^ 31 < z.toInt ∧ z.toInt < 2 ^ 31
  | .i16, z => -2 ^ 15 < z.toInt ∧ z.toInt < 2 ^ 15
  | .u8, z => 0 ≤ z.toInt ∧ z.toInt < 2 ^ 8
  | .bool, z => z = 0
  | .f64, _ => True

def Fast (l r : View) (op : ArithOp) (out : ElemType) : Prop :=
  l.ty = out ∧ l.scalar = false ∧ r.scalar = true ∧ ArithOp.wraps op ∧ (out = .i64 ∨ out = .i32 ∨ out = .i16)

structure IntExact (l r : View) (op : ArithOp) (out : ElemType) (x y z : Int64) : Prop where
  operands : Fast l r op out ∨ Representable x ∧ Representable y
  quotient : op = .idiv → ((Double.ofInt x.toInt).div (Double.ofInt y.toInt)).floor = .fin z.toInt
  remainder : op = .mod → out.wide = true ∨ z = x % y
  fits : Fits out z

def promote (a b : ElemType) : ElemType :=
  if a = .f64 ∨ b = .f64 then .f64
  else if a = .i64 ∨ b = .i64 ∨ a = .timestamp ∨ b = .timestamp then .i64
  else if a = .i32 ∨ b = .i32 ∨ a = .date ∨ b = .date ∨ a = .time ∨ b = .time then .i32
  else if a = .i16 ∨ b = .i16 then .i16
  else if a = .u8 ∨ b = .u8 then .u8
  else .bool

def arithType (op : ArithOp) (a b : ElemType) : ElemType :=
  match op with
  | .div | .pow => .f64
  | .idiv => .i64
  | _ => promote a b

def unaryType (op : UnOp) (a : ElemType) : ElemType :=
  match op with
  | .neg | .abs | .ceil | .floor | .round => a
  | .signum => .i64
  | .not | .isnull => .bool
  | _ => .f64

section

variable {m : Libm} {l r : View} {op : ArithOp} {out : ElemType} {x : l.ty.Cell} {y : r.ty.Cell}
    {c : out.Cell} {z : Int64}

lemma rayCastF64ToI64Null_fin (h : z ≠ Int64.minValue) : rayCastF64ToI64Null (.fin z.toInt) = some z := by
  have htop : Double.ofInt (2 ^ 63 - 1) = .fin (2 ^ 63) := by decide +kernel
  have hbottom : Double.ofInt (-2 ^ 63) = .fin (-2 ^ 63) := by decide +kernel
  have hlt := z.toInt_lt
  have hle := z.le_toInt
  have hne : z.toInt ≠ -2 ^ 63 := fun hmin => h (Int64.toInt_inj.mp hmin)
  have hhi : ¬ (2 ^ 63 : ℚ) ≤ z.toInt := by
    rw [not_le]
    exact_mod_cast hlt
  have hlo : ¬ (z.toInt : ℚ) ≤ -2 ^ 63 := by
    rw [not_le]
    have hgt : (-2 ^ 63 : ℤ) < z.toInt := by omega
    exact_mod_cast hgt
  rw [rayCastF64ToI64Null, rayCastF64, htop, hbottom, Double.le_fin, Double.le_fin, decide_eq_false hhi,
    decide_eq_false hlo]
  simp only [Double.isNaN, Bool.false_eq_true, if_false]
  rw [castI64_eq_some]
  exact ⟨z.toInt, Double.trunc_fin_intCast _, hle, by omega, Int64.ofInt_toInt z⟩

lemma fits_i32 (h : Fits .i32 z) : width32.widen (width32.cut z) = z := widen_i32 ⟨h.1.le, h.2⟩

lemma fits_i16 (h : Fits .i16 z) : width16.widen (width16.cut z) = z := widen_i16 ⟨h.1.le, h.2⟩

lemma arithCell_exact {x y : Int64} (hout : out ≠ .f64) (hplain : op ≠ .div ∧ op ≠ .pow)
    (hidiv : op = .idiv → out = .i64)
    (hx : Representable x) (hy : Representable y) (hf : foldI64 op x y = some z) (hex : IntExact l r op out x y z)
    (hc : arithCell m op (Double.ofInt x.toInt) (Double.ofInt y.toInt) out = some c) : out.toInt64 c = z := by
  obtain hw | rfl | rfl : ArithOp.wraps op ∨ op = .mod ∨ op = .idiv := by
    cases op <;> simp_all [ArithOp.wraps]
  · cases out with
    | i64 | timestamp =>
      rw [arithCell, arithI64_wraps hw] at hc
      exact wrap_exact (w := width64)
        (fun hx ha => (some.inj ((castI64_exact hx).symm.trans ha)).symm) hx hy hf rfl hc
    | i32 | date | time =>
      rw [arithCell, arithI32_wraps hw] at hc
      exact wrap_exact (w := width32) castI32_exact hx hy hf (fits_i32 hex.fits) hc
    | i16 =>
      rw [arithCell, arithI16_wraps hw] at hc
      exact wrap_exact (w := width16) castI16_exact hx hy hf (fits_i16 hex.fits) hc
    | u8 =>
      rw [arithCell, arithU8_wraps hw] at hc
      exact wrap_exact (w := width8) castU8_exact hx hy hf (widen_u8 hex.fits) hc
    | bool =>
      obtain rfl := some.inj hc
      exact hex.fits.symm
    | f64 => exact absurd rfl hout
  · cases out with
    | i64 | timestamp =>
      obtain ⟨a, b, ha, hb, rfl⟩ := bind_pair hc
      rw [castI64_exact hx] at ha
      rw [castI64_exact hy] at hb
      obtain rfl := some.inj ha
      obtain rfl := some.inj hb
      exact modI64_fold hf
    | i32 | date | time =>
      obtain ⟨a, b, ha, hb, rfl⟩ := bind_pair hc
      rw [← castI32_exact hx ha, ← castI32_exact hy hb] at hf
      exact modI32_fold hf ⟨hex.fits.1.le, hex.fits.2⟩
    | i16 =>
      obtain ⟨a, b, ha, hb, rfl⟩ := bind_pair hc
      have hz := (hex.remainder rfl).resolve_left (by decide)
      have hb0 : b ≠ 0 := by
        rintro rfl
        exact foldI64_divides_ne rfl hf (castI16_exact hy hb).symm
      rw [if_pos hb0, hz, ← castI16_exact hx ha, ← castI16_exact hy hb]
      exact Int16.toInt64_mod a b
    | u8 =>
      obtain ⟨a, b, ha, hb, rfl⟩ := bind_pair hc
      have hz := (hex.remainder rfl).resolve_left (by decide)
      have hb0 : b ≠ 0 := by
        rintro rfl
        exact foldI64_divides_ne rfl hf (castU8_exact hy hb).symm
      rw [if_pos hb0, hz, ← castU8_exact hx ha, ← castU8_exact hy hb, ← Int64.toInt_inj, Int64.toInt_mod]
      refine (toInt_byte _).trans ?_
      rw [toInt_byte, toInt_byte, UInt8.toNat_mod]
      rfl
    | bool =>
      obtain rfl := some.inj hc
      exact hex.fits.symm
    | f64 => exact absurd rfl hout
  · obtain rfl := hidiv rfl
    have hy0 : truthy (Double.ofInt y.toInt) = true := by
      rw [truthy, hy, Double.zero, Double.eq_fin, Bool.not_eq_true', decide_eq_false_iff_not, Int.cast_eq_zero]
      exact fun h0 => foldI64_divides_ne rfl hf (Int64.toInt_inj.mp h0)
    rw [arithCell, arithI64, if_pos hy0, hex.quotient rfl, rayCastF64ToI64Null_fin hex.fits] at hc
    exact (some.inj hc).symm

lemma toInt64_narrow (ht : promote .i32 t = .i32) (y : t.Cell) :
    -2 ^ 31 ≤ (t.toInt64 y).toInt ∧ (t.toInt64 y).toInt < 2 ^ 31 := by
  have hbyte : ∀ b : UInt8, -2 ^ 31 ≤ b.toUInt64.toInt64.toInt ∧ b.toUInt64.toInt64.toInt < 2 ^ 31 := fun b => by
    rw [toInt_byte]
    have hlt := b.toNat_lt
    omega
  have hint : ∀ a : Int32, -2 ^ 31 ≤ a.toInt64.toInt ∧ a.toInt64.toInt < 2 ^ 31 := fun a => by
    rw [Int32.toInt_toInt64]
    exact ⟨a.le_toInt, a.toInt_lt⟩
  cases t with
  | bool | u8 => exact hbyte y
  | i32 | date | time => exact hint y
  | i16 =>
    change -2 ^ 31 ≤ (Int16.toInt64 y).toInt ∧ (Int16.toInt64 y).toInt < 2 ^ 31
    have hlo := Int16.le_toInt y
    have hhi := Int16.toInt_lt y
    rw [Int16.toInt_toInt64]
    omega
  | i64 | timestamp | f64 => cases ht

lemma toInt64_narrow_i16 (ht : promote .i16 t = .i16) (y : t.Cell) :
    -2 ^ 15 ≤ (t.toInt64 y).toInt ∧ (t.toInt64 y).toInt < 2 ^ 15 := by
  have hbyte : ∀ b : UInt8, -2 ^ 15 ≤ b.toUInt64.toInt64.toInt ∧ b.toUInt64.toInt64.toInt < 2 ^ 15 := fun b => by
    rw [toInt_byte]
    have hlt := b.toNat_lt
    omega
  cases t with
  | bool | u8 => exact hbyte y
  | i16 =>
    change -2 ^ 15 ≤ (Int16.toInt64 y).toInt ∧ (Int16.toInt64 y).toInt < 2 ^ 15
    rw [Int16.toInt_toInt64]
    exact ⟨Int16.le_toInt y, Int16.toInt_lt y⟩
  | i32 | date | time | i64 | timestamp | f64 => cases ht

lemma fastArith_exact {t u : ElemType} {x c : t.Cell} {y : u.Cell} (ht : t ≠ .f64) (hpromote : promote t u = t)
    (hf : foldI64 op (t.toInt64 x) (u.toInt64 y) = some z) (hz : Fits t z)
    (hc : fastArith op (u.toInt64 y) t x = some c) :
    t.toInt64 c = z := by
  cases t with
  | i64 =>
    have hw : wrapOp op x (u.toInt64 y) = some c := by cases op <;> exact hc
    exact width64.wrapOp_eq hf rfl hw
  | i32 =>
    have hw : wrapOp op x (u.toInt64 y).toInt32 = some c := by cases op <;> exact hc
    rw [← widen_i32 (toInt64_narrow hpromote y)] at hf
    exact width32.wrapOp_eq hf (fits_i32 hz) hw
  | i16 =>
    have hw : wrapOp op x (u.toInt64 y).toInt16 = some c := by cases op <;> exact hc
    rw [← widen_i16 (toInt64_narrow_i16 hpromote y)] at hf
    exact width16.wrapOp_eq hf (fits_i16 hz) hw
  | timestamp | date | time => cases u <;> cases hpromote
  | bool | u8 => cases hc
  | f64 => exact absurd rfl ht

lemma fastArith_wraps {x c : t.Cell} (h : fastArith op cv t x = some c) : ArithOp.wraps op := by
  cases op with
  | add | sub | mul | min2 | max2 => simp [ArithOp.wraps]
  | div | idiv | mod | pow => cases t <;> cases h

lemma fastArith_isSome {x : t.Cell} (hop : ArithOp.wraps op) (ht : t = .i64 ∨ t = .i32 ∨ t = .i16) :
    (fastArith op cv t x).isSome := by
  obtain rfl | rfl | rfl := ht <;> obtain rfl | rfl | rfl | rfl | rfl := hop <;> rfl

lemma toDouble_int (ht : t ≠ .f64) (c : t.Cell) : t.toDouble c = Double.ofInt (t.toInt64 c).toInt := by
  cases t <;> first | rfl | exact absurd rfl ht

lemma arithKernel_exact (hout : out = arithType op l.ty r.ty) (hplain : op ≠ .div ∧ op ≠ .pow) (hl : l.ty ≠ .f64)
    (hr : r.ty ≠ .f64) (hf : foldI64 op (l.ty.toInt64 x) (r.ty.toInt64 y) = some z)
    (hex : IntExact l r op out (l.ty.toInt64 x) (r.ty.toInt64 y) z) (hc : arithKernel m l r op out x y = some c) :
    out.toInt64 c = z := by
  have hidiv : op = .idiv → out = .i64 := by
    rintro rfl
    exact hout
  have hne : out ≠ .f64 := by
    rw [hout]
    obtain ⟨hd, hp⟩ := hplain
    cases op <;> simp_all [arithType, promote] <;> split_ifs <;> simp
  have hgeneric : Representable (l.ty.toInt64 x) ∧ Representable (r.ty.toInt64 y) →
      arithCell m op (l.ty.toDouble x) (r.ty.toDouble y) out = some c → out.toInt64 c = z := by
    rintro ⟨hx, hy⟩ h
    rw [toDouble_int hl, toDouble_int hr] at h
    exact arithCell_exact hne hplain hidiv hx hy hf hex h
  rw [arithKernel] at hc
  by_cases h : l.ty = out
  · rw [dif_pos h] at hc
    obtain ⟨t, rows⟩ := l
    dsimp only at h
    subst h
    by_cases hs : (!(View.mk t rows).scalar && r.scalar) = true
    · rw [if_pos hs] at hc
      cases hfast : fastArith op (r.ty.toInt64 y) t x with
      | some c' =>
        dsimp only at hc
        rw [hfast] at hc
        obtain rfl := some.inj hc
        have hw := fastArith_wraps hfast
        have hpromote : promote t r.ty = t := by
          obtain rfl | rfl | rfl | rfl | rfl := hw <;> exact hout.symm
        exact fastArith_exact hl hpromote hf hex.fits hfast
      | none =>
        dsimp only at hc
        rw [hfast] at hc
        refine hgeneric (hex.operands.resolve_left fun hop => ?_) hc
        have hsome : (fastArith op (r.ty.toInt64 y) t x).isSome := fastArith_isSome hop.2.2.2.1 hop.2.2.2.2
        rw [hfast] at hsome
        cases hsome
    · rw [if_neg hs] at hc
      refine hgeneric (hex.operands.resolve_left fun hop => hs ?_) hc
      rw [hop.2.1, hop.2.2.1]
      rfl
  · rw [dif_neg h] at hc
    exact hgeneric (hex.operands.resolve_left fun hop => h hop.1) hc

end

end Rayforce.Expr

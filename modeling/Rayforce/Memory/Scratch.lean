import Mathlib.Algebra.Order.Ring.Nat
import Mathlib.Data.Option.Basic

/-! The scratch arena of `heap.c`. -/

namespace Rayforce.Memory

def word (n : ℕ) : ℕ := n % 2 ^ 64

def orderMin : ℕ := 6
def heapPoolOrder : ℕ := 25
def heapMaxOrder : ℕ := 38
def orderDirect : ℕ := heapMaxOrder + 1
def directHdr : ℕ := 32
def arenaMaxBacking : ℕ := 64
def arenaBlockOrder : ℕ := 16

def ceilLog2 (n : ℕ) : ℕ := if n ≤ 1 then 0 else (n - 1).log2 + 1

def orderForSize (dataSize : ℕ) : ℕ :=
  if 2 ^ 64 - 1 - 32 < dataSize then heapMaxOrder + 1 else max orderMin (ceilLog2 (dataSize + 32))

structure Block where
  addr : ℕ
  order : ℕ
  mapSize : ℕ
  deriving DecidableEq

def Block.isDirect (v : Block) : Bool := decide (heapMaxOrder < v.order)

def Block.dataBytes (v : Block) : ℕ := if v.isDirect then v.mapSize - directHdr - 32 else 2 ^ v.order - 32

def Block.data (v : Block) : ℕ := v.addr + 32

def mapSize (dataSize : ℕ) : ℕ := (directHdr + 32 + dataSize + 4095) / 4096 * 4096

def allocDirect (base : Option ℕ) (dataSize : ℕ) : Option Block :=
  if 2 ^ 64 - 1 - directHdr - 32 - 4095 < dataSize then none
  else base.map fun b => ⟨b + directHdr, orderDirect, mapSize dataSize⟩

structure Supply where
  mapped : Option ℕ
  pooled : Option ℕ

def allocPooled (s : Supply) (dataSize : ℕ) : Option Block :=
  if heapMaxOrder < orderForSize dataSize then none else s.pooled.map fun p => ⟨p, orderForSize dataSize, 0⟩

def alloc (s : Supply) (dataSize : ℕ) : Option Block :=
  if heapPoolOrder ≤ orderForSize dataSize then (allocDirect s.mapped dataSize).or (allocPooled s dataSize)
  else allocPooled s dataSize

structure Arena where
  backing : List Block
  ptr : ℕ
  stop : ℕ

def Arena.init : Arena := ⟨[], 0, 0⟩

def roundUp (nbytes : ℕ) : ℕ := word (nbytes + 15) / 16 * 16

def request (nbytes : ℕ) : ℕ := max (roundUp nbytes) (2 ^ arenaBlockOrder - 32)

def Arena.push (a : Arena) (s : Supply) (nbytes : ℕ) : Arena × Option ℕ :=
  if a.ptr ≠ 0 ∧ word (a.ptr + roundUp nbytes) ≤ a.stop then
    ({ a with ptr := word (a.ptr + roundUp nbytes) }, some a.ptr)
  else if arenaMaxBacking ≤ a.backing.length then (a, none)
  else
    match alloc s (request nbytes) with
    | none => (a, none)
    | some v => (⟨v :: a.backing, word (v.data + roundUp nbytes), word (v.addr + 2 ^ v.order)⟩, some v.data)

def Arena.reset (_ : Arena) : Arena := .init

inductive Call
  | push (s : Supply) (nbytes : ℕ)
  | reset

structure Run where
  arena : Arena
  given : List (ℕ × ℕ)

def Run.step (r : Run) : Call → Run
  | .push s nbytes =>
    ⟨(r.arena.push s nbytes).1, ((r.arena.push s nbytes).2.map fun p => (p, nbytes)).toList ++ r.given⟩
  | .reset => ⟨r.arena.reset, []⟩

def Block.lo (v : Block) : ℕ := if v.isDirect then v.addr - directHdr else v.addr

def Block.hi (v : Block) : ℕ := v.data + v.dataBytes

def Apart (v u : Block) : Prop := v.hi ≤ u.lo ∨ u.hi ≤ v.lo

structure Block.Fresh (v : Block) (live : List Block) : Prop where
  positive : 0 < v.lo
  low : v.hi ≤ 2 ^ 63
  apart : ∀ u ∈ live, Apart v u

/-- Whole pages, aligned buddy blocks, and neither meets a live block. -/
structure Supply.Sound (s : Supply) (dataSize : ℕ) (live : List Block) : Prop where
  page : ∀ b ∈ s.mapped, 4096 ∣ b
  order : ∀ p ∈ s.pooled, 2 ^ orderForSize dataSize ∣ p
  mapped : ∀ v ∈ allocDirect s.mapped dataSize, v.Fresh live
  pooled : ∀ v ∈ allocPooled s dataSize, v.Fresh live

def Inside (g : ℕ × ℕ) (v : Block) : Prop := v.data ≤ g.1 ∧ g.1 + g.2 ≤ v.hi

structure Run.Good (r : Run) : Prop where
  aligned : ∀ g ∈ r.given, 16 ∣ g.1
  inside : ∀ g ∈ r.given, ∃ v ∈ r.arena.backing, Inside g v
  disjoint : r.given.Pairwise fun g h => g.1 + g.2 ≤ h.1 ∨ h.1 + h.2 ≤ g.1

/-- The sums do not wrap, and a push ends inside its mapping. -/
structure Fits (a : Arena) (nbytes : ℕ) : Prop where
  small : nbytes + 15 < 2 ^ 64
  sum : a.ptr ≠ 0 → a.ptr + roundUp nbytes < 2 ^ 64
  direct : ∀ v ∈ a.backing.head?, v.isDirect → a.ptr + roundUp nbytes ≤ a.stop → a.ptr + roundUp nbytes ≤ v.hi

inductive Reached (ok : Arena → ℕ → Prop) : Run → Prop
  | init : Reached ok ⟨.init, []⟩
  | push {r : Run} {s : Supply} {nbytes : ℕ} (hr : Reached ok r) (hs : s.Sound (request nbytes) r.arena.backing)
    (hok : ok r.arena nbytes) : Reached ok (r.step (.push s nbytes))
  | reset {r : Run} (hr : Reached ok r) : Reached ok (r.step .reset)

section

variable {a : Arena} {s : Supply} {r : Run} {v : Block} {live : List Block} {n nbytes dataSize : ℕ}

lemma le_two_pow_ceilLog2 (n : ℕ) : n ≤ 2 ^ ceilLog2 n := by
  unfold ceilLog2
  split
  · rwa [pow_zero]
  · have h : n - 1 < 2 ^ ((n - 1).log2 + 1) := Nat.lt_log2_self
    omega

lemma le_roundUp (h : nbytes + 15 < 2 ^ 64) : nbytes ≤ roundUp nbytes := by
  rw [roundUp, word, Nat.mod_eq_of_lt h]
  omega

lemma roundUp_dvd (nbytes : ℕ) : 16 ∣ roundUp nbytes := Dvd.intro_left _ rfl

lemma Block.lo_lt_data (v : Block) : v.lo < v.data := by
  unfold Block.lo Block.data
  split <;> omega

lemma allocDirect_spec (hb : ∀ b ∈ s.mapped, 4096 ∣ b) (h : v ∈ allocDirect s.mapped dataSize) :
    16 ∣ v.data ∧ v.data + dataSize ≤ v.hi ∧ v.isDirect := by
  unfold allocDirect at h
  split at h
  · cases h
  · obtain ⟨b, hmem, rfl⟩ := Option.mem_map.mp h
    have hpage : 4096 ∣ b := hb b hmem
    refine ⟨by simp only [Block.data, directHdr]; omega, ?_, rfl⟩
    have hsize : (⟨b + directHdr, orderDirect, mapSize dataSize⟩ : Block).dataBytes =
      mapSize dataSize - directHdr - 32 := if_pos rfl
    rw [Block.hi, hsize, mapSize, directHdr]
    omega

lemma allocPooled_spec (hp : ∀ p ∈ s.pooled, 2 ^ orderForSize dataSize ∣ p) (h : v ∈ allocPooled s dataSize) :
    16 ∣ v.data ∧ v.data + dataSize ≤ v.hi ∧ v.hi = v.addr + 2 ^ v.order := by
  unfold allocPooled at h
  split at h
  · cases h
  · rename_i hmax
    obtain ⟨p, hmem, rfl⟩ := Option.mem_map.mp h
    have horder : orderForSize dataSize = max orderMin (ceilLog2 (dataSize + 32)) :=
      if_neg fun hbig => hmax (by rw [orderForSize, if_pos hbig]; exact Nat.lt_succ_self _)
    have hmin : 2 ^ 6 ∣ 2 ^ orderForSize dataSize := pow_dvd_pow 2 (horder ▸ le_max_left _ _)
    have hroom : dataSize + 32 ≤ 2 ^ orderForSize dataSize :=
      (le_two_pow_ceilLog2 _).trans (Nat.pow_le_pow_right (by omega) (horder ▸ le_max_right _ _))
    have hbuddy : (⟨p, orderForSize dataSize, 0⟩ : Block).isDirect = false := decide_eq_false hmax
    have hpage : 2 ^ 6 ∣ p := hmin.trans (hp p hmem)
    refine ⟨by simp only [Block.data]; omega, ?_, ?_⟩ <;>
      simp only [Block.hi, Block.data, Block.dataBytes, hbuddy, Bool.false_eq_true, if_false] <;> omega

lemma alloc_spec (hs : s.Sound dataSize live) (h : alloc s dataSize = some v) :
    v.Fresh live ∧ 16 ∣ v.data ∧ v.data + dataSize ≤ v.hi ∧
    (v.isDirect = false → v.hi = v.addr + 2 ^ v.order) := by
  have hcases : v ∈ allocDirect s.mapped dataSize ∨ v ∈ allocPooled s dataSize := by
    unfold alloc at h
    split at h
    · exact (Option.or_eq_some_iff.mp h).imp id And.right
    · exact .inr h
  cases hcases with
  | inl hdirect =>
    obtain ⟨halign, hroom, his⟩ := allocDirect_spec hs.page hdirect
    exact ⟨hs.mapped v hdirect, halign, hroom, fun hno => by rw [his] at hno; cases hno⟩
  | inr hpooled =>
    obtain ⟨halign, hroom, hhi⟩ := allocPooled_spec hs.order hpooled
    exact ⟨hs.pooled v hpooled, halign, hroom, fun _ => hhi⟩

lemma push_cases (a : Arena) (s : Supply) (nbytes : ℕ) : a.push s nbytes = (a, none) ∨
      (a.ptr ≠ 0 ∧ word (a.ptr + roundUp nbytes) ≤ a.stop ∧
        a.push s nbytes = ({ a with ptr := word (a.ptr + roundUp nbytes) }, some a.ptr)) ∨
      ∃ v, alloc s (request nbytes) = some v ∧
        a.push s nbytes = (⟨v :: a.backing, word (v.data + roundUp nbytes), word (v.addr + 2 ^ v.order)⟩,
          some v.data) := by
  unfold Arena.push
  split
  · rename_i h
    exact .inr (.inl ⟨h.1, h.2, rfl⟩)
  · split
    · exact .inl rfl
    · split
      · exact .inl rfl
      · rename_i v hv
        exact .inr (.inr ⟨v, hv, rfl⟩)

structure Run.Inv (r : Run) : Prop extends r.Good where
  low : ∀ v ∈ r.arena.backing, v.hi ≤ 2 ^ 63
  apart : r.arena.backing.Pairwise Apart
  current : r.arena.ptr ≠ 0 → ∃ v rest, r.arena.backing = v :: rest ∧ 16 ∣ r.arena.ptr ∧ v.data ≤ r.arena.ptr ∧
    r.arena.ptr ≤ v.hi ∧ (v.isDirect = false → r.arena.stop = v.hi) ∧ ∀ g ∈ r.given, Inside g v →
      g.1 + g.2 ≤ r.arena.ptr

lemma Apart.ranges {u v : Block} {g h : ℕ × ℕ} (hapart : Apart v u) (hg : Inside g v) (hh : Inside h u) :
    g.1 + g.2 ≤ h.1 ∨ h.1 + h.2 ≤ g.1 := by
  have hv : v.lo < v.data := v.lo_lt_data
  have hu : u.lo < u.data := u.lo_lt_data
  exact hapart.imp (fun hle => by have := hg.2; have := hh.1; omega)
    (fun hle => by have := hg.1; have := hh.2; omega)

lemma Run.Inv.bump (hr : r.Inv) (hfits : Fits r.arena nbytes) (hptr : r.arena.ptr ≠ 0)
    (hstop : word (r.arena.ptr + roundUp nbytes) ≤ r.arena.stop) :
    Run.Inv ⟨{ r.arena with ptr := word (r.arena.ptr + roundUp nbytes) }, (r.arena.ptr, nbytes) :: r.given⟩ := by
  obtain ⟨v, rest, hback, halign, hdata, hhi, hend, hgiven⟩ := hr.current hptr
  have hround : nbytes ≤ roundUp nbytes := le_roundUp hfits.small
  have hnowrap : word (r.arena.ptr + roundUp nbytes) = r.arena.ptr + roundUp nbytes :=
    Nat.mod_eq_of_lt (hfits.sum hptr)
  rw [hnowrap] at hstop ⊢
  have hroom : r.arena.ptr + roundUp nbytes ≤ v.hi := by
    cases hdir : v.isDirect with
    | true => exact hfits.direct v (by rw [hback]; rfl) hdir hstop
    | false => exact hend hdir ▸ hstop
  have hin : Inside (r.arena.ptr, nbytes) v := ⟨hdata, by omega⟩
  have hmem : v ∈ r.arena.backing := by
    rw [hback]
    exact List.mem_cons_self
  have hmiss : ∀ g ∈ r.given, r.arena.ptr + nbytes ≤ g.1 ∨ g.1 + g.2 ≤ r.arena.ptr := by
    intro g hg
    obtain ⟨u, hu, hgu⟩ := hr.inside g hg
    rw [hback, List.mem_cons] at hu
    rcases hu with rfl | hrest
    · exact .inr (hgiven g hg hgu)
    · have hapart := hr.apart
      rw [hback] at hapart
      exact ((List.pairwise_cons.mp hapart).1 u hrest).ranges hin hgu
  have hgood : Run.Good ⟨{ r.arena with ptr := r.arena.ptr + roundUp nbytes },
      (r.arena.ptr, nbytes) :: r.given⟩ := by
    refine ⟨?_, ?_, ?_⟩
    · exact List.forall_mem_cons.mpr ⟨halign, hr.aligned⟩
    · exact List.forall_mem_cons.mpr ⟨⟨v, hmem, hin⟩, hr.inside⟩
    · exact List.pairwise_cons.mpr ⟨hmiss, hr.disjoint⟩
  refine ⟨hgood, hr.low, hr.apart, fun _ => ⟨v, rest, hback, ?_, ?_, hroom, hend, ?_⟩⟩
  · exact (Nat.dvd_add_right halign).mpr (roundUp_dvd _)
  · exact hdata.trans (Nat.le_add_right _ _)
  · refine List.forall_mem_cons.mpr ⟨fun _ => Nat.add_le_add_left hround _, fun g hg hgv => ?_⟩
    exact (hgiven g hg hgv).trans (Nat.le_add_right _ _)

lemma Run.Inv.grow (hr : r.Inv) (hsmall : nbytes + 15 < 2 ^ 64) (hs : s.Sound (request nbytes) r.arena.backing)
    (hv : alloc s (request nbytes) = some v) :
    Run.Inv ⟨⟨v :: r.arena.backing, word (v.data + roundUp nbytes), word (v.addr + 2 ^ v.order)⟩,
      (v.data, nbytes) :: r.given⟩ := by
  obtain ⟨hfresh, halign, hroom, hend⟩ := alloc_spec hs hv
  have hround : nbytes ≤ roundUp nbytes := le_roundUp hsmall
  have hreq : roundUp nbytes ≤ request nbytes := le_max_left _ _
  have hlow : v.hi ≤ 2 ^ 63 := hfresh.low
  have hfull : v.data + roundUp nbytes ≤ v.hi := by omega
  have hnowrap : word (v.data + roundUp nbytes) = v.data + roundUp nbytes := Nat.mod_eq_of_lt (by omega)
  have hin : Inside (v.data, nbytes) v := ⟨le_rfl, (Nat.add_le_add_left hround _).trans hfull⟩
  have hinside : ∀ g ∈ r.given, ∃ u ∈ v :: r.arena.backing, Inside g u := by
    intro g hg
    obtain ⟨u, hu, hgu⟩ := hr.inside g hg
    exact ⟨u, List.mem_cons_of_mem _ hu, hgu⟩
  have hmiss : ∀ g ∈ r.given, v.data + nbytes ≤ g.1 ∨ g.1 + g.2 ≤ v.data := by
    intro g hg
    obtain ⟨u, hu, hgu⟩ := hr.inside g hg
    exact (hfresh.apart u hu).ranges hin hgu
  have hstop : v.isDirect = false → word (v.addr + 2 ^ v.order) = v.hi := by
    intro hno
    have hhi := hend hno
    rw [hhi]
    exact Nat.mod_eq_of_lt (by omega)
  have hold : ∀ g ∈ r.given, Inside g v → g.1 + g.2 ≤ v.data + roundUp nbytes := by
    -- an old range lies in an old block, so it cannot lie in the new one as well
    intro g hg hgv
    obtain ⟨u, hu, hgu⟩ := hr.inside g hg
    have hv : v.lo < v.data := v.lo_lt_data
    have hu' : u.lo < u.data := u.lo_lt_data
    have hapart := hfresh.apart u hu
    simp only [Inside, Apart] at *
    omega
  rw [hnowrap]
  have hgood : Run.Good ⟨⟨v :: r.arena.backing, v.data + roundUp nbytes, word (v.addr + 2 ^ v.order)⟩,
      (v.data, nbytes) :: r.given⟩ := by
    refine ⟨?_, ?_, ?_⟩
    · exact List.forall_mem_cons.mpr ⟨halign, hr.aligned⟩
    · exact List.forall_mem_cons.mpr ⟨⟨v, List.mem_cons_self, hin⟩, hinside⟩
    · exact List.pairwise_cons.mpr ⟨hmiss, hr.disjoint⟩
  refine ⟨hgood, ?_, ?_, fun _ => ⟨v, r.arena.backing, rfl, ?_, ?_, hfull, hstop, ?_⟩⟩
  · exact List.forall_mem_cons.mpr ⟨hlow, hr.low⟩
  · exact List.pairwise_cons.mpr ⟨hfresh.apart, hr.apart⟩
  · exact (Nat.dvd_add_right halign).mpr (roundUp_dvd _)
  · exact Nat.le_add_right _ _
  · exact List.forall_mem_cons.mpr ⟨fun _ => Nat.add_le_add_left hround _, hold⟩

lemma Run.Inv.push (hr : r.Inv) (hs : s.Sound (request nbytes) r.arena.backing) (hfits : Fits r.arena nbytes) :
    (r.step (.push s nbytes)).Inv := by
  rw [Run.step]
  obtain heq | ⟨hptr, hstop, heq⟩ | ⟨v, hv, heq⟩ := push_cases r.arena s nbytes <;> rw [heq]
  · exact hr
  · exact hr.bump hfits hptr hstop
  · exact hr.grow hfits.small hs hv

lemma Run.Inv.init : Run.Inv ⟨.init, []⟩ := by
  refine ⟨⟨?_, ?_, .nil⟩, ?_, .nil, fun h => absurd rfl h⟩ <;> rintro _ ⟨⟩

/-- If all pushes fit, every range is aligned and disjoint from the others. -/
theorem scratchArena_disjoint (h : Reached Fits r) : r.Good := by
  have hinv : r.Inv := by
    induction h with
    | init => exact .init
    | push _ hs hok ih => exact ih.push hs hok
    | reset => exact .init
  exact hinv.toGood

end

theorem scratchArena_disjoint_mapped :
    (((Run.step ⟨.init, []⟩ (.push ⟨none, some 65536⟩ 100)).step (.push ⟨some (2 ^ 20), none⟩ (2 ^ 25))).step
      (.push ⟨none, none⟩ 200)).Good := by
  have hfirst : (⟨none, some 65536⟩ : Supply).Sound (request 100) [] := by
    refine ⟨by simp, by simp; decide, nofun, fun v hv => ?_⟩
    have hone : allocPooled ⟨none, some 65536⟩ (request 100) = some ⟨65536, 16, 0⟩ := by decide
    obtain rfl := Option.mem_unique hv hone
    exact ⟨by decide, by decide, by simp⟩
  have hsecond : (⟨some (2 ^ 20), none⟩ : Supply).Sound (request (2 ^ 25)) [⟨65536, 16, 0⟩] := by
    refine ⟨by simp, nofun, fun v hv => ?_, nofun⟩
    have hone : allocDirect (some (2 ^ 20)) (request (2 ^ 25)) = some ⟨2 ^ 20 + 32, 39, 2 ^ 25 + 4096⟩ := by decide
    obtain rfl := Option.mem_unique hv hone
    refine ⟨by decide, by decide, fun u hu => ?_⟩
    obtain rfl := List.mem_singleton.mp hu
    exact .inr (by decide)
  have hthird (live : List Block) : (⟨none, none⟩ : Supply).Sound (request 200) live :=
    ⟨nofun, nofun, nofun, nofun⟩
  exact scratchArena_disjoint (.push (.push (.push .init hfirst ⟨by decide, by decide, nofun⟩) hsecond
    ⟨by decide, by decide, by decide⟩) (hthird _) ⟨by decide, by decide, by decide⟩)

/-- A push after one of 2 ^ 25 bytes runs past the mapping. -/
theorem scratchArena_past_mapping : ¬ ∀ r, Reached (fun _ _ => True) r → r.Good := by
  intro h
  have hfirst : (⟨some 4096, none⟩ : Supply).Sound (request (2 ^ 25)) [] := by
    refine ⟨by simp, nofun, fun v hv => ?_, nofun⟩
    have hone : allocDirect (some 4096) (request (2 ^ 25)) = some ⟨4128, 39, 2 ^ 25 + 4096⟩ := by decide
    obtain rfl := Option.mem_unique hv hone
    exact ⟨by decide, by decide, by simp⟩
  have hsecond (live : List Block) : (⟨none, none⟩ : Supply).Sound (request 8192) live :=
    ⟨nofun, nofun, nofun, nofun⟩
  have hgood := h _ (.push (.push .init hfirst trivial) (hsecond _) trivial)
  have hback : ((Run.step ⟨.init, []⟩ (.push ⟨some 4096, none⟩ (2 ^ 25))).step
    (.push ⟨none, none⟩ 8192)).arena.backing = [⟨4128, 39, 2 ^ 25 + 4096⟩] := by decide
  obtain ⟨v, hv, -, hend⟩ := hgood.inside (4160 + 2 ^ 25, 8192) (by decide)
  obtain rfl := List.mem_singleton.mp (hback ▸ hv)
  exact absurd hend (by decide)

end Rayforce.Memory
